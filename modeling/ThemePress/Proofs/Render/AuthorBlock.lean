import ThemePress.Proofs.Render.Inclusion
import ThemePress.Proofs.Render.Links
import ThemePress.Proofs.Template.Enclosing

/-! # Blocks about the author

A block of `author` renders its inside in the scope of the author, and the tag without an inside
shows a link to the author. Which of the two a node is, is read off what scanning left of its inside
(`Node.isBlock`). So a block around comments counts as a tag, and shows the link
(`author_block`). -/

namespace ThemePress.Template

open ThemePress.Text

/-! ### What leaves nothing -/

/-- The sequence has comments and empty tags in it and nothing else. -/
def OnlyComments (data : List UInt8) : Prop :=
  outsideTags data = [] ∧ ∀ t ∈ tags data, t.tag.kind = .comment ∨ t.tag.inner = ""

instance (data : List UInt8) : Decidable (OnlyComments data) :=
  inferInstanceAs (Decidable (_ ∧ _))

theorem Tag.kind_of_empty {t : Tag} (h : t.inner = "") : t.kind = .value := by
  rw [Tag.kind, h]
  rfl

theorem Cut.nodes_eq_nil_iff {cut : Cut} (hopen : cut.tag.kind ≠ .blockOpen)
    (hclose : cut.tag.kind ≠ .blockClose) (place : Nat) :
    cut.nodes place = [] ↔ cut.tag.kind = .comment ∨ cut.tag.inner = "" := by
  unfold Cut.nodes
  cases hk : cut.tag.kind with
  | blockOpen => exact absurd hk hopen
  | blockClose => exact absurd hk hclose
  | comment => simp
  | divider | value => simp [String.isEmpty_iff]

/-- Comments and empty tags are all that leaves nothing. -/
theorem Scanned.empty_iff {start : Nat} {data : List UInt8} {f : Fragment}
    (h : Scanned start data f) (hstray : ∀ tag, .strayCloser tag ∉ (scanFrom start data).warnings)
    (place : Nat) : f.block = [] ∧ f.nodes = [] ↔
      outsideFrom place data = [] ∧
        ∀ t ∈ placedTags place data, t.tag.kind = .comment ∨ t.tag.inner = "" := by
  induction h generalizing place with
  | rest first => simp [outsideFrom_rest first, placedTags_none first]
  | @tag start data cut f first kind _ ih =>
    rw [scanFrom_tag first kind] at hstray
    simp only [Reported.after, Reported.map, List.mem_append, not_or] at hstray
    have hclose : cut.tag.kind ≠ .blockClose := fun hk =>
      (hstray cut.tag.inner).1 (by simp [Cut.warnings, hk])
    have hnodes := Cut.nodes_eq_nil_iff kind hclose (start + cut.before.length)
    have hrest := ih (fun tag => (hstray tag).2) (place + cut.before.length + cut.text.length)
    rw [outsideFrom_cut first, placedTags_some first]
    simp only [Fragment.prepend, List.append_eq_nil_iff, List.forall_mem_cons, hnodes]
    rw [and_and_and_comm, hrest, and_and_and_comm]
  | @block start data cut e g f first kind closer _ _ _ _ =>
    have htag : ¬ (cut.tag.kind = .comment ∨ cut.tag.inner = "") := by
      rintro (hk | hinner)
      · rw [hk] at kind
        cases kind
      · rw [Tag.kind_of_empty hinner] at kind
        cases kind
    refine iff_of_false (by simp [Fragment.prepend]) fun h => ?_
    rw [placedTags_some first] at h
    exact htag (h.2 _ (List.mem_cons_self ..))

end ThemePress.Template

namespace ThemePress.Render

open ThemePress.Template
open ThemePress.Text

/-! ### One node by itself -/

variable {job : Job}

/-- What is inside a node depends on nothing else of it. -/
theorem inside_congr {n n' : Node} (hblock : n.block = n'.block)
    (hchildren : n.children = n'.children) : job.inside n none = job.inside n' none := by
  rw [Job.inside_eq, inside_eq, inside_eq]
  unfold directive? childParts
  rw [hblock, hchildren]

theorem inside_of_nothing {n : Node} (hblock : n.block = []) (hchildren : n.children = []) :
    job.inside n none = Action.nothing := by
  have hparts : childParts job job.inside n none = [] := by
    show n.children.map _ = []
    rw [hchildren, List.map_nil]
  have hdirective : directive? n = none := by
    rw [directive?, hchildren]
    rfl
  rw [job.inside_of_no_directive hdirective, hparts, hblock]
  rfl

/-- A node with a single tag inside yields what the tag yields. -/
theorem inside_of_single {root n : Node} (hblock : root.block = [])
    (hchildren : root.children = [n]) (hname : n.name ≠ Node.extendsName)
    (hplace : n.position = 0) :
    job.inside root none = evaluate job job.inside n := by
  have hdirective : directive? root = none := by
    rw [directive?, hchildren]
    simpa [Option.filter] using hname
  have hparts : childParts job job.inside root none = [(0, evaluate job job.inside n)] := by
    show root.children.map _ = _
    rw [hchildren, List.map_singleton, hplace]
  rw [job.inside_of_no_directive hdirective, hparts, hblock]
  funext c
  show (spliceAll [] [(0, (evaluate job job.inside n c).1)], (evaluate job job.inside n c).2) = _
  simp [spliceAll, spliceFrom, splice]

/-! ### The tag -/

/-- The node of a block about the author, by what scanning leaves of its inside. -/
def authorNode (f : Fragment) : Node :=
  { Node.leaf "author" false 0 with block := f.block, children := f.nodes }

theorem toBlock_author {f : Fragment} (helse : ∀ n ∈ f.nodes, n.name ≠ Node.elseName) :
    f.toBlock "author" false 0 = authorNode f := by
  have hsplit : f.splitElse = (f, none) := by
    have hnone : f.nodes.dropWhile (·.name != Node.elseName) = [] :=
      List.dropWhile_eq_nil_iff.2 (by simpa using helse)
    rw [Fragment.splitElse, hnone]
  have hwritten : TagText.Written [.word "author" none] "author".toList := by
    have hnone : ∀ c ∈ [], isBlank c = true := List.all_eq_true.1 rfl
    exact .cons hnone (by decide) (by decide) (.nil hnone)
  rw [Fragment.toBlock, hsplit]
  exact ofText_of_written hwritten rfl false 0 f.block f.nodes none

/-- The link to the author that the tag shows. -/
def authorLinkText (p : Page) (c : Context) : String :=
  match c.author? p with
  | none => ""
  | some author =>
    "<a href=\"/author/" ++ author.slug ++ "/\">" ++ Entity.escape author.name ++ "</a>"

theorem authorLinkText_eq_iff {p : Page} {c : Context} :
    authorLinkText p c = "" ↔ c.author? p = none := by
  unfold authorLinkText
  cases c.author? p with
  | none => simp
  | some author => simp [← String.toList_inj]

variable {f : Fragment}

theorem evaluate_authorNode (job : Job) (c : Context) :
    evaluate job job.inside (authorNode f) c =
      if f.block = [] ∧ f.nodes = [] then (Utf8.bytesOf (authorLinkText job.page c), c)
      else Action.inScope .author (job.inside (authorNode f) none) c := by
  have hname : Helper.named? (authorNode f).name = some .author := by
    show Helper.named? "author" = _
    decide
  have hrun : evaluate job job.inside (authorNode f) =
      if (authorNode f).isBlock then Action.inScope .author (job.inside (authorNode f) none)
      else (occurrence job job.inside (authorNode f)).field job Field.authorLink := by
    rw [evaluate_of_named? hname, Occurrence.run, occurrence, ← Job.inside_eq]
  have hblock : (authorNode f).isBlock = true ↔ ¬ (f.block = [] ∧ f.nodes = []) := by
    simp [Node.isBlock, authorNode, imp_iff_not_or]
  rw [hrun]
  by_cases h : f.block = [] ∧ f.nodes = []
  · rw [if_neg (mt hblock.1 (not_not.2 h)), if_pos h]
    rfl
  · rw [if_pos (hblock.2 h), if_neg h]

theorem namesBlock_author : NamesBlock "author" := by
  have hword : "author".toList.all (!isBlank ·) = true := by decide
  exact ⟨by decide, by simpa using hword, by decide, by decide⟩

section
variable {data : List UInt8} (hd : SelfContained data) (hf : (scan data).value = .ok f)
  (hstray : ∀ tag, .strayCloser tag ∉ (scan data).warnings)
  (helse : ∀ n ∈ f.nodes, n.name ≠ Node.elseName)

include hf

theorem onlyComments_iff (hstray : ∀ tag, .strayCloser tag ∉ (scan data).warnings) :
    OnlyComments data ↔ f.block = [] ∧ f.nodes = [] := by
  rw [(scanned_iff.2 hf).empty_iff hstray 0, OnlyComments, outsideTags_eq, tags_eq]

theorem render_inner {page : String} {inner : Node}
    (hinner : (Node.compile page data).value = .ok inner) (job : Job) :
    job.render inner = job.inside (authorNode f) none := by
  obtain ⟨g, hg, rfl⟩ := compile_ok_iff.1 hinner
  obtain rfl : f = g := Except.ok.inj (hf.symm.trans hg)
  exact inside_congr rfl rfl

include hd hstray helse

theorem render_authorBlock {page : String} {root : Node}
    (hroot : (Node.compile page (enclosing "author" data)).value = .ok root) (job : Job) :
    job.render root = evaluate job job.inside (authorNode f) := by
  obtain ⟨g, hg, rfl⟩ := compile_ok_iff.1 hroot
  have hname : (authorNode f).name ≠ Node.extendsName := by
    show "author" ≠ Node.extendsName
    decide
  rw [scan_enclosing_eq namesBlock_author hd hf hstray hg, toBlock_author helse]
  exact inside_of_single rfl rfl hname rfl

end

/-- **A block about the author is its inside in the scope of the author, unless that is empty but
for comments.** Then the block shows the link to the author, if there is one. A block compiles
unless a tag in it opens a block of `author` with a `#` that is split off. -/
theorem author_block {data : List UInt8} (hd : SelfContained data)
    (hf : (scan data).value = .ok f) (hstray : ∀ tag, .strayCloser tag ∉ (scan data).warnings)
    (helse : ∀ n ∈ f.nodes, n.name ≠ Node.elseName) (page page' : String) :
    ((∃ root, (Node.compile page (enclosing "author" data)).value = .ok root) ↔
      ∀ t ∈ tags data, ¬ (t.tag.IsSplitOpener ∧ t.tag.openName = "author")) ∧
    ∀ root inner, (Node.compile page (enclosing "author" data)).value = .ok root →
      (Node.compile page' data).value = .ok inner → ∀ (job : Job) (c : Context),
        let run := job.render inner { c with scope := .author }
        let inScope := (run.1, { run.2 with scope := c.scope })
        (¬ OnlyComments data → job.render root c = inScope) ∧
        (OnlyComments data → inScope = ([], c) ∧
          job.render root c = (Utf8.bytesOf (authorLinkText job.page c), c)) ∧
        ((job.render root c).1 = inScope.1 ↔ ¬ OnlyComments data ∨ c.author? job.page = none) := by
  have hcompiles : (∃ root, (Node.compile page (enclosing "author" data)).value = .ok root) ↔
      ∃ g, (scan (enclosing "author" data)).value = .ok g := by
    constructor
    · rintro ⟨root, hroot⟩
      obtain ⟨g, hg, -⟩ := compile_ok_iff.1 hroot
      exact ⟨g, hg⟩
    · rintro ⟨g, hg⟩
      exact ⟨_, compile_ok_iff.2 ⟨g, hg, rfl⟩⟩
  refine ⟨hcompiles.trans (scan_enclosing_iff namesBlock_author hd hf hstray),
    fun root inner hroot hinner job c => ?_⟩
  intro run inScope
  have hinside : inScope = Action.inScope .author (job.inside (authorNode f) none) c := by
    rw [inScope_run, ← render_inner hf hinner]
  have hroot := congrFun (render_authorBlock hd hf hstray helse hroot job) c
  rw [evaluate_authorNode] at hroot
  rw [onlyComments_iff hf hstray]
  by_cases hempty : f.block = [] ∧ f.nodes = []
  · have hnothing : inScope = ([], c) := by
      rw [hinside, inside_of_nothing hempty.1 hempty.2]
      rfl
    rw [if_pos hempty] at hroot
    refine ⟨fun h => absurd hempty h, fun _ => ⟨hnothing, hroot⟩, ?_⟩
    rw [hroot, hnothing, Utf8.bytesOf_eq_nil_iff, authorLinkText_eq_iff]
    exact (or_iff_right (not_not.2 hempty)).symm
  · rw [if_neg hempty, ← hinside] at hroot
    exact ⟨fun _ => hroot, fun h => absurd h hempty, by simp [hroot, hempty]⟩

/-- A page of a listing by an author. -/
def listingJob : Job where
  page := { kind := .author, blog := {}, author := some { id := 1, name := "Ada", slug := "ada" } }
  registry := .empty ""

/-- Two letters and the name of the author, behind a comment. -/
def byName : List UInt8 :=
  "\x7b\x7b! who \x7d\x7dby \x7b\x7bname\x7d\x7d".toUTF8.toList

theorem author_block_name :
    ∃ root inner, (Node.compile "post" (enclosing "author" byName)).value = .ok root ∧
      (Node.compile "post" byName).value = .ok inner ∧
      let run := listingJob.render inner { Context.start .author with scope := .author }
      listingJob.render root (.start .author) = (run.1, { run.2 with scope := .index }) := by
  obtain ⟨f, hf, -, hnames⟩ : ∃ f, (scan byName).value = .ok f ∧
      f.block = "by ".toUTF8.toList ∧ f.nodes.map Node.name = ["name"] :=
    exists_of_scan (by decide +kernel)
  have hd : SelfContained byName := by decide +kernel
  have hsilent : (scan byName).warnings = [] := by decide +kernel
  have hstray : ∀ tag, .strayCloser tag ∉ (scan byName).warnings := by simp [hsilent]
  have helse : ∀ n ∈ f.nodes, n.name ≠ Node.elseName := fun n hn => by
    have hname : n.name ∈ ["name"] := hnames ▸ List.mem_map_of_mem hn
    rw [List.mem_singleton.1 hname]
    decide
  obtain ⟨hcompiles, hrender⟩ := author_block hd hf hstray helse "post" "post"
  obtain ⟨root, hroot⟩ := hcompiles.2 (by decide +kernel)
  have hinner : (Node.compile "post" byName).value = .ok _ := compile_ok_iff.2 ⟨f, hf, rfl⟩
  refine ⟨root, _, hroot, hinner, ?_⟩
  exact (hrender root _ hroot hinner listingJob (.start .author)).1 (by decide +kernel)

/-- A comment. -/
def onlyComment : List UInt8 :=
  "\x7b\x7b! none \x7d\x7d".toUTF8.toList

/-- **A block around a comment shows the link**, and its inside shows nothing. -/
theorem author_block_of_comment :
    SelfContained onlyComment ∧ (scan onlyComment).warnings = [] ∧
      (listingJob.render (compiled "post" (enclosing "author" onlyComment)) (.start .author)).1 =
        Utf8.bytesOf "<a href=\"/author/ada/\">Ada</a>" ∧
      (listingJob.render (compiled "post" onlyComment)
        { Context.start .author with scope := .author }).1 = [] := by
  decide +kernel

end ThemePress.Render
