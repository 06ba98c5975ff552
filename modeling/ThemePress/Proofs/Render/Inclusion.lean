import ThemePress.Proofs.Render.Beneath
import ThemePress.Proofs.Render.Splice
import ThemePress.Proofs.Template.Concatenation
import ThemePress.Proofs.Template.Reading
import ThemePress.Proofs.Template.Written

/-! # Templates in templates

A tag that includes a template yields what the template's source would yield in its place
(`inclusion_is_transparent`). The two sources are scanned part by part (`scan_append`), and a
fragment behind another yields its bytes behind those of the other (`yielded_join`), whatever comes
first moving the places of its nodes. Both then yield the same for the parts around the tag, which
have only moved (`yielded_beneath`), and for the template, which one of them renders a level deeper
(`template_beneath`). -/

namespace ThemePress.Render

open ThemePress.Template

variable {job : Job}

/-! ### One fragment behind another -/

theorem interleave_append {block block' : List UInt8} {outputs outputs' : List (Nat × List UInt8)}
    (h : ∀ o ∈ outputs, o.1 ≤ block.length) :
    interleave (block ++ block')
        (outputs ++ outputs'.map fun o => (o.1 + block.length, o.2)) =
      interleave block outputs ++ interleave block' outputs' := by
  have hbehind : ∀ o ∈ outputs'.map fun o => (o.1 + block.length, o.2), block.length ≤ o.1 := by
    intro o ho
    obtain ⟨o, -, rfl⟩ := List.mem_map.1 ho
    exact Nat.le_add_left ..
  unfold interleave
  rw [interleaveFrom_append (Nat.zero_le _) h hbehind, List.take_left,
    interleaveFrom_eq (Nat.le_refl _) hbehind, List.drop_left, Nat.sub_self, List.map_map]
  simp only [Function.comp_def, Nat.add_sub_cancel, Prod.mk.eta, List.map_id']

theorem outputs_append (parts parts' : List (Nat × Action (StateM Context))) :
    Action.outputs (parts ++ parts') = do
      let outputs ← Action.outputs parts
      let outputs' ← Action.outputs parts'
      return outputs ++ outputs' := by
  induction parts with
  | nil => rfl
  | cons part parts ih =>
    obtain ⟨place, a⟩ := part
    rw [List.cons_append, Action.outputs, ih]
    rfl

theorem outputs_map (f : Nat → Nat) (parts : List (Nat × Action (StateM Context))) :
    Action.outputs (parts.map fun part => (f part.1, part.2)) = do
      return (← Action.outputs parts).map fun o => (f o.1, o.2) := by
  induction parts with
  | nil => rfl
  | cons part parts ih =>
    obtain ⟨place, a⟩ := part
    rw [List.map_cons, Action.outputs, ih]
    rfl

theorem interleaved_append {block block' : List UInt8}
    {parts parts' : List (Nat × Action (StateM Context))}
    (h : ∀ part ∈ parts, part.1 ≤ block.length) :
    Action.interleaved (block ++ block')
        (parts ++ parts'.map fun part => (part.1 + block.length, part.2)) = do
      let bytes ← Action.interleaved block parts
      let bytes' ← Action.interleaved block' parts'
      return bytes ++ bytes' := by
  unfold Action.interleaved
  rw [outputs_append, outputs_map (· + block.length)]
  funext c
  have hplaces : ∀ o ∈ (Action.outputs parts c).1, o.1 ≤ block.length := fun o ho => by
    have hplace : o.1 ∈ (Action.outputs parts c).1.map Prod.fst := List.mem_map_of_mem ho
    rw [places_outputs] at hplace
    obtain ⟨part, hpart, heq⟩ := List.mem_map.1 hplace
    exact heq ▸ h part hpart
  exact congrArg (·, (Action.outputs parts' (Action.outputs parts c).2).2)
    (interleave_append hplaces)

/-- The nodes of a fragment with what they yield when they are moved. -/
def movedParts (job : Job) (s : Nat) (ns : List Node) : List (Nat × Action (StateM Context)) :=
  ns.map fun n => (n.position, evaluate job job.inside (n.moved s))

/-- What a fragment yields when it is moved. -/
def yielded (job : Job) (s : Nat) (f : Fragment) : Action (StateM Context) :=
  Action.interleaved f.block (movedParts job s f.nodes)

theorem yielded_join {f : Fragment} (hf : f.Ordered 0) (g : Fragment) (s : Nat) :
    yielded job s (f.join g) = do
      let bytes ← yielded job s f
      let bytes' ← yielded job (f.block.length + s) g
      return bytes ++ bytes' := by
  have hparts : movedParts job s (f.join g).nodes = movedParts job s f.nodes ++
      (movedParts job (f.block.length + s) g.nodes).map fun part =>
        (part.1 + f.block.length, part.2) := by
    have hmoved : ∀ n : Node, (n.moved f.block.length).moved s = n.moved (f.block.length + s) :=
      fun n => by simp [Node.moved, Nat.add_assoc]
    simp only [movedParts, Fragment.join, Fragment.prepend, Fragment.moved, List.map_append,
      List.map_map, Function.comp_def, hmoved]
    rfl
  unfold yielded
  rw [hparts]
  refine interleaved_append fun part hpart => ?_
  obtain ⟨n, hn, rfl⟩ := List.mem_map.1 hpart
  simpa using (hf.bounds n hn).2

theorem yielded_beneath (s s' : Nat) (f : Fragment) :
    SameBeneathWithin k job.limit (job.limit + 1) _ (yielded job s f) (yielded job s' f) := by
  have hpassing := passing_beneath k job.limit job.limit
  refine hpassing.bind (hpassing.outputs (.map fun n _ => ?_)) fun _ => hpassing.pure _
  exact evaluate_beneath rfl

/-- No directive for a layout stands among the tags. -/
def Fragment.Plain (f : Fragment) : Prop :=
  Node.extendsName ∉ f.nodes.map Node.name

theorem Fragment.Plain.join {f g : Fragment} (hf : Plain f) (hg : Plain g) : Plain (f.join g) := by
  have hnames : (f.join g).nodes.map Node.name =
      f.nodes.map Node.name ++ g.nodes.map Node.name := by
    simp [Fragment.join, Fragment.prepend, Fragment.moved, Node.moved]
  rw [Plain, hnames]
  exact fun h => (List.mem_append.1 h).elim hf hg

/-- The inside of a template without a layout. -/
theorem inside_of_scan {name : String} {source : List UInt8} {f : Fragment} {root : Node}
    (hroot : (Node.compile name source).value = .ok root) (hf : (scan source).value = .ok f)
    (hplain : Fragment.Plain f) :
    job.inside root none = yielded job 0 f := by
  obtain ⟨f', hf', rfl⟩ := compile_ok_iff.1 hroot
  obtain rfl : f = f' := Except.ok.inj (hf.symm.trans hf')
  have hordered := ordered_of_scan hf
  have hdirective : f.nodes.head?.filter (·.name == Node.extendsName) = none := by
    cases hn : f.nodes.head? with
    | none => rfl
    | some n =>
      have hmem : n.name ∈ f.nodes.map Node.name := List.mem_map_of_mem (List.mem_of_mem_head? hn)
      simpa [Option.filter] using fun h : n.name = Node.extendsName => hplain (h ▸ hmem)
  have hparts : (f.nodes.map fun n => (n.position, evaluate job job.inside n)) =
      movedParts job 0 f.nodes := by
    refine List.map_congr_left fun n _ => ?_
    cases n
    rfl
  have hplaces : InOrder f.block.length ((movedParts job 0 f.nodes).map Prod.fst) := by
    rw [movedParts, List.map_map]
    refine ⟨List.pairwise_map.2 hordered.sorted, fun p hp => ?_⟩
    obtain ⟨n, hn, rfl⟩ := List.mem_map.1 hp
    simpa using (hordered.bounds n hn).2
  refine (job.inside_of_no_directive ?_ none).trans ?_
  · exact hdirective
  · show Action.splice f.block (f.nodes.map fun n => (n.position, evaluate job job.inside n)) = _
    rw [hparts]
    exact (splice_eq_interleaved hplaces).1

/-- A source without such a directive compiles, and renders as its fragment. -/
theorem exists_render (job : Job) (page : String) {source : List UInt8} {f : Fragment}
    (hf : (scan source).value = .ok f) (hplain : Fragment.Plain f) :
    ∃ root, (Node.compile page source).value = .ok root ∧ job.render root = yielded job 0 f := by
  have hroot : (Node.compile page source).value = .ok _ := compile_ok_iff.2 ⟨f, hf, rfl⟩
  exact ⟨_, hroot, inside_of_scan hroot hf hplain⟩

/-! ### The tag that includes a template -/

/-- The text is a word that a tag can give as the name of a template. -/
structure NamesTemplate (t : String) : Prop where
  token : TagText.IsToken t
  unbraced : Unbraced t
  ne_else : t ≠ Node.elseName

/-- The tag that includes a template. -/
def inclusion (t : String) : List UInt8 :=
  braced ("> " ++ t)

/-- The node of that tag. -/
def inclusionNode (t : String) : Node :=
  { Node.leaf ">" false 0 with arguments := [Node.leaf t false 0] }

section
variable {t : String}

theorem inclusion_text (t : String) : ("> " ++ t).toList = '>' :: ' ' :: t.toList := by
  simp

theorem trim_inclusion (ht : TagText.IsToken t) : Text.trim ("> " ++ t) = "> " ++ t := by
  have hne : t.toList ≠ [] := fun h => ht.ne_empty (String.toList_eq_nil_iff.1 h)
  have hlast : ∀ c ∈ (' ' :: t.toList).getLast?, Text.isBlank c = false := fun c hc => by
    rw [List.getLast?_cons_of_ne_nil hne] at hc
    exact (ht.plain c (List.mem_of_getLast? hc)).1
  rw [Text.trim, inclusion_text, Text.trimChars_eq_self (by decide) hlast, ← inclusion_text,
    String.ofList_toList]

theorem written_inclusion (ht : TagText.IsToken t) :
    TagText.Written [.word ">" none, .word t none] ("> " ++ t).toList := by
  have hlast : TagText.Written [.word t none] ([' '] ++ (t.toList ++ [])) :=
    .cons (List.all_eq_true.1 rfl) ht rfl (.nil (by simp))
  have hall : TagText.Written [.word ">" none, .word t none]
      ([] ++ (['>'] ++ ([' '] ++ (t.toList ++ [])))) :=
    .cons (by simp) (by decide : TagText.IsToken ">") rfl hlast
  rw [inclusion_text]
  simpa using hall

theorem ofText_inclusion (ht : TagText.IsToken t) :
    Node.ofText ("> " ++ t) false 0 [] [] none = inclusionNode t := by
  obtain ⟨hkeyed, hwords, -⟩ := TagText.takeKeyed_of_written (written_inclusion ht)
  exact ofText_of_takeKeyed hkeyed hwords false 0 [] [] none

theorem unbraced_inclusion (ht : Unbraced t) : Unbraced ("> " ++ t) := by
  unfold Unbraced at ht ⊢
  rw [inclusion_text]
  simpa using ht

theorem kind_inclusion (t : String) : Tag.kind ⟨"> " ++ t, false⟩ = .value := by
  rw [Tag.kind, TagKind.of, inclusion_text]
  rfl

/-- The tag in front of a sequence adds its node and no bytes. -/
theorem scan_inclusion (ht : NamesTemplate t) {rest : List UInt8} {f : Fragment}
    (hf : (scan rest).value = .ok f) :
    (scan (inclusion t ++ rest)).value = .ok ⟨f.block, inclusionNode t :: f.nodes⟩ := by
  have htag : (⟨Text.trim ("> " ++ t), false⟩ : Tag) = ⟨"> " ++ t, false⟩ := by
    rw [trim_inclusion ht.token]
  have hnodes : Cut.nodes ⟨[], ⟨"> " ++ t, false⟩, inclusion t, rest⟩ 0 = [inclusionNode t] := by
    have hne : ("> " ++ t).isEmpty = false := by
      rw [String.isEmpty_eq_false_iff]
      intro h
      have := congrArg String.toList h
      simp at this
    rw [Cut.nodes]
    simp only [kind_inclusion, hne, ofText_inclusion ht.token]
    rfl
  have hscanned := scanned_braced (unbraced_inclusion ht.unbraced)
    (by rw [htag, kind_inclusion]; decide) (scanned_iff.2 hf)
  rw [htag, ← inclusion, hnodes] at hscanned
  exact scanned_iff.1 hscanned

theorem evaluate_inclusionNode (ht : t ≠ Node.elseName) (s : Nat) :
    evaluate job job.inside ((inclusionNode t).moved s) = Occurrence.template job job.inside t := by
  have hn : Helper.named? ((inclusionNode t).moved s).name = some .inclusion := by
    show Helper.named? ">" = _
    decide
  have hargument : ((inclusionNode t).moved s).firstArgument? = some (Node.leaf t false 0) := by
    show Option.filter _ (some (Node.leaf t false 0)) = _
    simp [Option.filter, Node.isPositional, Node.isElse, Node.leaf, ht]
  rw [evaluate_of_named? hn]
  simp only [occurrence, Occurrence.run, hargument]
  rfl

/-- What is yielded in the tag's place and what stands behind it. -/
theorem yielded_inclusion (ht : t ≠ Node.elseName) (s : Nat) (f : Fragment) :
    yielded job s ⟨f.block, inclusionNode t :: f.nodes⟩ = do
      let bytes ← Occurrence.template job job.inside t
      let bytes' ← yielded job s f
      return bytes ++ bytes' := by
  have hparts : movedParts job s (inclusionNode t :: f.nodes) =
      (0, Occurrence.template job job.inside t) :: movedParts job s f.nodes := by
    rw [← evaluate_inclusionNode ht s]
    rfl
  rw [yielded, hparts]
  rfl

end

/-! ### Transparency -/

theorem plain_inclusion {f : Fragment} (hf : Fragment.Plain f) (t : String) :
    Fragment.Plain ⟨f.block, inclusionNode t :: f.nodes⟩ := by
  refine List.not_mem_cons_of_ne_of_not_mem ?_ hf
  show Node.extendsName ≠ ">"
  decide

/-- A part of a source: it stands for the same tags with other parts around it, and none of them
asks for a layout. -/
structure Piece (source : List UInt8) : Prop where
  scanned : ∃ f, (scan source).value = .ok f ∧ Fragment.Plain f
  selfContained : SelfContained source
  starts : source.head? ≠ some closeBrace

section
variable {t : String} {root : Node}

/-- The template itself, moved to where its tag stands. -/
theorem template_beneath {name : String} {source : List UInt8} {f : Fragment}
    (hroot : (Node.compile name source).value = .ok root) (hf : (scan source).value = .ok f)
    (hplain : Fragment.Plain f) (hget : job.registry.get? t = some root) (s : Nat) :
    SameBeneathWithin 0 job.limit (job.limit + 1) _ (Occurrence.template job job.inside t)
      (yielded job s f) := by
  intro c c' hc h
  have htemplate : Occurrence.template job job.inside t =
      Action.nested job.limit (.templateTooDeep t) (yielded job 0 f) := by
    rw [Occurrence.template, hget, ← inside_of_scan hroot hf hplain]
  rw [htemplate]
  by_cases hd : c.depth < job.limit
  · have ha : SameBeneath 1 c.enter c' (yielded job 0 f) (yielded job s f) :=
      yielded_beneath 0 s f c.enter c' (by omega) h.deeper
    exact .of_run Context.leave id ha ha.restores.nested (fun hb => hb.up) rfl rfl
      (nested_run _ hd _) rfl
  · have hrun := nested_run_refuse (yielded job 0 f) hd (.templateTooDeep t)
    refine ⟨by rw [hrun]; exact .warn c _, fun hrefused => ?_⟩
    rw [hrun] at hrefused
    simp [Context.refusals, Context.warn, Warning.isTooDeep] at hrefused

end

/-- **A template that is included yields what its source would yield in the tag's place.** The
sources with the tag and with the template's source in its place compile, and when a page is
rendered from the first without a level being refused, the second gives the same bytes and leaves
the same context, with the same blocks set aside but for the places where they stood. -/
theorem inclusion_is_transparent (page page' : String) {t name : String}
    {front source back : List UInt8} {root : Node} (ht : NamesTemplate t) (hfront : Piece front)
    (hsource : Piece source) (hback : Piece back)
    (hroot : (Node.compile name source).value = .ok root)
    (hget : job.registry.get? t = some root) :
    ∃ including joined,
      (Node.compile page (front ++ inclusion t ++ back)).value = .ok including ∧
      (Node.compile page' (front ++ source ++ back)).value = .ok joined ∧
      ∀ c, (job.render including c).2.refusals = c.refusals →
        (job.render joined c).1 = (job.render including c).1 ∧
        (job.render joined c).2.collected.map Node.unplaced =
          (job.render including c).2.collected.map Node.unplaced ∧
        (job.render joined c).2 =
          { (job.render including c).2 with collected := (job.render joined c).2.collected } := by
  obtain ⟨⟨f, hf, hplain⟩, hcontained, -⟩ := hfront
  obtain ⟨⟨g, hg, hplain'⟩, hcontained', hstarts'⟩ := hsource
  obtain ⟨⟨k, hk, hplain''⟩, -, hstarts''⟩ := hback
  have hstarts : (source ++ back).head? ≠ some closeBrace := by
    cases source with
    | nil => exact hstarts''
    | cons b source => exact hstarts'
  rw [List.append_assoc, List.append_assoc]
  -- the two sources, part by part
  have hscan := scan_append hcontained (head?_braced_append _ _) hf (scan_inclusion ht hk)
  have hscan' := scan_append hcontained hstarts hf (scan_append hcontained' hstarts'' hg hk)
  obtain ⟨including, hincluding, hrender⟩ := exists_render job page hscan
    (hplain.join (plain_inclusion hplain'' t))
  obtain ⟨joined, hjoined, hrender'⟩ := exists_render job page' hscan'
    (hplain.join (hplain'.join hplain''))
  rw [yielded_join (ordered_of_scan hf), yielded_inclusion ht.ne_else] at hrender
  rw [yielded_join (ordered_of_scan hf), yielded_join (ordered_of_scan hg)] at hrender'
  have hpassing := passing_beneath 0 job.limit job.limit
  have hall : SameBeneathWithin 0 job.limit (job.limit + 1) _ (job.render including)
      (job.render joined) := by
    rw [hrender, hrender']
    refine hpassing.bind (yielded_beneath 0 0 f) fun _ => hpassing.bind ?_ fun _ => hpassing.pure _
    exact hpassing.bind (template_beneath hroot hg hplain' hget _) fun _ =>
      hpassing.bind (yielded_beneath _ _ k) fun _ => hpassing.pure _
  refine ⟨including, joined, hincluding, hjoined, fun c hc => ?_⟩
  obtain ⟨hbytes, hcontexts⟩ := (hall c c (by omega) (.refl c)).same hc
  refine ⟨hbytes, hcontexts.collected, ?_⟩
  have heq := hcontexts.eq
  rwa [← Nat.add_zero (Context.depth _), ← hcontexts.depth] at heq

/-- A template that sets a block aside. -/
def card : List UInt8 :=
  "x\x7b\x7b#contentFor \"k\"\x7d\x7dy\x7b\x7b/contentFor\x7d\x7d".toUTF8.toList

/-- A tag that asks for that block. -/
def behindCard : List UInt8 :=
  "z\x7b\x7bblock \"k\"\x7d\x7d".toUTF8.toList

/-- The template with the given source. -/
def compiled (name : String) (source : List UInt8) : Node :=
  (Node.compile name source).value.toOption.getD (Node.leaf name false 0)

theorem compiled_of_ok {name : String} {source : List UInt8} {root : Node}
    (h : (Node.compile name source).value = .ok root) : compiled name source = root := by
  rw [compiled, h]
  rfl

def cardJob : Job where
  page := { kind := .index, blog := {} }
  registry := ⟨"", [("card", compiled "card" card)], []⟩

/-- What comes of a page with the given part between a letter and that tag. -/
def aroundCard (part : List UInt8) : List UInt8 × Context :=
  cardJob.render (compiled "page" ([0x61] ++ part ++ behindCard)) (Context.start .index)

theorem inclusion_is_transparent_card :
    (aroundCard card).1 = (aroundCard (inclusion "card")).1 ∧
    (aroundCard (inclusion "card")).1 = "axzy".toUTF8.toList ∧
    (aroundCard (inclusion "card")).2.collected.map Node.position = [1] ∧
    (aroundCard card).2.collected.map Node.position = [2] := by
  have ht : NamesTemplate "card" := ⟨by decide +kernel, by decide, by decide⟩
  obtain ⟨f, hf, -, hnames⟩ : ∃ f, (scan [0x61]).value = .ok f ∧ f.block = [0x61] ∧
      f.nodes.map Node.name = [] :=
    exists_of_scan (by decide +kernel)
  obtain ⟨g, hg, -, hnames'⟩ : ∃ g, (scan card).value = .ok g ∧ g.block = [0x78] ∧
      g.nodes.map Node.name = ["contentFor"] :=
    exists_of_scan (by decide +kernel)
  obtain ⟨k, hk, -, hnames''⟩ : ∃ k, (scan behindCard).value = .ok k ∧ k.block = [0x7A] ∧
      k.nodes.map Node.name = ["block"] :=
    exists_of_scan (by decide +kernel)
  have hfront : Piece [0x61] :=
    ⟨⟨f, hf, by rw [Fragment.Plain, hnames]; decide⟩, by decide, by decide⟩
  have hcard : Piece card :=
    ⟨⟨g, hg, by rw [Fragment.Plain, hnames']; decide⟩, by decide +kernel, by decide +kernel⟩
  have hback : Piece behindCard :=
    ⟨⟨k, hk, by rw [Fragment.Plain, hnames'']; decide⟩, by decide +kernel, by decide +kernel⟩
  have hroot : (Node.compile "card" card).value = .ok _ := compile_ok_iff.2 ⟨g, hg, rfl⟩
  have hget : cardJob.registry.get? "card" = some (compiled "card" card) := rfl
  rw [compiled_of_ok hroot] at hget
  obtain ⟨including, joined, hincluding, hjoined, hsame⟩ :=
    inclusion_is_transparent "page" "page" ht hfront hcard hback hroot hget
  rw [← compiled_of_ok hincluding, ← compiled_of_ok hjoined] at hsame
  obtain ⟨hbytes, -⟩ := hsame (Context.start .index) (by decide +kernel)
  exact ⟨hbytes, by decide +kernel, by decide +kernel, by decide +kernel⟩

end ThemePress.Render
