import ThemePress.Proofs.Template.Enclosing

/-! # Two branches of a block

The inside of a block with an `else` divider is scanned as one sequence, and only then is the
fragment split at the divider. Both branches come out as if each had been scanned by itself
(`scan_branches`), if they are `Enclosable`: apart from braces that would run together, all that
could differ is which tag closes the block. Counting goes through a branch and ends where it started
(`depthThrough_eq`), because each close tag in it closes a block of the branch, and then the close
tag is found behind both branches (`Enclosed.find?_through`). -/

namespace ThemePress.Template

open ThemePress.Text

/-- The sequence can stand in a block of any name: no close tag in it closes a block around it, and
what its opening tags are counted as is what they open. -/
structure Enclosable (data : List UInt8) : Prop where
  selfContained : SelfContained data
  noStray : ∀ tag, .strayCloser tag ∉ (scan data).warnings
  unsplit : ∀ t ∈ tags data, ¬ t.tag.IsSplitOpener

/-! ### The divider -/

/-- The node of a divider. -/
def divider (place : Nat) : Node :=
  Node.ofText Node.elseName false place [] [] none

theorem divider_name (place : Nat) : (divider place).name = Node.elseName := by
  show ((words (TagText.takeKeyed Node.elseName.toList).2).map
    fun w => String.ofList (TagText.unquote w)).headD "" = Node.elseName
  decide +kernel

theorem trim_elseName : trim Node.elseName = Node.elseName := by
  decide +kernel

theorem kind_elseName : Tag.kind ⟨trim Node.elseName, false⟩ = .divider := by
  rw [trim_elseName]
  rfl

theorem nodes_elseName (rest : List UInt8) (place : Nat) :
    Cut.nodes ⟨[], ⟨trim Node.elseName, false⟩, braced Node.elseName, rest⟩ place =
      [divider place] := by
  rw [Cut.nodes]
  simp only [trim_elseName]
  rfl

theorem unbraced_elseName : Unbraced Node.elseName := by
  unfold Unbraced
  decide

/-! ### Two branches -/

/-- A block of two branches. -/
def branching (name argument : String) (first second : List UInt8) : List UInt8 :=
  braced ("#" ++ name ++ " " ++ argument) ++ (first ++ (braced Node.elseName ++
    (second ++ braced ("/" ++ name))))

theorem Enclosable.depthThrough_eq {data : List UInt8} {f : Fragment} (h : Enclosable data)
    (hf : (scan data).value = .ok f) (name : String) :
    depthThrough name 0 (placedTags 0 data) = some 0 :=
  Template.depthThrough_eq (scanned_iff.2 hf) h.noStray
    (fun t ht => Tag.counts_of_not_split (h.unsplit t (tags_eq data ▸ ht)) name) 0

section
variable {name argument : String} {first second : List UInt8} {f g : Fragment}
  (hfirst : Enclosable first) (hsecond : Enclosable second) (hf : (scan first).value = .ok f)
  (hg : (scan second).value = .ok g)

include hfirst hf hg

/-- The inside is the first branch, the divider and the second branch. -/
theorem scan_divided : (scan (first ++ (braced Node.elseName ++ second))).value =
    .ok (f.join ⟨g.block, divider 0 :: g.nodes⟩) := by
  refine scan_append hfirst.selfContained (head?_braced_append _ _) hf (scanned_iff.1 ?_)
  have hdivided := scanned_braced unbraced_elseName (by rw [kind_elseName]; decide)
    (scanned_iff.2 hg)
  rw [nodes_elseName] at hdivided
  exact hdivided

include hsecond

/-- The block is closed behind its second branch. -/
theorem closer_branching (hn : NamesBlock name) :
    Enclosed.first? name (first ++ (braced Node.elseName ++ (second ++ braced ("/" ++ name)))) =
      some ⟨first ++ (braced Node.elseName ++ second), braced ("/" ++ name), []⟩ := by
  have helse : depthAfter name 0 ⟨trim Node.elseName, false⟩ = some 0 := by
    simp [depthAfter, kind_elseName]
  rw [Enclosed.first?, Enclosed.find?_through hfirst.selfContained (head?_braced_append _ _)
      (hfirst.depthThrough_eq hf name), Enclosed.find?_some (first?_braced unbraced_elseName _)]
  dsimp only
  rw [helse]
  dsimp only
  rw [Enclosed.find?_through hsecond.selfContained (head?_braced _)
    (hsecond.depthThrough_eq hg name), hn.find?_closer]
  simp [Enclosed.prepend]

end

/-- Split at its divider, the inside falls into the two fragments. -/
theorem splitElse_join {f : Fragment} (helse : ∀ n ∈ f.nodes, n.name ≠ Node.elseName)
    (g : Fragment) :
    ∃ branch, (f.join ⟨g.block, divider 0 :: g.nodes⟩).splitElse = (f, some branch) ∧
      branch.isElse = true ∧ branch.block = g.block ∧ branch.children = g.nodes := by
  generalize hd : (divider 0).moved f.block.length = d
  have hname : d.name = Node.elseName := by
    rw [← hd]
    exact divider_name 0
  have hposition : d.position = f.block.length := by
    rw [← hd]
    exact Nat.zero_add _
  have hjoin : f.join ⟨g.block, divider 0 :: g.nodes⟩ =
      ⟨f.block ++ g.block, f.nodes ++ d :: g.nodes.map (Node.moved f.block.length)⟩ := by
    rw [← hd]
    rfl
  have hnone : ∀ n ∈ f.nodes, (n.name != Node.elseName) = true := by simpa using helse
  have hback : (g.nodes.map (Node.moved f.block.length)).map
      (fun n => { n with position := n.position - f.block.length }) = g.nodes := by
    rw [List.map_map]
    refine (List.map_congr_left fun n _ => ?_).trans (List.map_id _)
    cases n
    simp [Node.moved]
  have hkey : d.key = none := by
    rw [← hd]
    rfl
  rw [hjoin, Fragment.splitElse, List.dropWhile_append_of_pos hnone,
    List.dropWhile_cons_of_neg (by simp [hname])]
  dsimp only
  rw [hposition, List.length_append, Nat.min_eq_left (Nat.le_add_right ..), List.take_left,
    List.drop_left, List.takeWhile_append_of_pos hnone,
    List.takeWhile_cons_of_neg (by simp [hname]), List.append_nil, hback]
  exact ⟨_, rfl, by simp [Node.isElse, hname, hkey], rfl, rfl⟩

/-- The `else` branch that a tag is given. -/
theorem elseBranch?_ofText {text : String} {unescaped : Bool} {place : Nat} {block : List UInt8}
    {children : List Node} {branch : Node} (h : branch.isElse = true) :
    (Node.ofText text unescaped place block children (some branch)).elseBranch? = some branch := by
  simp [Node.elseBranch?, Node.ofText, h, Option.filter]

/-- **Each branch of a block is what it would be by itself**, with all places. -/
theorem scan_branches {name argument : String} {first second : List UInt8} {f g : Fragment}
    (hn : NamesBlock name) (ha : Unbraced argument) (hfirst : Enclosable first)
    (hsecond : Enclosable second) (hf : (scan first).value = .ok f)
    (hg : (scan second).value = .ok g) (helse : ∀ n ∈ f.nodes, n.name ≠ Node.elseName) :
    ∃ node branch, (scan (branching name argument first second)).value = .ok ⟨[], [node]⟩ ∧
      node.position = 0 ∧ node.block = f.block ∧ node.children = f.nodes ∧
      node.elseBranch? = some branch ∧ branch.block = g.block ∧ branch.children = g.nodes := by
  obtain ⟨branch, hsplit, hbranch, hblock, hchildren⟩ := splitElse_join helse g
  have hblocks := scan_closed (hn.opener_unbraced ha) (hn.opens_opener argument)
    (closer_branching hfirst hsecond hf hg hn) (scan_divided hfirst hf hg)
  refine ⟨_, branch, hblocks, ?_⟩
  rw [Fragment.toBlock, hsplit]
  exact ⟨rfl, rfl, rfl, elseBranch?_ofText hbranch, hblock, hchildren⟩

/-- A tag between two letters. -/
def plainBranch : List UInt8 :=
  "x\x7b\x7btitle\x7d\x7dy".toUTF8.toList

/-- A block of the name `if` with two branches of its own. -/
def nestedBranch : List UInt8 :=
  branching "if" "b" "z".toUTF8.toList plainBranch

theorem scan_branches_nested :
    ∃ node branch, (scan (branching "if" "a" plainBranch nestedBranch)).value =
        .ok ⟨[], [node]⟩ ∧ node.block = [0x78, 0x79] ∧ node.elseBranch? = some branch ∧
      branch.block = [] ∧ branch.children.map Node.name = ["if"] := by
  have hn : NamesBlock "if" :=
    ⟨by decide, by simpa using (by decide : isBlank 'i' = false ∧ isBlank 'f' = false), by decide,
      by decide⟩
  have ha : Unbraced "a" := by decide
  have hsilent : (scan plainBranch).warnings = [] ∧ (scan nestedBranch).warnings = [] := by
    decide +kernel
  have hfirst : Enclosable plainBranch :=
    ⟨by decide +kernel, by simp [hsilent.1], by decide +kernel⟩
  have hsecond : Enclosable nestedBranch :=
    ⟨by decide +kernel, by simp [hsilent.2], by decide +kernel⟩
  obtain ⟨f, hf, hblock, hnames⟩ : ∃ f, (scan plainBranch).value = .ok f ∧
      f.block = [0x78, 0x79] ∧ f.nodes.map Node.name = ["title"] :=
    exists_of_scan (by decide +kernel)
  obtain ⟨g, hg, hblock', hnames'⟩ : ∃ g, (scan nestedBranch).value = .ok g ∧
      g.block = [] ∧ g.nodes.map Node.name = ["if"] :=
    exists_of_scan (by decide +kernel)
  have helse : ∀ n ∈ f.nodes, n.name ≠ Node.elseName := fun n hn => by
    have hname : n.name ∈ ["title"] := hnames ▸ List.mem_map_of_mem hn
    rw [List.mem_singleton.1 hname]
    decide
  obtain ⟨node, branch, h, -, hnode, -, hbranch, hb, hc⟩ :=
    scan_branches hn ha hfirst hsecond hf hg helse
  exact ⟨node, branch, h, hnode.trans hblock, hbranch, hb.trans hblock', hc ▸ hnames'⟩

end ThemePress.Template
