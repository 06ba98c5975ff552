import ThemePress.Proofs.Render.Levels
import ThemePress.Proofs.Render.Splice

/-! # Children in turn

The children of a node are rendered one after the other, each in the context that the one before has
left, and bytes that are given stand for the one in the body slot (`inTurn`). This is what runs when
the parts of a node are (`outputs_childParts`). Where the children are in order, the inside of the
node is its bytes with these outputs in between (`splice_in_turn`), and the nodes of a compiled
template are such (`compiled_in_order`). -/

namespace ThemePress.Render

open ThemePress.Template

/-! ### One output for each child -/

/-- The bytes that stand for the child with the number `i`: those given, if it is the body slot. -/
def standIn? (n : Node) (fill : Option (List UInt8)) (i : Nat) : Option (List UInt8) :=
  if n.bodySlot = some i then fill else none

/-- What children of `n`, numbered from `i`, yield one after the other: an output for each, at its
place. -/
def inTurn (job : Job) (n : Node) (fill : Option (List UInt8)) :
    Nat → List Node → Context → List (Nat × List UInt8) × Context
  | _, [], c => ([], c)
  | i, child :: rest, c =>
    let own := match standIn? n fill i with
      | some bytes => (bytes, c)
      | none => evaluate job job.inside child c
    let others := inTurn job n fill (i + 1) rest own.2
    ((child.position, own.1) :: others.1, others.2)

variable {job : Job} {n : Node} {fill : Option (List UInt8)}

/-! ### The parts of a node -/

/-- A child with its number, as a part of the inside of its node. -/
def numberedPart (job : Job) (n : Node) (fill : Option (List UInt8)) (child : Node × Nat) :
    Nat × Action (StateM Context) :=
  (child.1.position,
    match standIn? n fill child.2 with
    | some bytes => pure bytes
    | none => evaluate job job.inside child.1)

theorem childParts_eq (job : Job) (n : Node) (fill : Option (List UInt8)) :
    childParts job job.inside n fill = n.children.zipIdx.map (numberedPart job n fill) := by
  refine List.ext_getElem? fun i => ?_
  unfold childParts
  rw [List.getElem?_map, List.getElem?_zipIdx, Option.map_map, Nat.zero_add]
  cases fill with
  | none => simp [numberedPart, standIn?, Function.comp_def]
  | some bytes =>
    cases hslot : n.bodySlot with
    | none => simp [numberedPart, standIn?, hslot, Function.comp_def]
    | some slot =>
      by_cases h : slot = i <;>
        simp [numberedPart, standIn?, hslot, h, Function.comp_def]

theorem drop_zipIdx (children : List Node) (skip : Nat) :
    children.zipIdx.drop skip = (children.drop skip).zipIdx skip := by
  refine List.ext_getElem? fun i => ?_
  rw [List.getElem?_drop, List.getElem?_zipIdx, List.getElem?_zipIdx, List.getElem?_drop,
    Nat.zero_add]

theorem outputs_numberedPart (children : List Node) (i : Nat) (c : Context) :
    Action.outputs ((children.zipIdx i).map (numberedPart job n fill)) c =
      inTurn job n fill i children c := by
  induction children generalizing i c with
  | nil => rfl
  | cons child rest ih =>
    rw [List.zipIdx_cons, List.map_cons, inTurn]
    cases hfill : standIn? n fill i with
    | some bytes =>
      simp only [numberedPart, hfill, ← ih]
      rfl
    | none =>
      simp only [numberedPart, hfill, ← ih]
      rfl

/-- **The parts of a node are run as its children in turn**, with the first ones left out or not. -/
theorem outputs_childParts (skip : Nat) (c : Context) :
    Action.outputs ((childParts job job.inside n fill).drop skip) c =
      inTurn job n fill skip (n.children.drop skip) c := by
  rw [childParts_eq, ← List.map_drop, drop_zipIdx, outputs_numberedPart]

/-! ### Outputs between the pieces -/

theorem inOrder_childParts (h : n.Ordered) (job : Job) (fill : Option (List UInt8)) (skip : Nat) :
    InOrder n.block.length (((childParts job job.inside n fill).drop skip).map Prod.fst) := by
  have hplaces : (childParts job job.inside n fill).map Prod.fst =
      n.children.map Node.position := by
    conv => rhs; rw [← List.zipIdx_map_fst 0 n.children]
    rw [childParts_eq, List.map_map, List.map_map]
    rfl
  have hall : InOrder n.block.length (n.children.map Node.position) := by
    refine ⟨List.pairwise_map.2 h.sorted, fun place hplace => ?_⟩
    obtain ⟨child, hchild, rfl⟩ := List.mem_map.1 hplace
    exact h.le_length child hchild
  rw [List.map_drop, hplaces]
  exact hall.sublist (List.drop_sublist ..)

/-- What the children yield in turn stands between the pieces of the block. -/
theorem splice_in_turn (h : n.Ordered) (job : Job) (fill : Option (List UInt8)) (skip : Nat)
    (c : Context) :
    let r := inTurn job n fill skip (n.children.drop skip) c
    InPlace 0 n.block r.1 ∧
      Action.splice n.block ((childParts job job.inside n fill).drop skip) c =
        (interleave n.block r.1, r.2) := by
  intro r
  obtain ⟨hspliced, hplaces⟩ := splice_eq_interleaved (inOrder_childParts h job fill skip)
  have hrun : Action.outputs ((childParts job job.inside n fill).drop skip) c = r :=
    outputs_childParts skip c
  refine ⟨hrun ▸ hplaces c, ?_⟩
  rw [hspliced, ← hrun]
  rfl

/-- **The inside of every node of a compiled template comes out in the order of the template.** It
is the bytes of the node cut at the places of its children, with what each child yields in its turn
between the pieces, or with the given bytes for the child in the body slot. A layout directive in
front is left out, and all the rest goes into the layout. No place has to be cut down to the end of
what it lies in: not when outputs are put in, and not when a block is split. -/
theorem compiled_in_order {name : String} {source : List UInt8} {root n : Node}
    (h : (Node.compile name source).value = .ok root) (hn : root.Within n) :
    n.Ordered ∧
    (∀ (job : Job) (fill : Option (List UInt8)) (skip : Nat) (c : Context),
      let outputs := (inTurn job n fill skip (n.children.drop skip) c).1
      let after := (inTurn job n fill skip (n.children.drop skip) c).2
      InPlace 0 n.block outputs ∧
      Action.splice n.block ((childParts job job.inside n fill).drop skip) c =
        (interleave n.block outputs, after) ∧
      (directive? n = none → skip = 0 →
        job.inside n fill c = (interleave n.block outputs, after)) ∧
      ∀ directive, directive? n = some directive → skip = 1 →
        job.inside n fill c =
          wrap job job.inside directive (interleave n.block outputs) after) ∧
    ∀ (inside : List UInt8) (f : Fragment) (divider : Node) (later : List Node),
      (scan inside).value = .ok f →
      f.nodes.dropWhile (·.name != Node.elseName) = divider :: later →
      divider.position ≤ f.block.length ∧ ∀ m ∈ later, divider.position ≤ m.position := by
  have ho := ((allOrdered_of_compile h).of_within hn).ordered
  refine ⟨ho, fun job fill skip c => ?_, fun inside f divider later hs hd => ?_⟩
  · obtain ⟨hplaces, hspliced⟩ := splice_in_turn ho job fill skip c
    refine ⟨hplaces, hspliced, ?_, ?_⟩
    · rintro hnone rfl
      rw [List.drop_zero] at hspliced
      rw [job.inside_of_no_directive hnone, hspliced]
    · rintro directive hsome rfl
      rw [List.drop_one] at hspliced
      rw [job.inside_of_directive hsome, hspliced]
  · obtain ⟨hle, -, hlater⟩ := (ordered_of_scan hs).divider hd
    exact ⟨hle, hlater⟩

/-- A block with two tags behind its divider. -/
def branched : List UInt8 :=
  ("\x7b\x7b#if a\x7d\x7dx\x7b\x7belse\x7d\x7d" ++ "y\x7b\x7b@blog.title\x7d\x7dz" ++
    "\x7b\x7b@blog.description\x7d\x7d\x7b\x7b/if\x7d\x7d").toUTF8.toList

def titledJob : Job where
  page := { kind := .index, blog := { title := "A", description := "B" } }
  registry := .empty ""

theorem compiled_in_order_branch :
    ∃ root branch, (Node.compile "page" branched).value = .ok root ∧ root.Within branch ∧
      branch.Ordered ∧
      (inTurn titledJob branch none 0 branch.children (.start .index)).1 =
        [(1, [0x41]), (2, [0x42])] ∧
      (titledJob.inside branch none (.start .index)).1 = [0x79, 0x41, 0x7A, 0x42] := by
  have hb : ((Node.compile "page" branched).value.toOption.bind fun root =>
      root.children.head?.bind fun n => n.arguments.getLast?.map fun branch =>
        ((directive? branch).isNone, branch.block,
          (inTurn titledJob branch none 0 branch.children (.start .index)).1)) =
      some (true, [0x79, 0x7A], [(1, [0x41]), (2, [0x42])]) := by
    decide +kernel
  obtain ⟨root, hr, hb⟩ := Option.bind_eq_some_iff.1 hb
  obtain ⟨n, hn, hb⟩ := Option.bind_eq_some_iff.1 hb
  obtain ⟨branch, ha, hb⟩ := Option.map_eq_some_iff.1 hb
  obtain ⟨hnone, hblock, houtputs⟩ : _ ∧ _ ∧ _ := by simpa only [Prod.mk.injEq] using hb
  have h : (Node.compile "page" branched).value = .ok root := by
    cases hv : (Node.compile "page" branched).value with
    | error e => rw [hv] at hr; cases hr
    | ok r => rw [hv] at hr; exact congrArg _ (Option.some.inj hr)
  have hw : root.Within branch :=
    (Node.Within.root.child (List.mem_of_mem_head? hn)).argument (List.mem_of_getLast? ha)
  obtain ⟨hordered, hrendered, -⟩ := compiled_in_order h hw
  obtain ⟨-, -, hinside, -⟩ := hrendered titledJob none 0 (.start .index)
  refine ⟨root, branch, h, hw, hordered, houtputs, ?_⟩
  rw [hinside (Option.isNone_iff_eq_none.1 hnone) rfl, List.drop_zero, houtputs, hblock]
  show interleave [0x79, 0x7A] [(1, [0x41]), (2, [0x42])] = _
  decide

end ThemePress.Render
