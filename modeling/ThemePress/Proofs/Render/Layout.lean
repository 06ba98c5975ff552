import ThemePress.Proofs.Render.Levels
import ThemePress.Proofs.Template.Scanned

/-! # Layouts inside each other

A template that starts with a layout directive goes into the body slot of the layout it names, which
may start with such a directive itself. `filled` is one template of such a chain, spliced without
its directive and with the given bytes in its slot; `layers` is what comes of a whole chain when
each template is filled with what came of the one before, one level deeper. Rendering the first
template of a chain is `layers` (`inside_eq_layers`), by induction on the chain: the levels suffice
because each template restores the depth it starts at. -/

namespace ThemePress.Render

open ThemePress.Template

variable {job : Job} {t t' : Node} {ts : List Node} {fill : Option (List UInt8)} {c : Context}

/-! ### Chains of layouts -/

/-- The template `t` starts with a directive that names the layout `t'`. -/
def Extends (job : Job) (t t' : Node) : Prop :=
  ∃ directive, directive? t = some directive ∧
    job.registry.get? (argumentName directive) = some t'

/-- The template `t` starts with no directive, or with one that names no layout. -/
def Outermost (job : Job) (t : Node) : Prop :=
  ∀ directive, directive? t = some directive →
    job.registry.get? (argumentName directive) = none

/-- Each template of `t :: ts` names the next as its layout, and the last names none. -/
def LayoutChain (job : Job) : Node → List Node → Prop
  | t, [] => Outermost job t
  | t, t' :: ts => Extends job t t' ∧ LayoutChain job t' ts

/-! ### Filling them -/

/-- A template spliced without its directive, with bytes in its body slot when they are given. -/
def filled (job : Job) (t : Node) (fill : Option (List UInt8)) : Action (StateM Context) :=
  let parts := childParts job job.inside t fill
  Action.splice t.block (if (directive? t).isSome then parts.tail else parts)

/-- Puts what has come of a chain so far into the next layout, one level deeper. -/
def layer (job : Job) (r : List UInt8 × Context) (t : Node) : List UInt8 × Context :=
  filled job t (some r.1) r.2.enter

/-- What comes of a chain: the first template filled with `fill`, the second with what came of the
first, and so on. -/
def layers (job : Job) (t : Node) (fill : Option (List UInt8)) (c : Context) (ts : List Node) :
    List UInt8 × Context :=
  ts.foldl (layer job) (filled job t fill c)

/-- The outermost template gives a warning if it names a layout, and all levels are left. -/
def close (depth : Nat) (outermost : Node) (r : List UInt8 × Context) : List UInt8 × Context :=
  let missing := (directive? outermost).toList.map fun d => Warning.layoutMissing (argumentName d)
  (r.1, { r.2 with depth, warnings := r.2.warnings ++ missing })

theorem filled_restores (job : Job) (t : Node) (fill : Option (List UInt8)) (c : Context) :
    Restores c (filled job t fill c).2 := by
  refine outputs_restores (fun part hp => ?_) c
  have hmem : part ∈ childParts job job.inside t fill := by
    split at hp
    · exact List.mem_of_mem_tail hp
    · exact hp
  exact childParts_restores hmem

theorem filled_of_no_directive (h : directive? t = none) :
    filled job t fill = Action.splice t.block (childParts job job.inside t fill) := by
  simp [filled, h]

theorem filled_of_directive {directive : Node} (h : directive? t = some directive) :
    filled job t fill = Action.splice t.block (childParts job job.inside t fill).tail := by
  simp [filled, h]

/-- The outermost template of a chain. -/
theorem inside_outermost (h : Outermost job t) :
    job.inside t fill c = close c.depth t (filled job t fill c) := by
  have hr := (filled_restores job t fill c).depth
  rw [close, ← hr]
  cases hd : directive? t with
  | none =>
    rw [job.inside_of_no_directive hd, ← filled_of_no_directive hd]
    simp only [Option.toList, List.map_nil, List.append_nil]
    rfl
  | some directive =>
    rw [job.inside_of_directive hd, ← filled_of_directive hd]
    simp only [wrap, h directive hd]
    rfl

/-- A template that names a layout. -/
theorem inside_extends (h : Extends job t t') (hc : c.depth < job.limit) :
    job.inside t fill c =
      let r := filled job t fill c
      let r' := job.inside t' (some r.1) r.2.enter
      (r'.1, r'.2.leave) := by
  obtain ⟨directive, hd, ht⟩ := h
  have hr := (filled_restores job t fill c).depth
  rw [job.inside_of_directive hd, ← filled_of_directive hd]
  unfold wrap
  simp only [ht]
  exact nested_run _ (by rw [hr]; exact hc) _

/-- **Rendering a template with a chain of layouts fills them one after the other.** -/
theorem inside_eq_layers (h : LayoutChain job t ts) (hc : c.depth + ts.length ≤ job.limit) :
    job.inside t fill c = close c.depth (ts.getLastD t) (layers job t fill c ts) := by
  induction ts generalizing t fill c with
  | nil => exact inside_outermost h
  | cons t' ts ih =>
    simp only [List.length_cons] at hc
    have hr := (filled_restores job t fill c).depth
    have hl : layers job t fill c (t' :: ts) =
        layers job t' (some (filled job t fill c).1) (filled job t fill c).2.enter ts := rfl
    rw [inside_extends h.1 (by omega), hl, List.getLastD_cons]
    dsimp only
    rw [ih h.2 (by simp only [Context.enter]; omega)]
    simp only [close, Context.leave, Context.enter, hr, Nat.add_sub_cancel]

/-! ### Contexts along a chain -/

/-- What comes of the first layers is passed on to the next ones. -/
theorem layers_append (before mid : List Node) :
    layers job t fill c (before ++ mid) = mid.foldl (layer job) (layers job t fill c before) :=
  List.foldl_append

theorem layer_restores (r : List UInt8 × Context) (mid : List Node) :
    Restores { r.2 with depth := r.2.depth + mid.length } (mid.foldl (layer job) r).2 := by
  induction mid generalizing r with
  | nil => exact .refl _
  | cons t mid ih =>
    have hr := filled_restores job t (some r.1) r.2.enter
    have hd : (layer job r t).2.depth = r.2.depth + 1 := hr.depth
    refine Restores.trans ?_ (ih (layer job r t))
    exact { hr with depth := by simp only [hd, List.length_cons]; omega }

theorem layers_restores (job : Job) (t : Node) (fill : Option (List UInt8)) (c : Context)
    (before : List Node) :
    Restores { c with depth := c.depth + before.length } (layers job t fill c before).2 := by
  have hr := filled_restores job t fill c
  refine Restores.trans ?_ (layer_restores (filled job t fill c) before)
  exact { hr with depth := by simp only [hr.depth] }

theorem collected_layers (job : Job) (t : Node) (fill : Option (List UInt8)) (c : Context)
    (before mid : List Node) :
    (layers job t fill c before).2.collected <+:
      (layers job t fill c (before ++ mid)).2.collected := by
  rw [layers_append]
  exact (layer_restores (layers job t fill c before) mid).collected

/-! ### The body slot -/

/-- The body slot of a template is the last node at its top that is named so. -/
theorem lastBody?_eq_some_iff {nodes : List Node} {i : Nat} :
    Node.lastBody? nodes = some i ↔
      (∃ n, nodes[i]? = some n ∧ n.name = Node.bodyName) ∧
        ∀ j n, i < j → nodes[j]? = some n → n.name ≠ Node.bodyName := by
  unfold Node.lastBody?
  simp only [Option.map_eq_some_iff, List.findIdx?_eq_some_iff_getElem]
  constructor
  · rintro ⟨k, ⟨hk, hn, hbefore⟩, rfl⟩
    rw [List.length_reverse] at hk
    rw [List.getElem_reverse] at hn
    refine ⟨⟨_, List.getElem?_eq_getElem (by omega), by simpa using hn⟩, fun j n hj hjn => ?_⟩
    obtain ⟨hlt, rfl⟩ := List.getElem?_eq_some_iff.1 hjn
    have := hbefore (nodes.length - 1 - j) (by omega)
    rw [List.getElem_reverse] at this
    have e : nodes.length - 1 - (nodes.length - 1 - j) = j := by omega
    simpa [e] using this
  · rintro ⟨⟨n, hin, hn⟩, hafter⟩
    obtain ⟨hlt, rfl⟩ := List.getElem?_eq_some_iff.1 hin
    have e : nodes.length - 1 - (nodes.length - 1 - i) = i := by omega
    refine ⟨nodes.length - 1 - i, ⟨by rw [List.length_reverse]; omega, ?_, fun j hj => ?_⟩, e⟩
    · rw [List.getElem_reverse]
      simpa [e] using hn
    · rw [List.getElem_reverse]
      simpa using hafter (nodes.length - 1 - j) _ (by omega) (List.getElem?_eq_getElem (by omega))

theorem bodySlot_of_compile {name : String} {source : List UInt8} {root : Node}
    (h : (Node.compile name source).value = .ok root) :
    root.bodySlot = Node.lastBody? root.children := by
  obtain ⟨f, -, rfl⟩ := compile_ok_iff.1 h
  rfl

/-- A tag of that name yields its own inside. -/
theorem evaluate_body {n : Node} (h : n.name = Node.bodyName) :
    evaluate job job.inside n = job.inside n none := by
  have hn : Helper.named? n.name = some .body := by rw [h]; decide
  rw [evaluate_of_named? hn]
  show Render.inside job job.inside n none = _
  rw [← job.inside_eq]

theorem filled_of_no_slot (h : t.bodySlot = none) (bytes : List UInt8) :
    filled job t (some bytes) = filled job t none := by
  simp [filled, childParts, h]

/-- **Layouts are filled from the inside out.** Rendering the first template of a chain gives what
comes of filling each with what came of the one before. They are rendered in the order of the chain,
each one level deeper than the one before and otherwise in the context it started in, with all that
was set aside so far. The bytes go unchanged to the last tag named so at the top of a template,
other such tags yield their own insides, and without such a tag the bytes are lost. -/
theorem layouts_fill_each_other (job : Job) (t : Node) (ts : List Node) (c : Context)
    (h : LayoutChain job t ts) (hc : c.depth + ts.length ≤ job.limit) :
    job.inside t none c = close c.depth (ts.getLastD t) (layers job t none c ts) ∧
    (∀ before, before <+: ts →
      Restores { c with depth := c.depth + before.length } (layers job t none c before).2) ∧
    (∀ before mid, before ++ mid <+: ts →
      (layers job t none c before).2.collected <+:
        (layers job t none c (before ++ mid)).2.collected) ∧
    (∀ name source root i, (Node.compile name source).value = .ok root →
      (root.bodySlot = some i ↔
        (∃ n, root.children[i]? = some n ∧ n.name = Node.bodyName) ∧
          ∀ j n, i < j → root.children[j]? = some n → n.name ≠ Node.bodyName)) ∧
    (∀ n, n.name = Node.bodyName → evaluate job job.inside n = job.inside n none) ∧
    ∀ t' bytes, t'.bodySlot = none → filled job t' (some bytes) = filled job t' none := by
  refine ⟨inside_eq_layers h hc, fun before _ => layers_restores job t none c before,
    fun before mid _ => collected_layers job t none c before mid, fun name source root i hr => ?_,
    fun n => evaluate_body, fun t' bytes hs => filled_of_no_slot hs bytes⟩
  rw [bodySlot_of_compile hr]
  exact lastBody?_eq_some_iff

/-- The literal bytes `block` behind a directive for the layout `layout`. -/
def extending (layout : String) (block : List UInt8) : Node :=
  { Node.leaf "page" false 0 with
    block
    children := [{ Node.leaf Node.extendsName false 0 with
      arguments := [Node.leaf layout false 0] }] }

/-- A body slot between two brackets. -/
def bracketed : Node :=
  { Node.leaf "outer" false 0 with
    block := [0x5B, 0x5D], children := [Node.leaf Node.bodyName false 1], bodySlot := some 0 }

/-- A body slot between two parentheses, in a template that has a layout itself. -/
def parenthesized : Node :=
  { extending "outer" [0x28, 0x29] with
    children := (extending "outer" []).children ++ [Node.leaf Node.bodyName false 1]
    bodySlot := some 1 }

def twoLayouts : Job where
  page := { kind := .index, blog := {} }
  registry := ⟨"", [("middle", parenthesized), ("outer", bracketed)], []⟩

theorem layouts_fill_each_other_twice :
    LayoutChain twoLayouts (extending "middle" [0x78]) [parenthesized, bracketed] ∧
    (Context.start .index).depth + 2 ≤ twoLayouts.limit ∧
    (twoLayouts.inside (extending "middle" [0x78]) none (Context.start .index)).1 =
      [0x5B, 0x28, 0x78, 0x29, 0x5D] := by
  have h : LayoutChain twoLayouts (extending "middle" [0x78]) [parenthesized, bracketed] :=
    ⟨⟨_, rfl, rfl⟩, ⟨_, rfl, rfl⟩, fun _ h => nomatch h⟩
  have hc : (Context.start .index).depth + 2 ≤ twoLayouts.limit := by decide
  refine ⟨h, hc, ?_⟩
  rw [(layouts_fill_each_other twoLayouts _ _ _ h hc).1]
  decide +kernel

end ThemePress.Render
