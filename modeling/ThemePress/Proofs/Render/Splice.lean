import ThemePress.Proofs.Template.Order
import ThemePress.Render.Evaluate

/-! # Outputs in document order

`interleave block outputs` are the bytes of a block cut at the places of the outputs, with each
output between the pieces where it belongs. Putting one output in after the other gives just that
when the places never go back and never lie beyond the block (`spliceFrom_eq`): what has been put in
so far then lies in front of the place where the next output goes. Running actions keeps their
places, so actions at such places are run and put in just as well (`splice_eq_interleaved`). -/

namespace ThemePress.Render

open ThemePress.Template

/-! ### Interleaving -/

/-- The bytes of a block from `place` on, with outputs at their places. -/
def interleaveFrom (block : List UInt8) (place : Nat) : List (Nat × List UInt8) → List UInt8
  | [] => block.drop place
  | (next, bytes) :: rest =>
    (block.take next).drop place ++ (bytes ++ interleaveFrom block next rest)

/-- The bytes of a block with outputs at their places. -/
def interleave (block : List UInt8) (outputs : List (Nat × List UInt8)) : List UInt8 :=
  interleaveFrom block 0 outputs

/-- No output is put in beyond the end of what it is put into. -/
def InPlace (drift : Nat) (output : List UInt8) : List (Nat × List UInt8) → Prop
  | [] => True
  | (place, bytes) :: rest =>
    place + drift ≤ output.length ∧
      InPlace (drift + bytes.length) (splice output (place + drift) bytes) rest

/-- Places that never go back and never lie beyond `length` bytes. -/
structure InOrder (length : Nat) (places : List Nat) : Prop where
  sorted : places.Pairwise (· ≤ ·)
  le_length : ∀ p ∈ places, p ≤ length

theorem InOrder.sublist {length : Nat} {places places' : List Nat} (h : InOrder length places)
    (hs : places'.Sublist places) : InOrder length places' :=
  ⟨h.sorted.sublist hs, fun p hp => h.le_length p (hs.subset hp)⟩

section
variable {block done : List UInt8} {place drift : Nat}

/-- Putting an output in moves what is done up to its place. -/
theorem splice_done (hl : done.length = place + drift) {next : Nat} (hp : place ≤ next)
    (hn : next ≤ block.length) (bytes : List UInt8) :
    splice (done ++ block.drop place) (next + drift) bytes =
      (done ++ ((block.take next).drop place ++ bytes)) ++ block.drop next ∧
    (done ++ ((block.take next).drop place ++ bytes)).length = next + (drift + bytes.length) := by
  have hlit : ((block.take next).drop place).length = next - place := by
    rw [List.length_drop, List.length_take]
    omega
  have hd : block.drop place = (block.take next).drop place ++ block.drop next := by
    conv => lhs; rw [← List.take_append_drop next block]
    rw [List.drop_append_of_le_length (by rw [List.length_take]; omega)]
  have ht : next + drift = (done ++ (block.take next).drop place).length := by
    rw [List.length_append, hlit]
    omega
  constructor
  · rw [hd, ← List.append_assoc, ht, splice, List.take_left, List.drop_left]
    simp only [List.append_assoc]
  · rw [← List.append_assoc, List.length_append, ← ht]
    omega

/-- **One after the other, outputs come to stand between the pieces of the block.** -/
theorem spliceFrom_eq (hl : done.length = place + drift) {outputs : List (Nat × List UInt8)}
    (h : InOrder block.length (outputs.map Prod.fst)) (hp : ∀ o ∈ outputs, place ≤ o.1) :
    spliceFrom drift (done ++ block.drop place) outputs =
        done ++ interleaveFrom block place outputs ∧
      InPlace drift (done ++ block.drop place) outputs := by
  induction outputs generalizing done place drift with
  | nil => exact ⟨rfl, trivial⟩
  | cons o rest ih =>
    obtain ⟨next, bytes⟩ := o
    have hle := hp (next, bytes) (List.mem_cons_self ..)
    have hn := h.le_length next (List.mem_cons_self ..)
    have hr : ∀ o ∈ rest, next ≤ o.1 := fun o ho =>
      (List.pairwise_cons.1 h.sorted).1 o.1 (List.mem_map_of_mem ho)
    obtain ⟨hs, hl'⟩ := splice_done hl hle hn bytes
    obtain ⟨he, hi⟩ := ih hl' (h.sublist (List.sublist_cons_self ..)) hr
    rw [spliceFrom, InPlace, interleaveFrom, hs]
    refine ⟨?_, ?_, hi⟩
    · rw [he]
      simp only [List.append_assoc]
    · simp only [List.length_append, List.length_drop]
      omega

end

theorem spliceAll_eq {block : List UInt8} {outputs : List (Nat × List UInt8)}
    (h : InOrder block.length (outputs.map Prod.fst)) :
    spliceAll block outputs = interleave block outputs ∧ InPlace 0 block outputs := by
  have := @spliceFrom_eq block [] 0 0 rfl outputs h fun _ _ => Nat.zero_le _
  simpa [spliceAll, interleave] using this

/-! ### Running actions -/

/-- Running actions keeps their places. -/
theorem places_outputs (parts : List (Nat × Action (StateM Context))) (c : Context) :
    (Action.outputs parts c).1.map Prod.fst = parts.map Prod.fst := by
  induction parts generalizing c with
  | nil => rfl
  | cons part rest ih =>
    obtain ⟨place, a⟩ := part
    exact congrArg (place :: ·) (ih (a c).2)

/-- Runs actions one after the other and lets their outputs stand between the pieces of a block. -/
def Action.interleaved {m : Type → Type} [Monad m] (block : List UInt8)
    (parts : List (Nat × Action m)) : Action m := do
  return interleave block (← Action.outputs parts)

theorem splice_eq_interleaved {block : List UInt8} {parts : List (Nat × Action (StateM Context))}
    (h : InOrder block.length (parts.map Prod.fst)) :
    Action.splice block parts = Action.interleaved block parts ∧
      ∀ c, InPlace 0 block (Action.outputs parts c).1 := by
  have ho : ∀ c, InOrder block.length ((Action.outputs parts c).1.map Prod.fst) := fun c => by
    rw [places_outputs]
    exact h
  refine ⟨funext fun c => ?_, fun c => (spliceAll_eq (ho c)).2⟩
  exact congrArg (·, (Action.outputs parts c).2) (spliceAll_eq (ho c)).1

end ThemePress.Render
