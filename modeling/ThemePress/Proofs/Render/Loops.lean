import ThemePress.Proofs.Render.Cursors

/-! # Loops

A loop goes through its collection in rounds: in round `i` its inside is rendered with the cursor at
the element `i`, in the context that the rounds before have left (`Job.leftBefore`). Afterwards
scope and cursor are put back, so each round finds them as the loop did.

What is rendered in a round may move cursors and put them back in turn. Where no other loop and no
post block is entered, the cursors are those of the round (`History.unmoved`), and tags that ask for
the place of the loop are answered by its number (`loop_goes_through`). -/

namespace ThemePress.Render

open ThemePress.Text
open ThemePress.Template (Node)

/-- The tag is a loop about `s`. -/
def LoopsAbout (s : Scope) (n : Node) : Prop :=
  n.name = "foreach" ∧
    match s with
    | .post => n.firstArgument?.map (·.name) = some "posts"
    | .tag => n.firstArgument?.map (·.name) = some "tags"
    | .navigation => n.firstArgument?.map (·.name) = some "navigation"
    | .index | .author => False

/-- The context in which a loop about `s` renders its inside for the element `i`. -/
def Context.atElement (c : Context) (s : Scope) (i : Nat) : Context :=
  { c.setCursor s i with scope := s }

/-! ### Rounds -/

/-- Renders the inside of a loop about `s` for the element `i`. -/
def Job.round (job : Job) (n : Node) (s : Scope) (i : Nat) : Action (StateM Context) :=
  Action.atCursor s i (Action.inScope s (job.inside n none))

/-- The context that the rounds before the `i`-th leave. -/
def Job.leftBefore (job : Job) (n : Node) (s : Scope) (c : Context) : Nat → Context
  | 0 => c
  | i + 1 => (job.round n s i (job.leftBefore n s c i)).2

section
variable {job : Job} {n : Node} {s : Scope}

theorem leftBefore_restores (c : Context) (i : Nat) : Restores c (job.leftBefore n s c i) := by
  induction i with
  | zero => exact .refl c
  | succ i ih => exact ih.trans (Job.inside_restores n none _).inScope.atCursor

/-- Rounds run one after the other. -/
theorem times_round (count : Nat) (c : Context) :
    Action.times count (job.round n s) c =
      ((List.range count).flatMap fun i => (job.round n s i (job.leftBefore n s c i)).1,
        job.leftBefore n s c count) := by
  unfold Action.times
  induction count with
  | zero => rfl
  | succ count ih =>
    have hbind : ∀ (x : Action (StateM Context)) (k : List UInt8 → Action (StateM Context)),
        (x >>= k) c = k (x c).1 (x c).2 := fun _ _ => rfl
    rw [List.range_succ, List.foldlM_append, List.flatMap_append, List.flatMap_singleton, hbind, ih]
    rfl

/-! ### The whole loop -/

theorem evaluate_loop (h : LoopsAbout s n) (c : Context) :
    evaluate job job.inside n c =
      if c.count job.page s = 0 then (n.elseBranch?.map (job.inside · none c)).getD ([], c)
      else Action.times (c.count job.page s) (job.round n s) c := by
  have hloop : evaluate job job.inside n c =
      (occurrence job job.inside n).each s (c.count job.page s) c := by
    have hname : Helper.named? n.name = some .loop := by rw [h.1]; decide
    rw [evaluate_of_named? hname]
    show (occurrence job job.inside n).loop job c = _
    have hnode : (occurrence job job.inside n).node = n := rfl
    have hwhich := h.2
    unfold Occurrence.loop
    rw [hnode]
    cases s with
    | post | tag | navigation =>
      rw [hwhich]
      rfl
    | index | author => exact hwhich.elim
  have hinside : Render.inside job job.inside = job.inside := job.inside_eq.symm
  rw [hloop, Occurrence.each]
  split
  · unfold Occurrence.otherwise occurrence
    rw [hinside]
    cases n.elseBranch? <;> rfl
  · unfold occurrence
    rw [hinside]
    rfl

/-! ### Within a round -/

theorem postTags_congr {p : Page} {c c' : Context} (h : c'.postIndex = c.postIndex) :
    c'.postTags p = c.postTags p := by
  rw [Context.postTags, Context.post?, h]
  rfl

/-- Where a round looks at its collection, it stands at the element of the round. -/
theorem iteration?_in_round (h : LoopsAbout s n) {c : Context} {i : Nat} {v : Visit}
    (hv : v ∈ job.visits n none ((job.leftBefore n s c i).atElement s i)) (hm : v.moves = 0)
    (hs : v.context.scope = s) :
    v.context.iteration? job.page = some (i, c.count job.page s) := by
  have hcursor := (job.observed_inside n none _).2.unmoved hv hm
  have hleft : Restores c (job.leftBefore n s c i) := leftBefore_restores c i
  unfold Context.iteration?
  rw [hs]
  cases s with
  | post =>
    have hi : v.context.postIndex = i := hcursor .post
    dsimp only
    rw [hi]
    rfl
  | tag =>
    -- The length is that of the tags of a post, so the cursor of the posts matters as well.
    have hi : v.context.tagIndex = i := hcursor .tag
    have hpost : v.context.postIndex = c.postIndex := (hcursor .post).trans hleft.postIndex
    dsimp only
    rw [hi, postTags_congr hpost]
    rfl
  | navigation =>
    have hi : v.context.navigationIndex = i := hcursor .navigation
    dsimp only
    rw [hi]
    rfl
  | index | author => exact h.2.elim

/-- **A loop goes through its collection, and every round knows its place.** With no elements it
yields its `else` branch, if it has one. Otherwise it yields one round after the other, each with
the cursor of the loop at its element and the context changed by the rounds before only as rendering
changes contexts. Wherever in a round a tag is rendered in the scope of the loop and outside of
further loops and post blocks, a tag that asks for the place of the loop yields something just when
the answer is positive, for every collection whose length fits into 64 bits. -/
theorem loop_goes_through (h : LoopsAbout s n) (c : Context) :
    let count := c.count job.page s
    let start i := (job.leftBefore n s c i).atElement s i
    (count = 0 →
      evaluate job job.inside n c = (n.elseBranch?.map (job.inside · none c)).getD ([], c)) ∧
    (count ≠ 0 →
      evaluate job job.inside n c =
        ((List.range count).flatMap fun i => (job.inside n none (start i)).1,
          job.leftBefore n s c count)) ∧
    ∀ i < count,
      Restores c (job.leftBefore n s c i) ∧
      job.observed.inside n none 0 (start i) =
        ((job.inside n none (start i)).1, (job.inside n none (start i)).2,
          job.visits n none (start i)) ∧
      ∀ v ∈ job.visits n none (start i),
        v.output = (evaluate job job.inside v.node v.context).1 ∧
        (v.moves = 0 → v.context.scope = s → count < Decimal.wordCount →
          ∀ (q : Question) (tag : Node), tag.name = q.name →
            ((evaluate job job.inside tag v.context).1 ≠ [] ↔ q.Holds i count)) := by
  intro count start
  refine ⟨fun hempty => ?_, fun hcount => ?_, fun i hi => ?_⟩
  · rw [evaluate_loop h, if_pos hempty]
  · rw [evaluate_loop h, if_neg hcount, times_round]
    rfl
  · obtain ⟨hrun, hhistory⟩ := job.observed_inside n none (start i)
    refine ⟨leftBefore_restores c i, hrun, fun v hv => ⟨hhistory.output hv, ?_⟩⟩
    intro hm hs hc q tag htag
    rw [q.output_ne_nil htag (iteration?_in_round h hv hm hs), q.test_iff_of_lt hi hc]

end

/-- A page with two posts. -/
def twoPosts : Job where
  page :=
    { kind := .index, blog := {}, posts := [{ id := 1, title := "A" }, { id := 2, title := "B" }] }
  registry := .empty ""

/-- Shows the title of the first post and that of each post, and marks the last. -/
def titles : Node :=
  let title := Node.leaf "title" false 0
  { Node.leaf "foreach" false 0 with
    arguments := [Node.leaf "posts" false 0]
    children := [{ Node.leaf "post" false 0 with children := [title] }, title,
      Node.leaf "@last" false 0] }

theorem loop_goes_through_two :
    let c := Context.start .index
    let start i := (twoPosts.leftBefore titles .post c i).atElement .post i
    LoopsAbout .post titles ∧ c.count twoPosts.page .post < Decimal.wordCount ∧
      (evaluate twoPosts twoPosts.inside titles c).1 = Utf8.bytesOf "AAAB1" ∧
      ∀ i < 2, ∀ v ∈ twoPosts.visits titles none (start i), v.moves = 0 →
        v.context.scope = .post → v.node.name = "@last" → (v.output ≠ [] ↔ i + 1 = 2) := by
  intro c start
  have h : LoopsAbout .post titles := ⟨rfl, rfl⟩
  have hc : c.count twoPosts.page .post < Decimal.wordCount := by decide
  obtain ⟨-, hrounds, hplace⟩ := loop_goes_through h c
  refine ⟨h, hc, ?_, fun i hi v hv hm hs hname => ?_⟩
  · rw [hrounds (by decide)]
    decide +kernel
  · obtain ⟨houtput, hquestions⟩ := (hplace i hi).2.2 v hv
    rw [houtput]
    exact hquestions hm hs hc .last v.node hname

end ThemePress.Render
