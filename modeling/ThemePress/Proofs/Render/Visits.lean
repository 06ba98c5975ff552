import ThemePress.Proofs.Render.Levels

/-! # The tags that are rendered

`Observed` carries a context and keeps every tag that is rendered, in order, with the context that
it finds and with what it yields. It also counts the loops and post blocks around a tag, which move
a cursor while their insides are rendered. `Job.observed` renders trees in it by the same
`Occurrence.value` as everywhere else. Keeping the tags changes nothing: bytes and contexts are
those of `Job.inside` and `evaluate` (`Job.observed_inside`, `Job.observed_tag`).

What is kept is a `History`: a list of tags put together in the few ways in which rendering changes
a context. One case analysis over the helpers shows that (`composing_recorded`), and what holds at
every tag of a rendering follows by induction on histories. -/

namespace ThemePress.Render

open ThemePress.Template (Node)

/-- A tag at the moment when it is rendered. -/
structure Visit where
  node : Node
  context : Context
  /-- How many loops and post blocks have been entered around it. -/
  moves : Nat
  /-- What it yields. -/
  output : List UInt8

/-- Carries a context, keeps the tags that are rendered, and knows how many loops and post blocks
are entered. -/
def Observed (α : Type) : Type :=
  Nat → Context → α × Context × List Visit

namespace Observed

instance : Monad Observed where
  pure x _ c := (x, c, [])
  bind x k moves c :=
    let r := x moves c
    let r' := k r.1 moves r.2.1
    (r'.1, r'.2.1, r.2.2 ++ r'.2.2)

instance : MonadStateOf Context Observed where
  get _ c := (c, c, [])
  set c _ _ := ((), c, [])
  modifyGet f _ c := ((f c).1, (f c).2, [])

/-- The action with one more loop or post block entered. -/
def moved (a : Action Observed) : Action Observed := fun moves c => a (moves + 1) c

/-- The action of a tag, with the tag kept in front of those that it renders. -/
def visit (n : Node) (a : Action Observed) : Action Observed := fun moves c =>
  let r := a moves c
  (r.1, r.2.1, ⟨n, c, moves, r.1⟩ :: r.2.2)

end Observed

/-- Does the tag move a cursor while its inside is rendered? -/
def movesCursor (n : Node) : Bool :=
  (Helper.named? n.name).any Helper.moves

/-- Does the tag set itself aside? -/
def setsAside (n : Node) : Bool :=
  Helper.named? n.name == some .contentFor

/-- Renders tags, keeps them, and counts the loops and post blocks around them. -/
def observer (job : Job) (deeper : Deeper Observed) : Renderer Observed where
  job
  deeper
  tag o :=
    let content := if movesCursor o.node then .moved o.content else o.content
    .visit o.node (Occurrence.value job deeper { o with content })

/-- Renders the inside of a node and keeps the tags, with the given number of levels still to
come. -/
def observeTo (job : Job) : Nat → Deeper Observed
  | 0 => fun _ _ => Action.nothing
  | levels + 1 => (observer job (observeTo job levels)).inside

def Job.observed (job : Job) : Renderer Observed :=
  observer job (observeTo job (job.limit + 1))

/-- The tags that are rendered for the inside of a node, in order. -/
def Job.visits (job : Job) (n : Node) (fill : Option (List UInt8)) (c : Context) : List Visit :=
  (job.observed.inside n fill 0 c).2.2

/-- The tags that are rendered for a tag, in order. The tag itself is the first. -/
def Job.tagVisits (job : Job) (n : Node) (c : Context) : List Visit :=
  (job.observed.evaluate n 0 c).2.2

/-! ### Histories -/

/-- How the contexts `c` and `c'` and the tags in between follow from each other when `moves` loops
and post blocks have been entered. -/
inductive History (job : Job) : Nat → Context → List Visit → Context → Prop where
  | nil {moves : Nat} (c : Context) : History job moves c [] c
  | append {moves : Nat} {c c' c'' : Context} {visits visits' : List Visit}
      (first : History job moves c visits c') (rest : History job moves c' visits' c'') :
    History job moves c (visits ++ visits') c''
  | warn {moves : Nat} (c : Context) (w : Warning) : History job moves c [] (c.warn w)
  | visit {moves : Nat} {c c' : Context} {visits : List Visit} {n : Node}
      (h : setsAside n = false) (inner : History job moves c visits c') :
    History job moves c (⟨n, c, moves, (evaluate job job.inside n c).1⟩ :: visits) c'
  | collect {moves : Nat} (c : Context) {n : Node} (h : setsAside n = true) :
    History job moves c [⟨n, c, moves, (evaluate job job.inside n c).1⟩] (c.collect n)
  | inScope {moves : Nat} {c c' : Context} {visits : List Visit} {s : Scope}
      (inner : History job moves { c with scope := s } visits c') :
    History job moves c visits { c' with scope := c.scope }
  | moved {moves : Nat} {c c' : Context} {visits : List Visit} {s : Scope} {i : Nat}
      (h : job.page.Sets s i)
      (inner : History job (moves + 1) { c.setCursor s i with scope := s } visits c') :
    History job moves c visits
      (Context.setCursor { c' with scope := (c.setCursor s i).scope } s (c.cursor s))
  | nested {moves : Nat} {c c' : Context} {visits : List Visit}
      (inner : History job moves c.enter visits c') : History job moves c visits c'.leave

theorem History.restores {job : Job} {moves : Nat} {c c' : Context} {visits : List Visit}
    (h : History job moves c visits c') : Restores c c' := by
  induction h with
  | nil c => exact .refl c
  | append _ _ ih ih' => exact ih.trans ih'
  | warn c w => exact .warn c w
  | visit _ _ ih => exact ih
  | collect c _ => exact .collect c _
  | inScope _ ih => exact ih.inScope
  | moved _ _ ih => exact ih.inScope.atCursor
  | nested _ ih => exact ih.nested

/-- From the context `c` the observed action does what the other one does, and what it keeps is a
history. -/
def RecordedAt {α : Type} (job : Job) (moves : Nat) (c : Context) (a : StateM Context α)
    (t : Observed α) : Prop :=
  ∃ visits, t moves c = ((a c).1, (a c).2, visits) ∧ History job moves c visits (a c).2

namespace RecordedAt

variable {α β : Type} {job : Job} {moves : Nat} {c : Context}

theorem bind {x : StateM Context α} {x' : Observed α} {k : α → StateM Context β}
    {k' : α → Observed β} (hx : RecordedAt job moves c x x')
    (hk : RecordedAt job moves (x c).2 (k (x c).1) (k' (x c).1)) :
    RecordedAt job moves c (x >>= k) (x' >>= k') := by
  obtain ⟨visits, hrun, hhistory⟩ := hx
  obtain ⟨visits', hrun', hhistory'⟩ := hk
  refine ⟨visits ++ visits', ?_, hhistory.append hhistory'⟩
  show ((k' (x' moves c).1 moves (x' moves c).2.1).1, _, _ ++ _) = _
  rw [hrun]
  show (_, _, visits ++ (k' (x c).1 moves (x c).2).2.2) = _
  rw [hrun']
  rfl

variable {a : Action (StateM Context)} {t : Action Observed}

theorem visit {n : Node} (hn : setsAside n = false)
    (ha : (a c).1 = (evaluate job job.inside n c).1) (h : RecordedAt job moves c a t) :
    RecordedAt job moves c a (.visit n t) := by
  obtain ⟨visits, hrun, hhistory⟩ := h
  refine ⟨_, ?_, .visit hn hhistory⟩
  rw [Observed.visit, hrun, ha]

/-- Actions that do the same from other contexts up to the changes `f` do the same here. -/
theorem of_run {d : Context} {moves' : Nat} {a' : Action (StateM Context)} {t' : Action Observed}
    (f : Context → Context) (h : RecordedAt job moves' d a t) (ha : a' c = ((a d).1, f (a d).2))
    (ht : t' moves c = ((t moves' d).1, f (t moves' d).2.1, (t moves' d).2.2))
    (hh : ∀ visits, History job moves' d visits (a d).2 →
      History job moves c visits (f (a d).2)) :
    RecordedAt job moves c a' t' := by
  obtain ⟨visits, hrun, hhistory⟩ := h
  refine ⟨visits, ?_, ?_⟩
  · rw [ht, hrun, ha]
  · rw [ha]
    exact hh visits hhistory

end RecordedAt

/-! ### Running observed actions -/

section
variable {c : Context} {limit moves : Nat}

variable (t : Action Observed)

theorem Observed.inScope_run (s : Scope) :
    Action.inScope s t moves c =
      ((t moves { c with scope := s }).1,
        { (t moves { c with scope := s }).2.1 with scope := c.scope },
        (t moves { c with scope := s }).2.2) := by
  show (_, _, [] ++ ([] ++ (_ ++ ([] ++ [])))) = _
  simp only [List.nil_append, List.append_nil]
  rfl

theorem Observed.atCursor_run (s : Scope) (i : Nat) :
    Action.atCursor s i t moves c =
      ((t moves (c.setCursor s i)).1,
        (t moves (c.setCursor s i)).2.1.setCursor s (c.cursor s),
        (t moves (c.setCursor s i)).2.2) := by
  show (_, _, [] ++ ([] ++ (_ ++ ([] ++ [])))) = _
  simp only [List.nil_append, List.append_nil]
  rfl

theorem Observed.nested_run (h : c.depth < limit) (w : Warning) :
    Action.nested limit w t moves c =
      ((t moves c.enter).1, (t moves c.enter).2.1.leave, (t moves c.enter).2.2) := by
  show (if c.depth < limit then _ else _ : Action Observed) moves c = _
  rw [if_pos h]
  show (_, _, [] ++ (_ ++ ([] ++ []))) = _
  simp only [List.nil_append, List.append_nil]
  rfl

theorem Observed.nested_run_refuse (h : ¬ c.depth < limit) (w : Warning) :
    Action.nested limit w t moves c = ([], c.warn w, []) := by
  show (if c.depth < limit then _ else _ : Action Observed) moves c = _
  rw [if_neg h]
  rfl

end

/-! ### Everything that is rendered is a history -/

/-- The observed action records the other one as long as the context lets no more than `levels`
levels be entered. -/
def Recorded (job : Job) (levels : Nat) (α : Type) (a : StateM Context α) (t : Observed α) : Prop :=
  ∀ moves c, job.limit < levels + c.depth → RecordedAt job moves c a t

theorem composing_recorded (job : Job) (levels : Nat) :
    Composing job.limit job.limit Eq (Recorded job (levels + 1))
      (fun a t => ∀ moves c, c.depth ≤ job.limit → job.limit < levels + c.depth →
        RecordedAt job moves c a t) where
  refl _ := rfl
  place {n n'} h := ⟨n.position, by cases h; cases n; rfl⟩
  pure x moves c _ := ⟨[], rfl, .nil c⟩
  bind {α β x x' k k'} hx hk moves c hc := by
    have hx := hx moves c hc
    obtain ⟨visits, -, hhistory⟩ := id hx
    exact hx.bind (hk _ moves _ (by rw [hhistory.restores.depth]; exact hc))
  read {α β f} _ k k' hk moves c hc := by
    obtain ⟨visits, hrun, hhistory⟩ := hk c moves c hc
    exact ⟨visits, hrun, hhistory⟩
  find {β q} _ k k' hnone hsome moves c hc := by
    have h : RecordedAt job moves c (k (c.collected.find? q)) (k' (c.collected.find? q)) := by
      cases c.collected.find? q with
      | none => exact hnone moves c hc
      | some n => exact hsome n n rfl moves c hc
    obtain ⟨visits, hrun, hhistory⟩ := h
    exact ⟨visits, hrun, hhistory⟩
  warn w moves c _ := ⟨[], rfl, .warn c w⟩
  inScope s a t h moves c hc :=
    .of_run ({ · with scope := c.scope }) (h moves { c with scope := s } hc) (inScope_run a s c)
      (Observed.inScope_run t s) fun _ => .inScope
  nested {w} _ a t h moves c hc := by
    by_cases hd : c.depth < job.limit
    · have h := h moves c.enter hd (by simp only [Context.enter]; omega)
      refine .of_run Context.leave h (nested_run a hd w) ?_ fun _ => .nested
      exact Observed.nested_run t hd w
    · refine ⟨[], ?_, ?_⟩
      · rw [Observed.nested_run_refuse t hd, nested_run_refuse a hd]
      · rw [nested_run_refuse a hd]
        exact .warn c w

variable {job : Job} {levels : Nat}

/-- The inside of a tag that moves a cursor. -/
theorem Recorded.moved {a : Action (StateM Context)} {t : Action Observed}
    (h : Recorded job levels _ a t) {s : Scope} {i : Nat} (hs : job.page.Sets s i) :
    Recorded job levels _ (Action.atCursor s i (Action.inScope s a))
      (Action.atCursor s i (Action.inScope s (Observed.moved t))) := by
  intro moves c hc
  have h := h (moves + 1) { c.setCursor s i with scope := s } (by cases s <;> exact hc)
  refine .of_run (fun c' => Context.setCursor { c' with scope := (c.setCursor s i).scope } s
    (c.cursor s)) h rfl ?_ fun _ => .moved hs
  rw [Observed.atCursor_run, Observed.inScope_run]
  rfl

/-- A tag is kept, and what it renders is recorded when its parts are. -/
theorem recorded_tag (past : Deeper (StateM Context))
    (hd : ∀ n n' fill, n = n' → ∀ moves c, c.depth ≤ job.limit → job.limit < levels + c.depth →
      RecordedAt job moves c (renderTo job past levels n fill) (observeTo job levels n' fill)) :
    TagRel Eq (Recorded job (levels + 1)) (plain job (renderTo job past levels))
      (observer job (observeTo job levels)) := by
  intro n n' hn ha hi hb moves c hc
  have hcomposing := composing_recorded job levels
  have houtput := congrArg Prod.fst (evaluate_renderTo past n hc)
  obtain ⟨position, rfl⟩ := hcomposing.place hn
  rw [evaluate_plain] at houtput
  rw [Renderer.evaluate_eq] at houtput ⊢
  rw [Renderer.evaluate_eq]
  generalize renderTo job past levels = deeper at *
  -- Blocks that are set aside are kept as nodes, which the common case analysis leaves out.
  by_cases hcollect : Helper.named? n.name = some .contentFor
  · have hsets : setsAside n := by simp [setsAside, hcollect]
    refine ⟨[⟨n, c, moves, (evaluate job job.inside n c).1⟩], ?_, ?_⟩
    · rw [← houtput, ← hn]
      show Observed.visit n (Occurrence.value job _ _) moves c = _
      simp only [plain, Occurrence.value, Renderer.occurrence, hcollect]
      rfl
    · simp only [plain, Occurrence.value, Renderer.occurrence, hcollect]
      exact .collect c hsets
  · have hsets : setsAside { n with position } = false := by simpa [setsAside] using hcollect
    have hsame := congrArg (fun n => (evaluate job job.inside n c).1) hn
    refine .visit hsets (houtput.trans hsame) ?_
    show RecordedAt _ _ _ (Occurrence.value job deeper _) (Occurrence.value job _ _)
    unfold Occurrence.value Renderer.occurrence
    dsimp only
    cases hhelper : Helper.named? n.name with
    | none => exact hcomposing.refuse _ moves c hc
    | some helper =>
      have hmoves : movesCursor { n with position } = helper.moves := by
        rw [movesCursor, hhelper]
        rfl
      rw [hhelper] at hcollect
      refine hcomposing.run (.refl job) hd helper (fun h => absurd (h ▸ rfl) hcollect) ?_ ha ?_ hb
        moves c hc
      · intro hm s i hs
        rw [if_pos (hmoves.trans hm)]
        exact Recorded.moved hi hs
      · intro hm
        rw [if_neg (by simp [hmoves, hm])]
        exact hi

/-- Rendering with as many levels as the context needs is recorded. -/
theorem observeTo_recorded (past : Deeper (StateM Context)) (levels : Nat) (n n' : Node)
    (fill : Option (List UInt8)) (hn : n = n') (moves : Nat) (c : Context)
    (hc : c.depth ≤ job.limit) (hl : job.limit < levels + c.depth) :
    RecordedAt job moves c (renderTo job past levels n fill) (observeTo job levels n' fill) := by
  induction levels generalizing n n' fill moves c with
  | zero => omega
  | succ levels ih =>
    have hcomposing := composing_recorded job levels
    rw [renderTo, inside_plain]
    exact (hcomposing.node (.refl job) ih (recorded_tag past ih) hn).2 fill moves c hl

theorem Job.observed_recorded (job : Job) (n : Node) (moves : Nat) (c : Context) :
    RecordedAt job moves c (evaluate job job.inside n) (job.observed.evaluate n) ∧
      ∀ fill, RecordedAt job moves c (job.inside n fill) (job.observed.inside n fill) := by
  have hd : ∀ n n' fill, n = n' → ∀ moves c, c.depth ≤ job.limit →
      job.limit < job.limit + 1 + c.depth →
      RecordedAt job moves c (job.inside n fill) (observeTo job (job.limit + 1) n' fill) :=
    observeTo_recorded _ _
  have hcomposing := composing_recorded job (job.limit + 1)
  have hnode : Recorded job (job.limit + 2) _
        ((plain job job.inside).evaluate n) (job.observed.evaluate n) ∧
      ∀ fill, Recorded job (job.limit + 2) _
        ((plain job job.inside).inside n fill) (job.observed.inside n fill) :=
    hcomposing.node (.refl job) hd (recorded_tag _ hd) rfl
  have hinside : job.inside = (plain job job.inside).inside := by
    rw [← inside_plain]
    exact job.inside_eq
  rw [evaluate_plain]
  refine ⟨hnode.1 moves c (by omega), fun fill => ?_⟩
  have hrecorded := hnode.2 fill moves c (by omega)
  rwa [← hinside] at hrecorded

/-- **The tags that are kept are those of the rendering**, which yields the same bytes and leaves
the same context when they are kept. -/
theorem Job.observed_inside (job : Job) (n : Node) (fill : Option (List UInt8)) (c : Context) :
    job.observed.inside n fill 0 c =
        ((job.inside n fill c).1, (job.inside n fill c).2, job.visits n fill c) ∧
      History job 0 c (job.visits n fill c) (job.inside n fill c).2 := by
  obtain ⟨visits, hrun, hhistory⟩ := (job.observed_recorded n 0 c).2 fill
  obtain rfl : visits = job.visits n fill c := by rw [Job.visits, hrun]
  exact ⟨hrun, hhistory⟩

theorem Job.observed_tag (job : Job) (n : Node) (c : Context) :
    job.observed.evaluate n 0 c =
        ((evaluate job job.inside n c).1, (evaluate job job.inside n c).2, job.tagVisits n c) ∧
      History job 0 c (job.tagVisits n c) (evaluate job job.inside n c).2 := by
  obtain ⟨visits, hrun, hhistory⟩ := (job.observed_recorded n 0 c).1
  obtain rfl : visits = job.tagVisits n c := by rw [Job.tagVisits, hrun]
  exact ⟨hrun, hhistory⟩

/-! ### What holds at every tag -/

theorem Context.cursor_setCursor (c : Context) (s : Scope) (i : Nat) (s' : Scope) :
    (c.setCursor s i).cursor s' = i ∨ (c.setCursor s i).cursor s' = c.cursor s' := by
  cases s <;> cases s' <;> first | exact .inl rfl | exact .inr rfl

namespace History

variable {moves : Nat} {c c' : Context} {visits : List Visit}

theorem output (h : History job moves c visits c') {v : Visit} (hv : v ∈ visits) :
    v.output = (evaluate job job.inside v.node v.context).1 := by
  induction h with
  | nil | warn => exact nomatch hv
  | append _ _ ih ih' => exact (List.mem_append.1 hv).elim ih ih'
  | visit _ _ ih =>
    obtain rfl | hv := List.mem_cons.1 hv
    · rfl
    · exact ih hv
  | collect =>
    obtain rfl := List.mem_singleton.1 hv
    rfl
  | inScope _ ih | moved _ _ ih | nested _ ih => exact ih hv

/-- What depends on the cursors only, and stays true when a loop or a post block sets one, is true
at every tag. -/
theorem invariant {P : Nat → Context → Prop}
    (hcursors : ∀ {moves c c'}, (∀ s, c'.cursor s = c.cursor s) → P moves c → P moves c')
    (hsets : ∀ {moves c s i}, job.page.Sets s i → P moves c → P (moves + 1) (c.setCursor s i))
    (h : History job moves c visits c') (hc : P moves c) {v : Visit} (hv : v ∈ visits) :
    P v.moves v.context := by
  induction h with
  | nil | warn => exact nomatch hv
  | append first _ ih ih' =>
    obtain hv | hv := List.mem_append.1 hv
    · exact ih hc hv
    · exact ih' (hcursors first.restores.cursor hc) hv
  | visit _ _ ih =>
    obtain rfl | hv := List.mem_cons.1 hv
    · exact hc
    · exact ih hc hv
  | collect =>
    obtain rfl := List.mem_singleton.1 hv
    exact hc
  | inScope _ ih => exact ih (hcursors (fun s => by cases s <;> rfl) hc) hv
  | moved hs _ ih => exact ih (hcursors (fun s => by cases s <;> rfl) (hsets hs hc)) hv
  | nested _ ih => exact ih (hcursors (fun s => by cases s <;> rfl) hc) hv

/-- Outside of further loops and post blocks the cursors stay where they are. -/
theorem unmoved (h : History job moves c visits c') {v : Visit} (hv : v ∈ visits)
    (hm : v.moves = moves) (s : Scope) : v.context.cursor s = c.cursor s := by
  have hinvariant := h.invariant
    (P := fun m k => moves ≤ m ∧ (m = moves → ∀ s, k.cursor s = c.cursor s))
    (fun hs hp => ⟨hp.1, fun hm s => (hs s).trans (hp.2 hm s)⟩)
    (fun _ hp => ⟨Nat.le_succ_of_le hp.1, fun hm => absurd hp.1 (by omega)⟩)
    ⟨Nat.le_refl _, fun _ _ => rfl⟩ hv
  exact hinvariant.2 hm s

/-- Cursors that stand below a bound stay below it when every loop stays below it. -/
theorem cursor_lt {bound : Nat} (hb : ∀ s i, job.page.Sets s i → i < bound)
    (h : History job moves c visits c') (hc : ∀ s, c.cursor s < bound) {v : Visit}
    (hv : v ∈ visits) (s : Scope) : v.context.cursor s < bound := by
  refine h.invariant (P := fun _ k => ∀ s, k.cursor s < bound)
    (fun hs hp s => by rw [hs]; exact hp s) (fun {_ k s i} hs hp s' => ?_) hc hv s
  obtain h | h := k.cursor_setCursor s i s'
  · rw [h]
    exact hb s i hs
  · rw [h]
    exact hp s'

end History

/-- The blocks that set themselves aside, in order. -/
def blocksOf (visits : List Visit) : List Node :=
  (visits.map (·.node)).filter setsAside

theorem blocksOf_append (visits visits' : List Visit) :
    blocksOf (visits ++ visits') = blocksOf visits ++ blocksOf visits' := by
  rw [blocksOf, List.map_append, List.filter_append]
  rfl

theorem blocksOf_cons_of_pos {v : Visit} (h : setsAside v.node = true) (visits : List Visit) :
    blocksOf (v :: visits) = v.node :: blocksOf visits :=
  List.filter_cons_of_pos h

theorem blocksOf_cons_of_neg {v : Visit} (h : setsAside v.node = false) (visits : List Visit) :
    blocksOf (v :: visits) = blocksOf visits :=
  List.filter_cons_of_neg (by simp [h])

namespace History

variable {moves : Nat} {c c' : Context} {visits : List Visit}

/-- What is set aside in the end is what was before and the blocks that set themselves aside. -/
theorem collected (h : History job moves c visits c') :
    c'.collected = c.collected ++ blocksOf visits := by
  induction h with
  | nil | warn => exact (List.append_nil _).symm
  | append _ _ ih ih' => rw [ih', ih, blocksOf_append, List.append_assoc]
  | visit hn _ ih => rw [ih, blocksOf_cons_of_neg hn]
  | collect c hn => rw [blocksOf_cons_of_pos hn]; rfl
  | inScope _ ih | nested _ ih => exact ih
  | @moved _ c _ _ s _ _ _ ih =>
    cases s <;> exact ih

/-- The same is true at every tag, for the blocks in front of it. -/
theorem collected_at (h : History job moves c visits c') {before after : List Visit} {v : Visit}
    (hv : visits = before ++ v :: after) :
    v.context.collected = c.collected ++ blocksOf before := by
  induction h generalizing before after with
  | nil | warn => exact absurd hv.symm (by simp)
  | @append _ c _ _ visits visits' first _ ih ih' =>
    -- Behind the first tags, their blocks have been set aside, too.
    have hsecond : ∀ rest, before = visits ++ rest → visits' = rest ++ v :: after →
        v.context.collected = c.collected ++ blocksOf before := by
      intro rest hbefore hrest
      rw [ih' hrest, first.collected, hbefore, blocksOf_append, List.append_assoc]
    obtain ⟨rest, hbefore, hrest⟩ | ⟨rest, hvisits, hrest⟩ := List.append_eq_append_iff.1 hv
    · exact hsecond rest hbefore hrest
    · cases rest with
      | nil => exact hsecond [] (by rw [hvisits, List.append_nil, List.append_nil]) hrest.symm
      | cons w rest =>
        obtain ⟨rfl, -⟩ := List.cons.inj hrest
        exact ih hvisits
  | visit hn _ ih =>
    obtain ⟨rfl, hhead⟩ | ⟨rest, rfl, htail⟩ := List.cons_eq_append_iff.1 hv
    · obtain ⟨rfl, -⟩ := List.cons.inj hhead
      exact (List.append_nil _).symm
    · rw [ih htail, blocksOf_cons_of_neg hn]
  | collect c hn =>
    obtain ⟨rfl, hhead⟩ | ⟨rest, rfl, htail⟩ := List.cons_eq_append_iff.1 hv
    · obtain ⟨rfl, -⟩ := List.cons.inj hhead
      exact (List.append_nil _).symm
    · exact absurd htail.symm (by simp)
  | inScope _ ih | nested _ ih => exact ih hv
  | @moved _ c _ _ s _ _ _ ih => cases s <;> exact ih hv

end History

end ThemePress.Render
