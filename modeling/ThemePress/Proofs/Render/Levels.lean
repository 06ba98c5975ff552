import ThemePress.Proofs.Render.Lifting

/-! # Levels

Rendering restores the context: scope, cursors and depth are what they were before, and set-aside
blocks and warnings are only added (`Restores`). So the depth of the context grows with the levels
of the rendering, and no level beyond the limit is ever reached: what is rendered there does not
matter (`renderTo_congr`). With the levels gone, rendering is the recursion that it counts down, and
the only solution of it (`Job.inside_eq`, `Job.inside_unique`). -/

namespace ThemePress.Render

open ThemePress.Template (Node)

/-! ### The context afterwards -/

/-- The context `c'` differs from `c` only by further blocks set aside and further warnings. -/
structure Restores (c c' : Context) : Prop where
  scope : c'.scope = c.scope
  postIndex : c'.postIndex = c.postIndex
  tagIndex : c'.tagIndex = c.tagIndex
  navigationIndex : c'.navigationIndex = c.navigationIndex
  depth : c'.depth = c.depth
  collected : c.collected <+: c'.collected
  warnings : c.warnings <+: c'.warnings

namespace Restores

variable {c c' c'' : Context}

theorem refl (c : Context) : Restores c c :=
  ⟨rfl, rfl, rfl, rfl, rfl, List.prefix_rfl, List.prefix_rfl⟩

theorem trans (h : Restores c c') (h' : Restores c' c'') : Restores c c'' where
  scope := h'.scope.trans h.scope
  postIndex := h'.postIndex.trans h.postIndex
  tagIndex := h'.tagIndex.trans h.tagIndex
  navigationIndex := h'.navigationIndex.trans h.navigationIndex
  depth := h'.depth.trans h.depth
  collected := h.collected.trans h'.collected
  warnings := h.warnings.trans h'.warnings

theorem warn (c : Context) (w : Warning) : Restores c (c.warn w) :=
  { refl c with warnings := List.prefix_append .. }

theorem collect (c : Context) (n : Node) : Restores c (c.collect n) :=
  { refl c with collected := List.prefix_append .. }

theorem inScope {s : Scope} (h : Restores { c with scope := s } c') :
    Restores c { c' with scope := c.scope } :=
  { h with scope := rfl }

theorem atCursor {s : Scope} {i : Nat} (h : Restores (c.setCursor s i) c') :
    Restores c (c'.setCursor s (c.cursor s)) := by
  cases s with
  | tag => exact { h with tagIndex := rfl }
  | navigation => exact { h with navigationIndex := rfl }
  | index | post | author => exact { h with postIndex := rfl }

theorem nested (h : Restores c.enter c') : Restores c c'.leave :=
  { h with depth := by rw [Context.leave, h.depth, Context.enter, Nat.add_sub_cancel] }

theorem cursor (h : Restores c c') (s : Scope) : c'.cursor s = c.cursor s := by
  cases s with
  | tag => exact h.tagIndex
  | navigation => exact h.navigationIndex
  | index | post | author => exact h.postIndex

end Restores

/-! ### Running actions -/

section
variable {c : Context} {limit : Nat} (a : Action (StateM Context))

theorem inScope_run (s : Scope) (c : Context) :
    Action.inScope s a c =
      ((a { c with scope := s }).1, { (a { c with scope := s }).2 with scope := c.scope }) := rfl

theorem atCursor_run (s : Scope) (i : Nat) (c : Context) :
    Action.atCursor s i a c =
      ((a (c.setCursor s i)).1, (a (c.setCursor s i)).2.setCursor s (c.cursor s)) := rfl

theorem nested_run (h : c.depth < limit) (w : Warning) :
    Action.nested limit w a c = ((a c.enter).1, (a c.enter).2.leave) := by
  show (if c.depth < limit then _ else _ : Action (StateM Context)) c = _
  rw [if_pos h]
  rfl

theorem nested_run_refuse (h : ¬ c.depth < limit) (w : Warning) :
    Action.nested limit w a c = ([], c.warn w) := by
  show (if c.depth < limit then _ else _ : Action (StateM Context)) c = _
  rw [if_neg h]
  rfl

end

/-! ### Agreement -/

/-- Both actions do the same in the context, and restore it. -/
def AgreeAt {α : Type} (c : Context) (a a' : StateM Context α) : Prop :=
  Restores c (a c).2 ∧ a c = a' c

/-- Actions that agree as long as the context lets no more than `levels` levels be entered. -/
def Agree (limit levels : Nat) (α : Type) (a a' : StateM Context α) : Prop :=
  ∀ c, limit < levels + c.depth → AgreeAt c a a'

theorem AgreeAt.of_run {α : Type} {c : Context} {a a' : StateM Context α} {x : α} {c' : Context}
    (h : Restores c c') (ha : a c = (x, c')) (ha' : a' c = (x, c')) : AgreeAt c a a' :=
  ⟨by rw [ha]; exact h, by rw [ha, ha']⟩

/-- Agreement one level up follows from agreement below, up to the limit. -/
theorem lifting_agree (limit levels : Nat) :
    Lifting limit limit (Agree limit (levels + 1))
      (fun a a' => ∀ c, c.depth ≤ limit → limit < levels + c.depth → AgreeAt c a a') where
  pure x c _ := ⟨.refl c, rfl⟩
  bind {α β x x' k k'} hx hk c hc := by
    obtain ⟨hr, hx⟩ := hx c hc
    obtain ⟨hr', hk⟩ := hk (x c).1 (x c).2 (by rw [hr.depth]; exact hc)
    refine ⟨hr.trans hr', ?_⟩
    show k (x c).1 (x c).2 = k' (x' c).1 (x' c).2
    rw [← hx, hk]
  get c _ := ⟨.refl c, rfl⟩
  warn w c _ := ⟨.warn c w, rfl⟩
  collect n c _ := ⟨.collect c n, rfl⟩
  inScope s a a' h c hc := by
    obtain ⟨hr, h⟩ := h { c with scope := s } hc
    exact .of_run hr.inScope (inScope_run a s c) (by rw [inScope_run, ← h])
  atCursor s i a a' h c hc := by
    obtain ⟨hr, h⟩ := h (c.setCursor s i) (by cases s <;> exact hc)
    exact .of_run hr.atCursor (atCursor_run a s i c) (by rw [atCursor_run, ← h])
  nested {w} _ a a' h c hc := by
    by_cases hd : c.depth < limit
    · obtain ⟨hr, h⟩ := h c.enter hd (by simp only [Context.enter]; omega)
      exact .of_run hr.nested (nested_run a hd w) (by rw [nested_run a' hd, ← h])
    · exact .of_run (.warn c w) (nested_run_refuse a hd w) (nested_run_refuse a' hd w)

/-! ### Beyond the limit -/

variable {job : Job}

/-- What is rendered past the levels to come does not matter when the limit comes first. -/
theorem renderTo_agree (past past' : Deeper (StateM Context)) (levels : Nat) (n : Node)
    (fill : Option (List UInt8)) (c : Context) (hc : c.depth ≤ job.limit)
    (hl : job.limit < levels + c.depth) :
    AgreeAt c (renderTo job past levels n fill) (renderTo job past' levels n fill) := by
  induction levels generalizing n fill c with
  | zero => omega
  | succ levels ih => exact (lifting_agree job.limit levels).inside (.refl job) ih n fill c hl

/-- The inside of a node, in any context. -/
theorem inside_agree (past past' : Deeper (StateM Context)) (n : Node)
    (fill : Option (List UInt8)) (c : Context) :
    AgreeAt c (inside job (renderTo job past job.limit) n fill)
      (inside job (renderTo job past' job.limit) n fill) :=
  (lifting_agree job.limit job.limit).inside (.refl job) (renderTo_agree past past' job.limit)
    n fill c
    (by omega)

/-- **Levels beyond the limit are never rendered.** -/
theorem renderTo_congr (past past' : Deeper (StateM Context)) :
    renderTo job past (job.limit + 1) = renderTo job past' (job.limit + 1) := by
  funext n fill c
  exact (inside_agree past past' n fill c).2

theorem renderTo_succ (past : Deeper (StateM Context)) (levels : Nat) :
    renderTo job past (levels + 1) = renderTo job (inside job past) levels := by
  induction levels with
  | zero => rfl
  | succ levels ih => rw [renderTo, ih, renderTo]

/-- **The inside of a node is rendered from its children, and what they ask for likewise.** -/
theorem Job.inside_eq (job : Job) : job.inside = Render.inside job job.inside := by
  unfold Job.inside
  generalize (fun _ _ => Action.nothing : Deeper (StateM Context)) = past
  calc renderTo job past (job.limit + 1)
      = renderTo job (Render.inside job past) (job.limit + 1) := renderTo_congr ..
    _ = renderTo job past (job.limit + 1 + 1) := (renderTo_succ past (job.limit + 1)).symm

theorem Job.inside_of_no_directive {n : Node} (h : directive? n = none)
    (fill : Option (List UInt8)) :
    job.inside n fill = Action.splice n.block (childParts job job.inside n fill) := by
  rw [job.inside_eq, Render.inside_eq, h, ← job.inside_eq]

theorem Job.inside_of_directive {n directive : Node} (h : directive? n = some directive)
    (fill : Option (List UInt8)) (c : Context) :
    job.inside n fill c =
      let r := Action.splice n.block (childParts job job.inside n fill).tail c
      wrap job job.inside directive r.1 r.2 := by
  rw [job.inside_eq, Render.inside_eq, h, ← job.inside_eq]
  rfl

/-- What is rendered that way is so with any number of levels. -/
theorem renderTo_eq_self {deeper : Deeper (StateM Context)} (h : deeper = Render.inside job deeper)
    (levels : Nat) : renderTo job deeper levels = deeper := by
  induction levels with
  | zero => rfl
  | succ levels ih => rw [renderTo, ih, ← h]

/-- **Nothing else is rendered that way.** -/
theorem Job.inside_unique {deeper : Deeper (StateM Context)}
    (h : deeper = Render.inside job deeper) : deeper = job.inside := by
  rw [← renderTo_eq_self h (job.limit + 1)]
  exact renderTo_congr _ _

/-- What a tag yields with as many levels to come as the context needs. -/
theorem evaluate_renderTo (past : Deeper (StateM Context)) {levels : Nat} (n : Node) {c : Context}
    (hl : job.limit < levels + 1 + c.depth) :
    evaluate job (renderTo job past levels) n c = evaluate job job.inside n c := by
  have h := ((lifting_agree job.limit levels).evaluate (.refl job)
    (renderTo_agree past job.inside levels) n c hl).2
  rwa [renderTo_eq_self job.inside_eq levels] at h

theorem Job.inside_restores (n : Node) (fill : Option (List UInt8)) (c : Context) :
    Restores c (job.inside n fill c).2 :=
  (inside_agree (fun _ _ => Action.nothing) (fun _ _ => Action.nothing) n fill c).1

theorem Job.evaluate_restores (n : Node) (c : Context) :
    Restores c (evaluate job job.inside n c).2 :=
  ((lifting_agree job.limit job.limit).evaluate (.refl job)
    (fun n fill c _ _ => ⟨Job.inside_restores n fill c, rfl⟩) n c (by omega)).1

/-! ### One child after the other -/

theorem outputs_restores {parts : List (Nat × Action (StateM Context))}
    (h : ∀ part ∈ parts, ∀ c, Restores c (part.2 c).2) (c : Context) :
    Restores c (Action.outputs parts c).2 := by
  induction parts generalizing c with
  | nil => exact .refl c
  | cons part parts ih =>
    have hpart := h part (List.mem_cons_self ..) c
    have hrest := ih (fun part hp => h part (List.mem_cons_of_mem _ hp)) (part.2 c).2
    exact hpart.trans hrest

theorem childParts_restores {n : Node} {fill : Option (List UInt8)}
    {part : Nat × Action (StateM Context)} (hp : part ∈ childParts job job.inside n fill)
    (c : Context) : Restores c (part.2 c).2 := by
  have hchild : ∀ part ∈ n.children.map fun c => (c.position, evaluate job job.inside c),
      ∀ c, Restores c (part.2 c).2 := by
    intro part hp c
    obtain ⟨child, -, rfl⟩ := List.mem_map.1 hp
    exact Job.evaluate_restores child c
  unfold childParts at hp
  split at hp
  · obtain ⟨i, hi, rfl⟩ := List.getElem_of_mem hp
    rw [List.getElem_modify]
    split
    · exact .refl c
    · exact hchild _ (List.getElem_mem _) c
  · exact hchild part hp c

/-- **Every rendering restores the context.** Whatever a tag does, and wherever it breaks off, the
scope, the three cursors and the depth are afterwards what they were before, and the blocks set
aside are those from before with none or more behind them. The same holds of the inside of a node,
with or without bytes in its body slot, and of any number of its children in turn: so each child
finds the scope, the cursors and the depth of its parent. -/
theorem evaluation_restores_context (job : Job) (n : Node) (c : Context) :
    Restores c (evaluate job job.inside n c).2 ∧
    ∀ fill, Restores c (job.inside n fill c).2 ∧
      ∀ i k, Restores c
        (Action.outputs (((childParts job job.inside n fill).drop i).take k) c).2 := by
  refine ⟨Job.evaluate_restores n c, fun fill => ⟨Job.inside_restores n fill c, ?_⟩⟩
  intro i k
  refine outputs_restores (fun part hp => ?_) c
  exact childParts_restores (List.mem_of_mem_drop (List.mem_of_mem_take hp))

end ThemePress.Render
