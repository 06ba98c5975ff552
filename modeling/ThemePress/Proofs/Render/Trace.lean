import ThemePress.Proofs.Render.Levels

/-! # Every moment of a rendering

`Traced` carries a context and keeps every context it goes through, and it can give up. Rendered in
it, with nothing but giving up past the levels to come, a template goes through the same contexts as
in `StateM Context`. So it can be seen that rendering comes to an end before the levels are used up,
and how deep it is at any moment in between (`render_within_limit`). -/

namespace ThemePress.Render

open ThemePress.Template (Node)

/-- Carries a context, keeps all contexts it is changed to, and may give up. -/
def Traced (α : Type) : Type :=
  Context → Option (α × Context × List Context)

namespace Traced

instance : Monad Traced where
  pure x c := some (x, c, [])
  bind x k c := (x c).bind fun r => (k r.1 r.2.1).map fun r' => (r'.1, r'.2.1, r.2.2 ++ r'.2.2)

instance : MonadStateOf Context Traced where
  get c := some (c, c, [])
  set c _ := some ((), c, [c])
  modifyGet f c := some ((f c).1, (f c).2, [(f c).2])

/-- Gives up. -/
def fail {α : Type} : Traced α := fun _ => none

theorem bind_run {α β : Type} {x : Traced α} {k : α → Traced β} {c c' c'' : Context} {a : α} {b : β}
    {before after : List Context} (hx : x c = some (a, c', before))
    (hk : k a c' = some (b, c'', after)) : (x >>= k) c = some (b, c'', before ++ after) := by
  show (x c).bind _ = _
  rw [hx, Option.bind_some]
  show (k a c').map _ = _
  rw [hk, Option.map_some]

end Traced

/-- From the context `c`, the traced action does what the other one does, and every moment in
between is at least `low` and at most `high` levels deep. -/
def FollowsAt {α : Type} (low high : Nat) (c : Context) (a : StateM Context α) (t : Traced α) :
    Prop :=
  ∃ moments, t c = some ((a c).1, (a c).2, moments) ∧
    ∀ k ∈ moments, low ≤ k.depth ∧ k.depth ≤ high

namespace FollowsAt

variable {α β : Type} {low high : Nat} {c : Context}

theorem pure (x : α) : FollowsAt low high c (Pure.pure x) (Pure.pure x) :=
  ⟨[], rfl, fun _ hk => nomatch hk⟩

theorem get : FollowsAt low high c MonadState.get MonadState.get :=
  ⟨[], rfl, fun _ hk => nomatch hk⟩

theorem modify (f : Context → Context) (hl : low ≤ (f c).depth) (hh : (f c).depth ≤ high) :
    FollowsAt low high c (modifyGet fun c => ((), f c)) (modifyGet fun c => ((), f c)) := by
  refine ⟨[f c], rfl, fun k hk => ?_⟩
  obtain rfl := List.mem_singleton.1 hk
  exact ⟨hl, hh⟩

/-- Changing the context without going deeper. -/
theorem modify_eq (f : Context → Context) (hf : (f c).depth = low) (h : low ≤ high) :
    FollowsAt low high c (modifyGet fun c => ((), f c)) (modifyGet fun c => ((), f c)) :=
  .modify f (Nat.le_of_eq hf.symm) (by rw [hf]; exact h)

theorem bind {x : StateM Context α} {x' : Traced α} {k : α → StateM Context β}
    {k' : α → Traced β} (hx : FollowsAt low high c x x')
    (hk : FollowsAt low high (x c).2 (k (x c).1) (k' (x c).1)) :
    FollowsAt low high c (x >>= k) (x' >>= k') := by
  obtain ⟨before, hb, hbefore⟩ := hx
  obtain ⟨after, ha, hafter⟩ := hk
  exact ⟨before ++ after, Traced.bind_run hb ha, fun m hm =>
    (List.mem_append.1 hm).elim (hbefore m) (hafter m)⟩

theorem mono {low' : Nat} {a : StateM Context α} {t : Traced α} (h : FollowsAt low high c a t)
    (hl : low' ≤ low) : FollowsAt low' high c a t := by
  obtain ⟨moments, ht, hm⟩ := h
  exact ⟨moments, ht, fun k hk => ⟨Nat.le_trans hl (hm k hk).1, (hm k hk).2⟩⟩

end FollowsAt

/-- The traced action follows the other one as long as `levels` levels are enough. -/
def Follows (limit levels : Nat) (α : Type) (a : StateM Context α) (t : Traced α) : Prop :=
  ∀ c, c.depth ≤ limit → limit < levels + c.depth →
    Restores c (a c).2 ∧ FollowsAt c.depth limit c a t

/-- One level up, an action is followed when those below are. -/
theorem lifting_follows (limit levels : Nat) :
    Lifting limit limit (Follows limit (levels + 1)) (Follows limit levels _) where
  pure x c _ _ := ⟨.refl c, .pure x⟩
  bind {α β x x' k k'} hx hk c hc hl := by
    obtain ⟨hr, hx⟩ := hx c hc hl
    rw [← hr.depth] at hc hl
    obtain ⟨hr', hk⟩ := hk (x c).1 (x c).2 hc hl
    rw [hr.depth] at hk
    exact ⟨hr.trans hr', hx.bind hk⟩
  get c _ _ := ⟨.refl c, .get⟩
  warn w c hc _ := ⟨.warn c w, .modify_eq _ rfl hc⟩
  collect n c hc _ := ⟨.collect c n, .modify_eq _ rfl hc⟩
  inScope s a a' h c hc hl := by
    obtain ⟨hr, h⟩ := h { c with scope := s } hc hl
    exact ⟨hr.inScope, .bind .get (.bind (.modify_eq _ rfl hc) (.bind h
      (.bind (.modify_eq _ hr.inScope.depth hc) (.pure _))))⟩
  atCursor s i a a' h c hc hl := by
    have hs : (c.setCursor s i).depth = c.depth := by cases s <;> rfl
    obtain ⟨hr, h⟩ := h (c.setCursor s i) (by rw [hs]; exact hc) (by rw [hs]; exact hl)
    rw [hs] at h
    exact ⟨hr.atCursor, .bind .get (.bind (.modify_eq _ hs hc) (.bind h
      (.bind (.modify_eq _ hr.atCursor.depth hc) (.pure _))))⟩
  nested {w} _ a a' h c hc hl := by
    by_cases hd : c.depth < limit
    · obtain ⟨hr, h⟩ := h c.enter hd (by simp only [Context.enter]; omega)
      refine ⟨by rw [nested_run a hd]; exact hr.nested, .bind .get ?_⟩
      show FollowsAt _ _ c (if c.depth < limit then _ else _) (if c.depth < limit then _ else _)
      rw [if_pos hd, if_pos hd]
      exact .bind (.modify _ (Nat.le_succ _) hd) (.bind (h.mono (Nat.le_succ _))
        (.bind (.modify_eq _ hr.nested.depth hc) (.pure _)))
    · refine ⟨by rw [nested_run_refuse a hd]; exact .warn c w, .bind .get ?_⟩
      show FollowsAt _ _ c (if c.depth < limit then _ else _) (if c.depth < limit then _ else _)
      rw [if_neg hd, if_neg hd]
      exact .bind (.modify_eq _ rfl hc) (.pure _)

/-! ### The end of rendering -/

theorem renderTo_follows (job : Job) (past : Deeper (StateM Context)) (levels : Nat) (n : Node)
    (fill : Option (List UInt8)) :
    Follows job.limit levels _ (renderTo job past levels n fill)
      (renderTo job (fun _ _ => Traced.fail) levels n fill) := by
  induction levels generalizing n fill with
  | zero =>
    intro c hc hl
    omega
  | succ levels ih => exact (lifting_follows job.limit levels).inside (.refl job) ih n fill

/-- **Rendering ends, and never goes deeper than the limit.** With `job.limit + 1` levels to come, a
rendering that gives up past them gives what `job.inside` and `evaluate` give, in every context that
is not too deep itself, and all contexts it goes through have a depth up to the limit. With no
levels to count there is one way to render, whatever the templates ask for. -/
theorem render_within_limit (job : Job) (n : Node) (c : Context) (hc : c.depth ≤ job.limit) :
    (∀ fill, FollowsAt c.depth job.limit c (job.inside n fill)
      (renderTo job (fun _ _ => Traced.fail) (job.limit + 1) n fill)) ∧
    FollowsAt c.depth job.limit c (evaluate job job.inside n)
      (evaluate job (renderTo job (fun _ _ => Traced.fail) (job.limit + 1)) n) ∧
    job.inside = inside job job.inside ∧
    ∀ deeper : Deeper (StateM Context), deeper = inside job deeper → deeper = job.inside := by
  have hf := renderTo_follows job (fun _ _ => Action.nothing) (job.limit + 1)
  refine ⟨fun fill => (hf n fill c hc (by omega)).2, ?_, job.inside_eq, fun _ => Job.inside_unique⟩
  exact ((lifting_follows job.limit (job.limit + 1)).evaluate (.refl job) hf n c hc (by omega)).2

/-- A template that includes itself and is its own layout. -/
def endlessTemplate : Node :=
  let tag (name : String) : Node :=
    { Node.leaf name false 0 with arguments := [Node.leaf "page" false 0] }
  { Node.leaf "page" false 0 with children := [tag Node.extendsName, tag ">"] }

def endless : Job where
  page := { kind := .index, blog := {} }
  registry := ⟨"", [("page", endlessTemplate)], []⟩

theorem render_within_limit_endless :
    (Context.start .index).depth ≤ endless.limit ∧
    FollowsAt 0 16 (Context.start .index) (endless.inside endlessTemplate none)
      (renderTo endless (fun _ _ => Traced.fail) 17 endlessTemplate none) := by
  have hc : (Context.start .index).depth ≤ endless.limit := by decide
  exact ⟨hc, (render_within_limit endless endlessTemplate (Context.start .index) hc).1 none⟩

end ThemePress.Render
