import ThemePress.Proofs.Render.Levels

/-! # What the limit of levels does

Nothing but a warning tells whether a level was refused: `Action.nested` is the only action that
asks how deep it is, and it either goes one level deeper or gives a warning of its own. So two
renderings with different limits go together, step by step, up to the first such warning
(`lifting_limit`). One that ends without any is the same with every greater limit
(`limit_shows_in_warnings`). -/

namespace ThemePress.Render

open ThemePress.Template (Node)

/-- The warnings so far that no level was left. -/
def Context.refusals (c : Context) : List Warning :=
  c.warnings.filter (·.isTooDeep)

theorem Restores.refusals {c c' : Context} (h : Restores c c') : c.refusals <+: c'.refusals :=
  h.warnings.filter _

/-- From the context `c` the first action restores the context, and unless it is refused a level,
the second one does the same. -/
structure SameUnlessRefused {α : Type} (c : Context) (a a' : StateM Context α) : Prop where
  restores : Restores c (a c).2
  same : (a c).2.refusals = c.refusals → a' c = a c

namespace SameUnlessRefused

variable {α β : Type} {c : Context}

theorem bind {x x' : StateM Context α} {k k' : α → StateM Context β}
    (hx : SameUnlessRefused c x x')
    (hk : SameUnlessRefused (x c).2 (k (x c).1) (k' (x c).1)) :
    SameUnlessRefused c (x >>= k) (x' >>= k') := by
  refine ⟨hx.restores.trans hk.restores, fun h => ?_⟩
  have hfinal : (k (x c).1 (x c).2).2.refusals = c.refusals := h
  -- what was refused in between is refused in the end
  have hmid : (x c).2.refusals = c.refusals := by
    refine (hx.restores.refusals.eq_of_length_le ?_).symm
    rw [← hfinal]
    exact hk.restores.refusals.length_le
  show k' (x' c).1 (x' c).2 = k (x c).1 (x c).2
  rw [hx.same hmid, hk.same (hfinal.trans hmid.symm)]

/-- Actions that do the same in the other context up to the changes `f` do the same here. -/
theorem of_run {x x' a a' : StateM Context α} {d : Context} (f : Context → Context)
    (h : SameUnlessRefused d x x') (hr : Restores c (f (x d).2))
    (hf : ∀ e, (f e).refusals = e.refusals) (hd : d.refusals = c.refusals)
    (ha : a c = ((x d).1, f (x d).2)) (ha' : a' c = ((x' d).1, f (x' d).2)) :
    SameUnlessRefused c a a' := by
  refine ⟨by rw [ha]; exact hr, fun hc => ?_⟩
  rw [ha] at hc
  rw [ha, ha', h.same ((hf _).symm.trans (hc.trans hd.symm))]

end SameUnlessRefused

theorem Context.refusals_setCursor (c : Context) (s : Scope) (i : Nat) :
    (c.setCursor s i).refusals = c.refusals := by
  cases s <;> rfl

/-- Actions that do the same unless refused, as long as the context lets no more than `levels`
levels be entered. -/
def SameWithin (limit levels : Nat) (α : Type) (a a' : StateM Context α) : Prop :=
  ∀ c, limit < levels + c.depth → SameUnlessRefused c a a'

/-- One level up, actions do the same unless refused when those below do. -/
theorem lifting_limit {limit limit' : Nat} (hlimit : limit ≤ limit') (levels : Nat) :
    Lifting limit limit' (SameWithin limit (levels + 1))
      (fun a a' => ∀ c, c.depth ≤ limit → limit < levels + c.depth →
        SameUnlessRefused c a a') where
  pure x c _ := ⟨.refl c, fun _ => rfl⟩
  bind {α β x x' k k'} hx hk c hc := by
    have hx := hx c hc
    exact hx.bind (hk _ _ (by rw [hx.restores.depth]; exact hc))
  get c _ := ⟨.refl c, fun _ => rfl⟩
  warn w c _ := ⟨.warn c w, fun _ => rfl⟩
  collect n c _ := ⟨.collect c n, fun _ => rfl⟩
  inScope s a a' h c hc := by
    have h := h { c with scope := s } hc
    exact .of_run ({ · with scope := c.scope }) h h.restores.inScope (fun _ => rfl) rfl
      (inScope_run a s c) (inScope_run a' s c)
  atCursor s i a a' h c hc := by
    have h := h (c.setCursor s i) (by cases s <;> exact hc)
    exact .of_run (·.setCursor s (c.cursor s)) h h.restores.atCursor
      (fun e => e.refusals_setCursor s _) (c.refusals_setCursor s i) (atCursor_run a s i c)
      (atCursor_run a' s i c)
  nested {w} hw a a' h c hc := by
    by_cases hd : c.depth < limit
    · have h := h c.enter hd (by simp only [Context.enter]; omega)
      exact .of_run Context.leave h h.restores.nested (fun _ => rfl) rfl (nested_run a hd w)
        (nested_run a' (Nat.lt_of_lt_of_le hd hlimit) w)
    · have hrun := nested_run_refuse a hd w
      refine ⟨by rw [hrun]; exact .warn c w, fun hrefused => ?_⟩
      rw [hrun] at hrefused
      simp [Context.refusals, Context.warn, hw] at hrefused

variable {job : Job} {limit : Nat}

theorem renderTo_limit (hlimit : job.limit ≤ limit) (past : Deeper (StateM Context))
    (levels : Nat) (n : Node) (fill : Option (List UInt8)) (c : Context) (hc : c.depth ≤ job.limit)
    (hl : job.limit < levels + c.depth) :
    SameUnlessRefused c (renderTo job past levels n fill)
      (Job.inside { job with limit } n fill) := by
  induction levels generalizing n fill c with
  | zero => omega
  | succ levels ih =>
    have hj : Job.Alike job.limit limit job { job with limit } := ⟨rfl, rfl, rfl, rfl⟩
    rw [renderTo, Job.inside_eq]
    exact (lifting_limit hlimit levels).inside hj ih n fill c hl

/-- **The limit of levels shows only in its warnings.** When a page is rendered without a warning
that no level was left for a template, a layout or a block set aside, every greater limit gives the
same bytes and leaves the same context, with the same blocks set aside and the same warnings. -/
theorem limit_shows_in_warnings {root : Node} (hlimit : job.limit ≤ limit)
    (h : ∀ w ∈ (job.render root (Context.start job.page.kind)).2.warnings, w.isTooDeep = false) :
    Job.render { job with limit } root (Context.start job.page.kind) =
      job.render root (Context.start job.page.kind) := by
  have hsame : SameUnlessRefused (Context.start job.page.kind) (job.render root)
      (Job.render { job with limit } root) :=
    renderTo_limit hlimit _ (job.limit + 1) root none _ (Nat.zero_le _) (Nat.lt_succ_self _)
  refine hsame.same ?_
  show List.filter _ _ = []
  rw [List.filter_eq_nil_iff]
  intro w hw
  rw [h w hw]
  exact Bool.false_ne_true

/-- A node that includes a template. -/
def including (name : String) (block : List UInt8) : Node :=
  { Node.leaf "page" false 0 with
    block
    children := [{ Node.leaf ">" false 0 with arguments := [Node.leaf name false 0] }] }

/-- Sixteen templates, each of which includes the next. There is no seventeenth. -/
def sixteenLevels : Job where
  page := { kind := .index, blog := {} }
  registry := ⟨"", (List.range 16).map fun i =>
    (String.ofList (List.replicate i 'x'),
      including (String.ofList (List.replicate (i + 1) 'x')) [0x78]), []⟩

/-- What comes of them, in the context in which a page starts. -/
def sixteenRendered : List UInt8 × Context :=
  sixteenLevels.render (including "" []) (Context.start sixteenLevels.page.kind)

theorem limit_shows_in_warnings_of_sixteen :
    sixteenLevels.limit ≤ 17 ∧ (∀ w ∈ sixteenRendered.2.warnings, w.isTooDeep = false) ∧
      Job.render { sixteenLevels with limit := 17 } (including "" [])
        (Context.start sixteenLevels.page.kind) = sixteenRendered ∧
      sixteenRendered.1 = List.replicate 16 0x78 ∧
      sixteenRendered.2.warnings = [.templateMissing "xxxxxxxxxxxxxxxx"] := by
  have hlimit : sixteenLevels.limit ≤ 17 := by decide
  have hwarnings : sixteenRendered.2.warnings = [.templateMissing "xxxxxxxxxxxxxxxx"] := by
    decide +kernel
  have hnone : ∀ w ∈ sixteenRendered.2.warnings, w.isTooDeep = false := by
    rw [hwarnings]
    decide
  refine ⟨hlimit, hnone, ?_, by decide +kernel, hwarnings⟩
  unfold sixteenRendered at hnone ⊢
  exact limit_shows_in_warnings hlimit hnone

end ThemePress.Render
