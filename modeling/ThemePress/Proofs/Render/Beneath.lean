import ThemePress.Proofs.Render.Limit

/-! # Rendering deeper and elsewhere

The nodes of a template are rendered one level deeper where the template is included, and stand at
other places than they would in the source around it. No tag looks at how deep it is or at its
place: the depth shows only when a level is refused, and the place only of a node that is set aside.
So renderings from a context and from one that it is `Beneath` go together up to the first refusal,
for tags and for the insides of nodes that may have been moved (`evaluate_beneath`,
`inside_beneath`). -/

namespace ThemePress.Template

/-- The node without its place. -/
def Node.unplaced (n : Node) : Node :=
  { n with position := 0 }

theorem Node.exists_place {n n' : Node} (h : n'.unplaced = n.unplaced) :
    ∃ position, n' = { n with position } := by
  refine ⟨n'.position, ?_⟩
  cases n
  cases n'
  simpa [unplaced] using h

/-- Of nodes that differ in their places only, the same one is found. -/
theorem Node.find?_unplaced {ns ns' : List Node} (h : ns'.map unplaced = ns.map unplaced)
    {p : Node → Bool} (hp : ∀ n position, p { n with position } = p n) :
    (ns'.find? p).map unplaced = (ns.find? p).map unplaced := by
  have hcomp : p ∘ unplaced = p := funext fun n => hp n 0
  have hmap : ∀ ns : List Node, (ns.map unplaced).find? p = (ns.find? p).map unplaced := by
    intro ns
    rw [List.find?_map, hcomp]
  rw [← hmap, h, hmap]

end ThemePress.Template

namespace ThemePress.Render

open ThemePress.Template

/-! ### One context beneath another -/

/-- The first context is `k` levels deeper than the second, and the blocks set aside in them may
have stood at different places. In all else the two are the same. -/
structure Beneath (k : Nat) (c c' : Context) : Prop where
  scope : c'.scope = c.scope
  postIndex : c'.postIndex = c.postIndex
  tagIndex : c'.tagIndex = c.tagIndex
  navigationIndex : c'.navigationIndex = c.navigationIndex
  collected : c'.collected.map Node.unplaced = c.collected.map Node.unplaced
  depth : c.depth = c'.depth + k
  warnings : c'.warnings = c.warnings

namespace Beneath

variable {k : Nat} {c c' : Context}

theorem refl (c : Context) : Beneath 0 c c :=
  ⟨rfl, rfl, rfl, rfl, rfl, rfl, rfl⟩

theorem eq (h : Beneath k c c') :
    c' = { c with collected := c'.collected, depth := c'.depth } := by
  obtain ⟨hscope, hpost, htag, hnavigation, -, -, hwarnings⟩ := h
  cases c
  cases c'
  simp_all

theorem read_eq (h : Beneath k c c') {α : Type} {f : Context → α} (hf : Context.Shared f) :
    f c' = f c := by
  rw [h.eq]
  exact hf _ _ _

theorem warn (h : Beneath k c c') (w : Warning) : Beneath k (c.warn w) (c'.warn w) :=
  { h with warnings := congrArg (· ++ [w]) h.warnings }

theorem collect (h : Beneath k c c') {n n' : Node} (hn : n'.unplaced = n.unplaced) :
    Beneath k (c.collect n) (c'.collect n') :=
  { h with collected := by simp [Context.collect, h.collected, hn] }

theorem inScope (h : Beneath k c c') (s : Scope) :
    Beneath k { c with scope := s } { c' with scope := s } :=
  { h with scope := rfl }

theorem setCursor (h : Beneath k c c') (s : Scope) (i : Nat) :
    Beneath k (c.setCursor s i) (c'.setCursor s i) := by
  cases s with
  | tag => exact { h with tagIndex := rfl }
  | navigation => exact { h with navigationIndex := rfl }
  | index | post | author => exact { h with postIndex := rfl }

theorem cursor (h : Beneath k c c') (s : Scope) : c'.cursor s = c.cursor s := by
  cases s <;> first | exact h.tagIndex | exact h.navigationIndex | exact h.postIndex

theorem enter (h : Beneath k c c') : Beneath k c.enter c'.enter :=
  { h with depth := by simp only [Context.enter, h.depth]; omega }

theorem leave (h : Beneath k c c') (hk : k < c.depth) : Beneath k c.leave c'.leave :=
  { h with
    depth := by
      have := h.depth
      simp only [Context.leave]
      omega }

theorem deeper (h : Beneath k c c') : Beneath (k + 1) c.enter c' :=
  { h with depth := congrArg (· + 1) h.depth }

theorem up (h : Beneath (k + 1) c c') : Beneath k c.leave c' :=
  { h with depth := congrArg (· - 1) h.depth }

end Beneath

/-- From the first context the first action restores it, and unless it is refused a level, the
second action does the same from the second context. -/
structure SameBeneath {α : Type} (k : Nat) (c c' : Context) (a a' : StateM Context α) : Prop where
  restores : Restores c (a c).2
  same : (a c).2.refusals = c.refusals → (a' c').1 = (a c).1 ∧ Beneath k (a c).2 (a' c').2

namespace SameBeneath

variable {α β : Type} {k : Nat} {c c' : Context}

theorem bind (h : Beneath k c c') {x x' : StateM Context α} {f f' : α → StateM Context β}
    (hx : SameBeneath k c c' x x')
    (hf : ∀ d', Beneath k (x c).2 d' → SameBeneath k (x c).2 d' (f (x c).1) (f' (x c).1)) :
    SameBeneath k c c' (x >>= f) (x' >>= f') := by
  have hbeneath : Beneath k (x c).2 { (x c).2 with depth := c'.depth } :=
    ⟨rfl, rfl, rfl, rfl, rfl, hx.restores.depth.trans h.depth, rfl⟩
  have hrestores := (hf _ hbeneath).restores
  refine ⟨hx.restores.trans hrestores, fun hsame => ?_⟩
  have hfinal : (f (x c).1 (x c).2).2.refusals = c.refusals := hsame
  -- what was refused in between is refused in the end
  have hmid : (x c).2.refusals = c.refusals := by
    refine (hx.restores.refusals.eq_of_length_le ?_).symm
    rw [← hfinal]
    exact hrestores.refusals.length_le
  obtain ⟨hvalue, hafter⟩ := hx.same hmid
  show (f' (x' c').1 (x' c').2).1 = _ ∧ Beneath k _ (f' (x' c').1 (x' c').2).2
  rw [hvalue]
  exact (hf _ hafter).same (hfinal.trans hmid.symm)

theorem of_get {g g' : Context → StateM Context α} (h : SameBeneath k c c' (g c) (g' c')) :
    SameBeneath k c c' (get >>= g) (get >>= g') :=
  ⟨h.restores, h.same⟩

/-- Actions that do the same from other contexts up to the changes `f` do the same here. -/
theorem of_run {j : Nat} {x x' a a' : StateM Context α} {d d' : Context}
    (f f' : Context → Context) (h : SameBeneath j d d' x x') (hr : Restores c (f (x d).2))
    (hf : Beneath j (x d).2 (x' d').2 → Beneath k (f (x d).2) (f' (x' d').2))
    (hrefusals : (f (x d).2).refusals = (x d).2.refusals) (hd : d.refusals = c.refusals)
    (ha : a c = ((x d).1, f (x d).2)) (ha' : a' c' = ((x' d').1, f' (x' d').2)) :
    SameBeneath k c c' a a' := by
  refine ⟨by rw [ha]; exact hr, fun hc => ?_⟩
  rw [ha] at hc
  obtain ⟨hvalue, hbeneath⟩ := h.same (hrefusals.symm.trans (hc.trans hd.symm))
  rw [ha, ha']
  exact ⟨hvalue, hf hbeneath⟩

end SameBeneath

/-- Actions that do the same beneath, unless refused, as long as the context lets no more than
`levels` levels be entered. -/
def SameBeneathWithin (k limit levels : Nat) (α : Type) (a a' : StateM Context α) : Prop :=
  ∀ c c', limit < levels + c.depth → Beneath k c c' → SameBeneath k c c' a a'

/-- One level up, tags do the same beneath when those below do. -/
theorem passing_beneath (k limit levels : Nat) :
    Passing limit limit (fun n n' => n'.unplaced = n.unplaced)
      (SameBeneathWithin k limit (levels + 1))
      (fun a a' => ∀ c c', c.depth ≤ limit → limit < levels + c.depth → Beneath k c c' →
        SameBeneath k c c' a a') where
  refl _ := rfl
  place h := Node.exists_place h
  pure x c c' _ h := ⟨.refl c, fun _ => ⟨rfl, h⟩⟩
  bind {α β x x' f f'} hx hf c c' hc h := by
    have hx := hx c c' hc h
    exact hx.bind h fun d' hd => hf _ _ d' (by rw [hx.restores.depth]; exact hc) hd
  read {α β g} hg f f' hf c c' hc h := by
    refine .of_get ?_
    rw [h.read_eq hg]
    exact hf c c c' hc h
  find {β p} hp f f' hnone hsome c c' hc h := by
    have hfound := Node.find?_unplaced h.collected hp
    refine .of_get ?_
    cases hn : c.collected.find? p with
    | none =>
      rw [hn, Option.map_none, Option.map_eq_none_iff] at hfound
      rw [hfound]
      exact hnone c c' hc h
    | some n =>
      rw [hn, Option.map_some, Option.map_eq_some_iff] at hfound
      obtain ⟨n', hn', hplace⟩ := hfound
      rw [hn']
      exact hsome n n' hplace c c' hc h
  warn w c c' _ h := ⟨.warn c w, fun _ => ⟨rfl, h.warn w⟩⟩
  collect {n n'} hn c c' _ h := ⟨.collect c n, fun _ => ⟨rfl, h.collect hn⟩⟩
  inScope s a a' ha c c' hc h := by
    have ha := ha { c with scope := s } { c' with scope := s } hc (h.inScope s)
    exact .of_run ({ · with scope := c.scope }) ({ · with scope := c'.scope }) ha
      ha.restores.inScope (fun hb => { hb with scope := h.scope }) rfl rfl (inScope_run a s c)
      (inScope_run a' s c')
  atCursor s i a a' ha c c' hc h := by
    have ha := ha (c.setCursor s i) (c'.setCursor s i) (by cases s <;> exact hc) (h.setCursor s i)
    refine .of_run (·.setCursor s (c.cursor s)) (·.setCursor s (c'.cursor s)) ha
      ha.restores.atCursor (fun hb => ?_) (Context.refusals_setCursor ..) (c.refusals_setCursor s i)
      (atCursor_run a s i c) (atCursor_run a' s i c')
    rw [h.cursor]
    exact hb.setCursor s _
  nested {w} hw a a' ha c c' hc h := by
    by_cases hd : c.depth < limit
    · have hd' : c'.depth < limit := by
        have := h.depth
        omega
      have ha := ha c.enter c'.enter hd (by simp only [Context.enter]; omega) h.enter
      refine .of_run Context.leave Context.leave ha ha.restores.nested (fun hb => hb.leave ?_) rfl
        rfl (nested_run a hd w) (nested_run a' hd' w)
      have := h.depth
      rw [ha.restores.depth]
      show k < c.depth + 1
      omega
    · have hrun := nested_run_refuse a hd w
      refine ⟨by rw [hrun]; exact .warn c w, fun hrefused => ?_⟩
      rw [hrun] at hrefused
      simp [Context.refusals, Context.warn, hw] at hrefused

variable {job : Job} {k : Nat}

/-- The inside of a node. -/
theorem inside_beneath (levels : Nat) {n n' : Node} (hn : n'.unplaced = n.unplaced)
    (fill : Option (List UInt8)) (c c' : Context) (hc : c.depth ≤ job.limit)
    (hl : job.limit < levels + c.depth) (h : Beneath k c c') :
    SameBeneath k c c' (job.inside n fill) (job.inside n' fill) := by
  induction levels generalizing n n' fill c c' with
  | zero => omega
  | succ levels ih =>
    rw [Job.inside_eq]
    exact (passing_beneath k job.limit levels).inside (.refl job)
      (fun n n' fill hn c c' hc hl h => ih hn fill c c' hc hl h) hn fill c c' hl h

/-- A tag, wherever it stands. -/
theorem evaluate_beneath {n n' : Node} (hn : n'.unplaced = n.unplaced) :
    SameBeneathWithin k job.limit (job.limit + 1) _ (evaluate job job.inside n)
      (evaluate job job.inside n') :=
  (passing_beneath k job.limit job.limit).evaluate (.refl job)
    (fun _ _ fill hn c c' hc hl h => inside_beneath job.limit hn fill c c' hc hl h) hn

end ThemePress.Render
