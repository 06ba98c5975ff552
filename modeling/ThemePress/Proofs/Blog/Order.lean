import ThemePress.Blog.Store

/-! # The order of posts

Listings show the newest post first. `Post.NoOlder` says which of two posts may stand in front: of
two dated ones the later, of two from one instant the one with the greater number, and a dated one
in any case before an undated one. The comparison that the store sorts by decides this relation
(`Post.isNoOlder_iff`). It orders all posts, but two different posts can be equally old.

Sorting leaves equally old posts in the order in which they are given. So it makes no difference
whether posts are sorted before or after some of them are left out (`filter_mergeSort`). -/

namespace ThemePress.Blog

/-! ### Age -/

namespace Post

/-- The post `a` is as new as `b` or newer. -/
def NoOlder (a b : Post) : Prop :=
  match a.publishedAt, b.publishedAt with
  | some t, some u => u.lt t ∨ t = u ∧ b.id ≤ a.id
  | some _, none => True
  | none, some _ => False
  | none, none => b.id ≤ a.id

theorem compareDates_eq_lt_iff (t u : Time.Instant) :
    compareDates (some t) (some u) = .lt ↔ t.lt u := by
  simp only [compareDates, Ordering.then_eq_lt, Int.compare_eq_lt, Int.compare_eq_eq,
    Nat.compare_eq_lt, Time.Instant.lt]

theorem compareDates_eq_eq_iff (t u : Time.Instant) :
    compareDates (some t) (some u) = .eq ↔ t = u := by
  obtain ⟨s, n⟩ := t
  obtain ⟨s', n'⟩ := u
  simp only [compareDates, Ordering.then_eq_eq, Int.compare_eq_eq, Nat.compare_eq_eq,
    Time.Instant.mk.injEq]

theorem compareAge_eq_lt_iff (a b : Post) :
    a.compareAge b = .lt ↔ ¬ a.NoOlder b := by
  unfold compareAge NoOlder
  rw [Ordering.then_eq_lt, Int.compare_eq_lt]
  cases ha : a.publishedAt with
  | none => cases hb : b.publishedAt <;> simp [compareDates]
  | some t =>
    cases hb : b.publishedAt with
    | none => simp [compareDates]
    | some u =>
      rw [compareDates_eq_lt_iff, compareDates_eq_eq_iff]
      obtain ⟨s, n⟩ := t
      obtain ⟨s', n'⟩ := u
      simp only [Time.Instant.lt, Time.Instant.mk.injEq]
      omega

/-- The order of the store is that of age. -/
theorem isNoOlder_iff {a b : Post} : a.isNoOlder b = true ↔ a.NoOlder b := by
  unfold isNoOlder
  rw [bne_iff_ne, ne_eq, compareAge_eq_lt_iff, Classical.not_not]

theorem noOlder_total (a b : Post) : a.NoOlder b ∨ b.NoOlder a := by
  unfold NoOlder Time.Instant.lt
  cases a.publishedAt with
  | none =>
    cases b.publishedAt with
    | none => exact Int.le_total ..
    | some u => exact .inr trivial
  | some t =>
    cases b.publishedAt with
    | none => exact .inl trivial
    | some u =>
      obtain ⟨s, n⟩ := t
      obtain ⟨s', n'⟩ := u
      simp only [Time.Instant.mk.injEq]
      omega

theorem NoOlder.trans {a b c : Post} (hab : a.NoOlder b) (hbc : b.NoOlder c) : a.NoOlder c := by
  unfold NoOlder Time.Instant.lt at *
  rcases ha : a.publishedAt with _ | ⟨s, n⟩ <;> rcases hb : b.publishedAt with _ | ⟨s', n'⟩ <;>
    rcases hc : c.publishedAt with _ | ⟨s'', n''⟩ <;>
    simp only [ha, hb, hc, Time.Instant.mk.injEq] at hab hbc ⊢ <;> omega

end Post

/-! ### Sorting -/

theorem isNoOlder_trans (a b c : Post) (hab : a.isNoOlder b = true) (hbc : b.isNoOlder c = true) :
    a.isNoOlder c = true :=
  Post.isNoOlder_iff.2 ((Post.isNoOlder_iff.1 hab).trans (Post.isNoOlder_iff.1 hbc))

theorem isNoOlder_total (a b : Post) : (a.isNoOlder b || b.isNoOlder a) = true := by
  rw [Bool.or_eq_true, Post.isNoOlder_iff, Post.isNoOlder_iff]
  exact Post.noOlder_total a b

theorem pairwise_mergeSort (posts : List Post) :
    (posts.mergeSort Post.isNoOlder).Pairwise Post.NoOlder :=
  (List.pairwise_mergeSort isNoOlder_trans isNoOlder_total posts).imp Post.isNoOlder_iff.1

/-- A post is sorted in behind those that are newer, and in front of all others. -/
theorem mergeSort_cons (a : Post) (posts : List Post) :
    ∃ newer others, (a :: posts).mergeSort Post.isNoOlder = newer ++ a :: others ∧
      posts.mergeSort Post.isNoOlder = newer ++ others ∧
      (∀ b ∈ newer, ¬ a.NoOlder b) ∧ ∀ b ∈ others, a.NoOlder b := by
  obtain ⟨newer, others, h, h', hnewer⟩ :=
    List.mergeSort_cons isNoOlder_trans isNoOlder_total a posts
  refine ⟨newer, others, h, h', fun b hb hab => ?_, fun b hb => ?_⟩
  · have hlt := hnewer b hb
    rw [Post.isNoOlder_iff.2 hab] at hlt
    exact absurd hlt (by decide)
  · have hsorted := pairwise_mergeSort (a :: posts)
    rw [h] at hsorted
    exact (List.pairwise_cons.1 (List.pairwise_append.1 hsorted).2.1).1 b hb

/-- There is one place only where a list can be cut so that `q` fails before it and holds behind. -/
theorem cut_unique {α : Type} {q : α → Prop} {l₁ l₂ m₁ m₂ : List α} (h : l₁ ++ l₂ = m₁ ++ m₂)
    (hl₁ : ∀ b ∈ l₁, ¬ q b) (hl₂ : ∀ b ∈ l₂, q b) (hm₁ : ∀ b ∈ m₁, ¬ q b) (hm₂ : ∀ b ∈ m₂, q b) :
    l₁ = m₁ ∧ l₂ = m₂ := by
  rcases List.append_eq_append_iff.1 h with ⟨t, rfl, rfl⟩ | ⟨t, rfl, rfl⟩
  · have ht : t = [] := List.eq_nil_iff_forall_not_mem.2 fun b hb =>
      hm₁ b (List.mem_append_right _ hb) (hl₂ b (List.mem_append_left _ hb))
    simp [ht]
  · have ht : t = [] := List.eq_nil_iff_forall_not_mem.2 fun b hb =>
      hl₁ b (List.mem_append_right _ hb) (hm₂ b (List.mem_append_left _ hb))
    simp [ht]

/-- **Leaving posts out and sorting can change places.** -/
theorem filter_mergeSort (p : Post → Bool) (posts : List Post) :
    (posts.mergeSort Post.isNoOlder).filter p = (posts.filter p).mergeSort Post.isNoOlder := by
  induction posts with
  | nil => simp
  | cons a posts ih =>
    obtain ⟨newer, others, h, h', hnewer, hothers⟩ := mergeSort_cons a posts
    rw [h', List.filter_append] at ih
    rw [h, List.filter_append, List.filter_cons, List.filter_cons]
    split
    · obtain ⟨newer', others', e, e', hnewer', hothers'⟩ := mergeSort_cons a (posts.filter p)
      obtain ⟨hn, ho⟩ := cut_unique (ih.trans e') (fun b hb => hnewer b (List.mem_filter.1 hb).1)
        (fun b hb => hothers b (List.mem_filter.1 hb).1) hnewer' hothers'
      rw [e, hn, ho]
    · exact ih

end ThemePress.Blog
