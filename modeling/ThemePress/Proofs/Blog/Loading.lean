import ThemePress.Blog.Decode

/-! # What loading a data file comes to

Loading gives the store of the posts with their references resolved, and fails unless the slugs of
authors, of tags and of posts are each without repetition (`load_ok_iff`). Posts are resolved one by
one, so leaving entries out leaves out their posts (`resolveAll_filter`). -/

namespace ThemePress.Blog

/-- A sequence of two steps comes to a result when both steps do. -/
theorem bind_ok_iff {ε α β : Type} {x : Except ε α} {f : α → Except ε β} {b : β} :
    x >>= f = .ok b ↔ ∃ a, x = .ok a ∧ f a = .ok b := by
  cases x with
  | error e => simp [bind, Except.bind]
  | ok a => simp [bind, Except.bind]

/-! ### Slugs -/

theorem firstRepeated?_eq_none_iff (seen l : List String) :
    firstRepeated? seen l = none ↔ l.Nodup ∧ ∀ s ∈ l, s ∉ seen := by
  induction l generalizing seen with
  | nil => simp [firstRepeated?]
  | cons s l ih =>
    rw [firstRepeated?]
    split
    · next hs => simp [hs]
    · next hs =>
      rw [ih, List.nodup_cons]
      constructor
      · rintro ⟨hl, hseen⟩
        have hsl : s ∉ l := fun hm => hseen s hm (List.mem_cons_self ..)
        refine ⟨⟨hsl, hl⟩, fun t ht => ?_⟩
        rcases List.mem_cons.1 ht with rfl | ht
        · exact hs
        · exact fun hm => hseen t ht (List.mem_cons_of_mem _ hm)
      · rintro ⟨⟨hsl, hl⟩, hseen⟩
        refine ⟨hl, fun t ht hm => ?_⟩
        rcases List.mem_cons.1 hm with rfl | hm
        · exact hsl ht
        · exact hseen t (List.mem_cons_of_mem _ ht) hm

theorem requireUnique_ok_iff {kind : EntryKind} {slugs : List String} {u : Unit} :
    requireUnique kind slugs = .ok u ↔ slugs.Nodup := by
  have h := firstRepeated?_eq_none_iff [] slugs
  unfold requireUnique
  cases hr : firstRepeated? [] slugs with
  | none => simpa [hr] using h
  | some s => simpa [hr] using h

/-! ### References -/

namespace PostEntry

variable {authors : List Author} {tags : List Tag}

/-- A post says of itself whether it is published, whatever it refers to. -/
theorem published_of_resolve {e : PostEntry} {post : Post} (h : e.resolve authors tags = .ok post) :
    post.published = e.published := by
  obtain ⟨author, -, h⟩ := bind_ok_iff.1 h
  obtain ⟨postTags, -, h⟩ := bind_ok_iff.1 h
  cases h
  rfl

theorem resolveAll_cons_ok_iff {e : PostEntry} {es : List PostEntry} {posts : List Post} :
    resolveAll authors tags (e :: es) = .ok posts ↔
      ∃ post rest, e.resolve authors tags = .ok post ∧ resolveAll authors tags es = .ok rest ∧
        post :: rest = posts := by
  simp only [resolveAll, bind_ok_iff, pure, Except.pure, Except.ok.injEq]
  constructor
  · rintro ⟨post, hpost, rest, hrest, rfl⟩
    exact ⟨post, rest, hpost, hrest, rfl⟩
  · rintro ⟨post, rest, hpost, hrest, rfl⟩
    exact ⟨post, hpost, rest, hrest, rfl⟩

/-- Without the entries of unpublished posts there are the same posts without these. -/
theorem resolveAll_filter {es : List PostEntry} {posts : List Post}
    (h : resolveAll authors tags es = .ok posts) :
    resolveAll authors tags (es.filter (·.published)) = .ok (posts.filter (·.published)) := by
  induction es generalizing posts with
  | nil =>
    rw [resolveAll, Except.ok.injEq] at h
    rw [← h]
    rfl
  | cons e es ih =>
    obtain ⟨post, rest, hpost, hrest, rfl⟩ := resolveAll_cons_ok_iff.1 h
    rw [List.filter_cons, List.filter_cons, published_of_resolve hpost]
    split
    · exact resolveAll_cons_ok_iff.2 ⟨post, _, hpost, ih hrest, rfl⟩
    · exact ih hrest

end PostEntry

/-! ### Stores -/

theorem load_ok_iff {d : DataFile} {store : Store} :
    Store.load d = .ok store ↔
      (d.authors.map (·.slug)).Nodup ∧ (d.tags.map (·.slug)).Nodup ∧
        ∃ posts, PostEntry.resolveAll d.authors d.tags d.posts = .ok posts ∧
          (posts.map (·.slug)).Nodup ∧
          Store.make d.blog.profile d.authors d.tags posts = store := by
  simp only [Store.load, bind_ok_iff, requireUnique_ok_iff, pure, Except.pure, Except.ok.injEq]
  constructor
  · rintro ⟨-, hauthors, -, htags, posts, hposts, -, hslugs, hstore⟩
    exact ⟨hauthors, htags, posts, hposts, hslugs, hstore⟩
  · rintro ⟨hauthors, htags, posts, hposts, hslugs, hstore⟩
    exact ⟨(), hauthors, (), htags, posts, hposts, (), hslugs, hstore⟩

theorem ofText_ok_iff {text : String} {store : Store} :
    Store.ofText text = .ok store ↔
      ∃ d, Yaml.decode? DataFile.decode text = some d ∧ Store.load d = .ok store := by
  unfold Store.ofText
  cases Yaml.decode? DataFile.decode text with
  | none => simp
  | some d => simp

end ThemePress.Blog
