import ThemePress.Proofs.Blog.Order

/-! # Reading a listing to its end

A listing is read in windows, each behind the one before, until one is empty (`windowsFrom`). With a
limit of at least one post this gives the listing itself (`readThrough_eq`), so what there is to say
about the order of listings and about their numbers of posts can be said of the listings.

The listings of a store are its posts with some left out, in the order of the store. They are the
sorted posts that were given to it (`listed_make`), since leaving out and sorting change places. -/

namespace ThemePress.Blog

/-! ### Windows -/

section
variable {posts : List Post} {limit offset : Int}

theorem window_eq_nil_iff (posts : List Post) (hl : 1 ≤ limit) (ho : 0 ≤ offset) :
    Store.window posts limit offset = [] ↔ (posts.length : Int) ≤ offset := by
  unfold Store.window
  rw [List.take_eq_nil_iff, List.drop_eq_nil_iff]
  omega

/-- Only a limit of one or more shows anything, and only in front of the end. -/
theorem bounds_of_window_ne_nil (h : Store.window posts limit offset ≠ []) :
    1 ≤ limit ∧ offset < posts.length := by
  unfold Store.window at h
  rw [ne_eq, List.take_eq_nil_iff, List.drop_eq_nil_iff] at h
  omega

end

/-- The windows of `limit` posts from `offset` on, each behind the one before, up to the first empty
one. -/
def windowsFrom (posts : List Post) (limit offset : Int) : List (List Post) :=
  if h : Store.window posts limit offset = [] then []
  else
    have := bounds_of_window_ne_nil h
    Store.window posts limit offset :: windowsFrom posts limit (offset + limit)
termination_by (posts.length - offset).toNat

/-- All posts of a listing that is read from its start in windows of `limit` posts. -/
def readThrough (posts : List Post) (limit : Int) : List Post :=
  (windowsFrom posts limit 0).flatten

section
variable {posts : List Post} {limit offset : Int}

theorem flatten_windowsFrom (hl : 1 ≤ limit) (ho : 0 ≤ offset) :
    (windowsFrom posts limit offset).flatten = posts.drop offset.toNat := by
  fun_induction windowsFrom posts limit offset with
  | case1 offset h =>
    have hlen := (window_eq_nil_iff posts hl ho).1 h
    rw [List.flatten_nil, List.drop_eq_nil_of_le (by omega)]
  | case2 offset h _ ih =>
    have hoff : (offset + limit).toNat = offset.toNat + limit.toNat := by omega
    rw [List.flatten_cons, ih (by omega), hoff, ← List.drop_drop]
    exact List.take_append_drop ..

theorem readThrough_eq (posts : List Post) (hl : 1 ≤ limit) : readThrough posts limit = posts := by
  rw [readThrough, flatten_windowsFrom hl (Int.le_refl 0), Int.toNat_zero, List.drop_zero]

end

/-! ### The listings of a store -/

section
variable (profile : Profile) (authors : List Author) (tags : List Tag) (posts : List Post)

theorem listed_make :
    (Store.make profile authors tags posts).listed =
      (posts.filter (·.isListed)).mergeSort Post.isNoOlder :=
  filter_mergeSort _ _

theorem postCount_make :
    (Store.make profile authors tags posts).postCount =
      (Store.make profile authors tags posts).listed.length := by
  rw [listed_make, List.length_mergeSort]
  rfl

theorem perm_listed : (Store.make profile authors tags posts).listed.Perm
    (posts.filter fun p => p.published && !p.page) := by
  rw [listed_make]
  exact List.mergeSort_perm _ _

theorem perm_listed_filter (q : Post → Bool) :
    ((Store.make profile authors tags posts).listed.filter q).Perm
      (posts.filter fun p => p.published && !p.page && q p) := by
  have h := (perm_listed profile authors tags posts).filter q
  rw [List.filter_filter] at h
  simpa only [Bool.and_comm] using h

theorem pairwise_listed :
    (Store.make profile authors tags posts).listed.Pairwise Post.NoOlder := by
  rw [listed_make]
  exact pairwise_mergeSort _

/-- **Reading a listing in windows of any size gives its posts.** These are the published posts that
are not pages by themselves, for the listing of a tag or an author only those with that tag or by
that author. Each is read as often as it is there, and nothing else is read. The newest post comes
first and undated ones come last, the listings of tags and authors keep the order of the listing of
all posts, and the store's counts are the numbers of posts read. -/
theorem windows_partition_listings (tag author : Int) {limit : Int} (hl : 1 ≤ limit) :
    let store := Store.make profile authors tags posts
    let all := readThrough store.listed limit
    let withTag := readThrough (store.listedWithTag tag) limit
    let byAuthor := readThrough (store.listedByAuthor author) limit
    (all.Perm (posts.filter fun p => p.published && !p.page) ∧
      withTag.Perm (posts.filter fun p => p.published && !p.page && p.tags.any (·.id == tag)) ∧
      byAuthor.Perm
        (posts.filter fun p => p.published && !p.page && p.author.any (·.id == author))) ∧
    (all.Pairwise Post.NoOlder ∧ withTag.Pairwise Post.NoOlder ∧ byAuthor.Pairwise Post.NoOlder) ∧
    (withTag.Sublist all ∧ byAuthor.Sublist all) ∧
    (store.postCount = all.length ∧ store.profile.postCount = all.length ∧
      store.postCountWithTag tag = withTag.length ∧
      store.postCountByAuthor author = byAuthor.length) := by
  intro store all withTag byAuthor
  have hall : all = store.listed := readThrough_eq _ hl
  have htag : withTag = store.listed.filter (·.hasTag tag) := readThrough_eq _ hl
  have hauthor : byAuthor = store.listed.filter (·.hasAuthor author) := readThrough_eq _ hl
  have hsorted : store.listed.Pairwise Post.NoOlder := pairwise_listed profile authors tags posts
  have hcount := postCount_make profile authors tags posts
  rw [hall, htag, hauthor]
  refine ⟨⟨?_, ?_, ?_⟩, ⟨hsorted, hsorted.filter _, hsorted.filter _⟩,
    ⟨List.filter_sublist, List.filter_sublist⟩, hcount, hcount, rfl, rfl⟩
  · exact perm_listed profile authors tags posts
  · exact perm_listed_filter profile authors tags posts (·.hasTag tag)
  · exact perm_listed_filter profile authors tags posts (·.hasAuthor author)

end

/-- Dated and undated posts, two of one number and date, one with a tag twice, one that is a page by
itself and one that is not published. -/
def assortedPosts : List Post :=
  let tag : Tag := { id := 7 }
  let author : Author := { id := 3 }
  [{ id := 1 }, { id := 2, publishedAt := some ⟨60, 0⟩, tags := [tag, tag] },
    { id := 2, publishedAt := some ⟨60, 0⟩, author := some author }, { id := 4, page := true },
    { id := 5, published := false, tags := [tag] }, { id := 6, tags := [tag] }]

theorem windows_partition_listings_by_two :
    let store := Store.make {} [] [] assortedPosts
    (1 : Int) ≤ 2 ∧ (readThrough store.listed 2).Pairwise Post.NoOlder ∧
      ((readThrough store.listed 2).map (·.id)).Perm [1, 2, 2, 6] ∧ store.postCount = 4 ∧
      store.postCountWithTag 7 = 2 ∧ store.postCountByAuthor 3 = 1 := by
  intro store
  have hl : (1 : Int) ≤ 2 := by decide
  obtain ⟨⟨hall, htag, hauthor⟩, ⟨hsorted, -, -⟩, -, hcount, -, htagCount, hauthorCount⟩ :=
    windows_partition_listings {} [] [] assortedPosts 7 3 hl
  refine ⟨hl, hsorted, hall.map (·.id), ?_, ?_, ?_⟩
  · rw [hcount, hall.length_eq]
    rfl
  · rw [htagCount, htag.length_eq]
    rfl
  · rw [hauthorCount, hauthor.length_eq]
    rfl

end ThemePress.Blog
