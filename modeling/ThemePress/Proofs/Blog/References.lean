import Mathlib.Data.List.Nodup
import ThemePress.Proofs.Blog.Loading
import ThemePress.Proofs.Blog.Windows

/-! # References of posts

A data file names the author and the tags of a post by their numbers, and loading puts the entries
in place of the numbers. So each post of a store holds entries of the store's own lists
(`resolves_of_load`), and since no slug is given twice, each is found under its slug
(`find?_of_mem`).

Numbers may be given twice. Then a reference leads to the last entry of its number, while the store
looks entries up from the front and lists posts by number alone. All three agree just when each
number that a post refers to belongs to one entry only (`references_agree_iff`). -/

namespace ThemePress.Blog

/-! ### Entries by slug and by number -/

section
variable {α β : Type} {l : List α} {a b : α} {n : Int}

/-- Where no key is given twice, each entry is found under its own. -/
theorem find?_of_mem [DecidableEq β] {key : α → β} (h : (l.map key).Nodup) (ha : a ∈ l) :
    l.find? (key · == key a) = some a := by
  cases hf : l.find? (key · == key a) with
  | none => exact absurd (List.find?_eq_none.1 hf a ha) (by simp)
  | some b =>
    have hkey : key b = key a := by simpa using List.find?_some hf
    rw [List.inj_on_of_nodup_map h (List.mem_of_find?_eq_some hf) ha hkey]

/-- No two entries of the list have the number `n`. -/
def OneWithId (id : α → Int) (l : List α) (n : Int) : Prop :=
  ∀ a ∈ l, ∀ b ∈ l, id a = n → id b = n → a = b

variable {id : α → Int}

theorem mem_of_lastWithId? (h : lastWithId? id l n = some a) : a ∈ l ∧ id a = n :=
  ⟨List.mem_reverse.1 (List.mem_of_find?_eq_some h), by simpa using List.find?_some h⟩

/-- The last entry of a number is found from the front just when no other has this number. -/
theorem find?_lastWithId?_iff (hl : l.Nodup) (h : lastWithId? id l n = some a) :
    l.find? (id · == n) = some a ↔ OneWithId id l n := by
  obtain ⟨ha, hid⟩ := mem_of_lastWithId? h
  constructor
  · intro hfirst
    obtain ⟨-, before, after, e, hbefore⟩ := List.find?_eq_some_iff_append.1 hfirst
    obtain ⟨-, after', before', e', hafter⟩ := List.find?_eq_some_iff_append.1 h
    have he : before ++ a :: after = before'.reverse ++ a :: after'.reverse := by
      rw [← e, List.reverse_eq_iff.1 e']
      simp
    -- `a` stands at one place, which is both the first and the last of its number
    have hnot : a ∉ before ∧ a ∉ after := by
      rw [e, List.nodup_middle] at hl
      simpa using (List.nodup_cons.1 hl).1
    obtain ⟨-, -, rfl⟩ := (List.append_cons_inj_of_notMem hnot.1 hnot.2).1 he
    have hall : ∀ b ∈ l, id b = n → b = a := by
      intro b hb hbn
      rw [e, List.mem_append, List.mem_cons] at hb
      rcases hb with hb | rfl | hb
      · exact absurd hbn (by simpa using hbefore b hb)
      · rfl
      · exact absurd hbn (by simpa using hafter b (List.mem_reverse.1 hb))
    intro b hb b' hb' hbn hbn'
    rw [hall b hb hbn, hall b' hb' hbn']
  · intro hone
    cases hf : l.find? (id · == n) with
    | none => exact absurd (List.find?_eq_none.1 hf a ha) (by simpa using hid)
    | some b =>
      have hb : id b = n := by simpa using List.find?_some hf
      rw [hone b (List.mem_of_find?_eq_some hf) a ha hb hid]

/-- Where an entry is the only one of its number, its number says as much as its slug. -/
theorem OneWithId.id_eq_iff {slug : α → String} (h : OneWithId id l (id b))
    (hslugs : (l.map slug).Nodup) (ha : a ∈ l) (hb : b ∈ l) : id b = id a ↔ slug b = slug a := by
  constructor
  · intro hid
    rw [h a ha b hb hid.symm rfl]
  · intro hslug
    rw [List.inj_on_of_nodup_map hslugs hb ha hslug]

end

/-! ### Resolving -/

namespace PostEntry

variable {authors : List Author} {tags : List Tag} {e : PostEntry} {post : Post}

theorem resolveAuthor_ok_iff {number : Int} {n? : Option Int} {author? : Option Author} :
    resolveAuthor authors number n? = .ok author? ↔
      n?.map (lastWithId? Author.id authors) = author?.map some := by
  cases n? with
  | none => cases author? <;> simp [resolveAuthor]
  | some n =>
    rw [resolveAuthor]
    cases h : lastWithId? Author.id authors n <;> cases author? <;> simp [h]

theorem resolveTags_cons_ok_iff {number n : Int} {ns : List Int} {ts : List Tag} :
    resolveTags tags number (n :: ns) = .ok ts ↔
      ∃ t rest, lastWithId? Tag.id tags n = some t ∧ resolveTags tags number ns = .ok rest ∧
        t :: rest = ts := by
  rw [resolveTags]
  cases lastWithId? Tag.id tags n with
  | none => simp
  | some t => cases resolveTags tags number ns <;> simp [Except.map]

theorem resolveTags_ok_iff {number : Int} {ns : List Int} {ts : List Tag} :
    resolveTags tags number ns = .ok ts ↔ ns.map (lastWithId? Tag.id tags) = ts.map some := by
  induction ns generalizing ts with
  | nil => cases ts <;> simp [resolveTags]
  | cons n ns ih =>
    rw [resolveTags_cons_ok_iff]
    cases ts with
    | nil => simp
    | cons t ts => simp [ih]

/-- A post holds the entries that its numbers lead to. -/
theorem references_of_resolve (h : e.resolve authors tags = .ok post) :
    e.author.map (lastWithId? Author.id authors) = post.author.map some ∧
      e.tags.map (lastWithId? Tag.id tags) = post.tags.map some := by
  obtain ⟨author, hauthor, h⟩ := bind_ok_iff.1 h
  obtain ⟨postTags, htags, h⟩ := bind_ok_iff.1 h
  cases h
  exact ⟨resolveAuthor_ok_iff.1 hauthor, resolveTags_ok_iff.1 htags⟩

theorem resolveAll_ok_iff {es : List PostEntry} {posts : List Post} :
    resolveAll authors tags es = .ok posts ↔ es.map (·.resolve authors tags) = posts.map .ok := by
  induction es generalizing posts with
  | nil => cases posts <;> simp [resolveAll]
  | cons e es ih =>
    rw [resolveAll_cons_ok_iff]
    cases posts with
    | nil => simp
    | cons post posts => simp [ih]

end PostEntry

/-! ### References of a store -/

/-- A post of the file names an author by the number `n`. -/
def DataFile.RefersToAuthor (d : DataFile) (n : Int) : Prop :=
  ∃ e ∈ d.posts, e.author = some n

/-- A post of the file names a tag by the number `n`. -/
def DataFile.RefersToTag (d : DataFile) (n : Int) : Prop :=
  ∃ e ∈ d.posts, n ∈ e.tags

section
variable {d : DataFile} {store : Store} (h : Store.load d = .ok store)

include h in
theorem entries_of_load : store.authors = d.authors ∧ store.tags = d.tags := by
  obtain ⟨-, -, posts, -, -, rfl⟩ := load_ok_iff.1 h
  exact ⟨rfl, rfl⟩

include h in
/-- **A store has the resolved post of each entry of its file**, and no others. -/
theorem resolves_of_load :
    (∀ post ∈ store.posts, ∃ e ∈ d.posts, e.resolve d.authors d.tags = .ok post) ∧
      ∀ e ∈ d.posts, ∃ post ∈ store.posts, e.resolve d.authors d.tags = .ok post := by
  obtain ⟨-, -, posts, hposts, -, rfl⟩ := load_ok_iff.1 h
  have hmap := PostEntry.resolveAll_ok_iff.1 hposts
  have hperm := List.mergeSort_perm posts Post.isNoOlder
  constructor
  · intro post hpost
    have hm : Except.ok post ∈ d.posts.map (·.resolve d.authors d.tags) := by
      rw [hmap]
      exact List.mem_map_of_mem (hperm.mem_iff.1 hpost)
    exact List.mem_map.1 hm
  · intro e he
    have hm : e.resolve d.authors d.tags ∈ posts.map Except.ok := by
      rw [← hmap]
      exact List.mem_map_of_mem he
    obtain ⟨post, hpost, hr⟩ := List.mem_map.1 hm
    exact ⟨post, hperm.mem_iff.2 hpost, hr.symm⟩

include h in
theorem author_of_load {post : Post} (hp : post ∈ store.posts) {a : Author}
    (ha : post.author = some a) :
    d.RefersToAuthor a.id ∧ lastWithId? Author.id d.authors a.id = some a := by
  obtain ⟨e, he, hr⟩ := (resolves_of_load h).1 post hp
  have hauthor := (PostEntry.references_of_resolve hr).1
  rw [ha, Option.map_some, Option.map_eq_some_iff] at hauthor
  obtain ⟨n, hn, hlast⟩ := hauthor
  obtain rfl := (mem_of_lastWithId? hlast).2
  exact ⟨⟨e, he, hn⟩, hlast⟩

include h in
theorem tag_of_load {post : Post} (hp : post ∈ store.posts) {t : Tag} (ht : t ∈ post.tags) :
    d.RefersToTag t.id ∧ lastWithId? Tag.id d.tags t.id = some t := by
  obtain ⟨e, he, hr⟩ := (resolves_of_load h).1 post hp
  have hm : some t ∈ e.tags.map (lastWithId? Tag.id d.tags) := by
    rw [(PostEntry.references_of_resolve hr).2]
    exact List.mem_map_of_mem ht
  obtain ⟨n, hn, hlast⟩ := List.mem_map.1 hm
  obtain rfl := (mem_of_lastWithId? hlast).2
  exact ⟨⟨e, he, hn⟩, hlast⟩

include h in
theorem exists_author_of_load {n : Int} (hn : d.RefersToAuthor n) :
    ∃ post ∈ store.posts, ∃ a, post.author = some a ∧
      lastWithId? Author.id d.authors n = some a := by
  obtain ⟨e, he, hn⟩ := hn
  obtain ⟨post, hp, hr⟩ := (resolves_of_load h).2 e he
  have hauthor := (PostEntry.references_of_resolve hr).1
  rw [hn, Option.map_some] at hauthor
  obtain ⟨a, ha, hlast⟩ := Option.map_eq_some_iff.1 hauthor.symm
  exact ⟨post, hp, a, ha, hlast.symm⟩

include h in
theorem exists_tag_of_load {n : Int} (hn : d.RefersToTag n) :
    ∃ post ∈ store.posts, ∃ t ∈ post.tags, lastWithId? Tag.id d.tags n = some t := by
  obtain ⟨e, he, hn⟩ := hn
  obtain ⟨post, hp, hr⟩ := (resolves_of_load h).2 e he
  have hm : lastWithId? Tag.id d.tags n ∈ post.tags.map some := by
    rw [← (PostEntry.references_of_resolve hr).2]
    exact List.mem_map_of_mem hn
  obtain ⟨t, ht, hlast⟩ := List.mem_map.1 hm
  exact ⟨post, hp, t, ht, hlast.symm⟩

end

/-! ### Numbers and slugs -/

/-- What posts hold, what is found by number and what is listed under a slug agree: each author and
tag of a post is found by its number, and the posts of an author or with a tag are the listed ones
that hold an entry of that slug. -/
structure Store.Consistent (store : Store) : Prop where
  author : ∀ post ∈ store.posts, ∀ a, post.author = some a → store.authorById? a.id = some a
  tag : ∀ post ∈ store.posts, ∀ t ∈ post.tags, store.tagById? t.id = some t
  byAuthor : ∀ slug a, store.authorBySlug? slug = some a →
    store.listedByAuthor a.id =
      store.posts.filter fun p => p.published && !p.page && p.author.any (·.slug == slug)
  withTag : ∀ slug t, store.tagBySlug? slug = some t →
    store.listedWithTag t.id =
      store.posts.filter fun p => p.published && !p.page && p.tags.any (·.slug == slug)

section
variable {d : DataFile} {store : Store} (h : Store.load d = .ok store)
  (hauthors : ∀ n, d.RefersToAuthor n → OneWithId Author.id d.authors n)
  (htags : ∀ n, d.RefersToTag n → OneWithId Tag.id d.tags n)

include h hauthors in
theorem listedByAuthor_eq {slug : String} {a : Author} (ha : store.authorBySlug? slug = some a) :
    store.listedByAuthor a.id =
      store.posts.filter fun p => p.published && !p.page && p.author.any (·.slug == slug) := by
  obtain ⟨hslugs, -⟩ := load_ok_iff.1 h
  have hlist := (entries_of_load h).1
  have hslug : a.slug = slug := by simpa using List.find?_some ha
  have ham : a ∈ d.authors := hlist ▸ List.mem_of_find?_eq_some ha
  unfold Store.listedByAuthor Store.listed
  rw [List.filter_filter]
  refine List.filter_congr fun p hp => ?_
  have hany : p.hasAuthor a.id = p.author.any (·.slug == slug) := by
    unfold Post.hasAuthor
    cases hb : p.author with
    | none => rfl
    | some b =>
      obtain ⟨href, hlast⟩ := author_of_load h hp hb
      have hiff := (hauthors _ href).id_eq_iff hslugs ham (mem_of_lastWithId? hlast).1
      rw [hslug] at hiff
      rw [Option.any_some, Option.any_some, Bool.eq_iff_iff, beq_iff_eq, beq_iff_eq]
      exact hiff
  rw [hany, Bool.and_comm, Post.isListed]

include h htags in
theorem listedWithTag_eq {slug : String} {t : Tag} (ht : store.tagBySlug? slug = some t) :
    store.listedWithTag t.id =
      store.posts.filter fun p => p.published && !p.page && p.tags.any (·.slug == slug) := by
  obtain ⟨-, hslugs, -⟩ := load_ok_iff.1 h
  have hlist := (entries_of_load h).2
  have hslug : t.slug = slug := by simpa using List.find?_some ht
  have htm : t ∈ d.tags := hlist ▸ List.mem_of_find?_eq_some ht
  unfold Store.listedWithTag Store.listed
  rw [List.filter_filter]
  refine List.filter_congr fun p hp => ?_
  have hany : p.hasTag t.id = p.tags.any (·.slug == slug) := by
    rw [Post.hasTag, Bool.eq_iff_iff, List.any_eq_true, List.any_eq_true]
    refine exists_congr fun u => and_congr_right fun hu => ?_
    obtain ⟨href, hlast⟩ := tag_of_load h hp hu
    have hiff := (htags _ href).id_eq_iff hslugs htm (mem_of_lastWithId? hlast).1
    rw [hslug] at hiff
    simpa using hiff
  rw [hany, Bool.and_comm, Post.isListed]

include h in
/-- **What posts hold, what is found by number and what is listed under a slug agree just when no
number that a post refers to is given twice.** -/
theorem references_agree_iff :
    store.Consistent ↔
      (∀ n, d.RefersToAuthor n → OneWithId Author.id d.authors n) ∧
        ∀ n, d.RefersToTag n → OneWithId Tag.id d.tags n := by
  obtain ⟨hauthorSlugs, htagSlugs, -⟩ := load_ok_iff.1 h
  obtain ⟨hauthorList, htagList⟩ := entries_of_load h
  have hauthorsNodup := hauthorSlugs.of_map
  have htagsNodup := htagSlugs.of_map
  constructor
  · intro hc
    refine ⟨fun n hn => ?_, fun n hn => ?_⟩
    · obtain ⟨post, hp, a, ha, hlast⟩ := exists_author_of_load h hn
      have hfound := hc.author post hp a ha
      rw [Store.authorById?, hauthorList, (mem_of_lastWithId? hlast).2] at hfound
      exact (find?_lastWithId?_iff hauthorsNodup hlast).1 hfound
    · obtain ⟨post, hp, t, ht, hlast⟩ := exists_tag_of_load h hn
      have hfound := hc.tag post hp t ht
      rw [Store.tagById?, htagList, (mem_of_lastWithId? hlast).2] at hfound
      exact (find?_lastWithId?_iff htagsNodup hlast).1 hfound
  · rintro ⟨hauthors, htags⟩
    refine ⟨fun post hp a ha => ?_, fun post hp t ht => ?_,
      fun _ _ ha => listedByAuthor_eq h hauthors ha, fun _ _ ht => listedWithTag_eq h htags ht⟩
    · obtain ⟨href, hlast⟩ := author_of_load h hp ha
      rw [Store.authorById?, hauthorList]
      exact (find?_lastWithId?_iff hauthorsNodup hlast).2 (hauthors _ href)
    · obtain ⟨href, hlast⟩ := tag_of_load h hp ht
      rw [Store.tagById?, htagList]
      exact (find?_lastWithId?_iff htagsNodup hlast).2 (htags _ href)

end

/-- Two authors of one number, to which no post refers, and one to whom a post does. -/
def unusedNumber : DataFile where
  blog := {}
  authors := [{ id := 1, slug := "a" }, { id := 1, slug := "b" }, { id := 2, slug := "c" }]
  tags := [{ id := 1, slug := "t" }]
  posts := [{ id := 1, title := "p", slug := "p", author := some 2, tags := [1] }]

theorem references_agree_iff_unused_number :
    ∃ store, Store.load unusedNumber = .ok store ∧ store.Consistent ∧
      (store.authorById? 1).map (·.slug) = some "a" ∧
      (store.authorById? 2).map (·.slug) = some "c" := by
  refine ⟨_, rfl, ?_, by rfl, by rfl⟩
  refine (references_agree_iff (d := unusedNumber) rfl).2 ⟨?_, ?_⟩
  · rintro n ⟨e, he, hn⟩
    have htwo : n = 2 := by simp_all [unusedNumber]
    simp [OneWithId, unusedNumber, htwo]
  · simp [OneWithId, unusedNumber]

def firstAuthor : Author := { id := 1, name := "A", slug := "a" }

def secondAuthor : Author := { id := 1, name := "B", slug := "b" }

/-- The file has both authors, and a post by number 1. -/
def textWithSharedNumber : String :=
  "blog:\nauthors:\n- id: 1\n  name: A\n  slug: a\n- id: 1\n  name: B\n  slug: b\n" ++
    "posts:\n- id: 1\n  title: T\n  slug: t\n  author: 1\n"

/-- **With a number given twice, a post can hold another author than the one of its number.** It is
then listed under the slug of an author whom it does not hold. -/
theorem not_consistent_of_shared_number :
    let post : Post := { id := 1, title := "T", slug := "t", author := some secondAuthor }
    let store := Store.make (ProfileEntry.profile {}) [firstAuthor, secondAuthor] [] [post]
    Store.ofText textWithSharedNumber = .ok store ∧ ¬ store.Consistent ∧ store.posts = [post] ∧
      store.authorById? secondAuthor.id = some firstAuthor ∧
      store.authorBySlug? "a" = some firstAuthor ∧
      store.listedByAuthor firstAuthor.id = [post] := by
  intro post store
  have hd : Yaml.decode? DataFile.decode textWithSharedNumber =
      some { blog := {}, authors := [firstAuthor, secondAuthor]
             posts := [{ id := 1, title := "T", slug := "t", author := some 1 }] } := by
    decide +kernel
  have hposts : store.posts = [post] := List.mergeSort_singleton _
  refine ⟨ofText_ok_iff.2 ⟨_, hd, rfl⟩, fun hc => ?_, hposts, rfl, rfl, ?_⟩
  · have hfound := hc.author post (by rw [hposts]; exact List.mem_singleton_self _) secondAuthor rfl
    exact absurd hfound (by decide)
  · unfold Store.listedByAuthor Store.listed
    rw [hposts]
    rfl

end ThemePress.Blog
