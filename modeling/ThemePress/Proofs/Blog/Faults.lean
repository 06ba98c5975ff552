import Mathlib.Data.List.Forall2
import ThemePress.Proofs.Blog.References

/-! # The first fault of a data file

A data file is sound when no slug is given twice and every reference leads somewhere
(`DataFile.Sound`). What is wrong with one that is not is said by `DataFile.FirstFault`: repeated
slugs of authors come before those of tags, then come the references of the posts, each post's
author before its tags, and last the slugs of the posts. Within each kind the fault that stands
first in the file counts.

Loading succeeds with the sound files and fails with the first fault of all others. The store then
has one post for each entry, and each entry is found under its slug
(`load_fails_with_first_fault`). -/

namespace ThemePress.Blog

/-- The first step fails, or the second one does after it. -/
theorem bind_error_iff {ε α β : Type} {x : Except ε α} {f : α → Except ε β} {e : ε} :
    x >>= f = .error e ↔ x = .error e ∨ ∃ a, x = .ok a ∧ f a = .error e := by
  cases x with
  | error e' => simp [bind, Except.bind]
  | ok a => simp [bind, Except.bind]

theorem exists_ok_iff {ε α : Type} {x : Except ε α} :
    (∃ a, x = .ok a) ↔ ∀ e, x ≠ .error e := by
  cases x <;> simp

/-- `a` is the first of the list for which `p` holds. -/
def FirstWith {α : Type} (p : α → Prop) (l : List α) (a : α) : Prop :=
  ∃ before after, l = before ++ a :: after ∧ p a ∧ ∀ b ∈ before, ¬ p b

theorem firstWith_nil {α : Type} {p : α → Prop} {a : α} : ¬ FirstWith p [] a := by
  rintro ⟨before, after, h, -⟩
  simp at h

theorem firstWith_cons {α : Type} {p : α → Prop} {l : List α} {a b : α} :
    FirstWith p (b :: l) a ↔ p b ∧ b = a ∨ ¬ p b ∧ FirstWith p l a := by
  constructor
  · rintro ⟨before, after, h, ha, hbefore⟩
    cases before with
    | nil =>
      obtain ⟨rfl, -⟩ := List.cons.inj h
      exact .inl ⟨ha, rfl⟩
    | cons c before =>
      obtain ⟨rfl, hl⟩ := List.cons.inj h
      exact .inr ⟨hbefore b (List.mem_cons_self ..), before, after, hl, ha,
        fun c hc => hbefore c (List.mem_cons_of_mem _ hc)⟩
  · rintro (⟨hb, rfl⟩ | ⟨hb, before, after, rfl, ha, hbefore⟩)
    · exact ⟨[], l, rfl, hb, fun _ hc => nomatch hc⟩
    · refine ⟨b :: before, after, rfl, ha, fun c hc => ?_⟩
      rcases List.mem_cons.1 hc with rfl | hc
      · exact hb
      · exact hbefore c hc

theorem exists_firstWith_iff {α : Type} {p : α → Prop} {l : List α} :
    (∃ a, FirstWith p l a) ↔ ∃ a ∈ l, p a := by
  induction l with
  | nil => simp [firstWith_nil]
  | cons b l ih => by_cases hb : p b <;> simp [firstWith_cons, hb, ih]

/-! ### Repeated slugs -/

/-- `s` is the first text of the list that stands in it before. -/
def FirstRepeated (l : List String) (s : String) : Prop :=
  ∃ before after, l = before ++ s :: after ∧ before.Nodup ∧ s ∈ before

theorem firstRepeated?_eq_some_iff {seen l : List String} {s : String} :
    firstRepeated? seen l = some s ↔
      ∃ before after, l = before ++ s :: after ∧ before.Nodup ∧ (∀ t ∈ before, t ∉ seen) ∧
        (s ∈ before ∨ s ∈ seen) := by
  induction l generalizing seen with
  | nil => simp [firstRepeated?]
  | cons t l ih =>
    rw [firstRepeated?]
    split
    · next ht =>
      constructor
      · intro h
        obtain rfl := Option.some.inj h
        exact ⟨[], l, rfl, by simp [ht]⟩
      · rintro ⟨_ | ⟨u, before⟩, after, h, -, hbefore, -⟩
        · rw [(List.cons.inj h).1]
        · obtain ⟨rfl, -⟩ := List.cons.inj h
          exact absurd ht (hbefore t (List.mem_cons_self ..))
    · next ht =>
      rw [ih]
      constructor
      · rintro ⟨before, after, rfl, hnodup, hbefore, hs⟩
        exact ⟨t :: before, after, rfl, by grind⟩
      · rintro ⟨_ | ⟨u, before⟩, after, h, hnodup, hbefore, hs⟩
        · obtain ⟨rfl, -⟩ := List.cons.inj h
          exact absurd (hs.resolve_left (by simp)) ht
        · obtain ⟨rfl, hl⟩ := List.cons.inj h
          exact ⟨before, after, hl, by grind⟩

theorem requireUnique_error_iff {kind : EntryKind} {slugs : List String} {e : StoreError} :
    requireUnique kind slugs = .error e ↔
      ∃ s, FirstRepeated slugs s ∧ StoreError.duplicateSlug kind s = e := by
  have hrepeated : ∀ s, firstRepeated? [] slugs = some s ↔ FirstRepeated slugs s := by
    intro s
    simp [firstRepeated?_eq_some_iff, FirstRepeated]
  unfold requireUnique
  cases h : firstRepeated? [] slugs with
  | none => simp [← hrepeated, h]
  | some s => simp [← hrepeated, h]

/-! ### References -/

/-- The file has an author of this number. -/
def DataFile.HasAuthor (d : DataFile) (n : Int) : Prop :=
  ∃ a ∈ d.authors, a.id = n

/-- The file has a tag of this number. -/
def DataFile.HasTag (d : DataFile) (n : Int) : Prop :=
  ∃ t ∈ d.tags, t.id = n

theorem lastWithId?_eq_none_iff {α : Type} {id : α → Int} {l : List α} {n : Int} :
    lastWithId? id l n = none ↔ ¬ ∃ a ∈ l, id a = n := by
  simp [lastWithId?]

namespace PostEntry

variable {d : DataFile} {e : PostEntry}

/-- All references of the entry lead somewhere. -/
structure Resolves (d : DataFile) (e : PostEntry) : Prop where
  author : ∀ n, e.author = some n → d.HasAuthor n
  tags : ∀ n ∈ e.tags, d.HasTag n

/-- The first reference of the entry that leads nowhere, the author's before those of its tags. -/
inductive FirstDangling (d : DataFile) (e : PostEntry) : StoreError → Prop where
  | author {n : Int} (h : e.author = some n) (hn : ¬ d.HasAuthor n) :
    FirstDangling d e (.unknownAuthor e.id n)
  | tag {n : Int} (h : ∀ n, e.author = some n → d.HasAuthor n)
    (hn : FirstWith (fun n => ¬ d.HasTag n) e.tags n) : FirstDangling d e (.unknownTag e.id n)

theorem resolveAuthor_error_iff {number : Int} {n? : Option Int} {err : StoreError} :
    resolveAuthor d.authors number n? = .error err ↔
      ∃ n, n? = some n ∧ ¬ d.HasAuthor n ∧ StoreError.unknownAuthor number n = err := by
  cases n? with
  | none => simp [resolveAuthor]
  | some n =>
    rw [resolveAuthor]
    cases h : lastWithId? Author.id d.authors n with
    | none => simp [show ¬ d.HasAuthor n from lastWithId?_eq_none_iff.1 h]
    | some a => simp [show d.HasAuthor n from ⟨a, mem_of_lastWithId? h⟩]

theorem resolveTags_error_iff {number : Int} {ns : List Int} {err : StoreError} :
    resolveTags d.tags number ns = .error err ↔
      ∃ n, FirstWith (fun n => ¬ d.HasTag n) ns n ∧ StoreError.unknownTag number n = err := by
  induction ns with
  | nil => simp [resolveTags, firstWith_nil]
  | cons n ns ih =>
    rw [resolveTags]
    simp only [firstWith_cons]
    cases h : lastWithId? Tag.id d.tags n with
    | none => simp [show ¬ d.HasTag n from lastWithId?_eq_none_iff.1 h]
    | some t =>
      have hn : d.HasTag n := ⟨t, mem_of_lastWithId? h⟩
      cases hr : resolveTags d.tags number ns <;> simp [hr, hn, Except.map, ← ih]

theorem exists_resolveAuthor_iff {number : Int} {n? : Option Int} :
    (∃ a?, resolveAuthor d.authors number n? = .ok a?) ↔ ∀ n, n? = some n → d.HasAuthor n := by
  rw [exists_ok_iff]
  simp only [ne_eq, resolveAuthor_error_iff]
  grind

theorem exists_resolveTags_iff {number : Int} {ns : List Int} :
    (∃ ts, resolveTags d.tags number ns = .ok ts) ↔ ∀ n ∈ ns, d.HasTag n := by
  have hfirst := exists_firstWith_iff (p := fun n => ¬ d.HasTag n) (l := ns)
  rw [exists_ok_iff]
  simp only [ne_eq, resolveTags_error_iff]
  grind

theorem resolve_error_iff {err : StoreError} :
    e.resolve d.authors d.tags = .error err ↔ e.FirstDangling d err := by
  unfold resolve
  rw [bind_error_iff, resolveAuthor_error_iff]
  simp only [bind_error_iff, resolveTags_error_iff, pure, Except.pure, reduceCtorEq, and_false,
    exists_false, or_false]
  constructor
  · rintro (⟨n, h, hn, rfl⟩ | ⟨a?, ha, n, hn, rfl⟩)
    · exact .author h hn
    · exact .tag (exists_resolveAuthor_iff.1 ⟨a?, ha⟩) hn
  · rintro (⟨h, hn⟩ | ⟨h, hn⟩)
    · exact .inl ⟨_, h, hn, rfl⟩
    · obtain ⟨a?, ha⟩ := exists_resolveAuthor_iff.2 h
      exact .inr ⟨a?, ha, _, hn, rfl⟩

theorem exists_resolve_iff : (∃ post, e.resolve d.authors d.tags = .ok post) ↔ e.Resolves d := by
  constructor
  · rintro ⟨post, h⟩
    obtain ⟨a?, ha, h⟩ := bind_ok_iff.1 h
    obtain ⟨ts, ht, -⟩ := bind_ok_iff.1 h
    exact ⟨exists_resolveAuthor_iff.1 ⟨a?, ha⟩, exists_resolveTags_iff.1 ⟨ts, ht⟩⟩
  · rintro ⟨hauthor, htags⟩
    obtain ⟨a?, ha⟩ := exists_resolveAuthor_iff.2 hauthor
    obtain ⟨ts, ht⟩ := exists_resolveTags_iff.2 htags
    exact ⟨_, bind_ok_iff.2 ⟨a?, ha, bind_ok_iff.2 ⟨ts, ht, rfl⟩⟩⟩

theorem resolveAll_error_iff {es : List PostEntry} {err : StoreError} :
    resolveAll d.authors d.tags es = .error err ↔
      ∃ e, FirstWith (fun e => ¬ e.Resolves d) es e ∧ e.FirstDangling d err := by
  induction es with
  | nil => simp [resolveAll, firstWith_nil]
  | cons e es ih =>
    simp only [resolveAll, bind_error_iff, resolve_error_iff, ih, firstWith_cons, pure, Except.pure,
      reduceCtorEq, and_false, exists_false, or_false]
    constructor
    · rintro (h | ⟨post, hpost, e', he', h⟩)
      · refine ⟨e, .inl ⟨fun hr => ?_, rfl⟩, h⟩
        obtain ⟨post, hpost⟩ := exists_resolve_iff.2 hr
        exact exists_ok_iff.1 ⟨post, hpost⟩ err (resolve_error_iff.2 h)
      · exact ⟨e', .inr ⟨not_not.2 (exists_resolve_iff.1 ⟨post, hpost⟩), he'⟩, h⟩
    · rintro ⟨e', ⟨-, rfl⟩ | ⟨he, he'⟩, h⟩
      · exact .inl h
      · obtain ⟨post, hpost⟩ := exists_resolve_iff.2 (not_not.1 he)
        exact .inr ⟨post, hpost, e', he', h⟩

theorem exists_resolveAll_iff {es : List PostEntry} :
    (∃ posts, resolveAll d.authors d.tags es = .ok posts) ↔ ∀ e ∈ es, e.Resolves d := by
  induction es with
  | nil => simp [resolveAll]
  | cons e es ih =>
    rw [List.forall_mem_cons, ← ih, ← exists_resolve_iff]
    simp only [resolveAll_cons_ok_iff]
    constructor
    · rintro ⟨-, post, rest, hpost, hrest, rfl⟩
      exact ⟨⟨post, hpost⟩, rest, hrest⟩
    · rintro ⟨⟨post, hpost⟩, rest, hrest⟩
      exact ⟨_, post, rest, hpost, hrest, rfl⟩

end PostEntry

/-! ### Faults -/

namespace DataFile

/-- No slug is given twice, and all references lead somewhere. -/
structure Sound (d : DataFile) : Prop where
  authors : (d.authors.map (·.slug)).Nodup
  tags : (d.tags.map (·.slug)).Nodup
  references : ∀ e ∈ d.posts, e.Resolves d
  posts : (d.posts.map (·.slug)).Nodup

/-- What is wrong with a file that is not sound. Each kind of fault counts only where there is none
of the kinds before it. -/
inductive FirstFault (d : DataFile) : StoreError → Prop where
  | author {s : String} (h : FirstRepeated (d.authors.map (·.slug)) s) :
    FirstFault d (.duplicateSlug .author s)
  | tag {s : String} (hauthors : (d.authors.map (·.slug)).Nodup)
    (h : FirstRepeated (d.tags.map (·.slug)) s) : FirstFault d (.duplicateSlug .tag s)
  | reference {e : PostEntry} {err : StoreError} (hauthors : (d.authors.map (·.slug)).Nodup)
    (htags : (d.tags.map (·.slug)).Nodup) (he : FirstWith (fun e => ¬ e.Resolves d) d.posts e)
    (h : e.FirstDangling d err) : FirstFault d err
  | post {s : String} (hauthors : (d.authors.map (·.slug)).Nodup)
    (htags : (d.tags.map (·.slug)).Nodup) (hposts : ∀ e ∈ d.posts, e.Resolves d)
    (h : FirstRepeated (d.posts.map (·.slug)) s) : FirstFault d (.duplicateSlug .post s)

end DataFile

/-! ### Posts -/

theorem of_map_lastWithId? {α : Type} {id : α → Int} {l as : List α} {ns : List Int}
    (h : ns.map (lastWithId? id l) = as.map some) : as.map id = ns ∧ ∀ a ∈ as, a ∈ l := by
  induction ns generalizing as with
  | nil => simp_all
  | cons n ns ih =>
    obtain _ | ⟨a, as⟩ := as
    · simp at h
    · obtain ⟨hn, hns⟩ := List.cons.inj h
      obtain ⟨hids, hmem⟩ := ih hns
      obtain ⟨ha, hid⟩ := mem_of_lastWithId? hn
      exact ⟨by rw [List.map_cons, hids, hid], List.forall_mem_cons.2 ⟨ha, hmem⟩⟩

/-- The post says what the entry says. In place of the numbers of the author and of the tags it has
an author and tags of the file that have these numbers, the tags in the same order. -/
structure PostEntry.IsPost (d : DataFile) (e : PostEntry) (post : Post) : Prop where
  fields : post =
    { id := e.id, uuid := e.uuid, title := e.title, slug := e.slug, html := e.html
      featured := e.featured, page := e.page, published := e.published, publishedAt := e.date
      tags := post.tags, author := post.author, metaDescription := e.metaDescription
      image := e.image }
  author : post.author.map (·.id) = e.author
  author_mem : ∀ a, post.author = some a → a ∈ d.authors
  tags : post.tags.map (·.id) = e.tags
  tags_mem : ∀ t ∈ post.tags, t ∈ d.tags

variable {d : DataFile}

theorem PostEntry.isPost_of_resolve {e : PostEntry} {post : Post}
    (h : e.resolve d.authors d.tags = .ok post) : e.IsPost d post := by
  obtain ⟨hauthor, htags⟩ := references_of_resolve h
  obtain ⟨htags, htagsMem⟩ := of_map_lastWithId? htags
  have hlast : ∀ a, post.author = some a → a ∈ d.authors ∧ e.author = some a.id := by
    intro a ha
    rw [ha, Option.map_some, Option.map_eq_some_iff] at hauthor
    obtain ⟨n, hn, hlast⟩ := hauthor
    obtain ⟨hmem, rfl⟩ := mem_of_lastWithId? hlast
    exact ⟨hmem, hn⟩
  refine ⟨?_, ?_, fun a ha => (hlast a ha).1, htags, htagsMem⟩
  · obtain ⟨a?, -, h⟩ := bind_ok_iff.1 h
    obtain ⟨ts, -, h⟩ := bind_ok_iff.1 h
    cases h
    rfl
  · cases ha : post.author with
    | none =>
      rw [ha] at hauthor
      exact (Option.map_eq_none_iff.1 hauthor).symm
    | some a => exact (hlast a ha).2.symm

theorem PostEntry.forall₂_of_resolveAll {es : List PostEntry} {posts : List Post}
    (h : resolveAll d.authors d.tags es = .ok posts) : List.Forall₂ (IsPost d) es posts := by
  induction es generalizing posts with
  | nil =>
    rw [resolveAll, Except.ok.injEq] at h
    rw [← h]
    exact .nil
  | cons e es ih =>
    obtain ⟨post, rest, hpost, hrest, rfl⟩ := resolveAll_cons_ok_iff.1 h
    exact .cons (isPost_of_resolve hpost) (ih hrest)

theorem PostEntry.slugs_eq {es : List PostEntry} {posts : List Post}
    (h : List.Forall₂ (IsPost d) es posts) : posts.map (·.slug) = es.map (·.slug) := by
  induction h with
  | nil => rfl
  | cons hpost _ ih => rw [List.map_cons, List.map_cons, ih, hpost.fields]

/-! ### Loading -/

theorem exists_load_iff : (∃ store, Store.load d = .ok store) ↔ d.Sound := by
  simp only [load_ok_iff]
  constructor
  · rintro ⟨-, hauthors, htags, posts, hposts, hslugs, -⟩
    refine ⟨hauthors, htags, PostEntry.exists_resolveAll_iff.1 ⟨posts, hposts⟩, ?_⟩
    rwa [← PostEntry.slugs_eq (PostEntry.forall₂_of_resolveAll hposts)]
  · rintro ⟨hauthors, htags, hreferences, hslugs⟩
    obtain ⟨posts, hposts⟩ := PostEntry.exists_resolveAll_iff.2 hreferences
    rw [← PostEntry.slugs_eq (PostEntry.forall₂_of_resolveAll hposts)] at hslugs
    exact ⟨_, hauthors, htags, posts, hposts, hslugs, rfl⟩

theorem load_error_iff {err : StoreError} : Store.load d = .error err ↔ d.FirstFault err := by
  simp only [Store.load, bind_error_iff, requireUnique_error_iff, requireUnique_ok_iff,
    PostEntry.resolveAll_error_iff, pure, Except.pure, reduceCtorEq, and_false,
    exists_false, or_false]
  constructor
  · rintro (⟨s, hs, rfl⟩ | ⟨-, hauthors, ⟨s, hs, rfl⟩ | ⟨-, htags, ⟨e, he, h⟩ |
      ⟨posts, hposts, s, hs, rfl⟩⟩⟩)
    · exact .author hs
    · exact .tag hauthors hs
    · exact .reference hauthors htags he h
    · rw [PostEntry.slugs_eq (PostEntry.forall₂_of_resolveAll hposts)] at hs
      exact .post hauthors htags (PostEntry.exists_resolveAll_iff.1 ⟨posts, hposts⟩) hs
  · rintro (hs | ⟨hauthors, hs⟩ | ⟨hauthors, htags, he, h⟩ | ⟨hauthors, htags, hr, hs⟩)
    · exact .inl ⟨_, hs, rfl⟩
    · exact .inr ⟨(), hauthors, .inl ⟨_, hs, rfl⟩⟩
    · exact .inr ⟨(), hauthors, .inr ⟨(), htags, .inl ⟨_, he, h⟩⟩⟩
    · obtain ⟨posts, hposts⟩ := PostEntry.exists_resolveAll_iff.2 hr
      rw [← PostEntry.slugs_eq (PostEntry.forall₂_of_resolveAll hposts)] at hs
      exact .inr ⟨(), hauthors, .inr ⟨(), htags, .inr ⟨posts, hposts, _, hs, rfl⟩⟩⟩

/-- The store has the posts of the file's entries and no others, in an order of its own, and finds
each post, tag and author under its slug, and nothing under any other. -/
structure Store.Holds (store : Store) (d : DataFile) : Prop where
  posts : ∃ posts, List.Forall₂ (PostEntry.IsPost d) d.posts posts ∧ store.posts.Perm posts
  postBySlug : ∀ slug post,
    store.postBySlug? slug = some post ↔ post ∈ store.posts ∧ post.slug = slug
  tagBySlug : ∀ slug tag, store.tagBySlug? slug = some tag ↔ tag ∈ d.tags ∧ tag.slug = slug
  authorBySlug : ∀ slug author,
    store.authorBySlug? slug = some author ↔ author ∈ d.authors ∧ author.slug = slug

theorem find?_key_eq_some_iff {α β : Type} [DecidableEq β] {key : α → β} {l : List α} {a : α}
    {b : β} (h : (l.map key).Nodup) : l.find? (key · == b) = some a ↔ a ∈ l ∧ key a = b := by
  constructor
  · intro hf
    exact ⟨List.mem_of_find?_eq_some hf, by simpa using List.find?_some hf⟩
  · rintro ⟨ha, rfl⟩
    exact find?_of_mem h ha

theorem holds_of_load {store : Store} (h : Store.load d = .ok store) : store.Holds d := by
  obtain ⟨hauthors, htags, posts, hposts, hslugs, rfl⟩ := load_ok_iff.1 h
  have hperm := List.mergeSort_perm posts Post.isNoOlder
  exact {
    posts := ⟨posts, PostEntry.forall₂_of_resolveAll hposts, hperm⟩
    postBySlug := fun slug post =>
      find?_key_eq_some_iff ((hperm.map (·.slug)).nodup_iff.2 hslugs)
    tagBySlug := fun slug tag => find?_key_eq_some_iff htags
    authorBySlug := fun slug author => find?_key_eq_some_iff hauthors }

/-- **Loading fails just with what is first wrong.** A data file is loaded when no slug in it is
given twice and every reference leads somewhere, and otherwise the error is the first fault. A store
that is loaded has one post for each entry, with its tags in the order of the file, and finds under
a slug the one entry that has it. -/
theorem load_fails_with_first_fault {text : String} {d : DataFile}
    (hd : Yaml.decode? DataFile.decode text = some d) :
    ((∃ store, Store.ofText text = .ok store) ↔ d.Sound) ∧
    (∀ err, Store.ofText text = .error err ↔ d.FirstFault err) ∧
    ∀ store, Store.ofText text = .ok store → store.Holds d := by
  have htext : Store.ofText text = Store.load d := by rw [Store.ofText, hd]
  rw [htext]
  exact ⟨exists_load_iff, fun err => load_error_iff, fun store => holds_of_load⟩

/-- The second post has the slug of the first one, and a number without a tag behind one with. -/
def twoFaults : DataFile where
  blog := {}
  tags := [{ id := 1, name := "A", slug := "a" }]
  posts := [{ id := 1, title := "T", slug := "t" },
    { id := 2, title := "U", slug := "t", tags := [1, 7] }]

def textWithTwoFaults : String :=
  "blog:\ntags:\n- id: 1\n  name: A\n  slug: a\n" ++
    "posts:\n- id: 1\n  title: T\n  slug: t\n" ++
    "- id: 2\n  title: U\n  slug: t\n  tags: [1, 7]\n"

theorem load_fails_with_first_fault_of_two :
    Yaml.decode? DataFile.decode textWithTwoFaults = some twoFaults ∧
      Store.ofText textWithTwoFaults = .error (.unknownTag 2 7) ∧
      ¬ ∃ store, Store.ofText textWithTwoFaults = .ok store := by
  have hd : Yaml.decode? DataFile.decode textWithTwoFaults = some twoFaults := by
    decide +kernel
  have hseven : ¬ twoFaults.HasTag 7 := by simp [DataFile.HasTag, twoFaults]
  have hone : twoFaults.HasTag 1 := ⟨_, List.mem_singleton_self _, rfl⟩
  have hfault : twoFaults.FirstFault (.unknownTag 2 7) := by
    refine .reference (by decide) (by decide)
      ⟨[_], [], rfl, fun h => hseven (h.tags 7 (by decide)), ?_⟩
      (.tag nofun ⟨[1], [], rfl, hseven, ?_⟩)
    · simpa using ⟨nofun, nofun⟩
    · simpa using hone
  obtain ⟨hok, herror, -⟩ := load_fails_with_first_fault hd
  exact ⟨hd, (herror _).2 hfault, fun h => by simpa [twoFaults] using (hok.1 h).posts⟩

end ThemePress.Blog
