import ThemePress.Proofs.Blog.Loading
import ThemePress.Proofs.Blog.Windows
import ThemePress.Site.Rendering

/-! # Unpublished posts

A store keeps unpublished posts among the others, in one order with them. No page depends on them:
every page is rendered alike from the store that has only the published ones
(`Store.publishedOnly`). Two data files that agree on published posts load into stores that are the
same without the others (`publishedOnly_eq`), so a site renders the same pages from both. -/

namespace ThemePress.Blog

/-! ### The published part of a store -/

/-- The store without its unpublished posts. -/
def Store.publishedOnly (store : Store) : Store :=
  { store with posts := store.posts.filter (·.published) }

theorem filter_listed (posts : List Post) :
    (posts.filter (·.published)).filter (·.isListed) = posts.filter (·.isListed) := by
  rw [List.filter_filter]
  refine List.filter_congr fun p _ => ?_
  unfold Post.isListed
  cases p.published <;> simp

theorem listed_publishedOnly (store : Store) : store.publishedOnly.listed = store.listed :=
  filter_listed store.posts

/-- Unpublished posts can be left out before a store is made. -/
theorem publishedOnly_make (profile : Profile) (authors : List Author) (tags : List Tag)
    (posts : List Post) :
    (Store.make profile authors tags posts).publishedOnly =
      Store.make profile authors tags (posts.filter (·.published)) := by
  unfold Store.publishedOnly Store.make
  rw [filter_mergeSort, filter_listed]

/-- Where no slug is given twice, a published post is found among all posts when it is found among
the published ones. -/
theorem find?_published {posts : List Post} (h : (posts.map (·.slug)).Nodup) (slug : String) :
    (posts.filter (·.published)).find? (·.slug == slug) =
      (posts.find? (·.slug == slug)).filter (·.published) := by
  induction posts with
  | nil => rfl
  | cons p posts ih =>
    rw [List.map_cons, List.nodup_cons] at h
    have hrest := ih h.2
    by_cases hp : p.slug = slug
    · have hnone : posts.find? (·.slug == slug) = none := by
        rw [List.find?_eq_none]
        intro q hq
        have hne : q.slug ≠ slug := fun hqs =>
          h.1 (List.mem_map.2 ⟨q, hq, hqs.trans hp.symm⟩)
        simpa using hne
      rw [hnone] at hrest
      cases hpub : p.published with
      | false => simp [hp, hpub, hrest, Option.filter]
      | true => simp [hp, hpub, Option.filter]
    · cases hpub : p.published <;> simp [hp, hpub, hrest]

/-! ### Data files -/

/-- Both files say the same, but for the posts that are not published: there may be other ones, more
of them or fewer, and at other places among the published posts. -/
structure DataFile.AgreeOnPublished (d d' : DataFile) : Prop where
  blog : d.blog = d'.blog
  authors : d.authors = d'.authors
  tags : d.tags = d'.tags
  posts : d.posts.filter (·.published) = d'.posts.filter (·.published)

theorem publishedOnly_eq {d d' : DataFile} {store store' : Store} (h : d.AgreeOnPublished d')
    (hs : Store.load d = .ok store) (hs' : Store.load d' = .ok store') :
    store.publishedOnly = store'.publishedOnly := by
  obtain ⟨-, -, posts, hposts, -, rfl⟩ := load_ok_iff.1 hs
  obtain ⟨-, -, posts', hposts', -, rfl⟩ := load_ok_iff.1 hs'
  have hresolved := PostEntry.resolveAll_filter hposts
  have hresolved' := PostEntry.resolveAll_filter hposts'
  rw [← h.authors, ← h.tags, ← h.posts, hresolved, Except.ok.injEq] at hresolved'
  rw [publishedOnly_make, publishedOnly_make, h.blog, h.authors, h.tags, hresolved']

theorem nodup_slugs_of_load {d : DataFile} {store : Store} (h : Store.load d = .ok store) :
    (store.posts.map (·.slug)).Nodup := by
  obtain ⟨-, -, posts, -, hslugs, rfl⟩ := load_ok_iff.1 h
  exact ((List.mergeSort_perm posts _).map _).nodup_iff.2 hslugs

end ThemePress.Blog

namespace ThemePress.Site

open ThemePress.Blog
open ThemePress.Time (Instant)

/-! ### Pages -/

variable (site : Site) (store : Store) (now : Instant)

theorem renderIndex_publishedOnly (number : Int) :
    site.renderIndex store.publishedOnly now number = site.renderIndex store now number := by
  unfold renderIndex Listing.ofIndex
  rw [listed_publishedOnly]
  rfl

theorem renderTag_publishedOnly (slug : String) (number : Int) :
    site.renderTag store.publishedOnly now slug number = site.renderTag store now slug number := by
  unfold renderTag Listing.ofTag Store.postCountWithTag Store.listedWithTag
  rw [listed_publishedOnly]
  rfl

theorem renderAuthor_publishedOnly (slug : String) (number : Int) :
    site.renderAuthor store.publishedOnly now slug number =
      site.renderAuthor store now slug number := by
  unfold renderAuthor Listing.ofAuthor Store.postCountByAuthor Store.listedByAuthor
  rw [listed_publishedOnly]
  rfl

variable {store} in
theorem renderPost_publishedOnly (h : (store.posts.map (·.slug)).Nodup) (slug : String) :
    site.renderPost store.publishedOnly now slug = site.renderPost store now slug := by
  have hfind : publishedPost? store.publishedOnly slug = publishedPost? store slug := by
    unfold publishedPost? Store.postBySlug? Store.publishedOnly
    rw [find?_published h, Option.filter_filter]
    simp
  unfold renderPost
  rw [hfind]
  rfl

/-- **Unpublished posts show nowhere.** From two data files that say the same about everything but
unpublished posts, a site renders the same pages: byte for byte and with the same warnings, and the
same fault where there is no page, also under the slug of an unpublished post. -/
theorem unpublished_posts_do_not_show {text text' : String} {d d' : DataFile}
    {store store' : Store} (hd : Yaml.decode? DataFile.decode text = some d)
    (hd' : Yaml.decode? DataFile.decode text' = some d') (h : d.AgreeOnPublished d')
    (hs : Store.ofText text = .ok store) (hs' : Store.ofText text' = .ok store') :
    (∀ number, site.renderIndex store now number = site.renderIndex store' now number) ∧
    (∀ slug, site.renderPost store now slug = site.renderPost store' now slug) ∧
    (∀ slug number, site.renderTag store now slug number = site.renderTag store' now slug number) ∧
    ∀ slug number,
      site.renderAuthor store now slug number = site.renderAuthor store' now slug number := by
  have hload : Store.load d = .ok store := by simpa [Store.ofText, hd] using hs
  have hload' : Store.load d' = .ok store' := by simpa [Store.ofText, hd'] using hs'
  have hsame := publishedOnly_eq h hload hload'
  refine ⟨fun number => ?_, fun slug => ?_, fun slug number => ?_, fun slug number => ?_⟩
  · rw [← renderIndex_publishedOnly, hsame, renderIndex_publishedOnly]
  · rw [← renderPost_publishedOnly site now (nodup_slugs_of_load hload), hsame,
      renderPost_publishedOnly site now (nodup_slugs_of_load hload')]
  · rw [← renderTag_publishedOnly, hsame, renderTag_publishedOnly]
  · rw [← renderAuthor_publishedOnly, hsame, renderAuthor_publishedOnly]

/-! ### One blog with and without drafts -/

def oneDraft : PostEntry where
  id := 3
  title := "c"
  slug := "c"
  published := false

def onePost : PostEntry where
  id := 1
  title := "a"
  slug := "a"

def textWithDraft : String :=
  "blog:\nposts:\n- id: 3\n  title: c\n  slug: c\n  published: false\n" ++
    "- id: 1\n  title: a\n  slug: a\n"

def textWithoutDraft : String :=
  "blog:\nposts:\n- id: 1\n  title: a\n  slug: a\n"

/-- The store of a blog that says nothing about itself. -/
def storeOf (posts : List Post) : Store :=
  Store.make (ProfileEntry.profile {}) [] [] posts

theorem unpublished_posts_do_not_show_in_drafts :
    let site : Site :=
      { themes := ⟨"themes"⟩
        active := some ⟨"bare", [("index", Template.Node.leaf "index" false 0)], []⟩ }
    let post : Post := { id := 1, title := "a", slug := "a" }
    let draft : Post := { id := 3, title := "c", slug := "c", published := false }
    Store.ofText textWithDraft = .ok (storeOf [draft, post]) ∧
      Store.ofText textWithoutDraft = .ok (storeOf [post]) ∧
      site.renderPost (storeOf [draft, post]) ⟨0, 0⟩ "c" =
        site.renderPost (storeOf [post]) ⟨0, 0⟩ "c" ∧
      site.renderIndex (storeOf [draft, post]) ⟨0, 0⟩ 1 =
        site.renderIndex (storeOf [post]) ⟨0, 0⟩ 1 := by
  intro site post draft
  have hd : Yaml.decode? DataFile.decode textWithDraft =
      some { blog := {}, posts := [oneDraft, onePost] } := by
    decide +kernel
  have hd' : Yaml.decode? DataFile.decode textWithoutDraft =
      some { blog := {}, posts := [onePost] } := by
    decide +kernel
  have hs : Store.ofText textWithDraft = .ok (storeOf [draft, post]) :=
    ofText_ok_iff.2 ⟨_, hd, by rfl⟩
  have hs' : Store.ofText textWithoutDraft = .ok (storeOf [post]) :=
    ofText_ok_iff.2 ⟨_, hd', by rfl⟩
  obtain ⟨hindex, hpost, -, -⟩ :=
    unpublished_posts_do_not_show site ⟨0, 0⟩ hd hd' ⟨rfl, rfl, rfl, rfl⟩ hs hs'
  exact ⟨hs, hs', hpost "c", hindex 1⟩

end ThemePress.Site
