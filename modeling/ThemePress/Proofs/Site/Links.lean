import ThemePress.Proofs.Blog.References
import ThemePress.Proofs.Site.Pages
import ThemePress.Proofs.Site.Unpublished

/-! # Links to posts, tags and authors

A page of a listing shows posts with their tags and authors, and the tag `url` gives the address of
each. A `Subject` is what such an address is of. Behind each address there is a page: the post under
its slug, or the first page of the listing of the tag or the author (`page?_of_shownWith`). -/

namespace ThemePress.Site

open ThemePress.Blog ThemePress.Render ThemePress.Text
open ThemePress.Template (Node Registry)
open ThemePress.Time (Instant)

/-- The tag `url` shows a field. -/
theorem output_of_url {registry : Registry} {page : Page} {c : Context} {n : Node}
    (hname : n.name = "url") : output registry page c n = Utf8.bytesOf (Field.url page c n) := by
  have hhelper : Helper.named? n.name = some .url := by
    rw [hname]
    decide
  rw [output, evaluate_of_field hhelper (fun _ _ => rfl) c]

/-- What the address of a page can be of. -/
inductive Subject where
  | post (post : Post)
  | tag (tag : Tag)
  | author (author : Author)

namespace Subject

/-- The post itself, a tag of it or its author. -/
def ShownWith (post : Post) : Subject → Prop
  | .post p => p = post
  | .tag t => t ∈ post.tags
  | .author a => post.author = some a

/-- The context is about the subject. -/
def InScope (page : Page) (c : Context) : Subject → Prop
  | .post p => c.scope = .post ∧ c.post? page = some p
  | .tag t => c.scope = .tag ∧ (c.postTag? page).or page.tag = some t
  | .author a => c.scope = .author ∧ c.author? page = some a

/-- Renders the page that a subject is asked for by its slug. -/
def render (site : Site) (store : Store) (now : Instant) (number : Int) :
    Subject → Reported (Except RenderError (List UInt8))
  | .post p => site.renderPost store now p.slug
  | .tag t => site.renderTag store now t.slug number
  | .author a => site.renderAuthor store now a.slug number

/-- The page that is rendered then, if there is one. -/
def page? (site : Site) (store : Store) (now : Instant) (number : Int) : Subject → Option Page
  | .post p => (publishedPost? store p.slug).map (site.postPage store now)
  | .tag t => (listing? store (.tag t.slug)).bind
      (·.page? (site.settings.apply store.profile) now (max number 1))
  | .author a => (listing? store (.author a.slug)).bind
      (·.page? (site.settings.apply store.profile) now (max number 1))

/-- The address of a subject. -/
def address : Subject → String
  | .post p => Link.ofPost p
  | .tag t => Link.tagBase t.slug ++ "/"
  | .author a => Link.authorBase a.slug ++ "/"

theorem scopedUrl?_of_inScope {s : Subject} {page : Page} {c : Context} (h : s.InScope page c) :
    Field.scopedUrl? page c = some s.address := by
  unfold Field.scopedUrl?
  cases s with
  | post p =>
    obtain ⟨hscope, hpost⟩ := h
    simp only [hscope, hpost, Option.map_some, address]
  | tag t =>
    obtain ⟨hscope, htag⟩ := h
    simp only [hscope, htag, Option.map_some, address]
  | author a =>
    obtain ⟨hscope, hauthor⟩ := h
    simp only [hscope, hauthor, Option.map_some, address]

/-- The tag `url` gives the address of what it is about. -/
theorem output_url {s : Subject} {registry : Registry} {page : Page} {c : Context} {n : Node}
    (h : s.InScope page c) (hname : n.name = "url")
    (hrelative : n.keyed? "absolute" ≠ some "true") :
    output registry page c n = Utf8.bytesOf (shown n s.address) := by
  rw [output_of_url hname]
  unfold Field.url
  rw [scopedUrl?_of_inScope h]
  simp [hrelative]

end Subject

variable {site : Site} {registry : Registry} {store : Store} {now : Instant}

/-! ### Templates -/

/-- A theme without a template for a post of its own has the one that stands in for it. -/
theorem contains_postTemplate (hvalid : registry.missing? = none) (post : Post) :
    registry.contains (postTemplate registry post) := by
  unfold postTemplate
  dsimp only
  split
  · next hown => exact hown
  · split
    · next hpage => exact (Bool.and_eq_true_iff.1 hpage).2
    · exact contains_required hvalid (by decide)

theorem renderWith_ne_missingTemplate {template name : String} (h : registry.contains template)
    (page : Page) : (renderWith registry template page).value ≠ .error (.missingTemplate name) := by
  obtain ⟨bytes, hbytes⟩ := renderWith_eq_ok h page
  rw [hbytes]
  exact nofun

theorem renderPost_ne_missingTemplate (hactive : site.active = some registry)
    (hvalid : registry.missing? = none) (store : Store) (now : Instant) (slug name : String) :
    (site.renderPost store now slug).value ≠ .error (.missingTemplate name) := by
  simp only [renderPost, hactive]
  cases publishedPost? store slug with
  | none => exact nofun
  | some post => exact renderWith_ne_missingTemplate (contains_postTemplate hvalid post) _

theorem renderNamed_ne_missingTemplate (hactive : site.active = some registry)
    (hvalid : registry.missing? = none) (store : Store) (now : Instant) (listing : ListingName)
    (number : Int) (name : String) :
    (site.renderNamed store now listing number).value ≠ .error (.missingTemplate name) := by
  cases hl : listing? store listing with
  | none =>
    obtain ⟨what, hwhat⟩ := renderNamed_of_no_listing hactive hl now number
    rw [hwhat]
    exact nofun
  | some l =>
    rw [renderNamed_eq hactive hl]
    cases l.page? (site.settings.apply store.profile) now (max number 1) with
    | none => simp
    | some page => exact renderWith_ne_missingTemplate (contains_template hvalid l) page

/-! ### Posts of a page -/

theorem mem_listed_of_page? {name : ListingName} {l : Listing} {blog : Profile} {number : Int}
    {page : Page} {post : Post} (hl : listing? store name = some l)
    (hpage : l.page? blog now number = some page) (hpost : post ∈ page.posts) :
    post ∈ store.listed := by
  obtain ⟨posts, hposts, rfl⟩ := Option.map_eq_some_iff.1 hpage
  obtain ⟨-, rfl, -⟩ := postsOn?_eq_some_iff.1 hposts
  have hm : post ∈ l.posts := List.mem_of_mem_drop (List.mem_of_mem_take hpost)
  rcases listing?_cases hl with ⟨rfl, rfl⟩ | ⟨slug, tag, rfl, -, rfl⟩ | ⟨slug, author, rfl, -, rfl⟩
  · exact hm
  · exact (List.mem_filter.1 hm).1
  · exact (List.mem_filter.1 hm).1

section
variable {d : DataFile} (h : Store.load d = .ok store) {post : Post}

include h in
theorem publishedPost?_of_mem (hpost : post ∈ store.posts) (hpublished : post.published) :
    publishedPost? store post.slug = some post := by
  have hfound : store.postBySlug? post.slug = some post :=
    find?_of_mem (nodup_slugs_of_load h) hpost
  rw [publishedPost?, hfound, Option.filter_some, if_pos hpublished]

include h in
theorem tagBySlug?_of_mem {t : Tag} (hpost : post ∈ store.posts) (ht : t ∈ post.tags) :
    store.tagBySlug? t.slug = some t := by
  obtain ⟨-, hslugs, -⟩ := load_ok_iff.1 h
  have hm := (mem_of_lastWithId? (tag_of_load h hpost ht).2).1
  rw [Store.tagBySlug?, (entries_of_load h).2]
  exact find?_of_mem hslugs hm

include h in
theorem authorBySlug?_of_mem {a : Author} (hpost : post ∈ store.posts)
    (ha : post.author = some a) : store.authorBySlug? a.slug = some a := by
  obtain ⟨hslugs, -⟩ := load_ok_iff.1 h
  have hm := (mem_of_lastWithId? (author_of_load h hpost ha).2).1
  rw [Store.authorBySlug?, (entries_of_load h).1]
  exact find?_of_mem hslugs hm

end

/-! ### Pages of subjects -/

/-- A listing has a first page, and its address is that of the listing. -/
theorem page?_first (l : Listing) (blog : Profile) (now : Instant) :
    ∃ page, l.page? blog now 1 = some page ∧ page.path = l.base ++ "/" := by
  have hposts : ∃ posts, l.postsOn? blog.postsPerPage 1 = some posts := by
    simp only [postsOn?_eq_some_iff, Int.sub_self, Int.zero_mul]
    exact ⟨_, by decide, rfl, fun h => absurd h (by decide)⟩
  obtain ⟨posts, hposts⟩ := hposts
  rw [Listing.page?, hposts]
  exact ⟨_, rfl, rfl⟩

/-- A page of a listing is rendered with a template that the theme has. -/
theorem renderNamed_of_page? (hactive : site.active = some registry)
    (hvalid : registry.missing? = none) {listing : ListingName} {number : Int} {there : Page}
    (hpage : (listing? store listing).bind
      (·.page? (site.settings.apply store.profile) now (max number 1)) = some there) :
    ∃ template, registry.contains template ∧
      site.renderNamed store now listing number = renderWith registry template there := by
  obtain ⟨l, hl, hpage⟩ := Option.bind_eq_some_iff.1 hpage
  refine ⟨l.template registry, contains_template hvalid l, ?_⟩
  rw [renderNamed_eq hactive hl, hpage]

namespace Subject

variable {d : DataFile} {s : Subject} {post : Post} {target : Int}

/-- **Each subject that is shown with a listed post has its page**, and the address of the subject
is the path of the page. -/
theorem page?_of_shownWith (h : Store.load d = .ok store) (site : Site) (now : Instant)
    (hpost : post ∈ store.listed) (hs : s.ShownWith post) (htarget : target ≤ 1) :
    ∃ there, s.page? site store now target = some there ∧ there.path = s.address := by
  obtain ⟨hmem, hlisted⟩ := List.mem_filter.1 hpost
  have hfirst : max target 1 = 1 := Int.max_eq_right htarget
  cases s with
  | post p =>
    obtain rfl : p = post := hs
    have hpublished := (Bool.and_eq_true_iff.1 hlisted).1
    refine ⟨site.postPage store now p, ?_, rfl⟩
    rw [page?, publishedPost?_of_mem h hmem hpublished, Option.map_some]
  | tag t =>
    have hl : listing? store (.tag t.slug) = some (.ofTag store t.slug t) := by
      rw [listing?, tagBySlug?_of_mem h hmem hs, Option.map_some]
    rw [page?, hl, hfirst]
    exact page?_first _ _ _
  | author a =>
    have hl : listing? store (.author a.slug) = some (.ofAuthor store a.slug a) := by
      rw [listing?, authorBySlug?_of_mem h hmem hs, Option.map_some]
    rw [page?, hl, hfirst]
    exact page?_first _ _ _

/-- The page of a subject is rendered with a template that the theme has. -/
theorem render_of_page? (hactive : site.active = some registry) (hvalid : registry.missing? = none)
    {there : Page} (hpage : s.page? site store now target = some there) :
    ∃ template, registry.contains template ∧
      s.render site store now target = renderWith registry template there := by
  cases s with
  | post p =>
    obtain ⟨post, hpost, rfl⟩ := Option.map_eq_some_iff.1 hpage
    refine ⟨postTemplate registry post, contains_postTemplate hvalid post, ?_⟩
    simp only [render, renderPost, hactive, hpost]
  | tag t => exact renderNamed_of_page? hactive hvalid hpage
  | author a => exact renderNamed_of_page? hactive hvalid hpage

end Subject

/-- **No link to a post, a tag or an author leads nowhere.** Take a store that was read from a data
file and a site whose theme has the required templates. Let a post stand on a page of a listing of
any name. For the post, each of its tags and its author there is then a page, and this is what a
site renders when it is asked for them by slug; the first page, if a number below one is given. Its
path is what the tag `url` shows, wherever that is about them. A template is never missing, whatever
the site is asked for. -/
theorem subject_links_lead_to_pages (site : Site) (now : Instant) {registry : Registry}
    {text : String} {store : Store} (hactive : site.active = some registry)
    (hvalid : registry.missing? = none) (hstore : Store.ofText text = .ok store) :
    let blog := site.settings.apply store.profile
    (∀ name l number page, listing? store name = some l →
      l.page? blog now (max number 1) = some page →
      site.renderNamed store now name number = renderWith registry (l.template registry) page ∧
      ∀ post ∈ page.posts, ∀ s : Subject, s.ShownWith post → ∀ target ≤ 1,
        ∃ there template bytes, s.page? site store now target = some there ∧
          s.render site store now target = renderWith registry template there ∧
          (s.render site store now target).value = .ok bytes ∧ there.path = s.address ∧
          ∀ here c n, s.InScope here c → n.name = "url" → n.keyed? "absolute" ≠ some "true" →
            output registry here c n = Utf8.bytesOf (shown n there.path)) ∧
    (∀ slug template,
      (site.renderPost store now slug).value ≠ .error (.missingTemplate template)) ∧
    ∀ name number template,
      (site.renderNamed store now name number).value ≠ .error (.missingTemplate template) := by
  intro blog
  obtain ⟨d, -, hload⟩ := ofText_ok_iff.1 hstore
  refine ⟨fun name l number page hl hpage => ⟨?_, fun post hpost s hs target htarget => ?_⟩,
    renderPost_ne_missingTemplate hactive hvalid store now,
    renderNamed_ne_missingTemplate hactive hvalid store now⟩
  · rw [renderNamed_eq hactive hl, hpage]
  · have hlisted := mem_listed_of_page? hl hpage hpost
    obtain ⟨there, hthere, hpath⟩ := s.page?_of_shownWith hload site now hlisted hs htarget
    obtain ⟨template, htemplate, hrender⟩ := s.render_of_page? hactive hvalid hthere
    obtain ⟨bytes, hbytes⟩ := renderWith_eq_ok htemplate there
    refine ⟨there, template, bytes, hthere, hrender, by rw [hrender, hbytes], hpath, ?_⟩
    intro here c n hscope hname hrelative
    rw [hpath, s.output_url hscope hname hrelative]

/-- A blog with one post, which has a tag and an author. -/
def textWithLinks : String :=
  "blog:\nauthors:\n- id: 1\n  name: A\n  slug: a\ntags:\n- id: 2\n  name: T\n  slug: t\n" ++
    "posts:\n- id: 3\n  title: P\n  slug: p\n  author: 1\n  tags: [2]\n"

theorem subject_links_lead_to_pages_of_one_post :
    ∃ store, Store.ofText textWithLinks = .ok store ∧
      (∃ bytes, (bareSite.renderPost store ⟨0, 0⟩ "p").value = .ok bytes) ∧
      (∃ bytes, (bareSite.renderTag store ⟨0, 0⟩ "t" (-7)).value = .ok bytes) ∧
      ∃ bytes, (bareSite.renderAuthor store ⟨0, 0⟩ "a" 0).value = .ok bytes := by
  let author : Author := { id := 1, name := "A", slug := "a" }
  let tag : Tag := { id := 2, name := "T", slug := "t" }
  let post : Post := { id := 3, title := "P", slug := "p", tags := [tag], author := some author }
  let store := Store.make (ProfileEntry.profile {}) [author] [tag] [post]
  have hd : Yaml.decode? DataFile.decode textWithLinks =
      some
        { blog := {}, authors := [author], tags := [tag]
          posts := [{ id := 3, title := "P", slug := "p", author := some 1, tags := [2] }] } := by
    decide +kernel
  have hstore : Store.ofText textWithLinks = .ok store := ofText_ok_iff.2 ⟨_, hd, by rfl⟩
  have hlisted : store.listed = [post] := by
    have hposts : store.posts = [post] := List.mergeSort_singleton _
    rw [Store.listed, hposts]
    rfl
  have hfirst : (Listing.ofIndex store).postsOn? 5 1 = some [post] := by
    rw [postsOn?_eq_some_iff, Listing.ofIndex, hlisted]
    exact ⟨by decide, by decide, fun h => absurd h (by decide)⟩
  obtain ⟨page, hpage, -⟩ :=
    page?_first (Listing.ofIndex store) (bareSite.settings.apply store.profile) ⟨0, 0⟩
  have hpost : post ∈ page.posts := by
    obtain ⟨posts, hposts, rfl⟩ := Option.map_eq_some_iff.1 hpage
    cases hfirst.symm.trans hposts
    exact List.mem_singleton_self post
  obtain ⟨hlinks, -, -⟩ := subject_links_lead_to_pages bareSite ⟨0, 0⟩ rfl (by decide) hstore
  have hsubjects := (hlinks .index _ 1 page rfl hpage).2 post hpost
  obtain ⟨-, -, bytes, -, -, hbytes, -⟩ := hsubjects (.post post) rfl 1 (by decide)
  obtain ⟨-, -, bytes', -, -, hbytes', -⟩ :=
    hsubjects (.tag tag) (List.mem_singleton_self tag) (-7) (by decide)
  obtain ⟨-, -, bytes'', -, -, hbytes'', -⟩ := hsubjects (.author author) rfl 0 (by decide)
  exact ⟨store, hstore, ⟨bytes, hbytes⟩, ⟨bytes', hbytes'⟩, ⟨bytes'', hbytes''⟩⟩

end ThemePress.Site
