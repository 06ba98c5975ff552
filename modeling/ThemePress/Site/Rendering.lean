import ThemePress.Blog.Store
import ThemePress.Render.Evaluate
import ThemePress.Site.Activation

/-! # The pages of a site

A site has a page for each published post, and listings of all posts, of the posts with a tag and
of those by an author. A listing is cut into pages, counted from one; numbers below one stand for
the first. Only the first page of a listing may be without posts. -/

namespace ThemePress.Site

open ThemePress.Blog ThemePress.Render
open ThemePress.Template (Registry)
open ThemePress.Time (Instant)

/-- What a site may not have. -/
inductive Missing where
  | post (slug : String)
  | tag (slug : String)
  | author (slug : String)
  | page (number : Int) (listing : String)
  deriving DecidableEq, Repr

def Missing.description : Missing → String
  | post slug => s!"post '{slug}'"
  | tag slug => s!"tag '{slug}'"
  | author slug => s!"author '{slug}'"
  | page number listing => s!"page {number} of {listing}"

/-- Why a page cannot be rendered. -/
inductive RenderError where
  | noTheme
  | notFound (what : Missing)
  | missingTemplate (name : String)
  deriving DecidableEq, Repr

def RenderError.message : RenderError → String
  | noTheme => "no theme has been compiled"
  | notFound what => s!"not found: {what.description}"
  | missingTemplate name => s!"template '{name}' is not available"

/-- Renders a page with a template of a theme. -/
def renderWith (registry : Registry) (template : String) (page : Page) :
    Reported (Except RenderError (List UInt8)) :=
  match registry.get? template with
  | none => ⟨[], .error (.missingTemplate template)⟩
  | some root =>
    let job : Job := { page, registry }
    let (output, context) := job.render root (Context.start page.kind)
    ⟨context.warnings, .ok output⟩

/-! ### Posts -/

/-- The template for a post: one that is made for it, one for pages by themselves, or the one for
posts. -/
def postTemplate (registry : Registry) (post : Post) : String :=
  let own := "page-" ++ post.slug
  if registry.contains own then own
  else if post.page && registry.contains "page" then "page"
  else "post"

/-- The page of a post. -/
def postPage (s : Site) (store : Store) (now : Instant) (post : Post) : Page :=
  { kind := .post, blog := s.settings.apply store.profile, posts := [post]
    path := Link.ofPost post, now }

/-- The post with a page of its own under a slug. -/
def publishedPost? (store : Store) (slug : String) : Option Post :=
  (store.postBySlug? slug).filter (·.published)

/-- Renders the page of a post. -/
def renderPost (s : Site) (store : Store) (now : Instant) (slug : String) :
    Reported (Except RenderError (List UInt8)) :=
  match s.active with
  | none => ⟨[], .error .noTheme⟩
  | some registry =>
    match publishedPost? store slug with
    | none => ⟨[], .error (.notFound (.post slug))⟩
    | some post => renderWith registry (postTemplate registry post) (s.postPage store now post)

/-! ### Listings -/

/-- A listing of posts. -/
structure Listing where
  kind : PageKind
  /-- What the listing is called when a page of it is missing. -/
  name : String
  /-- The address of the listing, without the slash at its end. -/
  base : String
  posts : List Post
  count : Int
  tag : Option Tag := none
  author : Option Author := none

namespace Listing

def ofIndex (store : Store) : Listing :=
  { kind := .index, name := "index", base := "", posts := store.listed, count := store.postCount }

/-- The listing of a tag that was asked for by a slug. -/
def ofTag (store : Store) (slug : String) (tag : Tag) : Listing :=
  { kind := .tag, name := slug, base := Link.tagBase tag.slug
    posts := store.listedWithTag tag.id, count := store.postCountWithTag tag.id, tag := some tag }

/-- The listing of an author that was asked for by a slug. -/
def ofAuthor (store : Store) (slug : String) (author : Author) : Listing :=
  { kind := .author, name := slug, base := Link.authorBase author.slug
    posts := store.listedByAuthor author.id, count := store.postCountByAuthor author.id
    author := some author }

/-- The template for a listing: one for its kind, or the one for the listing of all posts. -/
def template (l : Listing) (registry : Registry) : String :=
  let own := match l.kind with
    | .tag => "tag"
    | .author => "author"
    | .index | .post => "index"
  if registry.contains own then own else "index"

/-- The posts on a page of the listing, if there is that page. A page that starts beyond what 64
bits can count is none. -/
def postsOn? (l : Listing) (perPage number : Int) : Option (List Post) :=
  let size := Paging.pageSize perPage
  let offset := (number - 1) * size
  if !Text.Decimal.fits offset then none
  else
    let posts := Store.window l.posts size offset
    if 1 < number && posts.isEmpty then none else some posts

/-- Renders a page of the listing. -/
def render (l : Listing) (registry : Registry) (blog : Profile) (now : Instant) (number : Int) :
    Reported (Except RenderError (List UInt8)) :=
  let number := max number 1
  match l.postsOn? blog.postsPerPage number with
  | none => ⟨[], .error (.notFound (.page number l.name))⟩
  | some posts =>
    renderWith registry (l.template registry)
      { kind := l.kind, blog, posts, tag := l.tag, author := l.author, number
        listingCount := some l.count, path := Link.ofPage l.base number, now }

end Listing

/-- Renders a page of a listing, if there is such a listing. -/
def renderListing (s : Site) (store : Store) (now : Instant) (listing : Except Missing Listing)
    (number : Int) : Reported (Except RenderError (List UInt8)) :=
  match s.active with
  | none => ⟨[], .error .noTheme⟩
  | some registry =>
    match listing with
    | .error what => ⟨[], .error (.notFound what)⟩
    | .ok l => l.render registry (s.settings.apply store.profile) now number

/-- Renders a page of the listing of all posts. -/
def renderIndex (s : Site) (store : Store) (now : Instant) (number : Int) :
    Reported (Except RenderError (List UInt8)) :=
  s.renderListing store now (.ok (.ofIndex store)) number

/-- Renders a page of the listing of a tag. -/
def renderTag (s : Site) (store : Store) (now : Instant) (slug : String) (number : Int) :
    Reported (Except RenderError (List UInt8)) :=
  let listing := match store.tagBySlug? slug with
    | none => .error (.tag slug)
    | some tag => .ok (.ofTag store slug tag)
  s.renderListing store now listing number

/-- Renders a page of the listing of an author. -/
def renderAuthor (s : Site) (store : Store) (now : Instant) (slug : String) (number : Int) :
    Reported (Except RenderError (List UInt8)) :=
  let listing := match store.authorBySlug? slug with
    | none => .error (.author slug)
    | some author => .ok (.ofAuthor store slug author)
  s.renderListing store now listing number

end ThemePress.Site
