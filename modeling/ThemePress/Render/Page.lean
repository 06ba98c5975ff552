import ThemePress.Blog.Entity
import ThemePress.Blog.Paging

/-! # The page to be rendered

All that a template can show, fetched before rendering starts. It stays as it is while the page is
rendered. -/

namespace ThemePress.Render

open ThemePress.Blog

/-- What kind of page is rendered. -/
inductive PageKind where
  | index
  | post
  | tag
  | author
  deriving DecidableEq, Repr

structure Page where
  kind : PageKind
  blog : Profile
  /-- The posts on the page, or the one post that it shows. -/
  posts : List Post := []
  tag : Option Tag := none
  author : Option Author := none
  /-- The number of the page in its listing, from one. -/
  number : Int := 1
  /-- The number of posts in the whole listing, if the page belongs to one. -/
  listingCount : Option Int := none
  path : String := "/"
  now : Time.Instant := ⟨0, 0⟩

namespace Page

/-- The number of pages in the listing. -/
def count (p : Page) : Int :=
  Paging.pageCount (p.listingCount.getD 0) p.blog.postsPerPage

end Page

end ThemePress.Render
