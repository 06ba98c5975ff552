import ThemePress.Numeric.Binary64
import ThemePress.Text.Decimal

/-! # Pages of a listing

The number of pages of a listing is its number of posts divided by the size of a page, rounded to
the nearest integer with a half going up: 101 posts at five to a page are 20 pages. The quotient
is taken in double precision, and the result is kept within 64 bits. -/

namespace ThemePress.Blog.Paging

/-- The size of a page: at least one post. -/
def pageSize (perPage : Int) : Int :=
  max perPage 1

/-- An integer kept within 64 bits. -/
def clamp (n : Int) : Int :=
  max Text.Decimal.least (min n Text.Decimal.greatest)

/-- The number of pages of a listing of `count` posts. -/
def pageCount (count perPage : Int) : Int :=
  let quotient := Numeric.Binary64.nearest
    (Numeric.Binary64.nearest count / Numeric.Binary64.nearest (pageSize perPage))
  clamp (Numeric.Binary64.nearest (quotient + 1 / 2)).floor

end ThemePress.Blog.Paging
