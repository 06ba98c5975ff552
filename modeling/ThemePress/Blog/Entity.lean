import ThemePress.Text.Slug
import ThemePress.Time.Instant

/-! # What a blog consists of

Posts with their tags and authors, and the blog itself with its navigation. Texts are kept as they
are given; a field that is not set is the empty text. -/

namespace ThemePress.Blog

/-- One entry of the blog's navigation. -/
structure NavigationItem where
  label : String
  url : String
  slug : String
  deriving DecidableEq, Repr, Inhabited

/-- A navigation entry whose slug is made from its label. -/
def NavigationItem.ofLabel (label url : String) : NavigationItem :=
  ⟨label, url, Text.Slug.ofLabel label⟩

/-- What a blog says about itself. -/
structure Profile where
  url : String := ""
  title : String := ""
  description : String := ""
  logo : String := ""
  cover : String := ""
  /-- Where the theme's own files are found. -/
  assetPath : String := ""
  /-- The number of posts in the listing of all posts. -/
  postCount : Int := 0
  postsPerPage : Int := 0
  activeTheme : String := ""
  navigation : List NavigationItem := []
  deriving DecidableEq, Repr, Inhabited

structure Author where
  id : Int
  name : String := ""
  slug : String := ""
  email : String := ""
  image : String := ""
  cover : String := ""
  bio : String := ""
  website : String := ""
  location : String := ""
  deriving DecidableEq, Repr, Inhabited

structure Tag where
  id : Int
  name : String := ""
  slug : String := ""
  deriving DecidableEq, Repr, Inhabited

structure Post where
  id : Int
  uuid : String := ""
  title : String := ""
  slug : String := ""
  html : String := ""
  featured : Bool := false
  /-- Is it a page by itself, which no listing shows? -/
  page : Bool := false
  published : Bool := true
  publishedAt : Option Time.Instant := none
  tags : List Tag := []
  author : Option Author := none
  metaDescription : String := ""
  image : String := ""
  deriving DecidableEq, Repr, Inhabited

end ThemePress.Blog
