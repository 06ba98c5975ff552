import ThemePress.Blog.Entity

/-! # Settings of a site

Where a site is deployed can differ from what its data says: settings that are given take the place
of the blog's own. -/

namespace ThemePress.Site

/-- What a site sets in place of what the blog says about itself. -/
structure Settings where
  url : Option String := none
  assetPath : Option String := none
  deriving DecidableEq, Repr, Inhabited

/-- The blog as it appears on the site. -/
def Settings.apply (s : Settings) (blog : Blog.Profile) : Blog.Profile :=
  { blog with
    url := s.url.getD blog.url
    assetPath := s.assetPath.getD blog.assetPath }

end ThemePress.Site
