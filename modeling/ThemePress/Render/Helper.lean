/-! # The tags that themes can use

Every tag that does something has a name, and some have two. A name that is not in the table stands
for nothing. -/

namespace ThemePress.Render

/-- What a tag does. -/
inductive Helper where
  | conditional
  | negated
  | loop
  | layout
  | body
  | asset
  | encode
  | inclusion
  | metaTitle
  | metaDescription
  | head
  | foot
  | bodyClass
  | plural
  | date
  | image
  | contentFor
  | contentBlock
  | blogTitle
  | blogUrl
  | blogLogo
  | blogCover
  | blogDescription
  | navigation
  | post
  | excerpt
  | title
  | content
  | postClass
  | featured
  | id
  | tagName
  | tagSlug
  | author
  | authorName
  | authorBio
  | authorEmail
  | authorWebsite
  | authorImage
  | authorCover
  | authorLocation
  | label
  | current
  | slug
  | first
  | last
  | even
  | odd
  | name
  | url
  | pagination
  | previous
  | next
  | pageNumber
  | pageCount
  | pageUrl
  | total
  | posts
  | tags
  deriving DecidableEq, Repr

namespace Helper

/-- The names of the helpers. -/
def table : List (String × Helper) :=
  [("if", conditional), ("unless", negated), ("foreach", loop), ("!<", layout), ("body", body),
    ("asset", asset), ("encode", encode), (">", inclusion), ("meta_title", metaTitle),
    ("meta_description", metaDescription), ("ghost_head", head), ("ghost_foot", foot),
    ("body_class", bodyClass), ("plural", plural), ("date", date), ("image", image),
    ("contentFor", contentFor), ("block", contentBlock), ("@blog.title", blogTitle),
    ("@blog.url", blogUrl), ("@blog.logo", blogLogo), ("@blog.cover", blogCover),
    ("@blog.description", blogDescription), ("@blog.navigation", navigation), ("post", post),
    ("excerpt", excerpt), ("title", title), ("content", content), ("post_class", postClass),
    ("featured", featured), ("id", id), ("post.id", id), ("tag.name", tagName),
    ("tag.slug", tagSlug), ("author", author), ("bio", authorBio), ("email", authorEmail),
    ("website", authorWebsite), ("cover", authorCover), ("location", authorLocation),
    ("author.name", authorName), ("author.bio", authorBio), ("author.email", authorEmail),
    ("author.website", authorWebsite), ("author.image", authorImage),
    ("author.cover", authorCover), ("author.location", authorLocation),
    ("navigation", navigation), ("label", label), ("current", current), ("slug", slug),
    ("@first", first), ("@last", last), ("@even", even), ("@odd", odd), ("name", name),
    ("url", url), ("pagination", pagination), ("prev", previous), ("next", next),
    ("page", pageNumber), ("pages", pageCount), ("page_url", pageUrl), ("pageUrl", pageUrl),
    ("pagination.prev", previous), ("pagination.next", next), ("pagination.total", total),
    ("../pagination.total", total), ("posts", posts), ("tags", tags)]

/-- The helper of a name. -/
def named? (name : String) : Option Helper :=
  (table.find? (·.1 == name)).map (·.2)

/-- All names, in order. -/
def names : List String :=
  (table.map (·.1)).mergeSort (· ≤ ·)

end Helper

end ThemePress.Render
