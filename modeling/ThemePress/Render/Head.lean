import ThemePress.Render.Field
import ThemePress.Text.Quoted

/-! # Tags for the head of a page

Titles and descriptions, the block of metadata that belongs into every page's head, and the classes
that tell a style sheet what kind of page it is on. -/

namespace ThemePress.Render

open ThemePress.Blog
open ThemePress.Template (Node)

namespace Head

/-- The title of the page. -/
def title (p : Page) (c : Context) : String :=
  let behind (name : Option String) : String :=
    match name with
    | some name => name ++ " - " ++ p.blog.title
    | none => p.blog.title
  match p.kind with
  | .post => ((c.post? p).map (·.title)).getD ""
  | .author => behind ((p.author.or (c.author? p)).map (·.name))
  | .tag => behind (p.tag.map (·.name))
  | .index => p.blog.title

/-- The description of the page. -/
def description (p : Page) (c : Context) : String :=
  if p.kind = .post || c.scope = .post then ((c.post? p).map (·.metaDescription)).getD ""
  else p.blog.description

/-- The image that goes with the page. -/
def image (p : Page) (c : Context) : String :=
  match c.scope with
  | .post => ((c.post? p).map (·.image)).getD ""
  | .author => ((c.author? p).map (·.image)).getD ""
  | _ => ""

/-- A year with four digits, and with a sign where these do not do. -/
def yearText (year : Int) : String :=
  if 0 ≤ year ∧ year ≤ 9999 then Text.Decimal.padded 4 year.toNat
  else (if year < 0 then "-" else "+") ++ Text.Decimal.padded 4 year.natAbs

/-- An instant as date and time; a leap second has the number 60. -/
def timeText (t : Time.Instant) : String :=
  let two := Text.Decimal.padded 2
  let second := t.second + if t.inLeapSecond then 1 else 0
  yearText t.date.year ++ "-" ++ two t.date.month ++ "-" ++ two t.date.day ++ "T" ++
    two t.hour ++ ":" ++ two t.minute ++ ":" ++ two second ++ "Z"

/-- What the metadata calls the page, as a kind of thing on the web and in structured data. -/
def typeNames : PageKind → String × String
  | .post => ("article", "Article")
  | .tag => ("website", "Series")
  | .author => ("profile", "Person")
  | .index => ("website", "Website")

/-- The metadata of a page: its canonical address, its properties in the order of their names, and
the same as structured data. -/
def metadata (p : Page) (c : Context) (n : Node) : String :=
  let url := shown n p.blog.url ++ p.path
  let site := shown n p.blog.title
  let title := shown n (title p c)
  let description := shown n (description p c)
  let image := shown n (image p c)
  let published := (((c.post? p).bind (·.publishedAt)).map timeText).getD ""
  let (kind, schemaKind) := typeNames p.kind
  let isPost := p.kind = .post
  let properties :=
    (if isPost then [("article:published_time", published)] else []) ++
      [("og:description", description), ("og:image", image), ("og:site_name", site),
        ("og:title", title), ("og:type", kind), ("og:url", url), ("twitter:card", "summary"),
        ("twitter:description", description), ("twitter:image:src", image),
        ("twitter:title", title), ("twitter:url", url)]
  let data :=
    [("@context", "http://schema.org"), ("@type", schemaKind)] ++
      (if isPost then [("datePublished", published)] else []) ++
      [("description", description), ("headline", title), ("image", image), ("publisher", site),
        ("url", url)]
  let property (name value : String) : String :=
    "<meta property=\"" ++ name ++ "\" content=\"" ++ value ++ "\">\n"
  "<link rel=\"canonical\" href=\"" ++ url ++ "\">\n" ++
    String.join (properties.map fun (name, value) => property name value) ++
    "<script type=\"application/ld+json\">\n" ++ Text.Quoted.object data ++ "\n</script>\n"

/-- The class of each tag of a post. -/
def tagClasses (post : Post) : String :=
  String.join (post.tags.map fun tag => " tag-" ++ tag.slug)

/-- The class names of the body of a page. -/
def bodyClass (p : Page) (c : Context) : String :=
  let paged := if 1 < p.number then " paged archive-template" else ""
  match p.kind with
  | .post =>
    "post-template" ++ ((c.post? p).map fun post =>
      (if post.page then " page-template page" else "") ++ tagClasses post).getD ""
  | .index => if 1 < p.number then "paged archive-template" else "home-template"
  | .author =>
    "author-template author-" ++ ((c.listingAuthor? p).map (·.slug)).getD "" ++ paged
  | .tag => "tag-template tag-" ++ (p.tag.map (·.slug)).getD "" ++ paged

/-- The class names of a post. -/
def postClass (p : Page) (c : Context) : String :=
  "post" ++ ((c.post? p).map fun post =>
    (if post.featured then " featured" else "") ++ (if post.page then " page" else "") ++
      tagClasses post).getD ""

end Head

namespace Field

def metaTitle : Field := fun p c n => shown n (Head.title p c)

def metaDescription : Field := fun p c n => shown n (Head.description p c)

def head : Field := Head.metadata

def bodyClass : Field := fun p c _ => Head.bodyClass p c

def postClass : Field := fun p c n => shown n (Head.postClass p c)

end Field

end ThemePress.Render
