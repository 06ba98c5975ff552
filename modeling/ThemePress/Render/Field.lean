import ThemePress.Render.Context
import ThemePress.Render.Excerpt
import ThemePress.Text.Entity
import ThemePress.Time.Age
import ThemePress.Time.Format

/-! # Tags for fields

Tags that show a field of the post, author, tag or navigation entry under the cursors, and tags that
ask where a loop stands. Each is a text read off the page, the context and the tag's own node. Such
a text is put into the page with entities unless the tag stands in three braces. As a condition a
text holds when it is not empty. -/

namespace ThemePress.Render

open ThemePress.Blog
open ThemePress.Template (Node)

/-- The text that a tag shows, as a function of where the tag stands. -/
abbrev Field := Page → Context → Node → String

/-- How a tag writes a text into the page. -/
def shown (n : Node) (text : String) : String :=
  if n.unescaped then text else Text.Entity.escape text

/-- A text that holds as a condition just when `b` is true. -/
def truth (b : Bool) : String :=
  if b then "1" else ""

namespace Field

def ofBlog (get : Profile → String) : Field :=
  fun p _ n => shown n (get p.blog)

def ofPost (get : Post → String) : Field :=
  fun p c n => ((c.post? p).map fun post => shown n (get post)).getD ""

def ofAuthor (get : Author → String) : Field :=
  fun p c n => ((c.author? p).map fun author => shown n (get author)).getD ""

def ofNavigation (get : NavigationItem → String) : Field :=
  fun p c n => ((c.navigation? p).map fun item => shown n (get item)).getD ""

/-- The tag that `tag.name` and `tag.slug` are about: in a loop over tags the one under the cursor,
otherwise the one whose listing the page belongs to, or else again the one under the cursor. -/
def scopedTag? (p : Page) (c : Context) : Option Tag :=
  let listed := (p.tag.filter fun tag => !tag.name.isEmpty).or (c.postTag? p)
  if c.scope = .tag then (c.postTag? p).or listed else listed

def ofTag (get : Tag → String) : Field :=
  fun p c n => ((scopedTag? p c).map fun tag => shown n (get tag)).getD ""

/-- The HTML of a post, as it is. -/
def content : Field :=
  fun p c _ => ((c.post? p).map (·.html)).getD ""

def id : Field :=
  fun p c _ => ((c.post? p).map fun post => toString post.id).getD ""

def featured : Field :=
  fun p c _ => truth ((c.post? p).any (·.featured))

def posts : Field :=
  fun p _ _ => truth !p.posts.isEmpty

/-- The plain text of a post up to a number of words or characters. -/
def excerpt : Field :=
  fun p c n =>
    match c.scope, c.post? p with
    | .post, some post => Excerpt.ofHtml post.html (n.keyed? "characters") (n.keyed? "words")
    | _, _ => ""

/-- When the post was published, as a date or as an age. Outside of a post, and unless
`published_at` is asked for, the date is that of the rendering. -/
def date : Field :=
  fun p c n =>
    let published := (c.post? p).bind (·.publishedAt)
    if n.keyed? "timeago" = some "true" then
      (published.map fun t => shown n (t.age p.now)).getD ""
    else
      let t? := if c.scope = .post || n.hasFlag "published_at" then published else some p.now
      let format := (n.keyed? "format").getD Time.Format.standard
      (t?.map fun t => shown n (t.format format)).getD ""

/-- The image of the post or of the author. -/
def image : Field :=
  fun p c n =>
    match c.scope with
    | .post => ofPost (·.image) p c n
    | .author => ofAuthor (·.image) p c n
    | _ => ""

/-- The name of a tag in a loop over tags, and of the author elsewhere. -/
def name : Field :=
  fun p c n =>
    match c.scope with
    | .tag => ((c.postTag? p).map fun tag => shown n tag.name).getD ""
    | _ => ofAuthor (·.name) p c n

/-- The tags of a post, each linked to its listing unless that is turned off. -/
def tags : Field :=
  fun p c n =>
    match c.postTags p with
    | [] => ""
    | tags =>
      let separator := (n.keyed? "separator").getD ", "
      let one (tag : Tag) : String :=
        if n.keyed? "autolink" = some "false" then shown n tag.name
        else "<a href=\"/tag/" ++ tag.slug ++ "/\">" ++ shown n tag.name ++ "</a>"
      let before := ((n.keyed? "prefix").filter (!·.isEmpty)).map (· ++ " ")
      let behind := ((n.keyed? "suffix").filter (!·.isEmpty)).map (" " ++ ·)
      before.getD "" ++ separator.intercalate (tags.map one) ++ behind.getD ""

/-- The author's name, linked to the author's listing unless that is turned off. -/
def authorLink : Field :=
  fun p c n =>
    match c.author? p with
    | none => ""
    | some author =>
      if n.keyed? "autolink" = some "false" then shown n author.name
      else "<a href=\"/author/" ++ author.slug ++ "/\">" ++ shown n author.name ++ "</a>"

/-! ### Where a loop stands -/

/-- A question about a cursor and the length of its collection. -/
def ofIteration (test : Nat → Nat → Bool) : Field :=
  fun p c _ => truth ((c.iteration? p).any fun (i, length) => test i length)

def first : Field := ofIteration fun i _ => i == 0

/-- Cursors are words of 64 bits, so nothing but zero comes after the greatest. -/
def last : Field := ofIteration fun i length => (i + 1) % Text.Decimal.wordCount == length

/-- Counting starts at one, so the first item is odd. -/
def even : Field := ofIteration fun i _ => i % 2 == 1

def odd : Field := ofIteration fun i _ => i % 2 == 0

end Field

end ThemePress.Render
