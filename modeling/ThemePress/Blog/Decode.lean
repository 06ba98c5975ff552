import ThemePress.Blog.Store
import ThemePress.Text.Utf8
import ThemePress.Time.Reading
import ThemePress.Yaml.Decode

/-! # Data files

A data file is a YAML document with a record about the blog and lists of authors, tags and posts.
Fields that have no meaning here are passed over. -/

namespace ThemePress.Blog

open ThemePress.Yaml (Tree Decoder)
open ThemePress.Yaml.Decoder (record required withDefault optionalField text integer boolean list)

namespace DataFile

/-- The label and the address of a navigation entry. -/
def decodeNavigation (t : Tree) : Decoder (String × String) := do
  let fields ← record .passed ["label", "url"] t
  return (← required fields "label" text, ← required fields "url" text)

def decodeProfile (t : Tree) : Decoder ProfileEntry := do
  let fields ← record .passed ["title", "description", "url", "logo", "cover", "asset_path",
    "posts_per_page", "active_theme", "navigation"] t
  let text? (name : String) : Decoder (Option String) := optionalField fields name text
  return { title := ← text? "title"
           description := ← text? "description"
           url := ← text? "url"
           logo := ← text? "logo"
           cover := ← text? "cover"
           assetPath := ← text? "asset_path"
           postsPerPage := ← optionalField fields "posts_per_page" integer
           activeTheme := ← text? "active_theme"
           navigation := ← withDefault fields "navigation" (list decodeNavigation) [] }

def decodeAuthor (t : Tree) : Decoder Author := do
  let fields ← record .passed
    ["id", "name", "slug", "email", "image", "cover", "bio", "website", "location"] t
  let text? (name : String) : Decoder String := withDefault fields name text ""
  return { id := ← required fields "id" integer
           name := ← required fields "name" text
           slug := ← required fields "slug" text
           email := ← text? "email"
           image := ← text? "image"
           cover := ← text? "cover"
           bio := ← text? "bio"
           website := ← text? "website"
           location := ← text? "location" }

def decodeTag (t : Tree) : Decoder Tag := do
  let fields ← record .passed ["id", "name", "slug"] t
  return { id := ← required fields "id" integer
           name := ← required fields "name" text
           slug := ← required fields "slug" text }

def decodeInstant (t : Tree) : Decoder Time.Instant := do
  Decoder.ofOption (Time.Instant.read? (← text t))

def decodePost (t : Tree) : Decoder PostEntry := do
  let fields ← record .passed ["id", "uuid", "title", "slug", "html", "featured", "page",
    "published", "date", "author", "tags", "meta_description", "image"] t
  let text? (name : String) : Decoder String := withDefault fields name text ""
  return { id := ← required fields "id" integer
           uuid := ← text? "uuid"
           title := ← required fields "title" text
           slug := ← required fields "slug" text
           html := ← text? "html"
           featured := ← withDefault fields "featured" boolean false
           page := ← withDefault fields "page" boolean false
           published := ← withDefault fields "published" boolean true
           date := ← optionalField fields "date" decodeInstant
           author := ← optionalField fields "author" integer
           tags := ← withDefault fields "tags" (list integer) []
           metaDescription := ← text? "meta_description"
           image := ← text? "image" }

def decode (t : Tree) : Decoder DataFile := do
  let fields ← record .passed ["blog", "authors", "tags", "posts"] t
  return { blog := ← required fields "blog" decodeProfile
           authors := ← withDefault fields "authors" (list decodeAuthor) []
           tags := ← withDefault fields "tags" (list decodeTag) []
           posts := ← withDefault fields "posts" (list decodePost) [] }

end DataFile

/-- The store of a data file's text. -/
def Store.ofText (text : String) : Except StoreError Store :=
  match Yaml.decode? DataFile.decode text with
  | none => .error (.malformed "the document is not a data file")
  | some d => Store.load d

/-- The store of a data file. -/
def Store.ofBytes (bytes : List UInt8) : Except StoreError Store :=
  match Text.Utf8.read? bytes with
  | none => .error (.unreadable "stream did not contain valid UTF-8")
  | some text => Store.ofText text

end ThemePress.Blog
