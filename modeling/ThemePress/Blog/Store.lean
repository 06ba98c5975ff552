import ThemePress.Blog.Entity
import ThemePress.Text.Slash

/-! # The store of a blog

A store holds the posts, tags and authors of a blog. Its posts are in the order of listings: the
newest first, posts of one date by falling number, and undated ones last. Listings show published
posts that are not pages by themselves, and are read in windows of a limit behind an offset.

`Store.load` makes a store from a data file's content, in which posts refer to tags and authors by
number. Slugs must be unique and references must lead somewhere. -/

namespace ThemePress.Blog

/-! ### The order of listings -/

/-- Undated comes before every date. -/
def compareDates : Option Time.Instant → Option Time.Instant → Ordering
  | none, none => .eq
  | none, some _ => .lt
  | some _, none => .gt
  | some a, some b => (compare a.seconds b.seconds).then (compare a.nanos b.nanos)

namespace Post

/-- The order of posts from old to new. -/
def compareAge (a b : Post) : Ordering :=
  (compareDates a.publishedAt b.publishedAt).then (compare a.id b.id)

/-- May `a` stand before `b` in a listing? -/
def isNoOlder (a b : Post) : Bool :=
  a.compareAge b != .lt

/-- Does the post appear in listings? -/
def isListed (p : Post) : Bool :=
  p.published && !p.page

def hasTag (p : Post) (id : Int) : Bool :=
  p.tags.any (·.id == id)

def hasAuthor (p : Post) (id : Int) : Bool :=
  p.author.any (·.id == id)

end Post

structure Store where
  profile : Profile
  authors : List Author
  tags : List Tag
  /-- The posts in the order of listings. -/
  posts : List Post
  deriving Inhabited

namespace Store

/-- The store with these contents. Its profile counts the listed posts. -/
def make (profile : Profile) (authors : List Author) (tags : List Tag) (posts : List Post) :
    Store :=
  { profile := { profile with postCount := (posts.filter (·.isListed)).length }
    authors
    tags
    posts := posts.mergeSort Post.isNoOlder }

/-! ### Listings -/

/-- The posts that appear in listings. -/
def listed (s : Store) : List Post :=
  s.posts.filter (·.isListed)

def listedWithTag (s : Store) (id : Int) : List Post :=
  s.listed.filter (·.hasTag id)

def listedByAuthor (s : Store) (id : Int) : List Post :=
  s.listed.filter (·.hasAuthor id)

/-- At most `limit` posts behind the first `offset`. Negative numbers count as zero. -/
def window (posts : List Post) (limit offset : Int) : List Post :=
  (posts.drop offset.toNat).take limit.toNat

/-- The number of listed posts, as the profile has it. -/
def postCount (s : Store) : Int :=
  s.profile.postCount

def postCountWithTag (s : Store) (id : Int) : Int :=
  (s.listedWithTag id).length

def postCountByAuthor (s : Store) (id : Int) : Int :=
  (s.listedByAuthor id).length

/-! ### Single entries -/

def postBySlug? (s : Store) (slug : String) : Option Post :=
  s.posts.find? (·.slug == slug)

def postById? (s : Store) (id : Int) : Option Post :=
  s.posts.find? (·.id == id)

def tagBySlug? (s : Store) (slug : String) : Option Tag :=
  s.tags.find? (·.slug == slug)

def tagById? (s : Store) (id : Int) : Option Tag :=
  s.tags.find? (·.id == id)

def authorBySlug? (s : Store) (slug : String) : Option Author :=
  s.authors.find? (·.slug == slug)

def authorById? (s : Store) (id : Int) : Option Author :=
  s.authors.find? (·.id == id)

end Store

/-! ### Loading -/

/-- What a data file says about the blog itself. -/
structure ProfileEntry where
  title : Option String := none
  description : Option String := none
  url : Option String := none
  logo : Option String := none
  cover : Option String := none
  assetPath : Option String := none
  postsPerPage : Option Int := none
  activeTheme : Option String := none
  /-- The labels and addresses of the navigation. -/
  navigation : List (String × String) := []
  deriving DecidableEq, Repr, Inhabited

/-- What a data file says about a post. Its author and tags are given by their numbers. -/
structure PostEntry where
  id : Int
  uuid : String := ""
  title : String
  slug : String
  html : String := ""
  featured : Bool := false
  page : Bool := false
  published : Bool := true
  date : Option Time.Instant := none
  author : Option Int := none
  tags : List Int := []
  metaDescription : String := ""
  image : String := ""
  deriving DecidableEq, Repr, Inhabited

/-- The content of a data file. -/
structure DataFile where
  blog : ProfileEntry
  authors : List Author := []
  tags : List Tag := []
  posts : List PostEntry := []
  deriving DecidableEq, Repr, Inhabited

/-- The kinds of entries that slugs belong to. -/
inductive EntryKind where
  | author
  | tag
  | post
  deriving DecidableEq, Repr

def EntryKind.name : EntryKind → String
  | author => "author"
  | tag => "tag"
  | post => "post"

/-- Why a store cannot be loaded. -/
inductive StoreError where
  | unreadable (reason : String)
  | malformed (reason : String)
  | unknownAuthor (post author : Int)
  | unknownTag (post tag : Int)
  | duplicateSlug (kind : EntryKind) (slug : String)
  deriving DecidableEq, Repr

namespace StoreError

def message : StoreError → String
  | unreadable reason => "io error: " ++ reason
  | malformed reason => "yaml error: " ++ reason
  | unknownAuthor post author =>
    "post " ++ toString post ++ " references unknown author " ++ toString author
  | unknownTag post tag => "post " ++ toString post ++ " references unknown tag " ++ toString tag
  | duplicateSlug kind slug => "duplicate " ++ kind.name ++ " slug '" ++ slug ++ "'"

/-- The texts of the faults behind an error, outermost first. -/
def causes : StoreError → List String
  | unreadable reason | malformed reason => [reason]
  | _ => []

end StoreError

/-- The first text that stands in the list before. -/
def firstRepeated? (seen : List String) : List String → Option String
  | [] => none
  | s :: rest => if s ∈ seen then some s else firstRepeated? (s :: seen) rest

/-- Fails with the first slug that is given twice. -/
def requireUnique (kind : EntryKind) (slugs : List String) : Except StoreError Unit :=
  match firstRepeated? [] slugs with
  | some slug => .error (.duplicateSlug kind slug)
  | none => .ok ()

/-- The last entry of a list with the given number. -/
def lastWithId? {α : Type} (id : α → Int) (l : List α) (n : Int) : Option α :=
  l.reverse.find? (id · == n)

namespace PostEntry

/-- The tags of a post, from their numbers. -/
def resolveTags (tags : List Tag) (post : Int) : List Int → Except StoreError (List Tag)
  | [] => .ok []
  | n :: rest =>
    match lastWithId? Tag.id tags n with
    | none => .error (.unknownTag post n)
    | some tag => (resolveTags tags post rest).map (tag :: ·)

/-- The author of a post, from the number. -/
def resolveAuthor (authors : List Author) (post : Int) :
    Option Int → Except StoreError (Option Author)
  | none => .ok none
  | some n =>
    match lastWithId? Author.id authors n with
    | none => .error (.unknownAuthor post n)
    | some author => .ok (some author)

/-- The post with its author and tags in place of their numbers. -/
def resolve (authors : List Author) (tags : List Tag) (e : PostEntry) :
    Except StoreError Post := do
  let author ← resolveAuthor authors e.id e.author
  let tags ← resolveTags tags e.id e.tags
  return { id := e.id, uuid := e.uuid, title := e.title, slug := e.slug, html := e.html
           featured := e.featured, page := e.page, published := e.published
           publishedAt := e.date, tags, author, metaDescription := e.metaDescription
           image := e.image }

/-- The posts with their references resolved, up to the first one that leads nowhere. -/
def resolveAll (authors : List Author) (tags : List Tag) :
    List PostEntry → Except StoreError (List Post)
  | [] => .ok []
  | e :: rest => do
    let post ← e.resolve authors tags
    let posts ← resolveAll authors tags rest
    return post :: posts

end PostEntry

namespace ProfileEntry

def standardPostsPerPage : Int := 5
def standardTheme : String := "promenade"
def standardAssetPath : String := "/assets/"

/-- What the blog says about itself, with standards for what is left out. -/
def profile (e : ProfileEntry) : Profile :=
  { url := Text.trimSlashes (e.url.getD "")
    title := e.title.getD ""
    description := e.description.getD ""
    logo := e.logo.getD ""
    cover := e.cover.getD ""
    assetPath := e.assetPath.getD standardAssetPath
    postsPerPage := (e.postsPerPage.filter (0 < ·)).getD standardPostsPerPage
    activeTheme := e.activeTheme.getD standardTheme
    navigation := e.navigation.map fun (label, url) => .ofLabel label url }

end ProfileEntry

/-- The store of a data file. Slugs of authors are looked at first, then those of tags, then the
references of the posts, and last the slugs of the posts. -/
def Store.load (d : DataFile) : Except StoreError Store := do
  requireUnique .author (d.authors.map (·.slug))
  requireUnique .tag (d.tags.map (·.slug))
  let posts ← PostEntry.resolveAll d.authors d.tags d.posts
  requireUnique .post (posts.map (·.slug))
  return Store.make d.blog.profile d.authors d.tags posts

end ThemePress.Blog
