import ThemePress.Render.Field
import ThemePress.Text.Slash

/-! # Tags for addresses

Addresses of posts, listings and the pages of a listing, and of the theme's own files. -/

namespace ThemePress.Render

open ThemePress.Blog
open ThemePress.Template (Node)

namespace Link

/-- The address of a page of the listing with the address `base`. -/
def ofPage (base : String) (number : Int) : String :=
  if 1 < number then base ++ "/page/" ++ toString number ++ "/" else base ++ "/"

def ofPost (post : Post) : String :=
  "/" ++ post.slug ++ "/"

/-- The address of the listing of a tag, without the slash at its end. -/
def tagBase (slug : String) : String :=
  "/tag/" ++ slug

/-- The address of the listing of an author, without the slash at its end. -/
def authorBase (slug : String) : String :=
  "/author/" ++ slug

/-- Is the address one of another site? -/
def isExternal (url : String) : Bool :=
  url.startsWith "http://" || url.startsWith "https://"

/-- The path of a page without the number of the page, if it ends in one: `/page/`, digits and
a slash. -/
def withoutPage (path : String) : String :=
  let s := path.toList.reverse
  match s with
  | '/' :: s =>
    let digits := s.takeWhile fun c => '0' ≤ c && c ≤ '9'
    let mark := "/page/".toList.reverse
    let rest := s.dropWhile fun c => '0' ≤ c && c ≤ '9'
    if !digits.isEmpty && mark.isPrefixOf rest then
      String.ofList (rest.drop mark.length).reverse ++ "/"
    else path
  | _ => path

end Link

namespace Field

/-- The address of the blog with a slash at its end. -/
def blogUrl : Field :=
  fun p _ n => shown n (p.blog.url ++ "/")

/-- The address of one of the theme's own files. -/
def asset : Field :=
  fun p _ n =>
    match n.firstArgument? with
    | none => ""
    | some argument =>
      let base := p.blog.assetPath
      if Text.endsInSlash base then
        base ++ String.ofList (argument.name.toList.dropWhile (· == '/'))
      else base ++ argument.name

/-- Does the navigation entry lead to the page being rendered, or to the listing it is a page of? -/
def current : Field :=
  fun p c _ =>
    match c.navigation? p with
    | none => ""
    | some item => truth (Link.withoutPage p.path == Text.slashed item.url)

/-- The address of what the context is about. -/
def scopedUrl? (p : Page) (c : Context) : Option String :=
  match c.scope with
  | .post => (c.post? p).map Link.ofPost
  | .author => (c.author? p).map fun author => Link.authorBase author.slug ++ "/"
  | .tag => ((c.postTag? p).or p.tag).map fun tag => Link.tagBase tag.slug ++ "/"
  | .navigation => (c.navigation? p).map (·.url)
  | .index => none

/-- The address of what the context is about, behind that of the blog if asked for. -/
def url : Field :=
  fun p c n =>
    match scopedUrl? p c with
    | none => ""
    | some path =>
      if n.keyed? "absolute" = some "true" && !Link.isExternal path then
        shown n (p.blog.url ++ path)
      else shown n path

/-! ### Pages of a listing -/

/-- The address of the listing that the page belongs to, without the slash at its end. -/
def listingBase (p : Page) (c : Context) : String :=
  match p.kind with
  | .author => Link.authorBase (((c.listingAuthor? p).map (·.slug)).getD "")
  | .tag => Link.tagBase ((p.tag.map (·.slug)).getD "")
  | .index | .post => ""

def hasPrevious (p : Page) : Bool :=
  1 < p.number

def hasNext (p : Page) : Bool :=
  p.number < p.count

def previous : Field := fun p _ _ => truth (hasPrevious p)

def next : Field := fun p _ _ => truth (hasNext p)

def pageNumber : Field := fun p _ _ => toString p.number

/-- The number of pages, at least one. -/
def pageCount : Field := fun p _ _ => toString (max p.count 1)

/-- The number of posts in the listing. -/
def total : Field := fun p _ _ => (p.listingCount.map toString).getD ""

/-- The address of the page before or after this one, if there is one. -/
def pageUrl : Field :=
  fun p c n =>
    let toPage (number : Int) : String := Link.ofPage (listingBase p c) number
    match n.firstArgument?.map (·.name) with
    | some "prev" | some "pagination.prev" => if hasPrevious p then toPage (p.number - 1) else ""
    | some "next" | some "pagination.next" => if hasNext p then toPage (p.number + 1) else ""
    | _ => ""

end Field

end ThemePress.Render
