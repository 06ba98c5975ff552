import ThemePress.Render.Action
import ThemePress.Render.Head
import ThemePress.Render.Helper
import ThemePress.Render.Link
import ThemePress.Text.Form

/-! # What tags mean

The meaning of a node is a pair of actions: what its tag yields (`value`), and what its inside
yields with the children's values put in place (`content`). Both follow from the meanings of the
children and arguments, so `meaning` goes down the tree.

What a tag yields also depends on templates other than its own, when it includes one, is wrapped in
a layout or shows a block set aside before. These are rendered one level deeper, by an action that
`meaning` is given. `renderTo` ties the knot: it counts down the levels, and since no level is
entered past the limit, `limit + 1` of them are always enough (`Job.inside`). -/

namespace ThemePress.Render

open ThemePress.Template (Node Registry)

/-- What stays the same while a page is rendered. -/
structure Job where
  page : Page
  registry : Registry
  /-- How many templates, layouts and set-aside blocks may be rendered inside each other. -/
  limit : Nat := 16

/-- What a node yields as a tag, and what its inside yields. -/
structure Meaning (m : Type → Type) where
  value : Action m
  content : Action m

/-- Renders a node one level deeper. If bytes are given, they are put into its body slot. -/
abbrev Deeper (m : Type → Type) := Node → Option (List UInt8) → Action m

variable {m : Type → Type} [Monad m] [MonadStateOf Context m]

/-! ### The inside of a node -/

/-- The name that the first argument of a node gives, empty when there is none. -/
def argumentName (n : Node) : String :=
  ((n.firstArgument?).map (·.name)).getD ""

/-- Puts `inner` into the layout that a directive names. -/
def wrap (job : Job) (deeper : Deeper m) (directive : Node) (inner : List UInt8) : Action m :=
  let name := argumentName directive
  match job.registry.get? name with
  | none => do
    modify (·.warn (.layoutMissing name))
    return inner
  | some layout => Action.nested job.limit (.layoutTooDeep name) (deeper layout (some inner))

/-- Each child's action at the child's place. If bytes are given, they stand for the child in the
body slot. -/
def placedParts (n : Node) (parts : List (Meaning m)) (fill : Option (List UInt8)) :
    List (Nat × Action m) :=
  let placed := List.zipWith (fun child m => (child.position, m.value)) n.children parts
  match fill, n.bodySlot with
  | some bytes, some slot => placed.modify slot fun part => (part.1, pure bytes)
  | _, _ => placed

/-- The inside of a node: its literal bytes with the children's values in place. If the first child
is a layout directive, it is left out, and the rest goes into the layout. -/
def content (job : Job) (deeper : Deeper m) (n : Node) (parts : List (Meaning m))
    (fill : Option (List UInt8)) : Action m :=
  let placed := placedParts n parts fill
  match n.children.head?.filter (·.name == Node.extendsName) with
  | some directive => do
    let inner ← Action.splice n.block placed.tail
    wrap job deeper directive inner
  | none => Action.splice n.block placed

/-! ### Tags -/

/-- A tag with what its parts mean. -/
structure Occurrence (m : Type → Type) where
  node : Node
  /-- What the first argument yields, if it is a positional one. -/
  argument : Option (Action m)
  /-- What the tag's inside yields. -/
  content : Action m
  /-- What the inside of its `else` branch yields, if it has one. -/
  branch : Option (Action m)

namespace Occurrence

/-- Does the first argument yield anything? Without one there is no answer. -/
def choose (o : Occurrence m) (holds fails : Action m) : Action m :=
  match o.argument with
  | none => Action.nothing
  | some argument => do
    let output ← argument
    if output.isEmpty then fails else holds

def otherwise (o : Occurrence m) : Action m :=
  o.branch.getD Action.nothing

/-- The inside once for each of `length` elements, or the `else` branch when there are none. -/
def each (o : Occurrence m) (s : Scope) (length : Nat) : Action m :=
  if length = 0 then o.otherwise
  else Action.times length fun i => Action.atCursor s i (Action.inScope s o.content)

/-- The inside once for each element of the collection that the first argument names. -/
def loop (job : Job) (o : Occurrence m) : Action m := do
  match o.node.firstArgument?.map (·.name) with
  | none => Action.nothing
  | some "posts" => o.each .post job.page.posts.length
  | some "tags" => o.each .tag ((← get).postTags job.page).length
  | some "navigation" => o.each .navigation job.page.blog.navigation.length
  | some other => Action.refuse (.unknownCollection other)

/-- The template of the given name, one level deeper. -/
def template (job : Job) (deeper : Deeper m) (name : String) : Action m :=
  match job.registry.get? name with
  | none => Action.refuse (.templateMissing name)
  | some root => Action.nested job.limit (.templateTooDeep name) (deeper root none)

/-- The template of the given name, if the theme has it. -/
def templateIfAny (job : Job) (deeper : Deeper m) (name : String) : Action m :=
  if job.registry.contains name then template job deeper name else Action.nothing

/-- The first block that was set aside under the name of the first argument. -/
def contentBlock (job : Job) (deeper : Deeper m) (o : Occurrence m) : Action m := do
  match o.node.firstArgument?.map (·.name) with
  | none => Action.nothing
  | some name =>
    match (← get).collected.find? (fun n => n.firstArgument?.any (·.name == name)) with
    | none => Action.nothing
    | some found => Action.nested job.limit (.contentTooDeep name) (deeper found none)

/-- One of three texts, by the count that the first argument yields. -/
def plural (o : Occurrence m) : Action m :=
  match o.argument with
  | none => Action.nothing
  | some argument => do
    let count := Text.Utf8.readLossy (← argument)
    if count.isEmpty then Action.nothing
    else
      let key := if count = "0" then "empty" else if count = "1" then "singular" else "plural"
      let put (c : Char) : List Char := if c = '%' then count.toList else [c]
      Action.text (((o.node.keyed? key).map fun text =>
        String.ofList (text.toList.flatMap put)).getD "")

/-- What the first argument yields, as a value in a query. -/
def encode (o : Occurrence m) : Action m :=
  match o.argument with
  | none => Action.nothing
  | some argument => do
    Action.text (Text.Form.encode (Text.Utf8.readLossy (← argument)))

/-- The text of a field. -/
def field (job : Job) (f : Field) (o : Occurrence m) : Action m := do
  Action.text (f job.page (← get) o.node)

/-- What a tag yields. -/
def run (job : Job) (deeper : Deeper m) (o : Occurrence m) : Helper → Action m
  | .conditional => o.choose o.content o.otherwise
  | .negated => o.choose o.otherwise o.content
  | .loop => o.loop job
  | .layout => Action.refuse (.lateLayout (argumentName o.node))
  | .body => o.content
  | .inclusion =>
    match o.node.firstArgument? with
    | some argument => template job deeper argument.name
    | none => Action.nothing
  | .contentFor => do
    modify (·.collect o.node)
    return []
  | .contentBlock => o.contentBlock job deeper
  | .post => Action.atCursor .post 0 (Action.inScope .post o.content)
  | .author =>
    if o.node.isBlock then Action.inScope .author o.content else o.field job Field.authorLink
  | .navigation =>
    if job.page.blog.navigation.isEmpty then Action.nothing
    else templateIfAny job deeper "navigation"
  | .pagination => templateIfAny job deeper "pagination"
  | .plural => o.plural
  | .encode => o.encode
  | .foot => Action.nothing
  | .asset => o.field job Field.asset
  | .metaTitle => o.field job Field.metaTitle
  | .metaDescription => o.field job Field.metaDescription
  | .head => o.field job Field.head
  | .bodyClass => o.field job Field.bodyClass
  | .postClass => o.field job Field.postClass
  | .date => o.field job Field.date
  | .image => o.field job Field.image
  | .blogTitle => o.field job (Field.ofBlog (·.title))
  | .blogUrl => o.field job Field.blogUrl
  | .blogLogo => o.field job (Field.ofBlog (·.logo))
  | .blogCover => o.field job (Field.ofBlog (·.cover))
  | .blogDescription => o.field job (Field.ofBlog (·.description))
  | .excerpt => o.field job Field.excerpt
  | .title => o.field job (Field.ofPost (·.title))
  | .content => o.field job Field.content
  | .featured => o.field job Field.featured
  | .id => o.field job Field.id
  | .tagName => o.field job (Field.ofTag (·.name))
  | .tagSlug => o.field job (Field.ofTag (·.slug))
  | .authorName => o.field job (Field.ofAuthor (·.name))
  | .authorBio => o.field job (Field.ofAuthor (·.bio))
  | .authorEmail => o.field job (Field.ofAuthor (·.email))
  | .authorWebsite => o.field job (Field.ofAuthor (·.website))
  | .authorImage => o.field job (Field.ofAuthor (·.image))
  | .authorCover => o.field job (Field.ofAuthor (·.cover))
  | .authorLocation => o.field job (Field.ofAuthor (·.location))
  | .label => o.field job (Field.ofNavigation (·.label))
  | .slug => o.field job (Field.ofNavigation (·.slug))
  | .current => o.field job Field.current
  | .first => o.field job Field.first
  | .last => o.field job Field.last
  | .even => o.field job Field.even
  | .odd => o.field job Field.odd
  | .name => o.field job Field.name
  | .url => o.field job Field.url
  | .previous => o.field job Field.previous
  | .next => o.field job Field.next
  | .pageNumber => o.field job Field.pageNumber
  | .pageCount => o.field job Field.pageCount
  | .pageUrl => o.field job Field.pageUrl
  | .total => o.field job Field.total
  | .posts => o.field job Field.posts
  | .tags => o.field job Field.tags

/-- What a tag yields, by the helper of its name. -/
def value (job : Job) (deeper : Deeper m) (o : Occurrence m) : Action m :=
  match Helper.named? o.node.name with
  | some helper => o.run job deeper helper
  | none => Action.refuse (.unknownHelper o.node.name)

end Occurrence

/-! ### The meaning of a tree -/

mutual

/-- What a node yields as a tag, and what its inside yields. -/
def meaning (job : Job) (deeper : Deeper m) : Node → Meaning m
  | .mk name key arguments unescaped position block children bodySlot =>
    let n : Node := ⟨name, key, arguments, unescaped, position, block, children, bodySlot⟩
    let values := meanings job deeper arguments
    let inside := content job deeper n (meanings job deeper children) none
    let occurrence : Occurrence m :=
      { node := n
        argument := n.firstArgument?.bind fun _ => values.head?.map (·.value)
        content := inside
        branch := n.elseBranch?.bind fun _ => values.getLast?.map (·.content) }
    ⟨occurrence.value job deeper, inside⟩

def meanings (job : Job) (deeper : Deeper m) : List Node → List (Meaning m)
  | [] => []
  | n :: ns => meaning job deeper n :: meanings job deeper ns

end

/-- Renders the inside of a node, with what the tags in it ask for one level deeper. -/
def inside (job : Job) (deeper : Deeper m) : Deeper m := fun n fill =>
  content job deeper n (meanings job deeper n.children) fill

/-- Renders the inside of a node, with the given number of levels still to come and `past` for what
lies beyond them. -/
def renderTo (job : Job) (past : Deeper m) : Nat → Deeper m
  | 0 => past
  | levels + 1 => inside job (renderTo job past levels)

/-- Renders the inside of a node in a context. Bytes that are given are put into its body slot. -/
def Job.inside (job : Job) : Deeper (StateM Context) :=
  renderTo job (fun _ _ => Action.nothing) (job.limit + 1)

/-- Renders a template in a context. -/
def Job.render (job : Job) (root : Node) : Action (StateM Context) :=
  job.inside root none

end ThemePress.Render
