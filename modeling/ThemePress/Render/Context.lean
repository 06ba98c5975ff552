import ThemePress.Render.Page
import ThemePress.Template.Registry

/-! # The context of a tag

What a tag shows depends on where it stands: inside a loop over posts, in a block about the author,
in a navigation entry. The context says which, and holds a cursor into each of the three collections
that can be looped over. It also collects the blocks that a template sets aside for another place,
counts how deep templates are nested, and keeps the warnings.

Cursors are words of 64 bits. They are not tied to the collections, so a cursor may stand outside
its collection, and then there is nothing under it. -/

namespace ThemePress.Render

open ThemePress.Blog
open ThemePress.Template (Node)

/-- What a tag without further words is about. -/
inductive Scope where
  | index
  | post
  | tag
  | author
  | navigation
  deriving DecidableEq, Repr

structure Context where
  scope : Scope
  postIndex : Nat := 0
  tagIndex : Nat := 0
  navigationIndex : Nat := 0
  /-- The blocks set aside so far, in the order in which they were met. -/
  collected : List Node := []
  /-- How many templates, layouts and set-aside blocks are being rendered inside each other. -/
  depth : Nat := 0
  /-- The warnings so far, oldest first. -/
  warnings : List Warning := []

namespace Context

/-- The context in which a page starts. -/
def start (kind : PageKind) : Context :=
  { scope := match kind with
      | .post => .post
      | _ => .index }

/-- The cursor that moves in a loop about `s`. -/
def cursor (c : Context) : Scope → Nat
  | .tag => c.tagIndex
  | .navigation => c.navigationIndex
  | _ => c.postIndex

def setCursor (c : Context) (s : Scope) (i : Nat) : Context :=
  match s with
  | .tag => { c with tagIndex := i }
  | .navigation => { c with navigationIndex := i }
  | _ => { c with postIndex := i }

/-- One level deeper. -/
def enter (c : Context) : Context :=
  { c with depth := c.depth + 1 }

/-- One level back. -/
def leave (c : Context) : Context :=
  { c with depth := c.depth - 1 }

/-- Adds a warning. -/
def warn (c : Context) (w : Warning) : Context :=
  { c with warnings := c.warnings ++ [w] }

/-- Sets a block aside. -/
def collect (c : Context) (n : Node) : Context :=
  { c with collected := c.collected ++ [n] }

/-! ### Under the cursors -/

variable (p : Page) (c : Context)

def post? : Option Post :=
  p.posts[c.postIndex]?

/-- The tag of the current post that the cursor points at. -/
def postTag? : Option Tag :=
  (c.post? p).bind (·.tags[c.tagIndex]?)

/-- The author of the current post, or else the author whose listing the page belongs to. -/
def author? : Option Author :=
  ((c.post? p).bind (·.author)).or p.author

def navigation? : Option NavigationItem :=
  p.blog.navigation[c.navigationIndex]?

/-- The author whose listing the page belongs to, or else the author of the current post. -/
def listingAuthor? : Option Author :=
  p.author.or ((c.post? p).bind (·.author))

/-- The tags of the current post. -/
def postTags : List Tag :=
  ((c.post? p).map (·.tags)).getD []

/-- The cursor and the length of the collection that the context is about, if it is about one. -/
def iteration? : Option (Nat × Nat) :=
  match c.scope with
  | .post => some (c.postIndex, p.posts.length)
  | .tag => some (c.tagIndex, (c.postTags p).length)
  | .navigation => some (c.navigationIndex, p.blog.navigation.length)
  | _ => none

end Context

end ThemePress.Render
