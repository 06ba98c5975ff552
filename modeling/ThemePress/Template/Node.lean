/-! # Nodes of a compiled template

A compiled template is a tree of nodes, one for each tag. A node holds the literal bytes that stood
inside its block, with the tags cut out of them, and one child for each of those tags, which
remembers the place it was cut from. Its arguments are nodes too: the positional ones, then the
keyed ones, and last the branch that an `else` divider split off. -/

namespace ThemePress.Template

/-- One tag of a template, or the root of a whole one. -/
structure Node where
  /-- The first word of the tag; for an argument, its value. -/
  name : String
  /-- The key of a keyed argument: `format="YYYY"` has the key `format` and the name `YYYY`. -/
  key : Option String
  arguments : List Node
  unescaped : Bool
  /-- Where in the bytes of the parent the tag stood. -/
  position : Nat
  /-- The literal bytes inside the block. -/
  block : List UInt8
  children : List Node
  /-- For the root of a template, which child is the place for the content of a page that uses the
  template as its layout. -/
  bodySlot : Option Nat
  deriving Inhabited

namespace Node

/-- The name of the directive that puts a template into a layout. -/
def extendsName : String := "!<"

/-- The name of the tag that a layout leaves for its content. -/
def bodyName : String := "body"

/-- The name of the tag that divides a block into two branches. -/
def elseName : String := "else"

/-- A node without arguments, block and children. -/
def leaf (name : String) (unescaped : Bool) (position : Nat) : Node :=
  ⟨name, none, [], unescaped, position, [], [], none⟩

/-- Does the node have anything inside? -/
def isBlock (n : Node) : Bool :=
  !n.block.isEmpty || !n.children.isEmpty

/-- Is the node, as an argument, an `else` branch? -/
def isElse (n : Node) : Bool :=
  n.key.isNone && n.name == elseName

/-- Is the node, as an argument, one given by its place? -/
def isPositional (n : Node) : Bool :=
  n.key.isNone && !n.isElse

def positional (n : Node) : List Node :=
  n.arguments.filter isPositional

/-- The first argument, when it is a positional one. -/
def firstArgument? (n : Node) : Option Node :=
  n.arguments.head?.filter isPositional

/-- The value of the first argument with the key `key`. -/
def keyed? (n : Node) (key : String) : Option String :=
  (n.arguments.find? fun a => a.key == some key).map (·.name)

/-- Was `flag` given, either bare or as a key? -/
def hasFlag (n : Node) (flag : String) : Bool :=
  n.positional.any (·.name == flag) || (n.keyed? flag).isSome

/-- The branch behind the `else` divider, which is the last argument. -/
def elseBranch? (n : Node) : Option Node :=
  n.arguments.getLast?.filter isElse

end Node

end ThemePress.Template
