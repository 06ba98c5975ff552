import ThemePress.Yaml.Token

/-! # Trees of YAML

A document is a tree of scalars, sequences and mappings. A node may be given a name (an anchor), and
an alias stands for a node that was named before. `Tree.read?` makes the tree of a text that holds
one document; in a text of blanks and comments all is left out.

Names are numbered by how many different names there were before. A name given again gets a new
number, which a later name may come to share; an alias then stands for the node of its number that
starts last. -/

namespace ThemePress.Yaml

/-- A node of a document. -/
inductive Tree where
  | scalar (tag : Option TagText) (style : Style) (text : String)
  | sequence (items : List Tree)
  | mapping (entries : List (Tree × Tree))
  | alias (number : Nat)
  /-- A node with a name. -/
  | named (number : Nat) (node : Tree)
  deriving Inhabited

/-- The tags of plain values. -/
def standardTag (name : String) : TagText :=
  ("tag:yaml.org,2002:" ++ name).toList.map Char.toUInt8

/-- The empty scalar that stands for what is left out. -/
def Tree.nothing : Tree :=
  .scalar none .plain ""

mutual

/-- The named nodes of a tree by their numbers, in the order in which they start. -/
def Tree.namedNodes : Tree → List (Nat × Tree)
  | .scalar _ _ _ => []
  | .alias _ => []
  | .sequence items => namedInItems items
  | .mapping entries => namedInEntries entries
  | .named n t => (n, t) :: t.namedNodes

def Tree.namedInItems : List Tree → List (Nat × Tree)
  | [] => []
  | t :: ts => t.namedNodes ++ namedInItems ts

def Tree.namedInEntries : List (Tree × Tree) → List (Nat × Tree)
  | [] => []
  | (k, v) :: rest => k.namedNodes ++ v.namedNodes ++ namedInEntries rest

end

/-- What has been read of a document besides its tree. -/
structure Reading where
  tokens : List Token
  /-- The expansions of tag handles. -/
  handles : List (String × TagText) := []
  /-- The numbers of the names given so far. -/
  names : List (String × Nat) := []

/-- Reads something or fails. -/
abbrev Reader := StateT Reading Option

namespace Reader

def fail {α : Type} : Reader α :=
  fun _ => none

def guard (b : Bool) : Reader Unit :=
  if b then pure () else fail

def peek : Reader (Option Token) :=
  return (← get).tokens.head?

def skip : Reader Unit :=
  modify fun r => { r with tokens := r.tokens.tail }

/-- Is the next token one of these? The end of the text counts as none. -/
def isNext (ts : List Token) : Reader Bool :=
  return (← peek).any (· ∈ ts)

/-- Passes the given token if it is next. -/
def accept (t : Token) : Reader Bool := do
  if ← isNext [t] then
    skip
    return true
  else return false

/-- Passes the given token. -/
def expect (t : Token) : Reader Unit := do
  guard (← accept t)

/-- Gives a name the next number. -/
def number (name : String) : Reader Nat :=
  modifyGet fun r =>
    let n := r.names.length
    (n, { r with names := (name, n) :: r.names.filter (·.1 != name) })

/-- The text of a tag, its handle expanded. -/
def expand (handle : String) (suffix : TagText) : Reader TagText := do
  if handle.isEmpty then return suffix
  else
    match (← get).handles.lookup handle with
    | some expansion => return expansion ++ suffix
    | none => fail

/-- The name and the tag before a node, in either order. -/
def properties : Reader (Option String × Option TagText) := do
  let anchor : Reader (Option String) := do
    match ← peek with
    | some (.anchor name) => do
      skip
      return some name
    | _ => return none
  let tag : Reader (Option (String × TagText)) := do
    match ← peek with
    | some (.tag handle suffix) => do
      skip
      return some (handle, suffix)
    | _ => return none
  let before ← anchor
  let text ← tag
  let behind ← if before.isNone && text.isSome then anchor else pure none
  let text ← text.mapM fun (handle, suffix) => expand handle suffix
  return (before.or behind, text)

mutual

/-- Reads a node. In a block it may be a block collection; as a value of a mapping it may be
a sequence that is not indented. -/
def node (inBlock indentless : Bool) : Nat → Reader Tree
  | 0 => fail
  | fuel + 1 => do
    match ← peek with
    | some (.alias name) =>
      skip
      match (← get).names.lookup name with
      | some n => return .alias n
      | none => fail
    | _ =>
      let (name, tag) ← properties
      match ← name.mapM number with
      | some n => return .named n (← content inBlock indentless true tag fuel)
      | none => content inBlock indentless tag.isSome tag fuel

/-- Reads what stands behind the name and the tag of a node. It may be left out when there was one
of them. -/
def content (inBlock indentless mayLack : Bool) (tag : Option TagText) : Nat → Reader Tree
  | 0 => fail
  | fuel + 1 => do
    let next ← peek
    if next = some .blockEntry && indentless then return .sequence (← indentlessItems fuel)
    match next with
    | some (.scalar style text) =>
      skip
      return .scalar tag style text
    | some .flowSequence =>
      skip
      return .sequence (← flowItems true fuel)
    | some .flowMapping =>
      skip
      return .mapping (← flowEntries true fuel)
    | some .blockSequence =>
      if inBlock then
        skip
        return .sequence (← blockItems fuel)
    | some .blockMapping =>
      if inBlock then
        skip
        return .mapping (← blockEntries fuel)
    | _ => pure ()
    guard mayLack
    return .scalar tag .plain ""

/-- Reads a node unless one of the given tokens, or the end, shows that it is left out. -/
def nodeUnless (stops : List Token) (inBlock indentless : Bool) : Nat → Reader Tree
  | 0 => fail
  | fuel + 1 => do
    if ← isNext stops then return .nothing else node inBlock indentless fuel

/-- Reads the value behind a key, if there is one. -/
def valueUnless (stops : List Token) (inBlock indentless : Bool) : Nat → Reader Tree
  | 0 => fail
  | fuel + 1 => do
    if ← accept .value then nodeUnless stops inBlock indentless fuel else return .nothing

/-- The items of a block sequence, from a dash on. -/
def blockItems : Nat → Reader (List Tree)
  | 0 => fail
  | fuel + 1 => do
    if ← accept .blockEntry then
      let item ← nodeUnless [.blockEntry, .blockEnd] true false fuel
      return item :: (← blockItems fuel)
    else
      expect .blockEnd
      return []

/-- The items of a sequence that stands at the column of the keys around it. -/
def indentlessItems : Nat → Reader (List Tree)
  | 0 => fail
  | fuel + 1 => do
    if ← accept .blockEntry then
      let item ← nodeUnless [.blockEntry, .key, .value, .blockEnd] true false fuel
      return item :: (← indentlessItems fuel)
    else return []

/-- The entries of a block mapping, from a key on. -/
def blockEntries : Nat → Reader (List (Tree × Tree))
  | 0 => fail
  | fuel + 1 => do
    if ← accept .key then
      let stops : List Token := [.key, .value, .blockEnd]
      let key ← nodeUnless stops true true fuel
      let value ← valueUnless stops true true fuel
      return (key, value) :: (← blockEntries fuel)
    else
      expect .blockEnd
      return []

/-- The items of a sequence in brackets, up to the closing one. -/
def flowItems (first : Bool) : Nat → Reader (List Tree)
  | 0 => fail
  | fuel + 1 => do
    if ← accept .flowSequenceEnd then return []
    else
      unless first do expect .flowEntry
      if ← accept .key then
        let stops : List Token := [.flowEntry, .flowSequenceEnd]
        let lacking ← isNext (.value :: stops)
        if lacking then skip
        let key ← if lacking then pure .nothing else node false false fuel
        let value ← valueUnless stops false false fuel
        return .mapping [(key, value)] :: (← flowItems false fuel)
      else if ← accept .flowSequenceEnd then return []
      else
        let item ← node false false fuel
        return item :: (← flowItems false fuel)

/-- The entries of a mapping in braces, up to the closing one. -/
def flowEntries (first : Bool) : Nat → Reader (List (Tree × Tree))
  | 0 => fail
  | fuel + 1 => do
    if ← accept .flowMappingEnd then return []
    else
      unless first do expect .flowEntry
      if ← accept .key then
        let stops : List Token := [.flowEntry, .flowMappingEnd]
        let key ← nodeUnless (.value :: stops) false false fuel
        let value ← valueUnless stops false false fuel
        return (key, value) :: (← flowEntries false fuel)
      else if ← accept .flowMappingEnd then return []
      else
        let key ← node false false fuel
        return (key, .nothing) :: (← flowEntries false fuel)

end

/-- The directives before a document, which nothing but its mark may follow. -/
def directives (version : Bool) : Nat → Reader Unit
  | 0 => fail
  | fuel + 1 => do
    match ← peek with
    | some (.version major minor) =>
      guard (!version && major == 1 && (minor == 1 || minor == 2))
      skip
      directives true fuel
    | some (.tagHandle handle expansion) =>
      guard (((← get).handles.lookup handle).isNone)
      skip
      modify fun r => { r with handles := (handle, expansion) :: r.handles }
      directives version fuel
    | _ => pure ()

/-- The handles that need no directive, unless one redefines them. -/
def standardHandles : List (String × TagText) :=
  [("!", bareTag), ("!!", standardTag "")]

/-- Passes the marks at the end of a document. -/
def endMarks : Nat → Reader Unit
  | 0 => pure ()
  | fuel + 1 => do if ← accept .documentEnd then endMarks fuel

/-- The tree of a document, from its directives or its mark on. A document without a mark has
something in it. -/
def tree (fuel : Nat) : Reader Tree := do
  match ← peek with
  | some .documentStart | some (.version _ _) | some (.tagHandle _ _) =>
    directives false fuel
    modify fun r => { r with handles := r.handles ++ standardHandles }
    expect .documentStart
    match ← peek with
    | none | some .documentStart | some .documentEnd | some (.version _ _)
    | some (.tagHandle _ _) => return .nothing
    | _ => node true false fuel
  | _ =>
    modify fun r => { r with handles := standardHandles }
    node true false fuel

/-- The tree of the only document. Without any document all is left out. -/
def document (fuel : Nat) : Reader Tree := do
  if (← peek).isNone then return .nothing
  let tree ← tree fuel
  endMarks fuel
  guard (← peek).isNone
  return tree

end Reader

/-- The tree of the document that a text holds, if it holds no more than one and is well formed. -/
def Tree.read? (text : String) : Option Tree := do
  let tokens ← tokens? text
  let (tree, _) ← (Reader.document (6 * tokens.length + 6)).run { tokens }
  return tree

end ThemePress.Yaml
