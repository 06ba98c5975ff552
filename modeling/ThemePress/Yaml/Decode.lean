import ThemePress.Text.Decimal
import ThemePress.Yaml.Tree

/-! # Reading values from YAML

Typed values are read from a document's tree. Any scalar is a text as it is written; numbers and
truth values are only read from plain scalars, or from literal blocks that say so with their tag. A
value that may be missing is missing when it is left out, empty, or a plain null. What is left out
altogether also stands for an empty list or an empty record.

Aliases are followed, but not more often than a hundred times the size of the document, so that
a short document cannot stand for an enormous one. -/

namespace ThemePress.Yaml

mutual

/-- The number of nodes of a tree, where the two ends of a collection count. -/
def Tree.size : Tree → Nat
  | .scalar _ _ _ => 1
  | .alias _ => 1
  | .sequence items => 2 + sizeAll items
  | .mapping entries => 2 + sizeEntries entries
  | .named _ t => t.size

def Tree.sizeAll : List Tree → Nat
  | [] => 0
  | t :: ts => t.size + sizeAll ts

def Tree.sizeEntries : List (Tree × Tree) → Nat
  | [] => 0
  | (k, v) :: rest => k.size + v.size + sizeEntries rest

end

/-- Reads from a tree with the document's named nodes at hand, the last one first; the state is how many aliases may
still be followed. -/
abbrev Decoder (α : Type) := ReaderT (List (Nat × Tree)) (StateT Nat Option) α

namespace Decoder

def fail {α : Type} : Decoder α :=
  fun _ _ => none

def require (b : Bool) : Decoder Unit :=
  if b then pure () else fail

def ofOption {α : Type} : Option α → Decoder α
  | some a => pure a
  | none => fail

/-- The node itself without its name, if it is an alias the one that it stands for. -/
def resolve : Tree → Decoder Tree
  | .alias n => do
    let left ← get
    require (0 < left)
    set (left - 1)
    ofOption ((← read).lookup n)
  | .named _ t => pure t
  | t => pure t

/-- Can a value other than a text be read from such a scalar? -/
def isBare (tag : Option TagText) (style : Style) (name : String) : Bool :=
  match style with
  | .plain => true
  | .literal => tag == some (standardTag name)
  | _ => false

def text (t : Tree) : Decoder String := do
  match ← resolve t with
  | .scalar _ _ s => return s
  | _ => fail

def boolean (t : Tree) : Decoder Bool := do
  match ← resolve t with
  | .scalar tag style s =>
    require (isBare tag style "bool")
    if s ∈ ["true", "True", "TRUE"] then return true
    else
      require (s ∈ ["false", "False", "FALSE"])
      return false
  | _ => fail

/-- The number that digits of the given base write, with an optional sign in front. -/
def signed? (base : Nat) (s : List Char) : Option Int :=
  let magnitude (digits : List Char) : Option Nat := do
    guard (!digits.isEmpty)
    let values ← digits.mapM hexDigit?
    guard (values.all (· < base))
    return values.foldl (fun n d => n * base + d) 0
  let n : Option Int := match s with
    | '+' :: digits => (magnitude digits).map (↑·)
    | '-' :: digits => (magnitude digits).map (-↑·)
    | digits => (magnitude digits).map (↑·)
  n.filter Text.Decimal.fits

/-- The prefixes of numbers that are not decimal. -/
def basePrefixes : List (List Char × Nat) :=
  [(['0', 'x'], 16), (['0', 'o'], 8), (['0', 'b'], 2)]

/-- Digits behind a leading zero do not write a number. -/
def isPadded (s : List Char) : Bool :=
  match s with
  | '0' :: c :: rest => (c :: rest).all fun c => '0' ≤ c && c ≤ '9'
  | _ => false

/-- A signed 64-bit integer as it is written plainly. -/
def integer? (s : List Char) : Option Int := do
  let (unsigned, plus) := match s with
    | '+' :: r => (r, true)
    | r => (r, false)
  let isSign (c : Char) : Bool := c = '+' || c = '-'
  guard !(plus && unsigned.head?.any isSign)
  let based : Option Int := basePrefixes.firstM fun (mark, base) =>
    if mark.isPrefixOf unsigned && !(unsigned[2]?).any isSign then signed? base (unsigned.drop 2)
    else if ('-' :: mark).isPrefixOf s then signed? base ('-' :: s.drop 3)
    else none
  match based with
  | some n => return n
  | none =>
    let digits := match s with
      | '+' :: r | '-' :: r => r
      | r => r
    guard !(isPadded digits)
    signed? 10 unsigned

def integer (t : Tree) : Decoder Int := do
  match ← resolve t with
  | .scalar tag style s =>
    require (isBare tag style "int")
    ofOption (integer? s.toList)
  | _ => fail

/-- The ways to write that a value is missing. -/
def isNull (s : String) : Bool :=
  s ∈ ["null", "Null", "NULL", "~"]

/-- A value that may be missing. -/
def optional {α : Type} (f : Tree → Decoder α) (t : Tree) : Decoder (Option α) := do
  let t ← resolve t
  match t with
  | .scalar tag .plain s =>
    match tag with
    | some tag =>
      if tag = standardTag "null" then
        require (isNull s)
        return none
      else some <$> f t
    | none => if s.isEmpty || isNull s then return none else some <$> f t
  | _ => some <$> f t

/-- A list of values. -/
def list {α : Type} (f : Tree → Decoder α) (t : Tree) : Decoder (List α) := do
  match ← resolve t with
  | .sequence items => items.mapM f
  | .scalar _ .plain "" => return []
  | _ => fail

/-- What to do with a field of a record that has no meaning. -/
inductive Unknown where
  | passed
  | refused
  deriving DecidableEq

/-- The fields of a record by their names, each at most once. The keys are texts. -/
def record (unknown : Unknown) (names : List String) (t : Tree) :
    Decoder (List (String × Tree)) := do
  match ← resolve t with
  | .mapping entries =>
    let named ← entries.mapM fun (k, v) => return (← text k, v)
    let fields := named.filter (·.1 ∈ names)
    require (unknown = .passed || fields.length == named.length)
    require ((fields.map (·.1)).eraseDups.length == fields.length)
    return fields
  | .scalar _ .plain "" => return []
  | _ => fail

/-- A field that has to be there. -/
def required {α : Type} (fields : List (String × Tree)) (name : String) (f : Tree → Decoder α) :
    Decoder α := do
  f (← ofOption (fields.lookup name))

/-- A field with a value for when it is not there. -/
def withDefault {α : Type} (fields : List (String × Tree)) (name : String) (f : Tree → Decoder α)
    (value : α) : Decoder α :=
  match fields.lookup name with
  | some t => f t
  | none => return value

/-- A field that may be left out or be null. -/
def optionalField {α : Type} (fields : List (String × Tree)) (name : String)
    (f : Tree → Decoder α) : Decoder (Option α) :=
  withDefault fields name (optional f) none

end Decoder

/-- Reads a value from the document that a text holds. A text without one stands for an empty
record. -/
def decode? {α : Type} (f : Tree → Decoder α) (text : String) : Option α := do
  let tree ← Tree.read? text
  let (value, _) ← (f tree tree.namedNodes.reverse).run (100 * tree.size)
  return value

end ThemePress.Yaml
