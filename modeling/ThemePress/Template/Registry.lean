import ThemePress.Digest.Blake3
import ThemePress.Files.Tree
import ThemePress.Template.Scan
import ThemePress.Text.Hex

/-! # Compiled themes

A registry holds the root nodes of a theme's templates by name, in the order of their names, and a
fingerprint of the sources. `Registry.compile` makes one from sources: of two sources with one name
the later counts, the templates are compiled in the order of their names, and the two that every
theme needs must be there.

The fingerprint is the digest of all names and sources, each behind its length, so that no two
collections of sources are run together into one byte sequence. -/

namespace ThemePress.Template

open ThemePress.Files (Path FileError)

/-- Values by name, in the order of the names, each name once. -/
abbrev Named (α : Type) := List (String × α)

namespace Named

/-- Puts a value at its place, over an earlier one of that name. -/
def put {α : Type} (name : String) (value : α) : Named α → Named α
  | [] => [(name, value)]
  | (n, v) :: rest =>
    if name < n then (name, value) :: (n, v) :: rest
    else if name = n then (name, value) :: rest
    else (n, v) :: put name value rest

/-- The values of a list by name; a later one replaces an earlier one of its name. -/
def ofList {α : Type} (l : List (String × α)) : Named α :=
  l.foldl (fun m (name, value) => put name value m) []

def get? {α : Type} (m : Named α) (name : String) : Option α :=
  (m.find? (·.1 == name)).map (·.2)

def names {α : Type} (m : Named α) : List String :=
  m.map (·.1)

end Named

/-- The sources of templates by name. -/
abbrev Sources := Named (List UInt8)

namespace Sources

/-- The eight bytes of a length, lowest first. -/
def lengthBytes (n : Nat) : List UInt8 :=
  (List.range 8).map fun i => UInt8.ofNat (n >>> (8 * i))

/-- A byte sequence behind its length. -/
def measured (bytes : List UInt8) : List UInt8 :=
  lengthBytes bytes.length ++ bytes

/-- What the fingerprint is the digest of. -/
def signature (sources : Sources) : List UInt8 :=
  Text.Utf8.bytesOf "quire.templates.v1" ++
    sources.flatMap fun (name, source) => measured (Text.Utf8.bytesOf name) ++ measured source

def fingerprint (sources : Sources) : List UInt8 :=
  Digest.Blake3.digest sources.signature

end Sources

/-- Why a theme cannot be used. -/
inductive ThemeError where
  | notFound (folder : Path)
  | unreadable (path : Path) (cause : FileError)
  | duplicateTemplate (name : String) (first second : Path)
  | parse (template : String) (cause : ScanError)
  | missingTemplate (name : String)
  | noUsableTheme (folder : Path)
  deriving DecidableEq, Repr

namespace ThemeError

def message : ThemeError → String
  | notFound folder => s!"couldn't find theme files in {folder.text}"
  | unreadable path cause => s!"failed to read {path.text}: {cause.message}"
  | duplicateTemplate name first second =>
    s!"conflicting template name '{name}': {first.text} and {second.text}"
  | parse template cause => s!"template '{template}': {cause.message}"
  | missingTemplate name => s!"couldn't compile template '{name}'. Is {name}.hbs missing?"
  | noUsableTheme folder => s!"couldn't find a theme to use in {folder.text}"

/-- The texts of the faults behind an error, outermost first. -/
def causes : ThemeError → List String
  | unreadable _ cause => [cause.message]
  | parse _ cause => [cause.message]
  | _ => []

end ThemeError

/-- The compiled templates of a theme. -/
structure Registry where
  theme : String
  templates : Named Node
  fingerprint : List UInt8
  deriving Inhabited

namespace Registry

/-- The registry of a theme without templates. -/
def empty (theme : String) : Registry :=
  ⟨theme, [], Sources.fingerprint []⟩

def get? (r : Registry) (name : String) : Option Node :=
  r.templates.get? name

def contains (r : Registry) (name : String) : Bool :=
  (r.get? name).isSome

/-- The templates that every theme has. -/
def required : List String :=
  ["index", "post"]

/-- The first required template that is missing. -/
def missing? (r : Registry) : Option String :=
  required.find? fun name => !r.contains name

/-- Compiles templates one after the other, up to the first fault. -/
def compileAll : Sources → Reported (Except ThemeError (Named Node))
  | [] => ⟨[], .ok []⟩
  | (name, source) :: rest =>
    let root := Node.compile name source
    match root.value with
    | .error e => ⟨root.warnings, .error (.parse name e)⟩
    | .ok node => ((compileAll rest).map (·.map ((name, node) :: ·))).after root.warnings

/-- Compiles a theme from its sources. -/
def compile (theme : String) (sources : List (String × List UInt8)) :
    Reported (Except ThemeError Registry) :=
  let sources := Named.ofList sources
  (compileAll sources).map fun templates => do
    let registry : Registry := ⟨theme, ← templates, Sources.fingerprint sources⟩
    match registry.missing? with
    | some name => .error (.missingTemplate name)
    | none => .ok registry

end Registry

end ThemePress.Template
