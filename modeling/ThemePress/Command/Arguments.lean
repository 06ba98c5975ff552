import ThemePress.Files.Path
import ThemePress.Render.Page
import ThemePress.Text.Decimal

/-! # Arguments of the command line

Arguments are read from left to right, first at the top and then, from the name of a command on, for
that command. A word that starts with `-` is an option: `--root PATH`, `--root=PATH`, `-r PATH`,
`-rPATH`, and short ones can be run together. Each is given at most once on each of the two levels,
and what stands with the command counts more. After `--` every word is an operand. The first word
that does not fit ends the reading, and so does a request for help. -/

namespace ThemePress.Command

open ThemePress.Files (Path)
open ThemePress.Render (PageKind)

/-- What the program is asked to do. -/
inductive Task where
  | listThemes
  | compileTheme (theme : Option String)
  | renderPage (kind : PageKind) (slug : Option String) (number : Int) (theme : Option String)
      (target : Option Path)
  deriving DecidableEq, Repr

structure Arguments where
  /-- The folder of the site, if it is not the current one. -/
  root : Option Path
  /-- Are more messages wanted? -/
  verbose : Bool
  task : Task
  deriving DecidableEq, Repr

/-- Why there is nothing to do. -/
inductive Stop where
  | usage
  | help
  deriving DecidableEq, Repr

/-! ### Words -/

/-- The commands that a task is given by. -/
inductive Verb where
  | themes
  | compile
  | render
  deriving DecidableEq, Repr

def Verb.named? : String → Option Verb
  | "themes" => some .themes
  | "compile" => some .compile
  | "render" => some .render
  | _ => none

inductive OptionName where
  | root
  | verbose
  | help
  | page
  | theme
  | target
  deriving DecidableEq, Repr

namespace OptionName

/-- Does a value belong to the option? -/
def takesValue : OptionName → Bool
  | verbose | help => false
  | _ => true

/-- The option with a long name, before a command or with one. -/
def long? (verb : Option Verb) : String → Option OptionName
  | "root" => some root
  | "verbose" => some verbose
  | "help" => some help
  | "page" => if verb = some .render then some page else none
  | "theme" => if verb = some .render then some theme else none
  | "out" => if verb = some .render then some target else none
  | _ => none

def short? : Char → Option OptionName
  | 'r' => some root
  | 'v' => some verbose
  | 'h' => some help
  | _ => none

/-- May the text be the value of the option? -/
def accepts : OptionName → String → Bool
  | root, value | target, value => !value.isEmpty
  | page, value => (Text.Decimal.int? value).isSome
  | _, _ => true

end OptionName

/-- A word of the command line. -/
inductive Word where
  /-- What follows are operands. -/
  | separator
  | long (name : String) (value : Option String)
  | short (letters : List Char)
  | operand (text : String)
  deriving DecidableEq, Repr

def Word.of (text : String) : Word :=
  match text.toList with
  | ['-', '-'] => separator
  | '-' :: '-' :: s =>
    let name := String.ofList (s.takeWhile (· != '='))
    match s.dropWhile (· != '=') with
    | [] => long name none
    | _ :: value => long name (some (String.ofList value))
  | '-' :: c :: s => short (c :: s)
  | _ => operand text

/-- The kind of page that a word asks for. -/
def pageKind? : String → Option PageKind
  | "index" => some .index
  | "post" => some .post
  | "tag" => some .tag
  | "author" => some .author
  | _ => none

/-! ### Reading -/

/-- What has been read so far. -/
structure Draft where
  /-- The command, when its name has been met. -/
  verb : Option Verb := none
  /-- The options in front of the command. -/
  outer : List (OptionName × String) := []
  /-- The options since then. -/
  given : List (OptionName × String) := []
  operands : List String := []
  /-- An option that waits for its value. -/
  pending : Option OptionName := none
  /-- Has the separator been met? -/
  closed : Bool := false

namespace Draft

/-- Takes an option with its value. -/
def give (d : Draft) (option : OptionName) (value : String) : Except Stop Draft :=
  if (d.given.lookup option).isSome || !option.accepts value then .error .usage
  else .ok { d with given := d.given ++ [(option, value)] }

/-- Takes an option that has no value. -/
def switch (d : Draft) (option : OptionName) : Except Stop Draft :=
  if option = .help then .error .help else d.give option ""

/-- Takes an option by its long name. -/
def readLong (d : Draft) (name : String) (value : Option String) : Except Stop Draft :=
  match OptionName.long? d.verb name, value with
  | none, _ => .error .usage
  | some option, none =>
    if option.takesValue then .ok { d with pending := some option } else d.switch option
  | some option, some value =>
    if option.takesValue then d.give option value else .error .usage

/-- Takes options by their letters. What follows the letter of an option with a value is the
value. -/
def readShort (d : Draft) : List Char → Except Stop Draft
  | [] => .ok d
  | c :: rest =>
    match OptionName.short? c with
    | none => .error .usage
    | some option =>
      if option.takesValue then
        match rest with
        | [] => .ok { d with pending := some option }
        | '=' :: value => d.give option (String.ofList value)
        | value => d.give option (String.ofList value)
      else do readShort (← d.switch option) rest

/-- Is there room for a word as one more operand? -/
def admits (d : Draft) (text : String) : Bool :=
  match d.verb, d.operands with
  | some .compile, [] => true
  | some .render, [] => (pageKind? text).isSome
  | some .render, [_] => true
  | _, _ => false

/-- Takes an operand. -/
def readOperand (d : Draft) (text : String) : Except Stop Draft :=
  if d.admits text then .ok { d with operands := d.operands ++ [text] } else .error .usage

/-- The words behind `help`: the name of a command, or nothing. -/
def readHelp : List String → Stop
  | [] => .help
  | [name] => if name = "help" || (Verb.named? name).isSome then .help else .usage
  | _ => .usage

/-- Reads the words that are left. -/
def read (d : Draft) : List String → Except Stop Draft
  | [] => if d.pending.isSome then .error .usage else .ok d
  | text :: rest =>
    if d.closed then do read (← d.readOperand text) rest
    else
      match d.pending, Word.of text with
      | some option, .operand value => do read (← { d with pending := none }.give option value) rest
      | some _, _ => .error .usage
      | none, .separator => read { d with closed := true } rest
      | none, .long name value => do read (← d.readLong name value) rest
      | none, .short letters => do read (← d.readShort letters) rest
      | none, .operand text =>
        if d.verb.isSome then do read (← d.readOperand text) rest
        else
          match Verb.named? text with
          | some verb => read { d with verb := some verb, outer := d.given, given := [] } rest
          | none => .error (if text = "help" then readHelp rest else .usage)

/-- The value of an option. -/
def value? (d : Draft) (option : OptionName) : Option String :=
  (d.given.lookup option).or (d.outer.lookup option)

/-- The task, when nothing is missing. -/
def task (d : Draft) : Except Stop Task :=
  match d.verb with
  | none => .error .usage
  | some .themes => .ok .listThemes
  | some .compile => .ok (.compileTheme d.operands.head?)
  | some .render =>
    match d.operands.head?.bind pageKind? with
    | none => .error .usage
    | some kind =>
      let number := ((d.value? .page).bind Text.Decimal.int?).getD 1
      .ok (.renderPage kind d.operands[1]? number (d.value? .theme) ((d.value? .target).map .mk))

end Draft

/-- Reads the arguments of the command line. -/
def Arguments.read (words : List String) : Except Stop Arguments := do
  let draft ← Draft.read {} words
  return { root := (draft.value? .root).map .mk
           verbose := (draft.value? .verbose).isSome
           task := ← draft.task }

end ThemePress.Command
