import ThemePress.Blog.Decode
import ThemePress.Command.Arguments
import ThemePress.Command.Failure

/-! # Running a command

A command works on the site in a folder: it lists the themes, compiles one, or renders a page with
the active theme. What it does depends on the files alone, on the folder it is started in, and on
the time. `Invocation.answer` says what it puts out, and `run` also writes the page to its file. -/

namespace ThemePress.Command

open ThemePress.Files (Path Tree)
open ThemePress.Blog (Store)
open ThemePress.Render (PageKind)

/-- What a command puts out. -/
structure Output where
  out : List UInt8 := []
  err : String := ""
  /-- A file to be written. -/
  file : Option (Path × List UInt8) := none

/-- A step of a command: it may fail, and gives warnings in both cases. -/
abbrev Step := ExceptT Failure (StateM (List Warning))

namespace Step

def ofExcept {ε α : Type} (failure : ε → Failure) (value : Except ε α) : Step α :=
  ExceptT.mk (pure (value.mapError failure))

def ofReported {ε α : Type} (failure : ε → Failure) (r : Reported (Except ε α)) : Step α := do
  modify (· ++ r.warnings)
  ofExcept failure r.value

def run {α : Type} (s : Step α) : Reported (Except Failure α) :=
  let (value, warnings) := ExceptT.run s |>.run []
  ⟨warnings, value⟩

end Step

/-- A command with all that it depends on. -/
structure Invocation where
  arguments : Arguments
  /-- The folder in which the command is started. -/
  current : Path
  now : Time.Instant := ⟨0, 0⟩

namespace Invocation

/-- The folder of the site. -/
def root (i : Invocation) : Path :=
  match i.arguments.root with
  | none => i.current
  | some path => i.current.join path.text

def config (i : Invocation) (tree : Tree) : Step Site.Config :=
  Step.ofExcept .config (Site.Config.ofFolder tree i.root)

/-! ### Preparations -/

/-- The store in the data file of a site. -/
def loadStore (tree : Tree) (config : Site.Config) : Step Store :=
  if !tree.holds config.data then throw (.noData config.data)
  else
    let store := match tree.read config.data with
      | .error e => .error (.unreadable e.message)
      | .ok bytes => Store.ofBytes bytes
    Step.ofExcept (.dataUnusable config.data) store

/-- The theme to be tried first: the one that is asked for, the configured one, or the one that the
data names. -/
def preferredTheme (asked : Option String) (config : Site.Config) (store : Store) :
    Option String :=
  (asked.or config.theme).or
    (some store.profile.activeTheme |>.filter fun name => !Text.isBlankText name)

/-- The site with an active theme. -/
def activeSite (tree : Tree) (config : Site.Config) (store : Store) (asked : Option String) :
    Step Site := do
  let (result, site) := (Site.ofConfig config).activate tree
    (preferredTheme asked config store) config.fallbackTheme
  let _ ← Step.ofReported .notActivated result
  return site

/-! ### The three tasks -/

/-- A line for each theme, with a star in front of the configured one. -/
def listThemes (tree : Tree) (config : Site.Config) : Output :=
  match (Site.ofConfig config).installed tree with
  | [] => { err := s!"no themes in {config.themes.text}\n" }
  | themes =>
    let line (theme : String) : String :=
      (if config.theme = some theme then "* " else "  ") ++ theme ++ "\n"
    { out := Text.Utf8.bytesOf (String.join (themes.map line)) }

/-- The name of a theme, its fingerprint and its templates. -/
def describe (registry : Template.Registry) : Output :=
  let templates := registry.templates.names.map fun name => "  " ++ name ++ "\n"
  { out := Text.Utf8.bytesOf ("theme: " ++ registry.theme ++ "\n" ++
      "fingerprint: " ++ Text.Hex.ofBytes registry.fingerprint ++ "\n" ++
      String.join templates) }

def compileTheme (tree : Tree) (config : Site.Config) : Option String → Step Output
  | some theme => do
    let result := (Site.ofConfig config).compiled tree theme
    return describe (← Step.ofReported (.themeUnusable theme) result)
  | none => do
    let store ← loadStore tree config
    let site ← activeSite tree config store none
    return (site.active.map describe).getD {}

/-- The slug of a page that needs one. -/
def neededSlug (kind : PageKind) (slug : Option String) : Step String :=
  match slug.filter fun slug => !Text.isBlankText slug with
  | some slug => pure slug
  | none => throw (.slugNeeded kind)

def renderPage (i : Invocation) (site : Site) (store : Store) (kind : PageKind)
    (slug : Option String) (number : Int) : Step (List UInt8) := do
  let rendered ← match kind with
    | .index => pure (site.renderIndex store i.now number)
    | .post => do pure (site.renderPost store i.now (← neededSlug kind slug))
    | .tag => do pure (site.renderTag store i.now (← neededSlug kind slug) number)
    | .author => do pure (site.renderAuthor store i.now (← neededSlug kind slug) number)
  Step.ofReported (.notRendered kind) rendered

/-- What a command puts out. -/
def answer (i : Invocation) (tree : Tree) : Step Output := do
  let config ← i.config tree
  match i.arguments.task with
  | .listThemes => return listThemes tree config
  | .compileTheme theme => compileTheme tree config theme
  | .renderPage kind slug number theme target =>
    let store ← loadStore tree config
    let site ← activeSite tree config store theme
    let page ← i.renderPage site store kind slug number
    match target with
    | none => return { out := page }
    | some path => return { file := some (path, page) }

/-- Writes the file of an output, with the folders above it. -/
def deliver (i : Invocation) (tree : Tree) (output : Output) : Step Tree :=
  match output.file with
  | none => pure tree
  | some (path, bytes) => do
    let tree ← match path.parent?.filter fun parent => !parent.text.isEmpty with
      | none => pure tree
      | some parent =>
        Step.ofExcept (.folderNotMade parent) (tree.makeFolder (i.current.join parent.text))
    Step.ofExcept (.notWritten path) (tree.write (i.current.join path.text) bytes)

/-! ### Files -/

/-- The paths that a command may look at, as far as they follow from the files known so far. -/
def wanted (i : Invocation) (tree : Tree) : List Path :=
  let settings := match Site.Config.ofFolder tree i.root with
    | .error _ => []
    | .ok config =>
      let asked := match i.arguments.task with
        | .listThemes => []
        | .compileTheme theme => theme.toList
        | .renderPage _ _ _ theme _ => theme.toList
      let named := match (Step.run (loadStore tree config)).value with
        | .error _ => []
        | .ok store => [store.profile.activeTheme]
      let themes := asked ++ config.theme.toList ++ config.fallbackTheme :: named
      config.data :: config.themes :: (themes.filter (· ≠ "")).map config.themes.join
  i.root.join Site.Config.fileName :: settings

end Invocation

/-! ### The whole run -/

/-- How a run ends. -/
structure Outcome where
  exitCode : Nat
  out : List UInt8 := []
  err : String := ""
  warnings : List Warning := []

/-- What is written when help is asked for. -/
def helpText : String :=
  String.join (List.map (· ++ "\n")
    ["Compile blog themes and render pages with them.",
     "",
     "Usage: quire [OPTIONS] <COMMAND>",
     "",
     "Commands:",
     "  themes               List installed themes",
     "  compile [THEME]      Compile a theme and list its templates",
     "  render KIND [SLUG]   Render one page with the active theme",
     "    KIND is index, post, tag or author; --page N, --theme THEME, --out PATH",
     "",
     "Options:",
     "  -r, --root PATH      The folder of the site",
     "  -v, --verbose        More messages",
     "  -h, --help           This text"])

/-- What is written when the arguments cannot be read. -/
def usageText : String :=
  "error: the arguments are not understood; try 'quire --help'\n"

def Outcome.ofStop : Stop → Outcome
  | .help => { exitCode := 0, out := Text.Utf8.bytesOf helpText }
  | .usage => { exitCode := 2, err := usageText }

def Outcome.ofResult (r : Reported (Except Failure Output)) : Outcome :=
  match r.value with
  | .ok output =>
    { exitCode := 0, out := output.out, err := output.err, warnings := r.warnings }
  | .error failure => { exitCode := 1, err := failure.report, warnings := r.warnings }

/-- Runs a command on a tree of files. -/
def run (words : List String) (current : Path) (now : Time.Instant) (tree : Tree) :
    Outcome × Tree :=
  match Arguments.read words with
  | .error stop => (.ofStop stop, tree)
  | .ok arguments =>
    let i : Invocation := { arguments, current, now }
    let result := Step.run do
      let output ← i.answer tree
      return (output, ← i.deliver tree output)
    let written := match result.value with
      | .ok (_, written) => written
      | .error _ => tree
    (.ofResult (result.map (·.map (·.1))), written)

end ThemePress.Command
