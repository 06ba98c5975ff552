import ThemePress.Site.Config
import ThemePress.Theme.Folder

/-! # The active theme of a site

A site has a folder of themes and at most one active theme. Compiling a theme makes it the active
one; if that fails, the theme that was active stays. `Site.activate` tries themes in turn until one
can be used. -/

namespace ThemePress

open ThemePress.Files (Path)
open ThemePress.Template (Registry ThemeError)

structure Site where
  /-- The folder with the themes. -/
  themes : Path
  settings : Site.Settings := {}
  /-- The theme that pages are rendered with. -/
  active : Option Registry := none
  deriving Inhabited

namespace Site

/-- The site that a configuration sets up. -/
def ofConfig (c : Config) : Site :=
  { themes := c.themes, settings := c.settings }

/-- The names of the themes there are. -/
def installed (s : Site) (tree : Files.Tree) : List String :=
  Theme.installed tree s.themes

/-- Makes a theme the active one. -/
def publish (s : Site) (registry : Registry) : Site :=
  { s with active := some registry }

/-- Compiles a theme, given by its path from the folder of themes. -/
def compiled (s : Site) (tree : Files.Tree) (theme : String) :
    Reported (Except ThemeError Registry) :=
  Theme.compile tree (s.themes.join theme)

/-- The site after an attempt to compile a theme. -/
def settle (s : Site) : Except ThemeError Registry → Site
  | .ok registry => s.publish registry
  | .error _ => s

/-- Compiles a theme and makes it the active one. -/
def compile (s : Site) (tree : Files.Tree) (theme : String) :
    Reported (Except ThemeError Registry) × Site :=
  let result := s.compiled tree theme
  (result, s.settle result.value)

/-- Makes the first of the themes active that can be used, and gives its name. -/
def activateFirst (s : Site) (tree : Files.Tree) :
    List String → Reported (Except ThemeError String) × Site
  | [] => (⟨[], .error (.noUsableTheme s.themes)⟩, s)
  | theme :: rest =>
    let (attempt, s) := s.compile tree theme
    match attempt.value with
    | .ok _ => (⟨attempt.warnings, .ok theme⟩, s)
    | .error e =>
      let (result, s) := activateFirst s tree rest
      (result.after (attempt.warnings ++ [.themeUnusable theme e.message]), s)

/-- Tries the preferred theme, the fallback and then all installed ones. -/
def activate (s : Site) (tree : Files.Tree) (preferred : Option String) (fallback : String) :
    Reported (Except ThemeError String) × Site :=
  s.activateFirst tree (Theme.candidates preferred fallback (s.installed tree))

end Site

end ThemePress
