import ThemePress.Files.Tree
import ThemePress.Site.Settings
import ThemePress.Text.Slash
import ThemePress.Text.Utf8
import ThemePress.Yaml.Decode

/-! # The configuration of a site

A site is configured by the file `quire.yaml` in its folder: where its themes and its data are,
which theme it has, and where it is deployed. What is left out has a standard value, and so has
everything when there is no file. Paths are seen from the folder that the file is in. An address
must be one of the web and is kept without slashes at its end; the path of assets is kept with one. -/

namespace ThemePress.Site

open ThemePress.Files (Path FileError)
open ThemePress.Yaml.Decoder (record optionalField text)

/-- Why the text of a configuration is refused. -/
inductive ConfigFault where
  | malformed
  | blank (field : String)
  | notWebAddress (url : String)
  deriving DecidableEq, Repr

def ConfigFault.message : ConfigFault → String
  | malformed => "failed to parse YAML"
  | blank field => s!"{field} must not be empty"
  | notWebAddress url => s!"site.url must start with http:// or https://, got '{url}'"

/-- Why a configuration cannot be used. -/
inductive ConfigError where
  | unreadable (path : Path) (cause : FileError)
  | invalid (path : Path) (cause : ConfigFault)
  deriving DecidableEq, Repr

namespace ConfigError

def message : ConfigError → String
  | unreadable path _ => s!"failed to read config {path.text}"
  | invalid path _ => s!"invalid config {path.text}"

/-- The texts of the faults behind an error, outermost first. -/
def causes : ConfigError → List String
  | unreadable _ cause => [cause.message]
  | invalid _ cause => [cause.message]

end ConfigError

/-- What a configuration file says. -/
structure ConfigEntry where
  themes : Option String := none
  theme : Option String := none
  fallbackTheme : Option String := none
  data : Option String := none
  settings : Settings := {}
  deriving DecidableEq, Repr

namespace ConfigEntry

def decodeSettings (t : Yaml.Tree) : Yaml.Decoder Settings := do
  let fields ← record .refused ["url", "asset_path"] t
  return { url := ← optionalField fields "url" text
           assetPath := ← optionalField fields "asset_path" text }

def decode (t : Yaml.Tree) : Yaml.Decoder ConfigEntry := do
  let fields ← record .refused ["themes_dir", "theme", "fallback_theme", "data", "site"] t
  return { themes := ← optionalField fields "themes_dir" text
           theme := ← optionalField fields "theme" text
           fallbackTheme := ← optionalField fields "fallback_theme" text
           data := ← optionalField fields "data" text
           settings := (← optionalField fields "site" decodeSettings).getD {} }

/-- Reads the text of a configuration file. A blank one says nothing. -/
def ofText (s : String) : Except ConfigFault ConfigEntry :=
  if Text.isBlankText s then .ok {}
  else
    match Yaml.decode? decode s with
    | some entry => .ok entry
    | none => .error .malformed

end ConfigEntry

/-- How a site is set up. -/
structure Config where
  /-- The folder with the themes. -/
  themes : Path
  /-- The theme that is used in place of the one that the data names. -/
  theme : Option String
  /-- The theme for when that one cannot be used. -/
  fallbackTheme : String
  /-- The data file. -/
  data : Path
  settings : Settings
  deriving DecidableEq, Repr

namespace Config

def fileName : String := "quire.yaml"
def standardThemes : String := "content/themes"
def standardData : String := "content/data.yaml"
def standardFallbackTheme : String := "promenade"

/-- The configuration of a site in the folder `root` without a configuration file. -/
def standard (root : Path) : Config :=
  { themes := root.join standardThemes
    theme := none
    fallbackTheme := standardFallbackTheme
    data := root.join standardData
    settings := {} }

/-- The text of a field, which may be left out but not be blank. -/
def notBlank (field : String) (value : Option String) : Except ConfigFault (Option String) :=
  if value.any Text.isBlankText then .error (.blank field) else .ok value

/-- A web address without blanks around it and slashes at its end. -/
def webAddress (url : String) : Except ConfigFault String :=
  let address := Text.trimSlashes (Text.trim url)
  if address.startsWith "http://" || address.startsWith "https://" then .ok address
  else .error (.notWebAddress url)

/-- A path without blanks around it and with a slash at its end. -/
def assetPath (path : String) : Except ConfigFault String :=
  let path := Text.trim path
  if path.isEmpty then .error (.blank "site.asset_path") else .ok (Text.slashed path)

/-- Settings in the form in which they are used. -/
def normalSettings (s : Settings) : Except ConfigFault Settings := do
  return { url := ← s.url.mapM webAddress, assetPath := ← s.assetPath.mapM assetPath }

/-- The configuration that a file in the folder `root` sets up. -/
def resolve (root : Path) (e : ConfigEntry) : Except ConfigFault Config := do
  let themes ← notBlank "themes_dir" e.themes
  let data ← notBlank "data" e.data
  let fallbackTheme ← notBlank "fallback_theme" e.fallbackTheme
  let theme ← notBlank "theme" e.theme
  let settings ← normalSettings e.settings
  return { themes := root.join (themes.getD standardThemes)
           theme
           fallbackTheme := fallbackTheme.getD standardFallbackTheme
           data := root.join (data.getD standardData)
           settings }

/-- The configuration in a text, for a file in the folder `root`. -/
def ofText (root : Path) (s : String) : Except ConfigFault Config :=
  ConfigEntry.ofText s >>= resolve root

/-- The configuration in a file. -/
def ofFile (tree : Files.Tree) (path : Path) : Except ConfigError Config := do
  let bytes ← (tree.read path).mapError (.unreadable path)
  match Text.Utf8.read? bytes with
  | none => .error (.unreadable path .notText)
  | some s => (ofText (path.parent?.getD ⟨"."⟩) s).mapError (.invalid path)

/-- The configuration of the site in a folder. -/
def ofFolder (tree : Files.Tree) (root : Path) : Except ConfigError Config :=
  let path := root.join fileName
  if tree.holds path then ofFile tree path else .ok (standard root)

end Config

end ThemePress.Site
