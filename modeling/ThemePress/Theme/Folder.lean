import ThemePress.Template.Registry

/-! # Theme folders

A theme is a folder. Every file below it with a name that ends in `.hbs` is a template, called by
its name without that ending; in what subfolder it lies does not count, so two such files of one
name clash. `compile` makes the registry of a theme folder, and `installed` lists the themes there
are. -/

namespace ThemePress.Theme

open ThemePress.Files ThemePress.Template

/-- The ending of template files. -/
def ending : String :=
  ".hbs"

/-- What the template in a file of this name is called. -/
def templateName? (file : String) : Option String :=
  match ending.toList.reverse.isPrefixOf? file.toList.reverse with
  | none | some [] => none
  | some stem => some (String.ofList stem.reverse)

/-- A template in its file. -/
structure TemplateFile where
  name : String
  path : Path
  content : Content

namespace TemplateFile

/-- The template of a file at this place in a folder. -/
def of? (folder : Path) (place : Place) (content : Content) : Option TemplateFile := do
  let name ← templateName? (← place.getLast?)
  return ⟨name, place.foldl Path.join folder, content⟩

/-- The names and sources of templates that come after those in `seen`, up to the first that
clashes or cannot be read. -/
def sourcesAfter (seen : List TemplateFile) :
    List TemplateFile → Except ThemeError (List (String × List UInt8))
  | [] => .ok []
  | file :: rest =>
    match seen.find? (·.name == file.name) with
    | some first => .error (.duplicateTemplate file.name first.path file.path)
    | none =>
      match file.content with
      | .error e => .error (.unreadable file.path e)
      | .ok source => (sourcesAfter (file :: seen) rest).map ((file.name, source) :: ·)

end TemplateFile

/-- The templates below a folder, in the order of their places. -/
def templateFiles (tree : Tree) (folder : Path) : Except ThemeError (List TemplateFile) :=
  match tree.folder? folder with
  | none => .error (.notFound folder)
  | some place =>
    .ok ((tree.filesBelow place).filterMap fun (way, content) =>
      TemplateFile.of? folder way content)

/-- Compiles the theme in a folder. The theme is called by the name of the folder. -/
def compile (tree : Tree) (folder : Path) : Reported (Except ThemeError Registry) :=
  match templateFiles tree folder >>= TemplateFile.sourcesAfter [] with
  | .error e => ⟨[], .error e⟩
  | .ok sources => Registry.compile (folder.name?.getD "") sources

/-- The names of the themes in a folder, in order. -/
def installed (tree : Tree) (folder : Path) : List String :=
  match tree.folder? folder with
  | none => []
  | some place => tree.folderNames place

/-- The order in which themes are tried: the preferred one, the fallback, and then all that are
installed. The empty name is no theme, and none is tried twice. -/
def candidates (preferred : Option String) (fallback : String) (installed : List String) :
    List String :=
  ((preferred.toList ++ fallback :: installed).filter (· ≠ "")).eraseDups

end ThemePress.Theme
