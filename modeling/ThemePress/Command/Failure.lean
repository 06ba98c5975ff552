import ThemePress.Site.Rendering

/-! # Failures of a command

When a command fails, the program says at what it failed, and behind that the causes, each caused by
the next. One cause stands on its own; several are numbered from zero. -/

namespace ThemePress.Command

open ThemePress.Files (Path FileError)
open ThemePress.Render (PageKind)
open ThemePress.Template (ThemeError)
open ThemePress.Blog (StoreError)

/-- What kind of page is meant, in messages. -/
def kindName : PageKind → String
  | .index => "Index"
  | .post => "Post"
  | .tag => "Tag"
  | .author => "Author"

/-- At what a command failed. -/
inductive Failure where
  | config (cause : Site.ConfigError)
  | noData (path : Path)
  | dataUnusable (path : Path) (cause : StoreError)
  | themeUnusable (theme : String) (cause : ThemeError)
  | notActivated (cause : ThemeError)
  | slugNeeded (kind : PageKind)
  | notRendered (kind : PageKind) (cause : Site.RenderError)
  | folderNotMade (path : Path) (cause : FileError)
  | notWritten (path : Path) (cause : FileError)
  deriving DecidableEq, Repr

namespace Failure

def message : Failure → String
  | config cause => cause.message
  | noData path =>
    s!"Missing blog data at {path.text}. Set `data:` in quire.yaml to point at it."
  | dataUnusable path _ => s!"failed to load {path.text}"
  | themeUnusable theme _ => s!"failed to compile theme '{theme}'"
  | notActivated _ => "failed to activate a theme"
  | slugNeeded kind => s!"rendering a {kindName kind} page needs a slug"
  | notRendered kind _ => s!"failed to render {kindName kind} page"
  | folderNotMade path _ => s!"failed to create {path.text}"
  | notWritten path _ => s!"failed to write {path.text}"

/-- The texts of the faults behind a failure, outermost first. -/
def causes : Failure → List String
  | config cause => cause.causes
  | noData _ | slugNeeded _ => []
  | dataUnusable _ cause => cause.message :: cause.causes
  | themeUnusable _ cause | notActivated cause => cause.message :: cause.causes
  | notRendered _ cause => [cause.message]
  | folderNotMade _ cause | notWritten _ cause => [cause.message]

/-- A text with a mark in front, its further lines below its first. -/
def hung (mark : String) (text : String) : String :=
  let margin := String.ofList (List.replicate mark.length ' ')
  "\n" ++ mark ++ text.replace "\n" ("\n" ++ margin)

/-- The causes as they are listed below the message. -/
def listed : List String → String
  | [] => ""
  | [cause] => "\n\nCaused by:" ++ hung "    " cause
  | causes =>
    causes.zipIdx.foldl (fun text (cause, n) => text ++ hung s!"    {n}: " cause)
      "\n\nCaused by:"

/-- What is written when a command fails. -/
def report (f : Failure) : String :=
  "Error: " ++ f.message ++ listed f.causes ++ "\n"

end Failure

end ThemePress.Command
