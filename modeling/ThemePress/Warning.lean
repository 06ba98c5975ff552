/-! # Warnings

What goes wrong without ending the work is reported: a close tag that closes nothing, a template
that is not there, a theme that cannot be used. `Warning.message` is the line that is logged, and
`Warning.fields` the names and values that go with it. -/

namespace ThemePress

/-- Something that was passed over. -/
inductive Warning where
  | unknownHelper (helper : String)
  | strayCloser (tag : String)
  | lateLayout (layout : String)
  | layoutMissing (layout : String)
  | layoutTooDeep (layout : String)
  | templateMissing (template : String)
  | templateTooDeep (template : String)
  | contentTooDeep (block : String)
  | unknownCollection (collection : String)
  | themeUnusable (theme reason : String)
  deriving DecidableEq, Repr

namespace Warning

def message : Warning → String
  | unknownHelper _ => "helper is not implemented"
  | strayCloser _ => "close tag without a matching block ignored"
  | lateLayout _ => "layout directive is only honoured at the start of a template"
  | layoutMissing _ => "layout not found, rendering without it"
  | layoutTooDeep _ => "layout nesting too deep"
  | templateMissing _ => "template not found"
  | templateTooDeep _ => "template nesting too deep"
  | contentTooDeep _ => "content block nesting too deep"
  | unknownCollection _ => "foreach over unknown collection"
  | themeUnusable _ _ => "theme is not usable"

def fields : Warning → List (String × String)
  | unknownHelper helper => [("helper", helper)]
  | strayCloser tag => [("tag", tag)]
  | lateLayout layout | layoutMissing layout | layoutTooDeep layout => [("layout", layout)]
  | templateMissing template | templateTooDeep template => [("template", template)]
  | contentTooDeep block => [("block", block)]
  | unknownCollection collection => [("collection", collection)]
  | themeUnusable theme reason => [("theme", theme), ("error", reason)]

end Warning

/-- A result and the warnings given on the way to it, oldest first. -/
structure Reported (α : Type) where
  warnings : List Warning
  value : α
  deriving Repr

namespace Reported

/-- Puts earlier warnings in front. -/
def after {α : Type} (earlier : List Warning) (r : Reported α) : Reported α :=
  { r with warnings := earlier ++ r.warnings }

def map {α β : Type} (f : α → β) (r : Reported α) : Reported β :=
  ⟨r.warnings, f r.value⟩

end Reported

end ThemePress
