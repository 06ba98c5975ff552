import ThemePress.Text.Blank

/-! # Slashes at the end

Addresses and paths are joined at a slash. Where one is needed at the end of a text, `slashed` adds
it; `trimSlashes` takes all of them off. -/

namespace ThemePress.Text

/-- Is a slash the last character? -/
def endsInSlash (s : String) : Bool :=
  s.toList.getLast? == some '/'

/-- The text with a slash at its end. -/
def slashed (s : String) : String :=
  if endsInSlash s then s else s ++ "/"

/-- The text without slashes at its end. -/
def trimSlashes (s : String) : String :=
  String.ofList (dropTail (· == '/') s.toList)

end ThemePress.Text
