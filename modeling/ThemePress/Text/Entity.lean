/-! # Character entities

Text that goes into a page is written so that it cannot be read as markup: the ampersand, the angle
brackets and both quotes become entities, and everything else stays. -/

namespace ThemePress.Text.Entity

/-- How a character is written in a page. -/
def ofChar : Char → List Char
  | '&' => ['&', 'a', 'm', 'p', ';']
  | '<' => ['&', 'l', 't', ';']
  | '>' => ['&', 'g', 't', ';']
  | '"' => ['&', 'q', 'u', 'o', 't', ';']
  | '\'' => ['&', '#', '3', '9', ';']
  | c => [c]

/-- The text with entities for the characters of markup. -/
def escape (s : String) : String :=
  String.ofList (s.toList.flatMap ofChar)

end ThemePress.Text.Entity
