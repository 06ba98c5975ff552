import ThemePress.Text.Blank
import ThemePress.Text.Decimal

/-! # Excerpts

The plain text of a post and its first words. A piece of markup goes from a `<` to the next `>` on
its line; all of it is dropped. Then ends of lines and tabs become spaces, and two blanks or more
become one space. -/

namespace ThemePress.Render.Excerpt

open ThemePress.Text

/-- Does a `>` follow before the end of the line? -/
def closes (s : List Char) : Bool :=
  s.find? (fun c => c = '>' || c = '\n') == some '>'

/-- Drops markup; `inside` says whether the text starts within a piece of it. -/
def dropMarkup (inside : Bool) : List Char → List Char
  | [] => []
  | c :: s =>
    if inside then dropMarkup (c != '>') s
    else if c = '<' && closes s then dropMarkup true s
    else c :: dropMarkup false s

/-- Makes one space of each run of two blanks or more; `inRun` says whether the text starts within a
run whose space is already there. -/
def foldBlanks (inRun : Bool) : List Char → List Char
  | [] => []
  | c :: s =>
    if !isBlank c then c :: foldBlanks false s
    else if inRun then foldBlanks true s
    else if s.head?.any isBlank then ' ' :: foldBlanks true s
    else c :: foldBlanks false s

/-- Ends of lines and tabs as spaces. -/
def flatten (c : Char) : Char :=
  if c = '\n' ∨ c = '\t' then ' ' else c

/-- The text of a piece of HTML without its markup, on one line. -/
def plainText (html : List Char) : List Char :=
  foldBlanks false ((dropMarkup false html).map flatten)

/-- The number of words in an excerpt when none is given. -/
def standardWords : Nat := 50

/-- The first `count` words with single spaces between them, or the whole text if it has fewer. -/
def firstWords (count : Nat) (text : List Char) : List Char :=
  let ws := words text
  if ws.length < count then text else [' '].intercalate (ws.take count)

/-- The excerpt of a piece of HTML, limited by the number of characters or of words that is given;
what is no number counts as not given. -/
def ofHtml (html : String) (characters words : Option String) : String :=
  let text := plainText html.toList
  match characters.bind Decimal.word? with
  | some n => String.ofList (text.take n)
  | none => String.ofList (firstWords ((words.bind Decimal.word?).getD standardWords) text)

end ThemePress.Render.Excerpt
