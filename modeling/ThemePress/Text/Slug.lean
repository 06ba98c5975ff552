import ThemePress.Text.Alphanumeric
import ThemePress.Text.Blank
import ThemePress.Text.Lowercase

/-! # Slugs

A slug names a page in its address. It is made from a label in small letters: letters, numbers and
`_` are kept, spaces, dashes and slashes become dashes, and the rest is dropped. A slug has at most
75 characters. A longer one is cut at the last dash in the upper half of these, or where it is full
when there is none. -/

namespace ThemePress.Text.Slug

/-- The most characters that a slug has. -/
def limit : Nat := 75

/-- The least place at which a slug that is too long is cut at a dash. -/
def lowestCut : Nat := limit - limit / 2 + 1

/-- What a character of a label becomes. -/
def ofChar? (c : Char) : Option Char :=
  if c = ' ' ∨ c = '-' ∨ c = '/' then some '-'
  else if c = '_' ∨ isAlphanumeric c then some c
  else none

/-- The place of the last dash at which a slug that is too long is cut. -/
def cut? (s : List Char) : Option Nat :=
  (List.range' lowestCut (limit - lowestCut)).reverse.find? fun i => s[i]? == some '-'

/-- A slug no longer than the limit. -/
def shorten (s : List Char) : List Char :=
  if s.length ≤ limit then s else s.take ((cut? s).getD limit)

/-- The slug of a label. -/
def ofLabel (label : String) : String :=
  String.ofList (shorten ((lowercase (trimChars label.toList)).filterMap ofChar?))

end ThemePress.Text.Slug
