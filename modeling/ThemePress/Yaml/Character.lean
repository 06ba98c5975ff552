/-! # Characters of YAML

Which characters a document may hold, which of them are blanks and ends of lines, and where a reader
stands in a document. -/

namespace ThemePress.Yaml

/-- Spaces and tabs. -/
def isBlank (c : Char) : Bool :=
  c = ' ' || c = '\t'

/-- The characters that end a line. -/
def isBreak (c : Char) : Bool :=
  c = '\r' || c = '\n' || c = '\x85' || c = '\u2028' || c = '\u2029'

def isBlankOrBreak (c : Char) : Bool :=
  isBlank c || isBreak c

/-- The characters of names: of anchors, of tag handles and of directives. -/
def isNameChar (c : Char) : Bool :=
  ('0' ≤ c && c ≤ '9') || ('A' ≤ c && c ≤ 'Z') || ('a' ≤ c && c ≤ 'z') || c = '_' || c = '-'

/-- May the character stand in a document? Control characters other than tabs and ends of lines may
not. -/
def isAllowed (c : Char) : Bool :=
  let n := c.toNat
  n == 0x09 || n == 0x0A || n == 0x0D || (0x20 ≤ n && n ≤ 0x7E) || n == 0x85 ||
    (0xA0 ≤ n && n ≤ 0xFFFD) || 0x10000 ≤ n

/-- Is the text at its end or at a character on which `p` holds? -/
def atEndOr (p : Char → Bool) : List Char → Bool
  | [] => true
  | c :: _ => p c

/-- Does the text start with the marker, and then end or go on with a blank or a new line? -/
def startsMarker (marker : List Char) (s : List Char) : Bool :=
  marker.isPrefixOf s && atEndOr isBlankOrBreak (s.drop marker.length)

/-- Does a line start with one of the two marks that separate documents? -/
def startsDocumentMark (s : List Char) : Bool :=
  startsMarker ['-', '-', '-'] s || startsMarker ['.', '.', '.'] s

/-- The number of bytes that a text takes in UTF-8. -/
def width (s : List Char) : Nat :=
  s.foldl (fun n c => n + c.utf8Size) 0

/-- Where a reader stands: how many bytes it has passed, its line, and how many characters of that
line. -/
structure Place where
  offset : Nat := 0
  line : Nat := 0
  column : Nat := 0
  deriving DecidableEq, Repr, Inhabited

namespace Place

/-- Behind more characters of the line. -/
def advance (p : Place) (passed : List Char) : Place :=
  { p with offset := p.offset + width passed, column := p.column + passed.length }

/-- At the start of the next line, behind an end of line. -/
def nextLine (p : Place) (passed : List Char) : Place :=
  ⟨p.offset + width passed, p.line + 1, 0⟩

end Place

/-- A place and the text from there on. -/
structure Cursor where
  place : Place
  rest : List Char
  deriving Inhabited

namespace Cursor

def skip (c : Cursor) (n : Nat) : Cursor :=
  ⟨c.place.advance (c.rest.take n), c.rest.drop n⟩

/-- Behind the characters of the line on which `p` holds. -/
def skipWhile (p : Char → Bool) (c : Cursor) : Cursor :=
  c.skip (c.rest.takeWhile fun x => p x && !isBreak x).length

/-- Behind an end of line, with what it is read as: a line feed, except for the two separators of
Unicode, which stay. -/
def lineBreak? (c : Cursor) : Option (Char × Cursor) :=
  match c.rest with
  | '\r' :: '\n' :: s => some ('\n', ⟨c.place.nextLine ['\r', '\n'], s⟩)
  | x :: s =>
    if isBreak x then
      some (if x = '\u2028' ∨ x = '\u2029' then x else '\n', ⟨c.place.nextLine [x], s⟩)
    else none
  | [] => none

theorem skip_le (c : Cursor) (n : Nat) : (c.skip n).rest.length ≤ c.rest.length := by
  simp only [skip, List.length_drop]; omega

theorem skipWhile_le (p : Char → Bool) (c : Cursor) :
    (c.skipWhile p).rest.length ≤ c.rest.length :=
  c.skip_le _

theorem lineBreak?_lt {c d : Cursor} {x : Char} (h : c.lineBreak? = some (x, d)) :
    d.rest.length < c.rest.length := by
  unfold lineBreak? at h
  split at h
  · rename_i s hs
    simp only [Option.some.injEq, Prod.mk.injEq] at h
    obtain ⟨_, rfl⟩ := h
    rw [hs]; simp only [List.length_cons]; omega
  · rename_i s hs
    split at h
    · simp only [Option.some.injEq, Prod.mk.injEq] at h
      obtain ⟨_, rfl⟩ := h
      rw [hs]; simp only [List.length_cons]; omega
    · simp at h
  · simp at h

end Cursor

end ThemePress.Yaml
