import ThemePress.Yaml.Scalar

/-! # Tokens of YAML

The text of a stream of documents is cut into tokens. Besides the scalars and the indicators that
are written, there are tokens for what indentation says: where a block collection starts and ends.

A `:` shows only afterwards that what stands before it on the line was a key. So the places where a
key may have started are remembered, one for each level of brackets, and when the `:` comes, the
token for the key, and with it the start of its mapping, are put in there (`LexState.value?`).
Such a key stays on its line and takes at most 1024 bytes. -/

namespace ThemePress.Yaml

/-- The bytes of a tag. They need not be UTF-8. -/
abbrev TagText := List UInt8

/-- The tag of one exclamation mark only. -/
def bareTag : TagText :=
  ['!'.toUInt8]

inductive Token where
  | version (major minor : Nat)
  | tagHandle (handle : String) (expansion : TagText)
  | documentStart
  | documentEnd
  | blockSequence
  | blockMapping
  | blockEnd
  | flowSequence
  | flowSequenceEnd
  | flowMapping
  | flowMappingEnd
  | blockEntry
  | flowEntry
  | key
  | value
  | alias (name : String)
  | anchor (name : String)
  | tag (handle : String) (suffix : TagText)
  | scalar (style : Style) (text : String)
  deriving DecidableEq, Repr

/-- A place where a key may have started. -/
structure KeyStart where
  /-- The number of tokens before it. -/
  number : Nat
  place : Place
  /-- Has a key to be here, for the indentation to be right? -/
  required : Bool

structure LexState where
  cursor : Cursor
  /-- The tokens so far, the last one first. -/
  tokens : List Token := []
  /-- The indentation of the innermost block collection, below zero outside of all. -/
  indent : Int := -1
  /-- The indentations of the collections around it. -/
  outer : List Int := []
  /-- May a key start here? -/
  keyAllowed : Bool := true
  /-- Where the key of this level may have started. -/
  key : Option KeyStart := none
  /-- The same for the levels of brackets around this one. -/
  outerKeys : List (Option KeyStart) := []

namespace LexState

/-- Is the reader between brackets? -/
def inFlow (s : LexState) : Bool :=
  !s.outerKeys.isEmpty

def column (s : LexState) : Int :=
  s.cursor.place.column

def emit (s : LexState) (t : Token) : LexState :=
  { s with tokens := t :: s.tokens }

/-- Puts a token in behind the first `number` tokens. -/
def insert (s : LexState) (number : Nat) (t : Token) : LexState :=
  { s with tokens := s.tokens.insertIdx (s.tokens.length - number) t }

/-- Emits a token that is written with `n` characters. -/
def indicator (s : LexState) (n : Nat) (t : Token) : LexState :=
  { s.emit t with cursor := s.cursor.skip n }

/-! ### Where keys may start -/

/-- Can a key that started at `k` no longer come to its `:`? -/
def isStale (s : LexState) (k : KeyStart) : Bool :=
  k.place.line < s.cursor.place.line || k.place.offset + 1024 < s.cursor.place.offset

/-- Forgets keys that are too far back; a required one is missed. -/
def dropStale? (s : LexState) : Option LexState := do
  let check (k : Option KeyStart) : Option (Option KeyStart) :=
    match k with
    | some start => if s.isStale start then if start.required then none else some none else some k
    | none => some none
  let key ← check s.key
  let outerKeys ← s.outerKeys.mapM check
  return { s with key, outerKeys }

/-- Forgets the key of this level; a required one is missed. -/
def dropKey? (s : LexState) : Option LexState :=
  if s.key.any (·.required) then none else some { s with key := none }

/-- Remembers that a key may start here. -/
def saveKey? (s : LexState) : Option LexState :=
  if s.keyAllowed then do
    let required := !s.inFlow && s.indent == s.column
    let s ← s.dropKey?
    return { s with key := some ⟨s.tokens.length, s.cursor.place, required⟩ }
  else some s

/-! ### Indentation -/

/-- Starts a block collection at the given column if it is indented further. The start is put in
behind the first `number` tokens. -/
def roll (s : LexState) (column : Int) (number : Nat) (t : Token) : LexState :=
  if !s.inFlow && s.indent < column then
    { s.insert number t with indent := column, outer := s.indent :: s.outer }
  else s

/-- Ends the given block collections as long as they are indented further than `column`. -/
def unrollFrom (column : Int) (s : LexState) : List Int → LexState
  | [] => s
  | i :: outer =>
    if column < s.indent then
      unrollFrom column { s.emit .blockEnd with indent := i, outer } outer
    else s

/-- Ends the block collections that are indented further than `column`. -/
def unroll (s : LexState) (column : Int) : LexState :=
  if s.inFlow then s else unrollFrom column s s.outer

/-! ### Between tokens -/

/-- Passes a byte order mark at the start of a line. -/
def skipMark (c : Cursor) : Cursor :=
  if c.place.column = 0 && c.rest.head? = some '\uFEFF' then c.skip 1 else c

/-- Passes a comment. -/
def skipComment (c : Cursor) : Cursor :=
  if c.rest.head? = some '#' then c.skipWhile fun _ => true else c

/-- Passes what does not count on a line. A tab does not count as a blank where a key may start in
a block. -/
def skipBlanks (inFlow keyAllowed : Bool) (c : Cursor) : Cursor :=
  skipComment <| (skipMark c).skipWhile fun x =>
    x = ' ' || ((inFlow || !keyAllowed) && x = '\t')

theorem skipBlanks_le (inFlow keyAllowed : Bool) (c : Cursor) :
    (skipBlanks inFlow keyAllowed c).rest.length ≤ c.rest.length := by
  have mark : (skipMark c).rest.length ≤ c.rest.length := by
    unfold skipMark; split
    · exact c.skip_le 1
    · exact Nat.le_refl _
  have comment (d : Cursor) : (skipComment d).rest.length ≤ d.rest.length := by
    unfold skipComment; split
    · exact d.skipWhile_le _
    · exact Nat.le_refl _
  exact Nat.le_trans (comment _) (Nat.le_trans (Cursor.skipWhile_le _ _) mark)

/-- Passes blanks, comments and ends of lines. -/
def skipToToken (inFlow keyAllowed : Bool) (c : Cursor) : Cursor × Bool :=
  let d := skipBlanks inFlow keyAllowed c
  match h : d.lineBreak? with
  | some (_, e) =>
    have := Nat.lt_of_lt_of_le (Cursor.lineBreak?_lt h) (skipBlanks_le inFlow keyAllowed c)
    skipToToken inFlow (keyAllowed || !inFlow) e
  | none => (d, keyAllowed)
termination_by c.rest.length

/-! ### Tags, anchors and directives -/

/-- The byte that two hexadecimal digits behind a percent sign give, and what follows. -/
def escapedByte? : List Char → Option (Nat × List Char)
  | '%' :: a :: b :: s => do return ((← hexDigit? a) * 16 + (← hexDigit? b), s)
  | _ => none

/-- The number of bytes that go with a first byte in UTF-8. -/
def followers? (first : Nat) : Option Nat :=
  if first < 128 then some 0
  else if first / 32 = 6 then some 1
  else if first / 16 = 14 then some 2
  else if first / 8 = 30 then some 3
  else none

/-- As many bytes as there should be behind a first one, each with the bits of such a byte. -/
def followingBytes? : Nat → List Char → Option (TagText × List Char)
  | 0, s => some ([], s)
  | n + 1, s => do
    let (b, s) ← escapedByte? s
    guard (b / 64 = 2)
    let (bytes, s) ← followingBytes? n s
    return (b.toUInt8 :: bytes, s)

/-- The bytes of a character that is written with percent signs, and what follows. That it is
written with no more bytes than it needs is not asked. -/
def escapedBytes? (s : List Char) : Option (TagText × List Char) := do
  let (first, s) ← escapedByte? s
  let (bytes, s) ← followingBytes? (← followers? first) s
  return (first.toUInt8 :: bytes, s)

/-- The characters of a tag; commas and square brackets only where `verbatim`. -/
def isTagChar (verbatim : Bool) (c : Char) : Bool :=
  isNameChar c || c ∈ [';', '/', '?', ':', '@', '&', '=', '+', '$', '.', '!', '~', '*', '\'', '(', ')']
    || (verbatim && c ∈ [',', '[', ']'])

/-- The longest text of tag characters at the start, and what follows. -/
def tagText? (verbatim : Bool) : Nat → List Char → Option (TagText × List Char)
  | 0, s => some ([], s)
  | fuel + 1, s =>
    match s with
    | '%' :: _ => do
      let (bytes, s) ← escapedBytes? s
      let (text, s) ← tagText? verbatim fuel s
      return (bytes ++ text, s)
    | c :: r =>
      if isTagChar verbatim c then do
        let (text, s) ← tagText? verbatim fuel r
        return (c.toUInt8 :: text, s)
      else some ([], s)
    | [] => some ([], [])

/-- The text of a tag, which must not be empty, behind the text `head`. A zero byte ends it before
its time. -/
def tagSuffix? (verbatim : Bool) (head s : List Char) : Option (TagText × List Char) := do
  let (text, s) ← tagText? verbatim s.length s
  guard (!text.isEmpty || !head.isEmpty)
  return ((head.tail.map Char.toUInt8 ++ text).takeWhile (· != 0), s)

/-- A handle: an exclamation mark, or two with a name between them. Also gives the rest. In a
directive nothing else will do; in a tag an unfinished handle is the start of a suffix. -/
def handle? (directive : Bool) : List Char → Option (List Char × List Char)
  | '!' :: s =>
    let name := s.takeWhile isNameChar
    match s.dropWhile isNameChar with
    | '!' :: rest => some ('!' :: name ++ ['!'], rest)
    | rest => if directive && !name.isEmpty then none else some ('!' :: name, rest)
  | _ => none

/-- The tag that a text starts with, as handle and suffix, and the text behind it. -/
def tag? (s : List Char) : Option (List Char × TagText × List Char) :=
  match s with
  | '!' :: '<' :: s => do
    let (suffix, s) ← tagSuffix? true [] s
    match s with
    | '>' :: s => return ([], suffix, s)
    | _ => none
  | _ => do
    let (handle, s) ← handle? false s
    if 2 ≤ handle.length && handle.getLast? == some '!' then
      let (suffix, s) ← tagSuffix? false [] s
      return (handle, suffix, s)
    else
      let (suffix, s) ← tagSuffix? false handle s
      if suffix.isEmpty then return ([], bareTag, s) else return (['!'], suffix, s)

/-- Moves to the rest `r` of the line. -/
def upTo (s : LexState) (r : List Char) : LexState :=
  { s with cursor := s.cursor.skip (s.cursor.rest.length - r.length) }

def tagToken? (s : LexState) : Option LexState := do
  let (handle, suffix, rest) ← tag? s.cursor.rest
  guard (atEndOr (fun c => isBlankOrBreak c || (s.inFlow && c = ',')) rest)
  return (s.upTo rest).emit (.tag (String.ofList handle) suffix)

/-- An anchor or alias: its sign and a name. -/
def nameToken? (s : LexState) (t : String → Token) : Option LexState := do
  let name := (s.cursor.rest.drop 1).takeWhile isNameChar
  let rest := (s.cursor.rest.drop 1).dropWhile isNameChar
  guard (!name.isEmpty)
  guard (atEndOr (fun c => isBlankOrBreak c || c ∈ ['?', ':', ',', ']', '}', '%', '@', '`']) rest)
  return (s.upTo rest).emit (t (String.ofList name))

/-- A number of a version: one to nine digits. -/
def versionNumber? (s : List Char) : Option (Nat × List Char) := do
  let isDigit (c : Char) : Bool := '0' ≤ c && c ≤ '9'
  let digits := s.takeWhile isDigit
  guard (!digits.isEmpty && digits.length ≤ 9)
  return (digits.foldl (fun n c => n * 10 + (c.toNat - 48)) 0, s.dropWhile isDigit)

/-- A directive, from its percent sign to the end of its line. -/
def directive? (s : LexState) : Option LexState := do
  let text := s.cursor.rest.drop 1
  let name := text.takeWhile isNameChar
  let text := text.dropWhile isNameChar
  guard (!name.isEmpty && atEndOr isBlankOrBreak text)
  let text := text.dropWhile isBlank
  let (token, rest) ←
    if name = "YAML".toList then do
      let (major, r) ← versionNumber? text
      guard (r.head? = some '.')
      let (minor, r) ← versionNumber? r.tail
      pure (Token.version major minor, r)
    else if name = "TAG".toList then do
      let (handle, r) ← handle? true text
      guard (r.head?.any isBlank)
      let (expansion, r) ← tagSuffix? true [] (r.dropWhile isBlank)
      guard (atEndOr isBlankOrBreak r)
      pure (Token.tagHandle (String.ofList handle) expansion, r)
    else none
  let rest := rest.dropWhile isBlank
  let s := s.upTo rest
  let c := skipComment s.cursor
  guard (atEndOr isBreak c.rest)
  return { s.emit token with cursor := ((c.lineBreak?).map (·.2)).getD c }

/-! ### One token after the other -/

/-- Leaves all blocks, and no key can start. -/
def leaveBlocks? (s : LexState) : Option LexState := do
  let s ← (s.unroll (-1)).dropKey?
  return { s with keyAllowed := false }

/-- An opening bracket. -/
def openFlow? (s : LexState) (t : Token) : Option LexState := do
  let s ← s.saveKey?
  return { s.indicator 1 t with key := none, outerKeys := s.key :: s.outerKeys, keyAllowed := true }

/-- A closing bracket. -/
def closeFlow? (s : LexState) (t : Token) : Option LexState := do
  let s ← s.dropKey?
  let s := match s.outerKeys with
    | key :: outerKeys => { s with key, outerKeys }
    | [] => s
  return { s.indicator 1 t with keyAllowed := false }

/-- A dash before an entry of a block sequence. -/
def entry? (s : LexState) : Option LexState := do
  guard (s.inFlow || s.keyAllowed)
  let s ← (s.roll s.column s.tokens.length .blockSequence).dropKey?
  return { s.indicator 1 .blockEntry with keyAllowed := true }

/-- A question mark before a key. -/
def key? (s : LexState) : Option LexState := do
  guard (s.inFlow || s.keyAllowed)
  let s ← (s.roll s.column s.tokens.length .blockMapping).dropKey?
  return { s.indicator 1 .key with keyAllowed := !s.inFlow }

/-- A colon before a value. If a key may have started before it, it did. -/
def value? (s : LexState) : Option LexState :=
  match s.key with
  | some k =>
    let s := (s.insert k.number .key).roll k.place.column k.number .blockMapping
    some { s.indicator 1 .value with key := none, keyAllowed := false }
  | none => do
    guard (s.inFlow || s.keyAllowed)
    let s := s.roll s.column s.tokens.length .blockMapping
    return { s.indicator 1 .value with keyAllowed := !s.inFlow }

/-- A scalar that may be a key. -/
def scalar? (s : LexState) (style : Style) (r : Option (String × Cursor)) : Option LexState := do
  let s ← s.saveKey?
  let (text, cursor) ← r
  return { s.emit (.scalar style text) with cursor, keyAllowed := false }

def plainScalar? (s : LexState) : Option LexState := do
  let s ← s.saveKey?
  let (text, cursor, crossed) ← plain? s.inFlow s.indent s.cursor
  return { s.emit (.scalar .plain text) with cursor, keyAllowed := crossed }

def blockScalar? (s : LexState) (fold : Bool) : Option LexState := do
  let s ← s.dropKey?
  let (text, cursor) ← block? fold s.indent s.cursor
  return { s.emit (.scalar (if fold then .folded else .literal) text) with cursor, keyAllowed := true }

/-- May a plain scalar start with these characters? -/
def startsPlain (inFlow : Bool) : List Char → Bool
  | [] => false
  | c :: s =>
    !(isBlankOrBreak c || c ∈ ['-', '?', ':', ',', '[', ']', '{', '}', '#', '&', '*', '!', '|', '>',
      '\'', '"', '%', '@', '`']) ||
    (c = '-' && !s.head?.any isBlank) ||
    (!inFlow && (c = '?' || c = ':') && !atEndOr isBlankOrBreak s)

/-- The next token, which starts right here and is not the end. -/
def token? (s : LexState) : Option LexState :=
  let rest := s.cursor.rest
  let ends := atEndOr isBlankOrBreak rest.tail
  let atMargin := s.cursor.place.column = 0
  if atMargin && rest.head? = some '%' then do (← s.leaveBlocks?).directive?
  else if atMargin && startsMarker ['-', '-', '-'] rest then
    s.leaveBlocks?.map (·.indicator 3 .documentStart)
  else if atMargin && startsMarker ['.', '.', '.'] rest then
    s.leaveBlocks?.map (·.indicator 3 .documentEnd)
  else
    let other : Option LexState := if startsPlain s.inFlow rest then s.plainScalar? else none
    match rest.head? with
    | some '[' => s.openFlow? .flowSequence
    | some '{' => s.openFlow? .flowMapping
    | some ']' => s.closeFlow? .flowSequenceEnd
    | some '}' => s.closeFlow? .flowMappingEnd
    | some ',' => s.dropKey?.map fun s => { s.indicator 1 .flowEntry with keyAllowed := true }
    | some '-' => if ends then s.entry? else other
    | some '?' => if s.inFlow || ends then s.key? else other
    | some ':' => if s.inFlow || ends then s.value? else other
    | some '*' => s.saveKey?.bind fun s => { s with keyAllowed := false }.nameToken? .alias
    | some '&' => s.saveKey?.bind fun s => { s with keyAllowed := false }.nameToken? .anchor
    | some '!' => s.saveKey?.bind fun s => { s with keyAllowed := false }.tagToken?
    | some '|' => if s.inFlow then none else s.blockScalar? false
    | some '>' => if s.inFlow then none else s.blockScalar? true
    | some '\'' => s.scalar? .single (quoted? false s.cursor)
    | some '"' => s.scalar? .double (quoted? true s.cursor)
    | _ => other

/-- All tokens from here on. Each takes at least one character, so there are no more of them than
characters. -/
def run (s : LexState) : Nat → Option (List Token)
  | 0 => none
  | fuel + 1 => do
    let (cursor, keyAllowed) := skipToToken s.inFlow s.keyAllowed s.cursor
    let s ← { s with cursor, keyAllowed }.dropStale?
    let s := s.unroll s.column
    if s.cursor.rest.isEmpty then
      let s ← (s.unroll (-1)).dropKey?
      return s.tokens.reverse
    else run (← s.token?) fuel

end LexState

/-- The tokens of a text. -/
def tokens? (text : String) : Option (List Token) := do
  let s := text.toList
  guard (s.all isAllowed)
  LexState.run { cursor := ⟨{}, s⟩ } (s.length + 1)

end ThemePress.Yaml
