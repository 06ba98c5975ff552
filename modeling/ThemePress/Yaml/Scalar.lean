import ThemePress.Yaml.Character

/-! # Scalars of YAML

A scalar is written plainly, between quotes of either kind, or as a block of lines. Each reader here
starts at the scalar's first character and gives the text that the scalar stands for and the place
behind it, or nothing when the scalar is not well formed.

In plain and quoted scalars an end of line is read as a space and empty lines as ends of lines;
blanks around them do not count. Such a stretch between two characters is a `Gap`. -/

namespace ThemePress.Yaml

/-- How a scalar is written. -/
inductive Style where
  | plain
  | single
  | double
  | literal
  | folded
  deriving DecidableEq, Repr

/-- Blanks and ends of lines between two characters of a scalar. -/
structure Gap where
  /-- The blanks before the first end of line. -/
  blanks : List Char := []
  /-- The first end of line. It is missing when a backslash took it away. -/
  first : Option Char := none
  /-- The ends of lines after the first. -/
  others : List Char := []
  /-- Does the gap go over the end of a line? -/
  crossed : Bool := false

namespace Gap

def isEmpty (g : Gap) : Bool :=
  g.blanks.isEmpty && !g.crossed

/-- A gap that starts with a backslash at the end of a line. -/
def joined : Gap :=
  { crossed := true }

def blank (g : Gap) (c : Char) : Gap :=
  if g.crossed then g else { g with blanks := g.blanks ++ [c] }

def lineBreak (g : Gap) (c : Char) : Gap :=
  if g.crossed then { g with others := g.others ++ [c] }
  else { first := some c, crossed := true }

/-- What the gap is read as. -/
def text (g : Gap) : List Char :=
  if !g.crossed then g.blanks
  else
    match g.first with
    | some '\n' => if g.others.isEmpty then [' '] else g.others
    | first => first.toList ++ g.others

end Gap

/-! ### Quoted scalars -/

/-- The value of a hexadecimal digit. -/
def hexDigit? (c : Char) : Option Nat :=
  if '0' ≤ c ∧ c ≤ '9' then some (c.toNat - 48)
  else if 'a' ≤ c ∧ c ≤ 'f' then some (c.toNat - 87)
  else if 'A' ≤ c ∧ c ≤ 'F' then some (c.toNat - 55)
  else none

/-- The character with the code point that `n` hexadecimal digits give. -/
def codePoint? (n : Nat) (s : List Char) : Option Char := do
  let digits ← (s.take n).mapM hexDigit?
  guard (digits.length = n)
  let value := digits.foldl (fun v d => v * 16 + d) 0
  guard (value < 0xD800 ∨ (0xDFFF < value ∧ value ≤ 0x10FFFF))
  return Char.ofNat value

/-- The character that an escape stands for, and its length behind the backslash. -/
def escape? : List Char → Option (Char × Nat)
  | '0' :: _ => some ('\x00', 1)
  | 'a' :: _ => some ('\x07', 1)
  | 'b' :: _ => some ('\x08', 1)
  | 't' :: _ => some ('\t', 1)
  | '\t' :: _ => some ('\t', 1)
  | 'n' :: _ => some ('\n', 1)
  | 'v' :: _ => some ('\x0b', 1)
  | 'f' :: _ => some ('\x0c', 1)
  | 'r' :: _ => some ('\r', 1)
  | 'e' :: _ => some ('\x1b', 1)
  | ' ' :: _ => some (' ', 1)
  | '"' :: _ => some ('"', 1)
  | '/' :: _ => some ('/', 1)
  | '\\' :: _ => some ('\\', 1)
  | 'N' :: _ => some ('\x85', 1)
  | '_' :: _ => some ('\xa0', 1)
  | 'L' :: _ => some ('\u2028', 1)
  | 'P' :: _ => some ('\u2029', 1)
  | 'x' :: s => (codePoint? 2 s).map (·, 3)
  | 'u' :: s => (codePoint? 4 s).map (·, 5)
  | 'U' :: s => (codePoint? 8 s).map (·, 9)
  | _ => none

/-- Reads a quoted scalar from behind its first quote; `gap` holds the blanks just passed. -/
def quotedFrom (double : Bool) (gap : Gap) (c : Cursor) : Option (List Char × Cursor) :=
  match h : c.rest with
  | [] => none
  | x :: s =>
    have : 0 < c.rest.length := by simp [h]
    match h' : c.lineBreak? with
    | some (b, d) =>
      have := Cursor.lineBreak?_lt h'
      if startsDocumentMark d.rest then none else quotedFrom double (gap.lineBreak b) d
    | none =>
      if isBlank x then quotedFrom double (gap.blank x) (c.skip 1)
      else if x = (if double then '"' else '\'') && (double || s.head? != some '\'') then
        some (gap.text, c.skip 1)
      else if double && x = '\\' then
        match h'' : (c.skip 1).lineBreak? with
        | some (_, d) =>
          have := Cursor.lineBreak?_lt h''
          if startsDocumentMark d.rest then none
          else (quotedFrom double .joined d).map fun r => (gap.text ++ r.1, r.2)
        | none =>
          (escape? s).bind fun (e, n) =>
            (quotedFrom double {} (c.skip (n + 1))).map fun r => (gap.text ++ e :: r.1, r.2)
      else
        (quotedFrom double {} (c.skip (if x = '\'' && !double then 2 else 1))).map fun r =>
          (gap.text ++ x :: r.1, r.2)
termination_by c.rest.length
decreasing_by
  all_goals simp_all only [Cursor.skip, List.length_drop]
  all_goals (try split) <;> omega

/-- Reads a scalar between quotes of one kind. -/
def quoted? (double : Bool) (c : Cursor) : Option (String × Cursor) :=
  (quotedFrom double {} (c.skip 1)).map fun r => (String.ofList r.1, r.2)

/-! ### Plain scalars -/

/-- The characters that have a meaning of their own between brackets. -/
def isFlowIndicator (c : Char) : Bool :=
  c = ',' || c = '[' || c = ']' || c = '{' || c = '}'

/-- A plain scalar: its text, the place behind it and the blanks that follow, and whether these go
over the end of a line. -/
structure PlainScalar where
  text : List Char
  stop : Cursor
  crossed : Bool

/-- Reads on in a plain scalar whose lines start at the column `indent` at least; `gap` holds the
blanks just passed. Between brackets the columns do not count. -/
def plainFrom (inFlow : Bool) (indent : Int) (gap : Gap) (c : Cursor) : Option PlainScalar :=
  match h : c.rest with
  | [] => some ⟨[], c, gap.crossed⟩
  | x :: s =>
    have : 0 < c.rest.length := by simp [h]
    match h' : c.lineBreak? with
    | some (b, d) =>
      have := Cursor.lineBreak?_lt h'
      plainFrom inFlow indent (gap.lineBreak b) d
    | none =>
      if isBlank x then
        if gap.crossed && x = '\t' && (c.place.column : Int) < indent then none
        else plainFrom inFlow indent (gap.blank x) (c.skip 1)
      else if !gap.isEmpty && (x = '#' ||
          (gap.crossed && !inFlow && (c.place.column : Int) < indent) ||
          (c.place.column = 0 && startsDocumentMark c.rest)) then
        some ⟨[], c, gap.crossed⟩
      else if inFlow && x = ':' && s.head?.any (fun y => isFlowIndicator y || y = '?') then none
      else if (x = ':' && atEndOr isBlankOrBreak s) || (inFlow && isFlowIndicator x) then
        some ⟨[], c, gap.crossed⟩
      else
        (plainFrom inFlow indent {} (c.skip 1)).map fun r =>
          { r with text := gap.text ++ x :: r.text }
termination_by c.rest.length
decreasing_by
  all_goals simp_all only [Cursor.skip, List.length_drop]
  all_goals omega

/-- Reads a plain scalar within a collection that is indented by `parent`. -/
def plain? (inFlow : Bool) (parent : Int) (c : Cursor) : Option (String × Cursor × Bool) :=
  (plainFrom inFlow (parent + 1) {} c).map fun r => (String.ofList r.text, r.stop, r.crossed)

/-! ### Block scalars -/

/-- What becomes of the ends of lines at the end of a block scalar. -/
inductive Chomping where
  | strip
  | clip
  | keep
  deriving DecidableEq, Repr

/-- The indentation of a block scalar: given, or still to be found. -/
abbrev BlockIndent := Option Nat

/-- The empty lines at the start of a block or behind one of its lines: their ends, the place behind
them and the spaces of the next line, and the greatest column reached in them. Fails at a tab among
the spaces. -/
def emptyLines (indent : BlockIndent) (c : Cursor) (widest : Nat) :
    Option (List Char × Cursor × Nat) :=
  let limit := match indent with
    | some n => n - c.place.column
    | none => c.rest.length
  let spaces := ((c.rest.take limit).takeWhile (· = ' ')).length
  let d := c.skip spaces
  let widest := max widest d.place.column
  if d.rest.head? = some '\t' && indent.all (d.place.column < ·) then none
  else
    match h : d.lineBreak? with
    | some (b, e) =>
      have := Cursor.lineBreak?_lt h
      (emptyLines indent e widest).map fun r => (b :: r.1, r.2)
    | none => some ([], d, widest)
termination_by c.rest.length
decreasing_by
  simp only [d, Cursor.skip, List.length_drop] at this
  omega

/-- The lines of a block scalar from the start of one of them on. `lead` is the end of the line
before it, `blank` tells whether that line started with a blank, and `empty` holds the ends of the
empty lines between the two. The ends of lines behind the last line are given apart, the first of
them by itself. -/
def blockLines (fold : Bool) (indent : Nat) (lead : List Char) (blank : Bool) (empty : List Char)
    (c : Cursor) : Nat → Option (List Char × List Char × List Char × Cursor)
  | 0 => none
  | fuel + 1 =>
    if c.place.column = indent && !c.rest.isEmpty then do
      let startsBlank := c.rest.head?.any isBlank
      let joint :=
        if fold && lead = ['\n'] && !blank && !startsBlank then
          (if empty.isEmpty then [' '] else []) ++ empty
        else lead ++ empty
      let line := c.rest.takeWhile (!isBreak ·)
      let d := c.skip line.length
      let (lead, d) := match d.lineBreak? with
        | some (b, e) => ([b], e)
        | none => ([], d)
      let (empty, e, _) ← emptyLines (some indent) d 0
      let (text, last) ← blockLines fold indent lead startsBlank empty e fuel
      return (joint ++ line ++ text, last)
    else some ([], lead, empty, c)

/-- The signs behind the indicator of a block scalar: what becomes of its end, and how much further
than its surroundings it is indented. -/
def blockHeader? (s : List Char) : Option (Chomping × Option Nat × Nat) :=
  let chomping? (c : Char) : Option Chomping :=
    if c = '+' then some .keep else if c = '-' then some .strip else none
  let digit? (c : Char) : Option Nat :=
    if '0' ≤ c ∧ c ≤ '9' then some (c.toNat - 48) else none
  let positive (r : Chomping × Option Nat × Nat) : Option (Chomping × Option Nat × Nat) :=
    if r.2.1 = some 0 then none else some r
  match s with
  | x :: y :: _ =>
    match chomping? x, digit? x with
    | some k, _ => positive (k, digit? y, if (digit? y).isSome then 2 else 1)
    | _, some n => positive ((chomping? y).getD .clip, some n, if (chomping? y).isSome then 2 else 1)
    | _, _ => some (.clip, none, 0)
  | [x] =>
    match chomping? x, digit? x with
    | some k, _ => some (k, none, 1)
    | _, some n => positive (.clip, some n, 1)
    | _, _ => some (.clip, none, 0)
  | [] => some (.clip, none, 0)

/-- Reads a block scalar within a collection that is indented by `parent`. -/
def block? (fold : Bool) (parent : Int) (c : Cursor) : Option (String × Cursor) := do
  let c := c.skip 1
  let (chomping, increment, signs) ← blockHeader? c.rest
  let c := (c.skip signs).skipWhile isBlank
  let c := if c.rest.head? = some '#' then c.skipWhile fun _ => true else c
  guard (atEndOr isBreak c.rest)
  let c := match c.lineBreak? with
    | some (_, d) => d
    | none => c
  let given := increment.map fun n => (max parent 0).toNat + n
  let (empty, c, widest) ← emptyLines given c 0
  let indent := given.getD (max widest (max (parent + 1).toNat 1))
  let (text, lead, empty, c) ← blockLines fold indent [] false empty c (c.rest.length + 1)
  let tail := match chomping with
    | .strip => []
    | .clip => lead
    | .keep => lead ++ empty
  return (String.ofList (text ++ tail), c)

end ThemePress.Yaml
