import ThemePress.Template.Node
import ThemePress.Text.Blank

/-! # Reading the text of a tag

The text of a tag is a name and arguments: `date format="MMM Do" published_at`. The keyed arguments
are taken out first, wherever they stand. What remains is split at its blanks, and the first word
is the name and the others are the positional arguments; a pair of quotes around a word is dropped.
The node has the positional arguments before the keyed ones and an `else` branch after both.

A keyed argument is the earliest place where a run without blanks, an `=` and a value in quotes
follow each other, with blanks allowed around the `=`. The run is the shortest that will do. A value
goes up to the first quote of either kind and does not go over the end of a line. -/

namespace ThemePress.Template.TagText

open ThemePress.Text

def isQuote (c : Char) : Bool :=
  c = '"' || c = '\''

/-! ### Keyed arguments -/

/-- The value in quotes that a text starts with, and the text after it. -/
def quoted? : List Char → Option (List Char × List Char)
  | q :: s =>
    let inside (c : Char) : Bool := !isQuote c && c != '\n'
    match s.dropWhile inside with
    | q' :: rest => if isQuote q && isQuote q' then some (s.takeWhile inside, rest) else none
    | [] => none
  | [] => none

/-- The value that a text assigns at its start: blanks, `=`, blanks and a value in quotes. -/
def assigned? (s : List Char) : Option (List Char × List Char) :=
  match s.dropWhile isBlank with
  | '=' :: s => quoted? (s.dropWhile isBlank)
  | _ => none

/-- The keyed argument that a text starts with: its key, its value and the text after it. -/
def keyedAt? : List Char → Option (List Char × List Char × List Char)
  | [] => none
  | c :: s =>
    if isBlank c then none
    else
      match assigned? s with
      | some (value, rest) => some ([c], value, rest)
      | none => (keyedAt? s).map fun (key, value, rest) => (c :: key, value, rest)

theorem quoted?_lt {s v r : List Char} (h : quoted? s = some (v, r)) : r.length < s.length := by
  cases s with
  | nil => simp [quoted?] at h
  | cons q s =>
    simp only [quoted?] at h
    split at h
    · rename_i q' rest hd
      split at h
      · have := (List.dropWhile_sublist (l := s) fun c => !isQuote c && c != '\n').length_le
        rw [hd] at this
        simp only [Option.some.injEq, Prod.mk.injEq] at h
        obtain ⟨_, rfl⟩ := h
        simp only [List.length_cons] at this ⊢
        omega
      · simp at h
    · simp at h

theorem assigned?_lt {s v r : List Char} (h : assigned? s = some (v, r)) :
    r.length < s.length := by
  simp only [assigned?] at h
  split at h
  · rename_i s' hd
    have h₁ := (List.dropWhile_sublist (l := s) isBlank).length_le
    have h₂ := (List.dropWhile_sublist (l := s') isBlank).length_le
    have h₃ := quoted?_lt h
    rw [hd] at h₁
    simp only [List.length_cons] at h₁
    omega
  · simp at h

theorem keyedAt?_lt {s k v r : List Char} (h : keyedAt? s = some (k, v, r)) :
    r.length < s.length := by
  induction s generalizing k with
  | nil => simp [keyedAt?] at h
  | cons c s ih =>
    simp only [keyedAt?] at h
    split at h
    · simp at h
    · split at h
      · rename_i ha
        simp only [Option.some.injEq, Prod.mk.injEq] at h
        obtain ⟨_, rfl, rfl⟩ := h
        have := assigned?_lt ha
        simp only [List.length_cons]
        omega
      · obtain ⟨⟨k', v', r'⟩, h', e⟩ := Option.map_eq_some_iff.1 h
        simp only [Prod.mk.injEq] at e
        obtain ⟨_, rfl, rfl⟩ := e
        have := ih h'
        simp only [List.length_cons]
        omega

/-- The keyed arguments of a text, in order, and the text without them. -/
def takeKeyed (s : List Char) : List (List Char × List Char) × List Char :=
  match h : keyedAt? s with
  | some (key, value, rest) =>
    have := keyedAt?_lt h
    let r := takeKeyed rest
    ((key, value) :: r.1, r.2)
  | none =>
    match s with
    | [] => ([], [])
    | c :: s =>
      let r := takeKeyed s
      (r.1, c :: r.2)
termination_by s.length

/-! ### Words -/

/-- The word without the quote it ends in and all up to its first one, if there is anything in
between. -/
def unquote (w : List Char) : List Char :=
  match w.dropWhile (!isQuote ·) with
  | _ :: inner =>
    match inner.getLast? with
    | some q => if isQuote q && 1 < inner.length then inner.dropLast else w
    | none => w
  | [] => w

end TagText

open TagText in
/-- The node that a tag text stands for, at the given place and with the given inside. -/
def Node.ofText (text : String) (unescaped : Bool) (position : Nat) (block : List UInt8)
    (children : List Node) (elseBranch : Option Node) : Node :=
  let (keyed, remainder) := takeKeyed text.toList
  let tokens := (Text.words remainder).map fun w => String.ofList (unquote w)
  let argument (key : Option String) (value : String) : Node :=
    { Node.leaf value unescaped 0 with key }
  { Node.leaf (tokens.headD "") unescaped position with
    arguments := tokens.tail.map (argument none) ++
      keyed.map (fun (key, value) => argument (some (String.ofList key)) (String.ofList value)) ++
      elseBranch.toList
    block
    children }

end ThemePress.Template
