import ThemePress.Text.Blank
import ThemePress.Text.Utf8

/-! # Tags in a template

A template is a sequence of bytes in which *tags* stand: `{{`, a text, and the first `}}` after it.
A tag whose text starts with a further `{` asks for unescaped output and takes a third `}` with it
when one follows. `Cut.first?` takes a byte sequence apart at its first tag, and `next?` says where
in a sequence the next tag stands.

A tag is named by the start of its text: a comment, the opening or the closing of a block, the
divider `else`, or anything else, which stands for a value. `Enclosed.first?` finds the close tag
that pairs with a block, over blocks of the same name nested in it.

What a cut takes apart is exactly what was there (`Cut.first?_eq`), and the rest is at least four
bytes shorter (`Cut.after_lt`), which is why reading tag after tag ends. -/

namespace ThemePress.Template

open ThemePress.Text

/-- What a tag is for. -/
inductive TagKind where
  | comment
  | blockOpen
  | blockClose
  | divider
  | value
  deriving DecidableEq, Repr

/-- The kind of a tag, read off the start of its text. -/
def TagKind.of (inner : String) : TagKind :=
  match inner.toList with
  | '!' :: ' ' :: _ => .comment
  | '!' :: '-' :: '-' :: _ => .comment
  | '#' :: _ => .blockOpen
  | '/' :: _ => .blockClose
  | ['e', 'l', 's', 'e'] => .divider
  | _ => .value

/-- A tag: its text without the blanks around it, and whether it asks for unescaped output. -/
structure Tag where
  inner : String
  unescaped : Bool
  deriving DecidableEq, Repr

namespace Tag

def kind (t : Tag) : TagKind :=
  TagKind.of t.inner

/-- The text of an opening tag after its leading `#`s. -/
def blockText (inner : String) : String :=
  trim (String.ofList (inner.toList.dropWhile (· == '#')))

/-- The name of the block that a tag opens: the first word after its leading `#`s. -/
def blockName (inner : String) : String :=
  String.ofList ((words (inner.toList.dropWhile (· == '#'))).headD [])

/-- The name of the block that a tag closes: all of its text after its leading `/`s. -/
def closeName (inner : String) : String :=
  trim (String.ofList (inner.toList.dropWhile (· == '/')))

end Tag

/-! ### The first tag -/

/-- Cuts a sequence at the first place where the byte `b` stands twice. -/
def splitAtPair (b : UInt8) : List UInt8 → Option (List UInt8 × List UInt8)
  | x :: y :: s =>
    if x = b ∧ y = b then some ([], s)
    else (splitAtPair b (y :: s)).map fun p => (x :: p.1, p.2)
  | _ => none

theorem splitAtPair_eq {b : UInt8} {s l r : List UInt8} (h : splitAtPair b s = some (l, r)) :
    s = l ++ b :: b :: r := by
  induction s generalizing l with
  | nil => simp [splitAtPair] at h
  | cons x s ih =>
    cases s with
    | nil => simp [splitAtPair] at h
    | cons y s =>
      rw [splitAtPair] at h
      split at h
      · rename_i hxy
        obtain ⟨rfl, rfl⟩ := hxy
        simp only [Option.some.injEq, Prod.mk.injEq] at h
        obtain ⟨rfl, rfl⟩ := h
        rfl
      · obtain ⟨⟨l', r'⟩, h', h⟩ := Option.map_eq_some_iff.1 h
        simp only [Prod.mk.injEq] at h
        obtain ⟨rfl, rfl⟩ := h
        rw [ih h']; rfl

/-- The byte `{`. -/
def openBrace : UInt8 := 0x7B

/-- The byte `}`. -/
def closeBrace : UInt8 := 0x7D

/-- A sequence taken apart at its first tag. -/
structure Cut where
  /-- The bytes before the tag. -/
  before : List UInt8
  tag : Tag
  /-- The bytes of the tag itself, braces included. -/
  text : List UInt8
  /-- The bytes after the tag. -/
  after : List UInt8

namespace Cut

/-- The tag with the bytes `inner` between its braces, and what follows it. -/
def close (before inner rest : List UInt8) : Cut :=
  let tag (inner : List UInt8) (unescaped : Bool) : Tag := ⟨trim (Utf8.readLossy inner), unescaped⟩
  let text := openBrace :: openBrace :: inner ++ [closeBrace, closeBrace]
  if inner.head? = some openBrace then
    if rest.head? = some closeBrace then
      ⟨before, tag inner.tail true, text ++ [closeBrace], rest.tail⟩
    else ⟨before, tag inner.tail true, text, rest⟩
  else ⟨before, tag inner false, text, rest⟩

/-- The first tag of a sequence. A `{{` that no `}}` follows starts none. -/
def first? (data : List UInt8) : Option Cut :=
  (splitAtPair openBrace data).bind fun (before, rest) =>
    (splitAtPair closeBrace rest).map fun (inner, rest) => close before inner rest

theorem close_eq (before inner rest : List UInt8) :
    (close before inner rest).before = before ∧
      (close before inner rest).text ++ (close before inner rest).after =
        openBrace :: openBrace :: inner ++ closeBrace :: closeBrace :: rest := by
  unfold close
  split
  · split
    · rename_i h
      obtain ⟨r, rfl⟩ := List.head?_eq_some_iff.1 h
      simp
    · simp
  · simp

/-- **A cut loses nothing.** -/
theorem first?_eq {data : List UInt8} {cut : Cut} (h : first? data = some cut) :
    data = cut.before ++ (cut.text ++ cut.after) := by
  simp only [first?, Option.bind_eq_some_iff, Option.map_eq_some_iff] at h
  obtain ⟨⟨before, rest⟩, h₁, ⟨inner, rest'⟩, h₂, rfl⟩ := h
  obtain ⟨e₁, e₂⟩ := close_eq before inner rest'
  simp only at h₂
  simp only [e₁, e₂, splitAtPair_eq h₁, splitAtPair_eq h₂]
  simp

/-- **A tag is at least four bytes long.** -/
theorem four_le_text {data : List UInt8} {cut : Cut} (h : first? data = some cut) :
    4 ≤ cut.text.length := by
  simp only [first?, Option.bind_eq_some_iff, Option.map_eq_some_iff] at h
  obtain ⟨⟨before, rest⟩, _, ⟨inner, rest'⟩, _, rfl⟩ := h
  unfold close
  dsimp only
  split
  · split <;> simp
  · simp

theorem after_lt {data : List UInt8} {cut : Cut} (h : first? data = some cut) :
    cut.after.length + 4 ≤ data.length := by
  have e := congrArg List.length (first?_eq h)
  have := four_le_text h
  simp only [List.length_append] at e
  omega

end Cut

/-! ### The close tag of a block -/

/-- A sequence taken apart at the close tag of a block that stands open at its start. -/
structure Enclosed where
  /-- The bytes inside the block. -/
  inside : List UInt8
  /-- The bytes of the close tag. -/
  closer : List UInt8
  /-- The bytes after the close tag. -/
  after : List UInt8

namespace Enclosed

/-- Puts bytes in front of the inside. -/
def prepend (s : List UInt8) (e : Enclosed) : Enclosed :=
  { e with inside := s ++ e.inside }

/-- The close tag of the block `name` when `depth` further blocks of that name stand open. -/
def find? (name : String) (depth : Nat) (data : List UInt8) : Option Enclosed :=
  match h : Cut.first? data with
  | none => none
  | some cut =>
    have := Cut.after_lt h
    if cut.tag.kind = .blockOpen ∧ Tag.blockName cut.tag.inner = name then
      (find? name (depth + 1) cut.after).map (prepend (cut.before ++ cut.text))
    else if cut.tag.kind = .blockClose ∧ Tag.closeName cut.tag.inner = name then
      match depth with
      | 0 => some ⟨cut.before, cut.text, cut.after⟩
      | depth + 1 => (find? name depth cut.after).map (prepend (cut.before ++ cut.text))
    else (find? name depth cut.after).map (prepend (cut.before ++ cut.text))
termination_by data.length

/-- The close tag of the block `name`, over nested blocks of that name. -/
def first? (name : String) (data : List UInt8) : Option Enclosed :=
  find? name 0 data

/-- **Inside, close tag and rest are all there was, and the tag is not empty.** -/
theorem find?_eq {name : String} {depth : Nat} {data : List UInt8} {e : Enclosed}
    (h : find? name depth data = some e) :
    data = e.inside ++ (e.closer ++ e.after) ∧ e.inside.length + e.after.length < data.length := by
  fun_induction find? name depth data generalizing e with
  | case1 => simp at h
  | case2 depth data cut hc _ _ ih | case4 data cut hc _ _ _ depth ih
  | case5 depth data cut hc _ _ _ ih =>
    obtain ⟨e', h', rfl⟩ := Option.map_eq_some_iff.1 h
    obtain ⟨h₁, h₂⟩ := ih h'
    have h₃ := congrArg List.length (Cut.first?_eq hc)
    have h₄ := congrArg List.length h₁
    simp only [List.length_append] at h₃ h₄
    refine ⟨?_, by simp only [prepend, List.length_append]; omega⟩
    rw [Cut.first?_eq hc, h₁]
    simp [prepend]
  | case3 data cut hc hlt _ _ =>
    simp only [Option.some.injEq] at h
    subst h
    refine ⟨Cut.first?_eq hc, ?_⟩
    have h₃ := congrArg List.length (Cut.first?_eq hc)
    have h₄ := Cut.four_le_text hc
    simp only [List.length_append] at h₃ ⊢
    omega

theorem first?_lt {name : String} {data : List UInt8} {e : Enclosed}
    (h : first? name data = some e) :
    e.inside.length < data.length ∧ e.after.length < data.length := by
  have := (find?_eq h).2
  omega

end Enclosed

/-! ### Tags by their place -/

/-- A tag and the places in a sequence where it starts and where it is over. -/
structure Placed where
  start : Nat
  stop : Nat
  tag : Tag
  deriving DecidableEq, Repr

/-- The next tag at or after the place `start`. -/
def next? (data : List UInt8) (start : Nat) : Option Placed :=
  (Cut.first? (data.drop start)).map fun cut =>
    let place := start + cut.before.length
    ⟨place, place + cut.text.length, cut.tag⟩

/-- Where the close tag of the block `name` starts and where it is over, when the block was opened
just before the place `start`. -/
def closer? (data : List UInt8) (start : Nat) (name : String) : Option (Nat × Nat) :=
  (Enclosed.first? name (data.drop start)).map fun e =>
    let place := start + e.inside.length
    (place, place + e.closer.length)

end ThemePress.Template
