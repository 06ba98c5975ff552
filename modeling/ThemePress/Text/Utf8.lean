/-! # Bytes and text

Templates and pages are bytes, names and fields are text. `bytesOf` writes text as UTF-8. Reading
goes through `decode`, which never fails: it yields one entry for each character and one empty
entry for each *maximal invalid part*, a longest start of a well-formed sequence that breaks off, or
a single byte that starts none. `readLossy` puts the replacement character in place of each such
part; `read?` refuses them. -/

namespace ThemePress.Text.Utf8

/-- The UTF-8 bytes of a text. -/
def bytesOf (s : String) : List UInt8 :=
  s.toList.flatMap String.utf8EncodeChar

theorem bytesOf_inj {s t : String} : bytesOf s = bytesOf t ↔ s = t := by
  refine ⟨fun h => ?_, congrArg bytesOf⟩
  rw [← String.toByteArray_inj, ← String.utf8Encode_toList, ← String.utf8Encode_toList]
  exact congrArg List.toByteArray h

theorem bytesOf_eq_nil_iff {s : String} : bytesOf s = [] ↔ s = "" := by
  rw [← bytesOf_inj]
  rfl

/-- The bytes `80` to `BF`, which continue a sequence. -/
def isTail (b : UInt8) : Bool :=
  0x80 ≤ b && b ≤ 0xBF

/-- May `b` follow the first byte `a` of a sequence of three? Overlong forms and surrogates are
left out. -/
def isThirds (a b : UInt8) : Bool :=
  if a = 0xE0 then 0xA0 ≤ b && b ≤ 0xBF
  else if a = 0xED then 0x80 ≤ b && b ≤ 0x9F
  else isTail b

/-- May `b` follow the first byte `a` of a sequence of four? Overlong forms and code points above
`10FFFF` are left out. -/
def isFourths (a b : UInt8) : Bool :=
  if a = 0xF0 then 0x90 ≤ b && b ≤ 0xBF
  else if a = 0xF4 then 0x80 ≤ b && b ≤ 0x8F
  else isTail b

/-- The low six bits that a continuing byte carries. -/
def payload (b : UInt8) : Nat :=
  b.toNat % 64

def char2 (a b : UInt8) : Char :=
  Char.ofNat (a.toNat % 32 * 64 + payload b)

def char3 (a b c : UInt8) : Char :=
  Char.ofNat (a.toNat % 16 * 4096 + payload b * 64 + payload c)

def char4 (a b c d : UInt8) : Char :=
  Char.ofNat (a.toNat % 8 * 262144 + payload b * 4096 + payload c * 64 + payload d)

/-- The characters of a byte sequence, with `none` for each maximal invalid part. -/
def decode : List UInt8 → List (Option Char)
  | [] => []
  | a :: s =>
    if a < 0x80 then some (Char.ofNat a.toNat) :: decode s
    else if 0xC2 ≤ a && a ≤ 0xDF then
      match s with
      | b :: s => if isTail b then some (char2 a b) :: decode s else none :: decode (b :: s)
      | [] => [none]
    else if 0xE0 ≤ a && a ≤ 0xEF then
      match s with
      | b :: c :: s =>
        if !isThirds a b then none :: decode (b :: c :: s)
        else if isTail c then some (char3 a b c) :: decode s
        else none :: decode (c :: s)
      | [b] => if isThirds a b then [none] else none :: decode [b]
      | [] => [none]
    else if 0xF0 ≤ a && a ≤ 0xF4 then
      match s with
      | b :: c :: d :: s =>
        if !isFourths a b then none :: decode (b :: c :: d :: s)
        else if !isTail c then none :: decode (c :: d :: s)
        else if isTail d then some (char4 a b c d) :: decode s
        else none :: decode (d :: s)
      | [b, c] =>
        if !isFourths a b then none :: decode [b, c]
        else if !isTail c then none :: decode [c]
        else [none]
      | [b] => if isFourths a b then [none] else none :: decode [b]
      | [] => [none]
    else none :: decode s

/-- The text of a byte sequence, with `U+FFFD` for each maximal invalid part. -/
def readLossy (s : List UInt8) : String :=
  String.ofList ((decode s).map (·.getD '\uFFFD'))

/-- The text of a well-formed byte sequence. -/
def read? (s : List UInt8) : Option String :=
  ((decode s).mapM id).map String.ofList

end ThemePress.Text.Utf8
