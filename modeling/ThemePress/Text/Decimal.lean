/-! # Decimal numbers in text

Reading takes a whole text or nothing: digits with a sign in front where one is allowed, and a
value within the given bounds. -/

namespace ThemePress.Text.Decimal

/-- The value of a decimal digit. -/
def digit? (c : Char) : Option Nat :=
  if '0' ≤ c ∧ c ≤ '9' then some (c.toNat - '0'.toNat) else none

/-- The value of digits in the base `base`, when all of them are; `digit?` reads one. -/
def value? (digit? : Char → Option Nat) (base : Nat) (s : List Char) : Option Nat :=
  s.foldl (fun v c => do return (← v) * base + (← digit? c)) (some 0)

/-- The number that a text of one digit or more writes. -/
def digits? (s : List Char) : Option Nat :=
  if s.isEmpty then none else value? digit? 10 s

/-- The number of values that 64 bits have. -/
def wordCount : Nat := 0x10000000000000000

/-- The greatest integer that fits into 64 bits with a sign. -/
def greatest : Int := 0x7FFFFFFFFFFFFFFF

/-- The least integer that fits into 64 bits with a sign. -/
def least : Int := -0x8000000000000000

/-- A natural number that fits into 64 bits, with or without a plus sign. -/
def word? (s : String) : Option Nat := do
  let digits := match s.toList with
    | '+' :: r => r
    | r => r
  let n ← digits? digits
  guard (n < wordCount)
  return n

/-- Does an integer fit into 64 bits with a sign? -/
def fits (n : Int) : Bool :=
  least ≤ n && n ≤ greatest

/-- An integer that fits into 64 bits, with or without a sign. -/
def int? (s : String) : Option Int := do
  let n : Int ← match s.toList with
    | '+' :: r => (digits? r).map (↑·)
    | '-' :: r => (digits? r).map (-↑·)
    | r => (digits? r).map (↑·)
  guard (fits n)
  return n

/-- The number with zeros in front up to the given width. -/
def padded (width : Nat) (n : Nat) : String :=
  let s := toString n
  String.ofList (List.replicate (width - s.length) '0') ++ s

end ThemePress.Text.Decimal
