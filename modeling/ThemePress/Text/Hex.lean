/-! # Hexadecimal digits -/

namespace ThemePress.Text.Hex

/-- The digits from zero to fifteen. -/
def digits : List Char :=
  ['0', '1', '2', '3', '4', '5', '6', '7', '8', '9', 'a', 'b', 'c', 'd', 'e', 'f']

/-- The digit of a number below sixteen. -/
def digit (n : Nat) : Char :=
  digits.getD n '0'

/-- The capital digit of a number below sixteen. -/
def capital (n : Nat) : Char :=
  (digit n).toUpper

/-- Two digits for each byte. -/
def ofBytes (bytes : List UInt8) : String :=
  String.ofList (bytes.flatMap fun b => [digit (b.toNat / 16), digit (b.toNat % 16)])

end ThemePress.Text.Hex
