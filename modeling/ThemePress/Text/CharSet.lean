/-! # Sets of characters as ranges

A set of code points is a list of ranges, each given by its first and its last code point. -/

namespace ThemePress.Text

/-- A set of characters, as ranges of code points. -/
abbrev CharSet := List (Nat × Nat)

def CharSet.contains (s : CharSet) (c : Char) : Bool :=
  s.any fun (first, last) => first ≤ c.toNat && c.toNat ≤ last

end ThemePress.Text
