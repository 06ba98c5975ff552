import ThemePress.Text.Hex
import ThemePress.Text.Utf8

/-! # Form encoding

Text is put into a query as the bytes of its UTF-8 form. ASCII letters, digits and `-`, `_`, `.`
and `~` stand for themselves, a space is written `+`, and any other byte is a percent sign and two
capital hexadecimal digits. -/

namespace ThemePress.Text.Form

/-- The bytes that stand for themselves. -/
def isKept (b : UInt8) : Bool :=
  (0x30 ≤ b && b ≤ 0x39) || (0x41 ≤ b && b ≤ 0x5A) || (0x61 ≤ b && b ≤ 0x7A) ||
    b == 0x2D || b == 0x5F || b == 0x2E || b == 0x7E

/-- How a byte is written in a query. -/
def ofByte (b : UInt8) : List Char :=
  if isKept b then [Char.ofNat b.toNat]
  else if b = 0x20 then ['+']
  else ['%', Hex.capital (b.toNat / 16), Hex.capital (b.toNat % 16)]

/-- The text as a value in a query. -/
def encode (s : String) : String :=
  String.ofList ((Utf8.bytesOf s).flatMap ofByte)

end ThemePress.Text.Form
