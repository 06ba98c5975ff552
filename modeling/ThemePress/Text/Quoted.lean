import ThemePress.Text.Hex

/-! # Texts in structured data

A text stands between double quotes. The quote, the backslash and the control characters are written
with a backslash in front. An object has one field to a line, indented by four spaces. -/

namespace ThemePress.Text.Quoted

/-- How a character is written between quotes. -/
def ofChar (c : Char) : List Char :=
  if c = '"' then ['\\', '"']
  else if c = '\\' then ['\\', '\\']
  else if c = '\n' then ['\\', 'n']
  else if c = '\r' then ['\\', 'r']
  else if c = '\t' then ['\\', 't']
  else if c = '\x08' then ['\\', 'b']
  else if c = '\x0c' then ['\\', 'f']
  else if c.toNat < 32 then
    ['\\', 'u', '0', '0', Hex.digit (c.toNat / 16), Hex.digit (c.toNat % 16)]
  else [c]

/-- The text between quotes. -/
def quote (s : String) : String :=
  "\"" ++ String.ofList (s.toList.flatMap ofChar) ++ "\""

/-- An object with the given fields, one to a line. -/
def object (fields : List (String × String)) : String :=
  "\x7b\n" ++
    ",\n".intercalate (fields.map fun (key, value) => "    " ++ quote key ++ ": " ++ quote value) ++
    "\n\x7d"

end ThemePress.Text.Quoted
