/-! # Putting outputs back in place

A node's literal bytes have lost their tags, and each tag is remembered by its place in them.
`splice` puts bytes in at a place, or at the end when the place lies beyond it. `spliceAll` does so
for one output after the other; what has been put in so far moves the places of the rest. -/

namespace ThemePress.Render

/-- Puts bytes in at a place. -/
def splice (output : List UInt8) (place : Nat) (bytes : List UInt8) : List UInt8 :=
  output.take place ++ (bytes ++ output.drop place)

/-- Puts outputs in at their places, which count the bytes of `output` without the first `drift`
bytes put in before. -/
def spliceFrom (drift : Nat) (output : List UInt8) : List (Nat × List UInt8) → List UInt8
  | [] => output
  | (place, bytes) :: rest =>
    spliceFrom (drift + bytes.length) (splice output (place + drift) bytes) rest

/-- Puts outputs in at their places in the literal bytes. -/
def spliceAll (block : List UInt8) (outputs : List (Nat × List UInt8)) : List UInt8 :=
  spliceFrom 0 block outputs

end ThemePress.Render
