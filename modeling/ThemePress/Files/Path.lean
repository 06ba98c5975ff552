import ThemePress.Text.Slash

/-! # Paths

A path is kept as it is written. It is read as the pieces between its slashes: an empty piece and
the piece `.` stand for nothing, except that a relative path may start with `.`, and `..` stands for
the folder above. `Path.join` and `Path.parent?` work on the text alone, so that a path is shown in
the way it came about. -/

namespace ThemePress.Files

/-- A path as it is written. -/
structure Path where
  text : String
  deriving DecidableEq, Repr, Inhabited

namespace Path

/-- The parts of a text between slashes. -/
def split : List Char → List (List Char)
  | [] => [[]]
  | c :: s => if c = '/' then [] :: split s else Text.prolong c (split s)

/-- The parts of the path between slashes. -/
def pieces (p : Path) : List String :=
  (split p.text.toList).map String.ofList

/-- Does the path start at the top of all folders? -/
def isAbsolute (p : Path) : Bool :=
  p.text.startsWith "/"

/-- The path that is found by `q` when one stands at `p`. -/
def join (p : Path) (q : String) : Path :=
  if q.startsWith "/" then ⟨q⟩
  else if p.text.isEmpty || Text.endsInSlash p.text then ⟨p.text ++ q⟩
  else ⟨p.text ++ "/" ++ q⟩

/-- Drops the pieces that stand for nothing. The last piece comes first. -/
def trimPieces : List String → List String
  | [] => []
  | piece :: earlier =>
    if piece = "" || (piece = "." && !earlier.isEmpty) then trimPieces earlier
    else piece :: earlier

/-- The name of the file or folder that the path leads to. -/
def name? (p : Path) : Option String :=
  match trimPieces p.pieces.reverse with
  | [] => none
  | piece :: _ => if piece = "." || piece = ".." then none else some piece

/-- The path without its last piece. -/
def parent? (p : Path) : Option Path :=
  match trimPieces p.pieces.reverse with
  | [] => none
  | _ :: earlier =>
    match trimPieces earlier with
    | [] => some (if p.isAbsolute then ⟨"/"⟩ else ⟨""⟩)
    | kept => some ⟨String.intercalate "/" kept.reverse⟩

end Path

end ThemePress.Files
