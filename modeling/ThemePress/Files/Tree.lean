import ThemePress.Files.Path

/-! # A tree of files

A tree holds files and folders, each at its place: the names on the way down to it. A path is
followed piece by piece, and every piece but the last has to lead to a folder; a path with a slash
at its end leads to a folder or nowhere. `Tree.filesBelow` lists the files at any depth below
a folder by their places, in order. -/

namespace ThemePress.Files

/-- The names on the way from the top down to a file or folder. -/
abbrev Place := List String

/-- May the first place stand before the second? Places are ordered by their first difference. -/
def Place.le : Place → Place → Bool
  | [], _ => true
  | _ :: _, [] => false
  | a :: p, b :: q => if a < b then true else if a = b then Place.le p q else false

/-- Why a path cannot be used. -/
inductive FileError where
  | missing
  | occupied
  | notFolder
  | isFolder
  | notText
  | other (reason : String)
  deriving DecidableEq, Repr

def FileError.message : FileError → String
  | missing => "No such file or directory (os error 2)"
  | occupied => "File exists (os error 17)"
  | notFolder => "Not a directory (os error 20)"
  | isFolder => "Is a directory (os error 21)"
  | notText => "stream did not contain valid UTF-8"
  | other reason => reason

/-- The bytes of a file, or why they cannot be read. -/
abbrev Content := Except FileError (List UInt8)

structure Tree where
  files : List (Place × Content) := []
  /-- The folders apart from the one at the top. -/
  folders : List Place := []
  deriving Inhabited

namespace Tree

def isFolder (t : Tree) (place : Place) : Bool :=
  place.isEmpty || t.folders.contains place

def content? (t : Tree) (place : Place) : Option Content :=
  t.files.lookup place

/-! ### Following paths -/

/-- The place that the pieces of a path lead to. -/
def follow (t : Tree) (place : Place) : List String → Except FileError Place
  | [] => .ok place
  | piece :: rest =>
    if !t.isFolder place then .error .notFolder
    else if piece = "" || piece = "." then follow t place rest
    else if piece = ".." then follow t place.dropLast rest
    else
      let next := place ++ [piece]
      if t.isFolder next || (t.content? next).isSome then follow t next rest
      else .error .missing

/-- The place that a path leads to. -/
def locate (t : Tree) (path : Path) : Except FileError Place :=
  t.follow [] path.pieces

/-- The folder that a path leads to. -/
def folder? (t : Tree) (path : Path) : Option Place :=
  match t.locate path with
  | .ok place => if t.isFolder place then some place else none
  | .error _ => none

/-- Does the path lead somewhere? -/
def holds (t : Tree) (path : Path) : Bool :=
  match t.locate path with
  | .ok _ => true
  | .error _ => false

/-- The bytes of the file that a path leads to. -/
def read (t : Tree) (path : Path) : Content := do
  let place ← t.locate path
  match t.content? place with
  | some content => content
  | none => .error .isFolder

/-! ### What a folder holds -/

/-- The names of the folders in a folder, in order. -/
def folderNames (t : Tree) (place : Place) : List String :=
  let names := t.folders.filterMap fun folder =>
    match place.isPrefixOf? folder with
    | some [name] => some name
    | _ => none
  names.mergeSort fun a b => decide (a ≤ b)

/-- The files at any depth below a folder, by their places in it, in order. -/
def filesBelow (t : Tree) (place : Place) : List (Place × Content) :=
  let files := t.files.filterMap fun (file, content) =>
    (place.isPrefixOf? file).map fun way => (way, content)
  files.mergeSort fun a b => Place.le a.1 b.1

/-! ### Changes -/

/-- Makes the folders on the way that are not there yet. -/
def makeFolders (t : Tree) (place : Place) : List String → Except FileError (Tree × Place)
  | [] => .ok (t, place)
  | piece :: rest =>
    if piece = "" || piece = "." then makeFolders t place rest
    else if piece = ".." then makeFolders t place.dropLast rest
    else
      let next := place ++ [piece]
      if t.isFolder next then makeFolders t next rest
      else if (t.content? next).isSome then
        .error (if rest.isEmpty then .occupied else .notFolder)
      else makeFolders { t with folders := t.folders ++ [next] } next rest

/-- Makes the folder that a path leads to, with all folders above it. -/
def makeFolder (t : Tree) (path : Path) : Except FileError Tree :=
  (t.makeFolders [] path.pieces).map (·.1)

/-- Puts a file at a place. -/
def put (t : Tree) (place : Place) (content : Content) : Tree :=
  { t with files := t.files.filter (·.1 != place) ++ [(place, content)] }

/-- Writes a file into a folder that is there. -/
def write (t : Tree) (path : Path) (bytes : List UInt8) : Except FileError Tree := do
  let pieces := path.pieces
  let place ← t.follow [] pieces.dropLast
  match pieces.getLast? with
  | none | some "" | some "." | some ".." => .error .isFolder
  | some name =>
    let file := place ++ [name]
    if !t.isFolder place then .error .notFolder
    else if t.isFolder file then .error .isFolder
    else .ok (t.put file (.ok bytes))

/-- Removes what a path leads to, a folder with everything in it. -/
def remove (t : Tree) (path : Path) : Tree :=
  match t.locate path with
  | .error _ => t
  | .ok place =>
    { files := t.files.filter fun file => !place.isPrefixOf file.1
      folders := t.folders.filter fun folder => !place.isPrefixOf folder }

end Tree

end ThemePress.Files
