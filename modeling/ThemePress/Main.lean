import ThemePress.Command.Run
import Std.Time.DateTime.Timestamp

/-! # The program

What a command may look at is fetched from the disk, and its output is put out. The file names to be
looked at can depend on the content of files, so they are fetched in three rounds: the
configuration, what it names, and what the data names. -/

namespace ThemePress.Command

open ThemePress.Files

/-- What went wrong on the disk. -/
def reasonOf : IO.Error → FileError
  | .permissionDenied _ code text | .inappropriateType _ code text
  | .noFileOrDirectory _ code text | .alreadyExists _ code text
  | .resourceExhausted _ code text | .otherError code text => .other s!"{text} (os error {code})"
  | e => .other e.toString

def diskPath (place : Place) : String :=
  "/" ++ String.intercalate "/" place

/-- Adds a folder. -/
def withFolder (tree : Tree) (place : Place) : Tree :=
  if tree.isFolder place then tree else { tree with folders := tree.folders ++ [place] }

/-- Adds a file with its content. -/
def withFile (tree : Tree) (place : Place) : IO Tree := do
  let content : Content ←
    try pure (.ok (← IO.FS.readBinFile (diskPath place)).toList)
    catch e => pure (.error (reasonOf e))
  return tree.put place content

/-- Adds everything below a folder. -/
partial def withContents (tree : Tree) (place : Place) : IO Tree := do
  let entries ←
    try (← IO.FS.realPath (diskPath place)).readDir
    catch _ => pure #[]
  let mut tree := tree
  for entry in entries do
    let inner := place ++ [entry.fileName]
    match (← entry.path.symlinkMetadata).type with
    | .dir => tree ← withContents (withFolder tree inner) inner
    | .file => tree ← withFile tree inner
    | _ => pure ()
  return tree

/-- Adds the folder or file at a place, if there is one. -/
def withPlace (tree : Tree) (place : Place) : IO Tree := do
  try
    if ← (← IO.FS.realPath (diskPath place)).isDir then return withFolder tree place
    else withFile tree place
  catch _ => return tree

/-- Adds what a path leads to, and the folders on the way. -/
def withPath (tree : Tree) (path : Path) : IO Tree := do
  let mut tree := tree
  let mut place : Place := []
  for piece in path.pieces do
    if piece = ".." then place := place.dropLast
    else if piece ≠ "" && piece ≠ "." then
      place := place ++ [piece]
      tree ← withPlace tree place
  if tree.isFolder place then withContents tree place else return tree

/-- The files that a command looks at. -/
def Invocation.fetch (i : Invocation) : IO Tree := do
  let mut tree : Tree := {}
  for _ in [0:3] do
    for path in i.wanted tree do
      tree ← withPath tree path
  return tree

/-- Writes the file of an output to the disk. -/
def Output.save (output : Output) : IO (Except Failure Output) := do
  match output.file with
  | none => return .ok output
  | some (path, bytes) =>
    try
      match path.parent?.filter fun parent => !parent.text.isEmpty with
      | none => pure ()
      | some parent => IO.FS.createDirAll parent.text
    catch e => return .error (.folderNotMade (path.parent?.getD path) (reasonOf e))
    try
      IO.FS.writeBinFile path.text (ByteArray.mk bytes.toArray)
      return .ok output
    catch e => return .error (.notWritten path (reasonOf e))

/-- A warning as it is shown. -/
def warningLine (w : Warning) : String :=
  let fields := w.fields.map fun (name, value) => s!" {name}={value}"
  s!"warning: {w.message}{String.join fields}"

/-- Puts out what a run has come to. -/
def Outcome.emit (o : Outcome) : IO UInt32 := do
  for w in o.warnings do
    IO.eprintln (warningLine w)
  let out ← IO.getStdout
  out.write (ByteArray.mk o.out.toArray)
  out.flush
  IO.eprint o.err
  return UInt32.ofNat o.exitCode

/-- The time of the clock. -/
def clock : IO Time.Instant := do
  let nanos := (← Std.Time.Timestamp.now).toNanosecondsSinceUnixEpoch.val
  let second : Int := Time.Instant.nanosPerSecond
  return ⟨nanos / second, (nanos % second).toNat⟩

/-- Runs the command that the words of the command line ask for. -/
def program (words : List String) : IO UInt32 := do
  match Arguments.read words with
  | .error stop => (Outcome.ofStop stop).emit
  | .ok arguments =>
    let current := (← IO.FS.realPath ".").toString
    let i : Invocation := { arguments, current := ⟨current⟩, now := ← clock }
    let result := Step.run (i.answer (← i.fetch))
    let value ← match result.value with
      | .error failure => pure (.error failure)
      | .ok output => output.save
    (Outcome.ofResult ⟨result.warnings, value⟩).emit

end ThemePress.Command

def main (words : List String) : IO UInt32 :=
  ThemePress.Command.program words
