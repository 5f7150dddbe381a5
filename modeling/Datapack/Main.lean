import Datapack.CommandLine

/-!
# The program

Reads the part of the file system that a request is about, carries the request
out on it, and writes down what came of it.
-/

namespace Datapack.Main

/-- Text of a path from the root. -/
def absolute (p : Path) : String := "/" ++ "/".intercalate p

/-- Writes to the channel that the output is meant for. -/
def emit : Output → IO Unit
  | .result text => do
    let stdout ← IO.getStdout
    stdout.putStr text
    stdout.flush
  | .note text => IO.eprint text

/-- Names in a directory; nothing if there is no directory. -/
def namesIn (p : Path) : IO (Option (List String)) := do
  try
    let entries ← ((← IO.currentDir) / absolute p).readDir
    return some (entries.toList.map fun entry => entry.fileName)
  catch _ => return none

/-- The file at a path; only sources are read, of other files only the existence matters. -/
def fileAt (p : Path) : IO (Option ByteArray) := do
  try
    let content ← IO.FS.readBinFile (absolute p)
    return some (if (p.getLast?.bind stem?).isSome then content else ByteArray.empty)
  catch _ => return none

/-- Adds what stands at a path, without what lies below it. -/
def addHere (p : Path) (t : FileTree) : IO FileTree := do
  if (← namesIn p).isSome then return t.makeDirectory p
  match ← fileAt p with
  | some content => return t.write p content
  | none => return t

/-- Adds everything that lies below a path. -/
partial def addBelow (p : Path) (t : FileTree) : IO FileTree := do
  match ← namesIn p with
  | none => return t
  | some names =>
    names.foldlM (fun t name => do addBelow (p ++ [name]) (← addHere (p ++ [name]) t)) t

/-- The tree that a location leads through and to, with the output beside a single source. -/
def load (current : Path) (location : String) : IO FileTree := do
  let start := if location.toList.head? = some '/' then [] else current
  let mut tree := FileTree.empty.makeDirectories [] current
  let mut place := start
  for component in FileTree.components location do
    place := FileTree.follow place component
    tree ← addHere place tree
  if let some source := SourceFile.ofPath? "" place then
    tree ← addHere source.output tree
  addBelow place tree

/-- Answers lines of standard input until it ends. -/
partial def converse (verbose : Bool) (s : Session) : IO Unit := do
  let input ← (← IO.getStdin).getLine
  if input.isEmpty then return
  let mut session := s
  for line in Interactive.inputLines input do
    let (outputs, next) := Interactive.respond verbose session line
    outputs.forM emit
    session := next
  converse verbose session

/-- Carries out a request. -/
def carryOut (request : CommandLine.Request) : IO UInt32 := do
  match request with
  | .interactive verbose =>
    converse verbose .fresh
    return 0
  | .build options =>
    let current := (FileTree.components (← IO.currentDir).toString).foldl FileTree.follow []
    let outcome := request.run current (← load current options.location) ""
    for file in outcome.written do
      IO.FS.writeBinFile (absolute file.path) file.content
    outcome.outputs.forM emit
    return UInt32.ofNat outcome.exitCode
  | .version | .help =>
    (request.run [] .empty "").outputs.forM emit
    return 0

end Datapack.Main

/-- Reads the arguments and carries out what they ask for. -/
def main (arguments : List String) : IO UInt32 := do
  match Datapack.CommandLine.request arguments with
  | .ok request => Datapack.Main.carryOut request
  | .error e =>
    IO.eprintln ("error: " ++ e.message)
    return 2
