import Datapack.Files.Build
import Datapack.Interactive

/-!
# The command line

Arguments are read from left to right, and the first one that asks for the
version, asks for help or makes no sense settles the matter. Working line by
line goes neither with a location nor with overwriting.
-/

namespace Datapack.CommandLine

/-- Why arguments make no sense. -/
inductive UsageError where
  | unknown (argument : String)
  | positional (argument : String)
  | missingValue (option : String)
  | unwantedValue (option : String)
  | repeated (option : String)
  | conflict (option : String)
  deriving DecidableEq, Repr

/-- Wording of the error. -/
def UsageError.message : UsageError → String
  | .unknown argument => "unexpected argument '" ++ argument ++ "' found"
  | .positional argument => "unexpected argument '" ++ argument ++ "' found"
  | .missingValue option => "a value is required for '" ++ option ++ "'"
  | .unwantedValue option => "unexpected value for '" ++ option ++ "' found"
  | .repeated option => "the argument '" ++ option ++ "' cannot be used multiple times"
  | .conflict option => "the argument '--repl' cannot be used with '" ++ option ++ "'"

/-- What the arguments ask for. -/
inductive Request where
  | version
  | help
  | build (options : BuildOptions)
  | interactive (verbose : Bool)
  deriving DecidableEq, Repr

/-- The options read so far. -/
structure Settings where
  file : Option String
  overwrite : Bool
  verbose : Bool
  repl : Bool
  deriving DecidableEq, Repr

/-- No option was given. -/
def Settings.initial : Settings := ⟨none, false, false, false⟩

/-- The source file that is compiled where no location is given. -/
def defaultLocation : String := "main.dpl"

/-- The options there are. -/
inductive Switch where
  | file
  | overwrite
  | verbose
  | repl
  | version
  | help
  deriving DecidableEq, Repr

namespace Switch

/-- Long spelling of an option. -/
def long : Switch → String
  | .file => "--file"
  | .overwrite => "--overwrite"
  | .verbose => "--verbose"
  | .repl => "--repl"
  | .version => "--version"
  | .help => "--help"

/-- The option with a long spelling. -/
def ofLong? (text : String) : Option Switch :=
  [file, overwrite, verbose, repl, version, help].find? (·.long = text)

/-- The option with a short spelling. -/
def ofShort? : Char → Option Switch
  | 'f' => some .file
  | 'v' => some .verbose
  | 'V' => some .version
  | 'h' => some .help
  | _ => none

end Switch

/-- How far reading has come after an argument. -/
inductive Progress where
  /-- Nothing that follows matters. -/
  | settled (request : Request)
  /-- Reading goes on, and the next argument is a location if one is awaited. -/
  | going (settings : Settings) (awaitsFile : Bool)
  /-- The options are over. -/
  | closed (settings : Settings)
  deriving DecidableEq, Repr

/-- Takes note of a location. -/
def setFile (s : Settings) (value : String) : Except UsageError Progress :=
  if s.file.isSome then .error (.repeated "--file")
  else if value = "" then .error (.missingValue "--file")
  else .ok (.going { s with file := some value } false)

/-- Takes note of an option without value; a question about the program is answered at once. -/
def setSwitch (s : Settings) : Switch → Except UsageError Progress
  | .overwrite =>
    if s.overwrite then .error (.repeated "--overwrite")
    else .ok (.going { s with overwrite := true } false)
  | .verbose =>
    if s.verbose then .error (.repeated "--verbose")
    else .ok (.going { s with verbose := true } false)
  | .repl =>
    if s.repl then .error (.repeated "--repl") else .ok (.going { s with repl := true } false)
  | .version => .ok (.settled .version)
  | .help => .ok (.settled .help)
  | .file => .ok (.going s true)

/-- What an argument says when it stands alone. -/
inductive Argument where
  /-- The arguments after it are no options. -/
  | endOfOptions
  | long (name : String) (value : Option String)
  /-- Options of one letter, run together. -/
  | short (letters : List Char)
  | positional
  deriving DecidableEq, Repr

/-- Recognises the form of an argument. -/
def Argument.ofString (text : String) : Argument :=
  match text.toList with
  | ['-', '-'] => .endOfOptions
  | '-' :: '-' :: _ =>
    match splitPieces '=' text.toList with
    | (name, []) => .long (String.ofList name) none
    | (name, value) => .long (String.ofList name) (some (String.ofList (joinPieces '=' value)))
  | '-' :: c :: cs => .short (c :: cs)
  | _ => .positional

/-- Reads an option in its long spelling, with the value joined to it. -/
def readLong (s : Settings) (name : String) (value : Option String) : Except UsageError Progress :=
  match Switch.ofLong? name, value with
  | none, _ => .error (.unknown name)
  | some .file, some value => setFile s value
  | some _, some _ => .error (.unwantedValue name)
  | some switch, none => setSwitch s switch

/-- Reads one-letter options; a location may follow its letter, with or without `=`. -/
def readShort (s : Settings) : List Char → Except UsageError Progress
  | [] => .ok (.going s false)
  | c :: cs =>
    match Switch.ofShort? c, cs with
    | none, _ => .error (.unknown (String.ofList ['-', c]))
    | some .file, '=' :: value => setFile s (String.ofList value)
    | some .file, d :: value => setFile s (String.ofList (d :: value))
    | some switch, cs =>
      match setSwitch s switch with
      | .ok (.going s false) => readShort s cs
      | other => other

/-- Whether an argument can be the value of the option before it. -/
def isValue (argument : String) : Bool :=
  match argument.toList with
  | '-' :: rest => rest.isEmpty
  | _ => true

/-- Reads one argument. -/
def readOne (s : Settings) (awaitsFile : Bool) (argument : String) :
    Except UsageError Progress :=
  if awaitsFile then
    if isValue argument then setFile s argument else .error (.missingValue "--file")
  else
    match Argument.ofString argument with
    | .endOfOptions => .ok (.closed s)
    | .long name value => readLong s name value
    | .short letters => readShort s letters
    | .positional => .error (.positional argument)

/-- Checks the options as a whole. -/
def conclude (s : Settings) : Except UsageError Request :=
  if s.repl then
    if s.file.isSome then .error (.conflict "--file")
    else if s.overwrite then .error (.conflict "--overwrite")
    else .ok (.interactive s.verbose)
  else .ok (.build ⟨s.file.getD defaultLocation, s.overwrite, s.verbose⟩)

/-- Reads arguments in order; when the options are over, nothing may follow. -/
def readAll (s : Settings) (awaitsFile : Bool) : List String → Except UsageError Request
  | [] => if awaitsFile then .error (.missingValue "--file") else conclude s
  | argument :: rest =>
    match readOne s awaitsFile argument with
    | .error e => .error e
    | .ok (.settled request) => .ok request
    | .ok (.going s awaitsFile) => readAll s awaitsFile rest
    | .ok (.closed s) =>
      match rest with
      | [] => conclude s
      | extra :: _ => .error (.positional extra)

/-- Reads the arguments of the program. -/
def request (arguments : List String) : Except UsageError Request :=
  readAll .initial false arguments

/-- Name and version of the program. -/
def versionText : String := "dplc 0.1.0\n"

/-- Explanation of the arguments. -/
def helpText : String :=
  "Compile datapack sources into .mcfunction files\n\n" ++
  "Usage: dplc [OPTIONS]\n\nOptions:\n" ++
  "  -f, --file <FILE>  Source file, or a directory to search for .dpl files " ++
  "[default: main.dpl]\n" ++
  "      --overwrite    Replace output files that already exist\n" ++
  "  -v, --verbose      Print a line for every compiled file\n" ++
  "      --repl         Translate lines interactively instead of compiling files\n" ++
  "  -h, --help         Print help\n" ++
  "  -V, --version      Print version\n"

/-- What a whole run of the program comes to. -/
structure Outcome where
  exitCode : Nat
  outputs : List Output
  written : List Build.Written
  tree : FileTree

/-- The line that reports why a run failed. -/
def failureLine (message : String) : String := "Error: " ++ message ++ "\n"

/-- Carries out a request on a tree, from a current directory, with an input. -/
def Request.run (r : Request) (current : Path) (t : FileTree) (input : String) : Outcome :=
  match r with
  | .version => ⟨0, [.result versionText], [], t⟩
  | .help => ⟨0, [.result helpText], [], t⟩
  | .interactive verbose => ⟨0, Interactive.run verbose input, [], t⟩
  | .build options =>
    match Build.run options current t with
    | (.ok (), p) => ⟨0, p.outputs, p.written, p.tree⟩
    | (.error e, p) => ⟨1, p.outputs ++ [.note (failureLine e.message)], p.written, p.tree⟩

end Datapack.CommandLine
