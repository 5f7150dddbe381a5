import Datapack.Compile
import Datapack.Files.Tree

/-!
# Compiling files

A run compiles one source file, or every source file below a directory, each
into an output file beside it. Sources are taken in the order of their paths.
A run stops at a source whose output is in the way or which is no text; a source
that does not compile is reported, counted and passed over.
-/

namespace Datapack

/-- Extension of source files. -/
def sourceExtension : String := "dpl"

/-- Extension of output files. -/
def outputExtension : String := "mcfunction"

/-- The rest of a text that ends in `ending`. -/
def withoutEnding? (ending cs : List Char) : Option (List Char) :=
  let n := cs.length - ending.length
  if cs.drop n = ending then some (cs.take n) else none

/-- A file name without the source extension; nothing but the extension is no source. -/
def stem? (name : String) : Option String :=
  match withoutEnding? ("." ++ sourceExtension).toList name.toList with
  | some (c :: cs) => some (String.ofList (c :: cs))
  | _ => none

/-- What a run is asked for. -/
structure BuildOptions where
  /-- A source file, or a directory to search for them. -/
  location : String
  /-- Whether outputs that exist are replaced. -/
  overwrite : Bool
  /-- Whether each compiled file is reported. -/
  verbose : Bool
  deriving DecidableEq, Repr

/-- A source file: the directory it lies in, its name without extension, and how it is shown. -/
structure SourceFile where
  directory : Path
  stem : String
  /-- Text of the path up to the stem, as it was given. -/
  lead : String
  deriving DecidableEq, Repr

namespace SourceFile

/-- A file name with an extension. -/
def named (stem extension : String) : String := stem ++ "." ++ extension

/-- Where the source lies. -/
def path (f : SourceFile) : Path := f.directory ++ [named f.stem sourceExtension]

/-- Name of the output: the output extension stands behind the last dot of the source's name,
unless the name up to that dot is `..`, which leads up and takes no extension. -/
def outputName (f : SourceFile) : String :=
  if f.stem = "." then ".." else named f.stem outputExtension

/-- Where its output goes. -/
def output (f : SourceFile) : Path := FileTree.follow f.directory f.outputName

/-- How the source is shown. -/
def shown (f : SourceFile) : String := f.lead ++ named f.stem sourceExtension

/-- How its output is shown. -/
def shownOutput (f : SourceFile) : String := f.lead ++ f.outputName

/-- The source at a path, shown with `lead` in front of its name, if it is named as one. -/
def ofPath? (lead : String) (p : Path) : Option SourceFile := do
  let name ← p.getLast?
  let stem ← stem? name
  return ⟨p.dropLast, stem, lead⟩

/-- The output lies beside the source, unless its name leads up. -/
theorem output_of_stem_ne {f : SourceFile} (h : f.stem ≠ ".") :
    f.output = f.directory ++ [named f.stem outputExtension] := by
  have hlength : 2 < (named f.stem outputExtension).length := by
    simp only [named, String.length_append]
    have : outputExtension.length = 10 := rfl
    omega
  have hname : ∀ s : String, s.length ≤ 2 → named f.stem outputExtension ≠ s := by
    rintro s hs rfl
    omega
  simp [output, outputName, h, FileTree.follow, hname "" (by decide), hname "." (by decide),
    hname ".." (by decide)]

end SourceFile

/-- Why a run ends with a failure. -/
inductive BuildError where
  | missing (location : String)
  | noSources (location : String)
  | outputIsDirectory (shown : String)
  | outputExists (shown : String)
  | notText (shown : String)
  | failed (count total : Nat)
  deriving DecidableEq, Repr

/-- Wording of the error. -/
def BuildError.message : BuildError → String
  | .missing location => location ++ " does not exist"
  | .noSources location => "no ." ++ sourceExtension ++ " files found at " ++ location
  | .outputIsDirectory shown => "output path " ++ shown ++ " is a directory"
  | .outputExists shown => shown ++ " already exists, pass --overwrite to replace it"
  | .notText shown =>
    "reading " ++ shown ++ "\n\nCaused by:\n    stream did not contain valid UTF-8"
  | .failed count total =>
    decimal count ++ " of " ++ decimal total ++ " files failed to compile"

namespace Build

/-- Order of paths: component by component, each in the order of its characters. -/
def pathLe (p q : Path) : Bool := !decide (q < p)

/-- Files at or below a path, in order, by their paths from there. -/
def filesBelow (t : FileTree) (root : Path) : List Path :=
  let below := t.files.filterMap fun (p, _) =>
    if root.isPrefixOf p then some (p.drop root.length) else none
  below.mergeSort pathLe

/-- How the directory of a file below a directory is shown, up to the file's name. -/
def leadOf (location : String) (relative : Path) : String :=
  let start := if location.toList.getLast? = some '/' then location else location ++ "/"
  relative.dropLast.foldl (fun lead name => lead ++ name ++ "/") start

/-- Text of a path up to its last component. -/
def leadOfFile (location : String) : String :=
  String.ofList (location.toList.reverse.dropWhile (· ≠ '/')).reverse

/-- The sources at or below a path that the location led to. -/
def sourcesAt (t : FileTree) (location : String) (p : Path) : List SourceFile :=
  if t.isDirectory p then
    (filesBelow t p).filterMap fun relative =>
      SourceFile.ofPath? (leadOf location relative) (p ++ relative)
  else (SourceFile.ofPath? (leadOfFile location) p).toList

/-- What becomes of one source. -/
inductive Verdict where
  /-- The run stops. -/
  | refused (error : BuildError)
  /-- The source does not compile. -/
  | rejected (content : String) (error : CompileError)
  /-- The output is written. -/
  | accepted (commands : List Command)

/-- Judges one source on the tree as it stands. -/
def judge (t : FileTree) (overwrite : Bool) (f : SourceFile) : Verdict :=
  if t.isDirectory f.output then .refused (.outputIsDirectory f.shownOutput)
  else if (t.get? f.output).isSome && !overwrite then .refused (.outputExists f.shownOutput)
  else
    match t.text? f.path with
    | none => .refused (.notText f.shown)
    | some content =>
      match compile content with
      | .ok commands => .accepted commands
      | .error e => .rejected content e

/-- Contents of the output for a list of commands. -/
def outputContent (commands : List Command) : ByteArray := (Command.renderAll commands).toUTF8

/-- The line that reports a compiled file. -/
def compiledLine (f : SourceFile) (commands : List Command) : String :=
  Paint.boldGreen.apply "compiled" ++ " " ++ f.shown ++ " -> " ++ f.shownOutput ++ " (" ++
    decimal commands.length ++ " commands)\n"

/-- A file written by a run. -/
structure Written where
  path : Path
  content : ByteArray

/-- What a run has done so far. -/
structure Progress where
  tree : FileTree
  /-- Files written, in order. -/
  written : List Written
  outputs : List Output
  /-- Number of sources that did not compile. -/
  failed : Nat

/-- Takes one source further; the run stops at a refusal. -/
def advance (o : BuildOptions) (f : SourceFile) (p : Progress) :
    Except BuildError Unit × Progress :=
  match judge p.tree o.overwrite f with
  | .refused e => (.error e, p)
  | .rejected content e =>
    let report := Diagnostic.report f.shown content e
    (.ok (), { p with outputs := p.outputs ++ [.note report], failed := p.failed + 1 })
  | .accepted commands =>
    let content := outputContent commands
    let outputs := if o.verbose then [.note (compiledLine f commands)] else []
    (.ok (), { p with
      tree := p.tree.write f.output content
      written := p.written ++ [⟨f.output, content⟩]
      outputs := p.outputs ++ outputs })

/-- Takes sources in order until one is refused. -/
def advanceAll (o : BuildOptions) :
    List SourceFile → Progress → Except BuildError Unit × Progress
  | [], p => (.ok (), p)
  | f :: rest, p =>
    match advance o f p with
    | (.ok (), p) => advanceAll o rest p
    | (.error e, p) => (.error e, p)

/-- Runs on a tree from a current directory. -/
def run (o : BuildOptions) (current : Path) (t : FileTree) : Except BuildError Unit × Progress :=
  let start : Progress := ⟨t, [], [], 0⟩
  match t.resolve? current o.location with
  | none => (.error (.missing o.location), start)
  | some p =>
    let sources := sourcesAt t o.location p
    if sources.isEmpty then (.error (.noSources o.location), start)
    else
      match advanceAll o sources start with
      | (.ok (), p) =>
        if p.failed = 0 then (.ok (), p) else (.error (.failed p.failed sources.length), p)
      | (.error e, p) => (.error e, p)

end Build

end Datapack
