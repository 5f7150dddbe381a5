import Datapack.Grammar.Program
import Datapack.Lowering.Statement
import Datapack.Text.Basic

/-!
# Compilation and its reports

A text is read as a program and lowered; why that failed is reported in paint,
with the place in the text if the error has one.
-/

namespace Datapack

/-! ## Compilation

Reading a text as a program and lowering it, in a session of its own or in one
that goes on. -/

/-- Why a text could not be compiled. -/
inductive CompileError where
  | parse (error : ParseError)
  | lower (error : LowerError)
  deriving DecidableEq, Repr

/-- Wording of the error. -/
def CompileError.message : CompileError → String
  | .parse error => error.message
  | .lower error => error.message

/-- Compiles a text in a session; a text that is no program leaves the session as it was. -/
def Session.compile (s : Session) (source : String) :
    Except CompileError (List Command) × Session :=
  match parse source with
  | .error e => (.error (.parse e), s)
  | .ok body =>
    let (result, s) := s.lowerAll body
    (result.mapError .lower, s)

/-- Compiles a text as a program of its own. -/
def compile (source : String) : Except CompileError (List Command) :=
  (Session.fresh.compile source).1

/-! ## Coloured text and output channels

Text on a terminal is painted by escape sequences around it, and goes to the
channel for results or to the one for messages. -/

/-- A way to paint text. -/
inductive Paint where
  | red
  | boldRed
  | boldGreen
  | cyan
  | dim
  deriving DecidableEq, Repr

/-- Parameters of the escape sequence that starts the paint. -/
def Paint.parameters : Paint → String
  | .red => "31"
  | .boldRed => "1;31"
  | .boldGreen => "1;32"
  | .cyan => "36"
  | .dim => "2"

/-- Text in the paint, which ends behind it. -/
def Paint.apply (p : Paint) (text : String) : String :=
  "\x1b[" ++ p.parameters ++ "m" ++ text ++ "\x1b[0m"

/-- Text written to one of the two channels. -/
inductive Output where
  /-- Results. -/
  | result (text : String)
  /-- Messages. -/
  | note (text : String)
  deriving DecidableEq, Repr

/-- All results, in order. -/
def Output.results (outputs : List Output) : String :=
  String.join (outputs.filterMap fun | .result text => some text | .note _ => none)

/-- All messages, in order. -/
def Output.notes (outputs : List Output) : String :=
  String.join (outputs.filterMap fun | .note text => some text | .result _ => none)

/-! ## Diagnostics

An error that has a place is shown in a frame with the lines it touches, the
place painted and the message drawn below it. Widths are counted in bytes. -/

namespace Diagnostic

/-- A line of a text, numbered from one, with the byte at which it starts. -/
structure SourceLine where
  number : Nat
  start : Nat
  content : List Char
  deriving DecidableEq, Repr

/-- Numbers lines, the first of which starts at byte `start`. -/
def numberLines (number start : Nat) : List (List Char) → List SourceLine
  | [] => []
  | content :: rest =>
    ⟨number, start, content⟩ :: numberLines (number + 1) (start + utf8Length content + 1) rest

/-- The lines of a text, without the newlines that end them. -/
def sourceLines (source : List Char) : List SourceLine := numberLines 1 0 (pieces '\n' source)

/-- Whether the byte lies in the line, the newline at its end counted. -/
def SourceLine.covers (l : SourceLine) (offset : Nat) : Bool :=
  l.start ≤ offset && offset ≤ l.start + utf8Length l.content

/-- The line before and from a byte that lies in it. -/
def SourceLine.cut (l : SourceLine) (offset : Nat) : List Char × List Char :=
  splitAtByte (offset - l.start) l.content

/-- Where to point: an empty span stands for the last character before it that is not blank. -/
def visible (source : List Char) (span : Span) : Option Span :=
  if span.isEmpty then
    let before := trimEnd (splitAtByte span.start source).1
    before.getLast?.map fun c => ⟨utf8Length before - c.utf8Size, utf8Length before⟩
  else some span

/-- `n` spaces. -/
def spaces (n : Nat) : String := String.ofList (List.replicate n ' ')

/-- A horizontal stroke of `n` characters. -/
def stroke (n : Nat) : String := String.ofList (List.replicate n '─')

/-- Paints what belongs to the error. -/
def red (text : String) : String := Paint.red.apply text

/-- The number at the left of the frame, filled up to its width. -/
def aligned (width number : Nat) : String :=
  spaces (width - (decimal number).length) ++ decimal number

/-- A row of the frame that shows a line of the text. -/
def codeRow (width : Nat) (l : SourceLine) (shown : String) : String :=
  aligned width l.number ++ " │ " ++ shown ++ "\n"

/-- A row of the frame below a line of the text. -/
def noteRow (width : Nat) (shown : String) : String := spaces width ++ " ┆ " ++ shown ++ "\n"

/-- The rows for a span within one line. -/
def singleLine (width : Nat) (l : SourceLine) (span : Span) (message : String) : String :=
  let (before, rest) := l.cut span.start
  let (code, after) := splitAtByte (span.stop - span.start) rest
  let indent := utf8Length before
  let tail := utf8Length after
  let left := utf8Length code / 2
  let right := utf8Length code - left - 1
  codeRow width l (String.ofList before ++ red (String.ofList code) ++ String.ofList after) ++
    noteRow width (spaces indent ++ red (stroke left ++ "┬" ++ stroke right) ++ spaces tail) ++
    noteRow width (spaces indent ++ red (spaces left ++ "│" ++ spaces right) ++ spaces tail) ++
    noteRow width (spaces (indent + left) ++ red ("╰" ++ stroke (right + tail + 1)) ++ " " ++
      red message)

/-- The rows for the first line of a span over several lines. -/
def firstLine (width : Nat) (l : SourceLine) (span : Span) : String :=
  let (before, code) := l.cut span.start
  let indent := utf8Length before
  codeRow width l ("  " ++ String.ofList before ++ red (String.ofList code)) ++
    noteRow width ("  " ++ spaces indent ++ red "▲") ++
    noteRow width (red ("╭" ++ stroke (indent + 1) ++ "╯"))

/-- The rows for a line that lies in the span as a whole. -/
def middleLine (width : Nat) (l : SourceLine) : String :=
  codeRow width l (red "│" ++ " " ++ red (String.ofList l.content)) ++
    noteRow width (red "│" ++ spaces (utf8Length l.content))

/-- The rows for the last line of a span over several lines. -/
def lastLine (width : Nat) (l : SourceLine) (span : Span) (message : String) : String :=
  let (code, after) := l.cut span.stop
  let inner := utf8Length code
  let tail := utf8Length after
  codeRow width l (red "│" ++ " " ++ red (String.ofList code) ++ String.ofList after) ++
    noteRow width (red "│" ++ spaces inner ++ red "▲" ++ spaces tail) ++
    noteRow width (red "│" ++ spaces inner ++ red "│" ++ spaces tail) ++
    noteRow width (red ("╰" ++ stroke inner ++ "┴" ++ stroke (tail + 1)) ++ " " ++
      red message)

/-- The rows between the head and the foot of the frame. -/
def rows (width : Nat) (lines : List SourceLine) (first last : SourceLine) (span : Span)
    (message : String) : String :=
  if first.number = last.number then singleLine width first span message
  else
    let between := lines.filter fun l => first.number < l.number && l.number < last.number
    firstLine width first span ++ String.join (between.map (middleLine width)) ++
      lastLine width last span message

/-- The frame around the lines that a span touches. -/
def frame (name : String) (source : List Char) (span : Span) (message : String) : String :=
  let lines := sourceLines source
  match lines.find? (·.covers span.start), lines.find? (·.covers span.stop) with
  | some first, some last =>
    let width := (decimal last.number).length
    spaces width ++ " ╭─[" ++ name ++ "]\n" ++ spaces width ++ " │\n" ++
      rows width lines first last span message ++ stroke (width + 1) ++ "╯\n"
  | _, _ => ""

/-- The report of an error in a text of a given name. -/
def report (name source : String) (error : CompileError) : String :=
  let headline := Paint.boldRed.apply "error:" ++ " " ++ error.message ++ "\n"
  match error with
  | .lower _ => headline
  | .parse error =>
    match visible source.toList error.span with
    | some span => headline ++ frame name source.toList span error.message
    | none => headline

end Diagnostic

end Datapack
