import Datapack.Compile
import Datapack.Text.Backspace

/-!
# Working line by line

Each line of input is compiled in one session that goes on from line to line;
its commands, or the report of its error, are shown at once.
-/

namespace Datapack.Interactive

/-- Name under which the input is shown in reports. -/
def sourceName : String := "repl"

/-- A line that ended in a newline, without a carriage return before it. -/
def withoutReturn (cs : List Char) : List Char :=
  if cs.getLast? = some '\r' then cs.dropLast else cs

/-- The lines of an input, with their backspaces applied; what follows the last newline is a line
unless it is empty. -/
def inputLines (input : String) : List String :=
  let all := pieces '\n' input.toList
  let ended := all.dropLast.map withoutReturn
  let unended := all.getLast?.toList.filter (· ≠ [])
  (ended ++ unended).map fun line => String.ofList (applyBackspaces line)

/-- What is shown for a line that compiled. -/
def showCommands (verbose : Bool) (s : Session) (commands : List Command) : List Output :=
  commands.map (fun c => .result (Paint.cyan.apply c.render ++ "\n")) ++
    if verbose then
      [.note (Paint.dim.apply (decimal s.registers.available) ++ " registers free\n")]
    else []

/-- Answers one line; a blank line is passed over. -/
def respond (verbose : Bool) (s : Session) (line : String) : List Output × Session :=
  if line.toList.all isBlank then ([], s)
  else
    match s.compile line with
    | (.ok commands, s) => (showCommands verbose s commands, s)
    | (.error e, s) => ([.note (Diagnostic.report sourceName line e)], s)

/-- Answers lines in order. -/
def converse (verbose : Bool) (s : Session) : List String → List Output
  | [] => []
  | line :: rest =>
    let (outputs, s) := respond verbose s line
    outputs ++ converse verbose s rest

/-- Answers a whole input from a fresh session. -/
def run (verbose : Bool) (input : String) : List Output :=
  converse verbose .fresh (inputLines input)

end Datapack.Interactive
