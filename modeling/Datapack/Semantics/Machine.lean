import Datapack.Semantics.Board

/-!
# Running commands

Commands are run by their parts, never by their text. A comparison lets the rest
of its command run or not; a scope is handed on to the command line inside it;
a kept result is written once the rest has run.
-/

namespace Datapack

/-- What an edit by a fixed number makes of a score. -/
def EditVerb.apply : EditVerb → Int32 → Int32 → Int32
  | .add, x, n => x + n
  | .remove, x, n => x - n
  | .set, _, n => n

namespace Machine

/-- Does an action: its answer, and the board after it. -/
def act (p : Platform) (scopes : List Clause) : Action → Board → Int32 × Board
  | .declare _, b => (0, b)
  | .edit verb target amount, b =>
    let n := verb.apply (b.scores target) amount
    (n, b.put target n)
  | .operate target o source, b =>
    let n := p.combine o (b.scores target) (b.scores source)
    (n, b.put target n)
  | .raw line, b => b.perform p scopes line

/-- Does an action under clauses, outermost first; there is no answer if it did not run. -/
def govern (p : Platform) (scopes : List Clause) :
    List Clause → Action → Board → Option Int32 × Board
  | [], action, b =>
    let (n, b) := act p scopes action b
    (some n, b)
  | .compare negate first c second :: rest, action, b =>
    if c.holds (b.scores first).toInt (b.scores second).toInt != negate then
      govern p scopes rest action b
    else (none, b)
  | .keepResult target :: rest, action, b =>
    match govern p scopes rest action b with
    | (some n, b) => (some n, b.put target n)
    | (none, b) => (none, b)
  | .runAs selector :: rest, action, b => govern p (scopes ++ [.runAs selector]) rest action b
  | .verbatim text :: rest, action, b => govern p (scopes ++ [.verbatim text]) rest action b

/-- Runs one command. -/
def runCommand (p : Platform) (b : Board) (c : Command) : Board :=
  (govern p [] c.clauses c.action b).2

/-- Runs commands in order. -/
def run (p : Platform) (b : Board) (commands : List Command) : Board :=
  commands.foldl (runCommand p) b

/-- Running a list and then another is running both in a row. -/
theorem run_append (p : Platform) (b : Board) (first second : List Command) :
    run p b (first ++ second) = run p (run p b first) second :=
  List.foldl_append

end Machine

end Datapack
