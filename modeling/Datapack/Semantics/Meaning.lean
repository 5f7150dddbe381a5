import Datapack.Language.Node
import Datapack.Semantics.Board

/-!
# The meaning of programs

What statements do to a scoreboard on which every score of the program has its
address. Nothing is said here of registers, clauses on commands or the order in
which names are given out. A condition is decided once, before its body runs.
-/

namespace Datapack.Meaning

/-- Where the scores of a program stand. -/
abbrev Address := Access → Score

/-- The number of a value, and the board after working it out; other phrases count as zero. -/
def value (p : Platform) (address : Address) (scopes : List Clause) :
    Node → Board → Int32 × Board
  | .int n, b => (n, b)
  | .access a, b => (b.scores (address a), b)
  | .calc first o second, b =>
    let (m, b) := value p address scopes first b
    let (n, b) := value p address scopes second b
    (p.combine o m n, b)
  | .text line, b => b.perform p scopes line
  | _, b => (0, b)

/-- Combines a score with the number of a value. -/
def assign (p : Platform) (address : Address) (scopes : List Clause) (target : Access)
    (o : Operator) (node : Node) (b : Board) : Board :=
  let (n, b) := value p address scopes node b
  b.put (address target) (p.combine o (b.scores (address target)) n)

/-- Whether a condition holds, and the board after working out both of its sides. -/
def condition (p : Platform) (address : Address) (scopes : List Clause) (negate : Bool)
    (first : Node) (c : Comparator) (second : Node) (b : Board) : Bool × Board :=
  let (m, b) := value p address scopes first b
  let (n, b) := value p address scopes second b
  (c.holds m.toInt n.toInt != negate, b)

mutual

/-- What a statement does; phrases that are no statements do nothing. -/
def run (p : Platform) (address : Address) (scopes : List Clause) : Node → Board → Board
  | .block body, b => runAll p address scopes body b
  | .text line, b => (b.perform p scopes line).2
  | .assign target o node, b => assign p address scopes target o node b
  | .branch negate first c second body, b =>
    let (holds, b) := condition p address scopes negate first c second b
    if holds then runAll p address scopes body b else b
  | .runAs selector body, b => runAll p address (scopes ++ [.runAs selector]) body b
  | _, b => b

/-- What statements do in order. -/
def runAll (p : Platform) (address : Address) (scopes : List Clause) :
    List Node → Board → Board
  | [], b => b
  | node :: rest, b => runAll p address scopes rest (run p address scopes node b)

end

end Datapack.Meaning
