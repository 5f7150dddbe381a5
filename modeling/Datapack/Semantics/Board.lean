import Datapack.Target.Command

/-!
# The scoreboard

What is taken for granted about the target. Scores are 32-bit numbers that wrap
around; adding, subtracting and setting are as usual, while the other three
operators and the effect of a command line belong to the platform, about which
nothing is known beyond what is stated here. Command lines are logged, together
with the clauses that were in force around them.
-/

namespace Datapack

/-- The number at every score. -/
abbrev Scores := Score → Int32

/-- The numbers with one of them replaced. -/
def Scores.put (b : Scores) (s : Score) (n : Int32) : Scores := fun t => if t = s then n else b t

@[simp] theorem Scores.put_same (b : Scores) (s : Score) (n : Int32) : b.put s n s = n := if_pos rfl

/-- Writing a score leaves all others alone. -/
theorem Scores.put_of_ne (b : Scores) {s t : Score} (h : t ≠ s) (n : Int32) :
    b.put s n t = b t := if_neg h

/-- A command line that was run, with the scopes around it, outermost first. -/
structure LogEntry where
  scopes : List Clause
  line : String
  deriving DecidableEq, Repr

/-- What the platform decides. -/
structure Platform where
  product : Int32 → Int32 → Int32
  quotient : Int32 → Int32 → Int32
  remainder : Int32 → Int32 → Int32
  /-- The number that a command line answers in its scopes, and the scores after it. -/
  perform : List Clause → String → Scores → Int32 × Scores

namespace Platform

/-- The number that an operator makes of an old number and another one. -/
def combine (p : Platform) : Operator → Int32 → Int32 → Int32
  | .add, x, y => x + y
  | .sub, x, y => x - y
  | .set, _, y => y
  | .mul, x, y => p.product x y
  | .div, x, y => p.quotient x y
  | .mod, x, y => p.remainder x y

/-- Command lines neither read nor change the scores of a store. -/
structure LeavesAlone (p : Platform) (store : String) : Prop where
  /-- Scores that agree outside the store lead to the same answer. -/
  answer_eq : ∀ (scopes : List Clause) (line : String) (b c : Scores),
    (∀ s, s.store ≠ store → b s = c s) →
      (p.perform scopes line b).1 = (p.perform scopes line c).1
  /-- Scores that agree outside the store still do so afterwards. -/
  scores_eq : ∀ (scopes : List Clause) (line : String) (b c : Scores),
    (∀ s, s.store ≠ store → b s = c s) →
      ∀ s, s.store ≠ store → (p.perform scopes line b).2 s = (p.perform scopes line c).2 s
  /-- Scores of the store stay as they are. -/
  unchanged : ∀ (scopes : List Clause) (line : String) (b : Scores) (s : Score),
    s.store = store → (p.perform scopes line b).2 s = b s

end Platform

/-- The scores and the command lines run so far. -/
structure Board where
  scores : Scores
  log : List LogEntry

namespace Board

/-- Sets one score. -/
def put (b : Board) (s : Score) (n : Int32) : Board := { b with scores := b.scores.put s n }

/-- Runs a command line: its answer, and the board after it. -/
def perform (p : Platform) (scopes : List Clause) (line : String) (b : Board) : Int32 × Board :=
  let (n, scores) := p.perform scopes line b.scores
  (n, ⟨scores, b.log ++ [⟨scopes, line⟩]⟩)

end Board

end Datapack
