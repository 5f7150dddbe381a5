import Datapack.Language.Operator
import Datapack.Number.Numeral

/-!
# Target commands

The target runs one command per line. A command has an action and, outermost
first, the clauses under which the action runs; each clause is written as
`execute … run` in front of what it governs. Commands are kept by their parts,
so that their meaning is read off the parts and not off their text. A store
declaration takes no clauses: it is made once and for all, whatever the clauses
around the statement that asked for it.
-/

namespace Datapack

/-- One entry of one store, in target names. -/
structure Score where
  entry : String
  store : String
  deriving DecidableEq, Repr

/-- Entry and store, divided by a blank. -/
def Score.render (s : Score) : String := s.entry ++ " " ++ s.store

/-- How a score is edited by a number that stands in the command. -/
inductive EditVerb where
  | add
  | remove
  | set
  deriving DecidableEq, Repr

namespace EditVerb

/-- The verb for an operator, if an edit by a fixed number can do its work. -/
def ofOperator? : Operator → Option EditVerb
  | .add => some .add
  | .sub => some .remove
  | .set => some .set
  | .mod | .mul | .div => none

/-- Target spelling of the verb. -/
def word : EditVerb → String
  | .add => "add"
  | .remove => "remove"
  | .set => "set"

/-- The verb undoing this one; `set` cannot be undone. -/
def opposite? : EditVerb → Option EditVerb
  | .add => some .remove
  | .remove => some .add
  | .set => none

end EditVerb

/-- Target spelling of an operator between two scores. -/
def Operator.targetSymbol : Operator → String
  | .add => "+="
  | .sub => "-="
  | .set => "="
  | .mod => "%="
  | .mul => "*="
  | .div => "/="

/-- Target spelling of a comparator between two scores. -/
def Comparator.targetSymbol : Comparator → String
  | .eq => "="
  | .neq => "!="
  | .gt => ">"
  | .gte => ">="
  | .lt => "<"
  | .lte => "<="

/-- What has to hold, or is done, around the rest of a command. -/
inductive Clause where
  /-- Runs the rest if the comparison holds, or if it fails when negated. -/
  | compare (negate : Bool) (first : Score) (comparator : Comparator) (second : Score)
  /-- Runs the rest as each entity of the selector. -/
  | runAs (selector : String)
  /-- Keeps the number that the rest answers. -/
  | keepResult (target : Score)
  /-- A clause in its target spelling. -/
  | verbatim (text : String)
  deriving DecidableEq, Repr

/-- Target spelling of the clause. -/
def Clause.render : Clause → String
  | .compare negate first comparator second =>
    (if negate then "unless" else "if") ++ " score " ++ first.render ++ " " ++
      comparator.targetSymbol ++ " " ++ second.render
  | .runAs selector => "as " ++ selector
  | .keepResult target => "store result score " ++ target.render
  | .verbatim text => text

/-- What a command does when its clauses let it run. -/
inductive Action where
  /-- Makes a store known to the target. -/
  | declare (store : String)
  | edit (verb : EditVerb) (target : Score) (amount : Int32)
  | operate (target : Score) (operator : Operator) (source : Score)
  /-- A command line that is passed through. -/
  | raw (line : String)
  deriving DecidableEq, Repr

/-- Target spelling of the action. -/
def Action.render : Action → String
  | .declare store => "scoreboard objectives add " ++ store ++ " dummy"
  | .edit verb target amount =>
    "scoreboard players " ++ verb.word ++ " " ++ target.render ++ " " ++ signedDecimal amount.toInt
  | .operate target operator source =>
    "scoreboard players operation " ++ target.render ++ " " ++ operator.targetSymbol ++ " " ++
      source.render
  | .raw line => line

/-- One command of the target. -/
structure Command where
  /-- Clauses in force, outermost first. -/
  clauses : List Clause
  action : Action
  deriving DecidableEq, Repr

namespace Command

/-- An action under no clause. -/
def bare (action : Action) : Command := ⟨[], action⟩

/-- A command line passed through as written. -/
def raw (line : String) : Command := bare (.raw line)

/-- Makes a store known to the target. -/
def declare (store : String) : Command := bare (.declare store)

/-- Combines the target score with the source score. -/
def operate (target : Score) (operator : Operator) (source : Score) : Command :=
  bare (.operate target operator source)

/-- Whether the command declares a store. -/
def isDeclaration (c : Command) : Bool :=
  match c.action with
  | .declare _ => true
  | _ => false

/-- Puts the command under one more clause, outside the others; a declaration stays as it is. -/
def under (clause : Clause) (c : Command) : Command :=
  if c.isDeclaration then c else ⟨clause :: c.clauses, c.action⟩

/-- Runs a command line and keeps its result in the target score. -/
def keepResult (target : Score) (line : String) : Command := (raw line).under (.keepResult target)

/--
Edits the target score by a fixed number. The target takes only non-negative
amounts for `add` and `remove`, so a negative one is given to the opposite verb,
in two steps if its opposite is out of range.
-/
def edit (verb : EditVerb) (target : Score) (amount : Int32) : List Command :=
  match verb.opposite? with
  | none => [bare (.edit verb target amount)]
  | some opposite =>
    if 0 ≤ amount then [bare (.edit verb target amount)]
    else if amount = Int32.minValue then
      [bare (.edit opposite target Int32.maxValue), bare (.edit opposite target 1)]
    else [bare (.edit opposite target (-amount))]

/-- Number of commands that `edit` gives. -/
def editLength (verb : EditVerb) (amount : Int32) : Nat :=
  if verb ≠ .set ∧ amount = Int32.minValue then 2 else 1

/-- Text of the command: every clause in front of what it governs. -/
def render (c : Command) : String :=
  c.clauses.foldr (fun clause rest => "execute " ++ clause.render ++ " run " ++ rest)
    c.action.render

/-- Commands in an output file are divided by this. -/
def lineSeparator : String := "\r\n"

/-- Contents of an output file. -/
def renderAll (commands : List Command) : String :=
  lineSeparator.intercalate (commands.map render)

/-- A clause governs exactly the commands that are not declarations. -/
theorem clauses_under (clause : Clause) (c : Command) :
    (c.under clause).clauses = if c.isDeclaration then c.clauses else clause :: c.clauses := by
  unfold under
  split <;> rfl

/-- No clause changes what a command does. -/
@[simp] theorem action_under (clause : Clause) (c : Command) :
    (c.under clause).action = c.action := by
  unfold under
  split <;> rfl

end Command

end Datapack
