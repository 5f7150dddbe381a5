/-!
# Operators and comparators of the language

Six operators combine a score with a value; `set` only assigns, the other five
also stand inside calculations. Six comparators stand between the two sides of
a condition. The symbols here are the source spellings; the target has its own.
-/

namespace Datapack

/-- What an assignment or a calculation does with its two values. -/
inductive Operator where
  | add
  | sub
  | set
  | mod
  | mul
  | div
  deriving DecidableEq, Repr

/-- How the two sides of a condition are compared. -/
inductive Comparator where
  | eq
  | neq
  | gt
  | gte
  | lt
  | lte
  deriving DecidableEq, Repr

namespace Operator

/-- Binding strength inside calculations: a larger number binds tighter. -/
def precedence : Operator → Nat
  | .set => 0
  | .add | .sub => 1
  | .mod | .mul | .div => 2

/-- Source spelling of the operator between two operands. -/
def symbol : Operator → String
  | .add => "+"
  | .sub => "-"
  | .set => "="
  | .mod => "%"
  | .mul => "*"
  | .div => "/"

end Operator

namespace Comparator

/-- Source spelling of the comparator. -/
def symbol : Comparator → String
  | .eq => "=="
  | .neq => "!="
  | .gt => ">"
  | .gte => ">="
  | .lt => "<"
  | .lte => "<="

/-- Whether the comparison holds between two numbers. -/
def holds (c : Comparator) (x y : Int) : Bool :=
  match c with
  | .eq => decide (x = y)
  | .neq => decide (x ≠ y)
  | .gt => decide (x > y)
  | .gte => decide (x ≥ y)
  | .lt => decide (x < y)
  | .lte => decide (x ≤ y)

end Comparator

end Datapack
