import Datapack.Grammar.Expression

/-!
# Statements

Statements follow one another without a separator. The body of a conditional or
of a scope is one statement, or any number of them in braces.
-/

namespace Datapack.Grammar

/-- What stands between a target and its new value: an operator, and the value if it is implied. -/
def assignmentSign : Token → Option (Operator × Option Node)
  | .assignment o => some (o, none)
  | .increment => some (.add, some (.int 1))
  | .decrement => some (.sub, some (.int 1))
  | _ => none

/-- The word for the only thing that can be created. -/
def storeWord : String := "store"

/-- Reads the name of a store to create. -/
def createdStore : (ts : List Token) → Reading Node ts.length
  | .identifier name :: rest => .ok (.here (.create name) rest)
  | ts => missing .storeName ts

/-- Reads what follows the word `create`. -/
def creation : (ts : List Token) → Reading Node ts.length
  | .identifier word :: rest =>
    if word = storeWord then Found.behind <$> createdStore rest
    else .error ⟨.uncreatable word, .identifier word :: rest⟩
  | ts => missing .storeWord ts

/-- Reads an assignment or a value that stands as a statement. -/
def assignmentOrValue (ts : List Token) : Reading Node ts.length := do
  let ⟨target, rest, h⟩ ← primary ts
  match rest, h with
  | [], h => .ok ⟨target, [], h⟩
  | sign :: rest, h =>
    match assignmentSign sign, target with
    | some (o, some implied), .access target =>
      .ok ⟨.assign target o implied, rest, Nat.lt_of_succ_lt h⟩
    | some (o, none), .access target => do
      let ⟨value, rest, h'⟩ ← expression rest
      .ok ⟨.assign target o value, rest, Nat.lt_trans h' (Nat.lt_of_succ_lt h)⟩
    | some _, target => .error ⟨.unassignable target.kind ts, sign :: rest⟩
    | none, target => do
      let ⟨value, rest, h'⟩ ← afterPrimary target (sign :: rest)
      .ok ⟨value, rest, Nat.lt_of_lt_of_le h' h⟩

/-- Both sides of a condition. -/
structure Condition where
  first : Node
  comparator : Comparator
  second : Node

/-- The conditional statement with a given body. -/
def Condition.branch (c : Condition) (negate : Bool) (body : List Node) : Node :=
  .branch negate c.first c.comparator c.second body

/-- Reads the two values of a condition and the comparator between them. -/
def condition (ts : List Token) : Reading Condition ts.length := do
  let ⟨first, rest, h⟩ ← expression ts
  match rest, h with
  | .comparison comparator :: rest, h => do
    let ⟨second, rest, h'⟩ ← expression rest
    .ok ⟨⟨first, comparator, second⟩, rest, Nat.lt_trans h' (Nat.lt_of_succ_lt h)⟩
  | rest, _ => missing .comparator rest

mutual

/-- Reads one statement. -/
def statement (ts : List Token) : Reading Node ts.length :=
  match ts with
  | [] => missing .statement []
  | .createWord :: rest => Found.behind <$> creation rest
  | .ifWord :: .notWord :: rest => (fun f => f.behind.behind) <$> conditional true rest
  | .ifWord :: rest => Found.behind <$> conditional false rest
  | .asWord :: .text selector :: rest =>
    (fun f => (f.map (Node.runAs selector)).behind.behind) <$> body rest
  | .asWord :: rest => missing .selector rest
  | ts => assignmentOrValue ts
termination_by 3 * ts.length

/-- Reads the condition and the body of a conditional statement. -/
def conditional (negate : Bool) (ts : List Token) : Reading Node ts.length := do
  let ⟨c, rest, h⟩ ← condition ts
  let ⟨nodes, rest, h'⟩ ← body rest
  .ok ⟨c.branch negate nodes, rest, Nat.lt_trans h' h⟩
termination_by 3 * ts.length

/-- Reads a statement, or statements in braces. -/
def body (ts : List Token) : Reading (List Node) ts.length :=
  match ts with
  | .leftBrace :: rest => Found.behind <$> untilBrace rest
  | ts => (fun f => f.map fun node => [node]) <$> statement ts
termination_by 3 * ts.length + 1

/-- Reads statements up to and including the brace that ends them. -/
def untilBrace (ts : List Token) : Reading (List Node) ts.length :=
  match ts with
  | [] => missing .closingBrace []
  | .rightBrace :: rest => .ok (.here [] rest)
  | ts => do
    let ⟨node, rest, h⟩ ← statement ts
    let ⟨nodes, rest, h'⟩ ← untilBrace rest
    .ok ⟨node :: nodes, rest, Nat.lt_trans h' h⟩
termination_by 3 * ts.length + 1

end

/-- Reads statements up to the end of the tokens. -/
def statements (ts : List Token) : Except Stuck (List Node) :=
  match ts with
  | [] => .ok []
  | ts => do
    let ⟨node, rest, _⟩ ← statement ts
    return node :: (← statements rest)
termination_by ts.length

end Datapack.Grammar
