import Datapack.Grammar.Fault

/-!
# Values

A value is a sum of products of primaries, all operators grouping to the left.
The reader takes as many operators as follow. Every step leaves fewer tokens
than it was given, which is why reading ends.
-/

namespace Datapack.Grammar

/-- Operators between the factors of a product. -/
def isProductOperator (o : Operator) : Bool := o.precedence == 2

/-- Operators between the terms of a sum. -/
def isSumOperator (o : Operator) : Bool := o.precedence == 1

/-- Reads the number after a minus sign. -/
def negativeNumber : (ts : List Token) → Reading Node ts.length
  | .integer value :: rest => .ok (.here (.int (-value)) rest)
  | .float value :: rest => .ok (.here (.float value.negate) rest)
  | ts => missing .numberAfterMinus ts

/-- Reads the bracket that ends a store access. -/
def closedAccess (a : Access) : (ts : List Token) → Reading Node ts.length
  | .rightBracket :: rest => .ok (.here (.access a) rest)
  | ts => missing .closingBracket ts

/-- Reads the entry of a store access, and the bracket that ends it. -/
def accessEntry (store : String) : (ts : List Token) → Reading Node ts.length
  | .identifier name :: rest => Found.behind <$> closedAccess ⟨.named name, store⟩ rest
  | .text content :: rest => Found.behind <$> closedAccess ⟨.verbatim content, store⟩ rest
  | ts => missing .entryName ts

mutual

/-- Reads a number, a text, a store access, a call or a value in parentheses. -/
def primary (ts : List Token) : Reading Node ts.length :=
  match ts with
  | .integer value :: rest => .ok (.here (.int value) rest)
  | .float value :: rest => .ok (.here (.float value) rest)
  | .text content :: rest => .ok (.here (.text content) rest)
  | .operation .sub :: rest => Found.behind <$> negativeNumber rest
  | .leftParen :: rest => do
    let ⟨inner, rest, h⟩ ← expression rest
    match rest, h with
    | .rightParen :: rest, h => .ok ⟨inner, rest, Nat.lt_succ_of_lt (Nat.lt_of_succ_lt h)⟩
    | rest, _ => missing .closingParen rest
  | .identifier name :: .leftParen :: .rightParen :: rest =>
    .ok (Found.here (.call name []) rest).behind.behind
  | .identifier name :: .leftParen :: rest =>
    (fun f => (f.map (Node.call name)).behind.behind) <$> arguments rest
  | .identifier store :: .leftBracket :: rest =>
    (fun f => f.behind.behind) <$> accessEntry store rest
  | .identifier _ :: rest => missing .accessOrCall rest
  | ts => missing .value ts
termination_by 5 * ts.length

/-- Reads one or more values divided by commas, and the parenthesis that ends them. -/
def arguments (ts : List Token) : Reading (List Node) ts.length := do
  let ⟨value, rest, h⟩ ← expression ts
  match rest, h with
  | .rightParen :: rest, h => .ok ⟨[value], rest, Nat.lt_of_succ_lt h⟩
  | .comma :: rest, h => do
    have shorter : rest.length < ts.length := Nat.lt_of_succ_lt h
    let ⟨values, rest, h⟩ ← arguments rest
    .ok ⟨value :: values, rest, Nat.lt_trans h shorter⟩
  | rest, _ => missing .argumentEnd rest
termination_by 5 * ts.length + 4

/-- Reads a value. -/
def expression (ts : List Token) : Reading Node ts.length := do
  let ⟨first, rest, h⟩ ← primary ts
  let ⟨value, rest, h'⟩ ← afterPrimary first rest
  .ok ⟨value, rest, Nat.lt_of_lt_of_le h' h⟩
termination_by 5 * ts.length + 3

/-- Reads on after the first primary of a value. -/
def afterPrimary (first : Node) (ts : List Token) : Reading Node (ts.length + 1) := do
  let ⟨term, rest, h⟩ ← productTail first ts
  let ⟨value, rest, h'⟩ ← sumTail term rest
  .ok ⟨value, rest, Nat.lt_of_lt_of_le h' h⟩
termination_by 5 * ts.length + 2

/-- Reads further factors of a product. -/
def productTail (first : Node) (ts : List Token) : Reading Node (ts.length + 1) :=
  match ts with
  | .operation o :: rest =>
    if isProductOperator o then do
      let ⟨second, rest, h⟩ ← primary rest
      let ⟨value, rest, h'⟩ ← productTail (.calc first o second) rest
      .ok ⟨value, rest, Nat.lt_succ_of_lt (Nat.lt_succ_of_lt (Nat.lt_of_lt_of_le h' h))⟩
    else .ok (.here first (.operation o :: rest))
  | ts => .ok (.here first ts)
termination_by 5 * ts.length

/-- Reads further terms of a sum. -/
def sumTail (first : Node) (ts : List Token) : Reading Node (ts.length + 1) :=
  match ts with
  | .operation o :: rest =>
    if isSumOperator o then do
      let ⟨factor, rest, h⟩ ← primary rest
      let ⟨second, rest, h'⟩ ← productTail factor rest
      let ⟨value, rest, h''⟩ ← sumTail (.calc first o second) rest
      have shorter := Nat.lt_of_lt_of_le (Nat.lt_of_lt_of_le h'' h') h
      .ok ⟨value, rest, Nat.lt_succ_of_lt (Nat.lt_succ_of_lt shorter)⟩
    else .ok (.here first (.operation o :: rest))
  | ts => .ok (.here first ts)
termination_by 5 * ts.length + 1

end

end Datapack.Grammar
