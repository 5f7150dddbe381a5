import Datapack.Lowering.Session

/-!
# Lowering assignments and calculations

The target combines a score with a fixed number or with another score, nothing
else. So a calculation is worked out step by step in registers, and the number
that a command line answers is kept in a register first where it is to be
combined with the target score.
-/

namespace Datapack.Lowering

/-- Combines a score with a fixed number. -/
def assignInt (target : Access) (o : Operator) (amount : Int32) : Lowering (List Command) :=
  match EditVerb.ofOperator? o with
  | none => fail (.notImmediate o)
  | some verb => return Command.edit verb (← scoreOf target) amount

/-- Combines a score with another one. -/
def combine (target : Access) (o : Operator) (source : Access) : Lowering (List Command) := do
  let target ← scoreOf target
  let source ← scoreOf source
  return [.operate target o source]

/-- Keeps the result of a command line in a score. -/
def capture (target : Access) (line : String) : Lowering (List Command) := do
  return [.keepResult (← scoreOf target) line]

/-- Combines a score with the result of a command line. -/
def captureAndCombine (target : Access) (o : Operator) (line : String) :
    Lowering (List Command) := do
  let _ ← storeName target.store
  let declaration ← createStore scratchStore
  let commands ← withRegister fun register => do
    let captured ← capture (scratch register) line
    let combined ← combine target o (scratch register)
    return captured ++ combined
  return declaration ++ commands

/-- Phrases that a calculation may combine. -/
def isOperand : Node → Bool
  | .int _ | .access _ | .calc .. => true
  | _ => false

/-- Refuses a phrase that a calculation cannot combine. -/
def checkOperand (node : Node) : Lowering Unit :=
  if isOperand node then pure () else fail (.unassignable node.kind)

/--
Loads two operands into registers and combines them in the first one. The
registers are free again afterwards, so the score returned holds the result only
until the next register is taken.
-/
def calculate (o : Operator) (loadFirst loadSecond : Access → Lowering (List Command)) :
    Lowering (List Command × Access) := do
  let declaration ← createStore scratchStore
  withRegister fun first => withRegister fun second => do
    let firstLoaded ← loadFirst (scratch first)
    let secondLoaded ← loadSecond (scratch second)
    let combined ← combine (scratch first) o (scratch second)
    return (declaration ++ firstLoaded ++ secondLoaded ++ combined, scratch first)

/-- Combines a score with the number of a phrase. -/
def assign (target : Access) (o : Operator) : Node → Lowering (List Command)
  | .int amount => assignInt target o amount
  | .access source => combine target o source
  | .calc first p second => do
    let _ ← storeName target.store
    checkOperand first
    checkOperand second
    let (commands, result) ← calculate p (assign · .set first) (assign · .set second)
    return commands ++ (← combine target o result)
  | .text line => if o = .set then capture target line else captureAndCombine target o line
  | node => fail (.unassignable node.kind)

/-- Works out a calculation in registers, with the score that holds its result. -/
def calculation (first : Node) (o : Operator) (second : Node) :
    Lowering (List Command × Access) := do
  checkOperand first
  checkOperand second
  calculate o (assign · .set first) (assign · .set second)

end Datapack.Lowering
