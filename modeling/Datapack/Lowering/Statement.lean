import Datapack.Lowering.Assign

/-!
# Lowering statements

A condition becomes a clause on every command of the body. Since the body may
change the scores compared, both sides are first copied into registers, and the
registers are compared. The copies are left out where the body is known to be a
single command and both sides are scores already.
-/

namespace Datapack.Lowering

/-- Whether assigning the value takes a single command. -/
def assignsInOne (o : Operator) : Node → Bool
  | .int amount =>
    match EditVerb.ofOperator? o with
    | some verb => Command.editLength verb amount == 1
    | none => true
  | .access _ => true
  | .text _ => o == .set
  | _ => false

/-- Whether the phrase is a store access. -/
def isAccess : Node → Bool
  | .access _ => true
  | _ => false

mutual

/-- Whether the statement lowers to at most one command, without registers. -/
def lowersToOne : Node → Bool
  | .text _ => true
  | .create _ => true
  | .assign _ o value => assignsInOne o value
  | .block body => soleLowersToOne body
  | .runAs _ body => soleLowersToOne body
  | .branch _ first _ second body => isAccess first && isAccess second && soleLowersToOne body
  | _ => false

/-- Whether there is one statement only, and it lowers to at most one command. -/
def soleLowersToOne : List Node → Bool
  | [node] => lowersToOne node
  | _ => false

end

/-- The scores to compare in place, if the body allows it. -/
def directOperands : Node → Node → List Node → Option (Access × Access)
  | .access first, .access second, body =>
    if soleLowersToOne body then some (first, second) else none
  | _, _, _ => none

/-- Compares two scores in place around every command of the body. -/
def compareDirectly (negate : Bool) (first : Access) (c : Comparator) (second : Access)
    (body : Lowering (List Command)) : Lowering (List Command) := do
  let first ← scoreOf first
  let second ← scoreOf second
  return (← body).map (Command.under (.compare negate first c second))

/-- Compares copies of two values around every command of the body. -/
def compareCopies (negate : Bool) (first : Node) (c : Comparator) (second : Node)
    (body : Lowering (List Command)) : Lowering (List Command) := do
  let declaration ← createStore scratchStore
  let commands ← withRegister fun r => withRegister fun q => do
    let firstLoaded ← assign (scratch r) .set first
    let secondLoaded ← assign (scratch q) .set second
    let x ← scoreOf (scratch r)
    let y ← scoreOf (scratch q)
    return firstLoaded ++ secondLoaded ++ (← body).map (Command.under (.compare negate x c y))
  return declaration ++ commands

mutual

/-- Lowers one statement. -/
def lower : Node → Lowering (List Command)
  | .block body => lowerAll body
  | .create store => createStore store
  | .assign target o value => assign target o value
  | .calc first o second => return (← calculation first o second).1
  | .branch negate first c second body =>
    match directOperands first second body with
    | some (x, y) => compareDirectly negate x c y (lowerAll body)
    | none => compareCopies negate first c second (lowerAll body)
  | .runAs selector body => return (← lowerAll body).map (Command.under (.runAs selector))
  | .text line => return [.raw line]
  | .int amount => fail (.notStatement (Node.int amount).kind)
  | .float value => fail (.notStatement (Node.float value).kind)
  | .access source => fail (.notStatement (Node.access source).kind)
  | .call name arguments => fail (.notStatement (Node.call name arguments).kind)

/-- Lowers statements in order. -/
def lowerAll : List Node → Lowering (List Command)
  | [] => return []
  | node :: rest => return (← lower node) ++ (← lowerAll rest)

end

end Datapack.Lowering

namespace Datapack.Session

/-- Lowers one phrase as a statement. -/
def lower (s : Session) (node : Node) : Except LowerError (List Command) × Session :=
  s.run (Lowering.lower node)

/-- Lowers statements in order; all their declarations count, or none. -/
def lowerAll (s : Session) (body : List Node) : Except LowerError (List Command) × Session :=
  s.run (Lowering.lowerAll body)

end Datapack.Session
