import Datapack.Semantics.Machine
import Datapack.Semantics.Meaning

/-!
# Entities

A second view of scopes. A selector picks a list of entities; a scope runs the
rest of its command once for each of them, in order, and while it does so the
entry `@s` stands for that entity. On the side of programs a statement is done for
one entity after the other.
-/

namespace Datapack

/-- The entry that stands for the entity in force. -/
def selfEntry : String := "@s"

/-- The score that is meant while an entity is in force. -/
def Score.boundTo (entity : String) (x : Score) : Score :=
  if x.entry = selfEntry then ⟨entity, x.store⟩ else x

/-- The action on other scores. -/
def Action.mapScores (f : Score → Score) : Action → Action
  | .declare store => .declare store
  | .edit verb target amount => .edit verb (f target) amount
  | .operate target o source => .operate (f target) o (f source)
  | .raw line => .raw line

namespace Machine

/-- Does an action under clauses, outermost first, `f` saying which scores are meant; the answer is
the last one if there are several, and none if it did not run. -/
def governEach (p : Platform) (select : String → List String) :
    (Score → Score) → List Clause → List Clause → Action → Board → Option Int32 × Board
  | f, scopes, [], action, b =>
    let (n, b) := act p scopes (action.mapScores f) b
    (some n, b)
  | f, scopes, .compare negate first c second :: rest, action, b =>
    if c.holds (b.scores (f first)).toInt (b.scores (f second)).toInt != negate then
      governEach p select f scopes rest action b
    else (none, b)
  | f, scopes, .keepResult target :: rest, action, b =>
    match governEach p select f scopes rest action b with
    | (some n, b) => (some n, b.put (f target) n)
    | (none, b) => (none, b)
  | _, scopes, .runAs selector :: rest, action, b =>
    (select selector).foldl
      (fun state entity =>
        let (answer, b) :=
          governEach p select (Score.boundTo entity) (scopes ++ [.runAs entity]) rest action state.2
        (answer <|> state.1, b))
      (none, b)
  | f, scopes, .verbatim text :: rest, action, b =>
    governEach p select f (scopes ++ [.verbatim text]) rest action b

/-- Runs commands in order, each of them for all the entities of its scopes. -/
def runEach (p : Platform) (select : String → List String) (b : Board) (commands : List Command) :
    Board :=
  commands.foldl (fun b c => (governEach p select id [] c.clauses c.action b).2) b

end Machine

namespace Meaning

/-- The addresses while an entity is in force. -/
def Address.boundTo (entity : String) (address : Address) : Address := fun a =>
  if a.entry = .verbatim selfEntry then ⟨entity, (address a).store⟩ else address a

/-- Does a statement for one entity after the other. -/
def runEach (p : Platform) (address : Address) (node : Node) (entities : List String) (b : Board) :
    Board :=
  entities.foldl (fun b entity => run p (address.boundTo entity) [.runAs entity] node b) b

end Meaning

end Datapack
