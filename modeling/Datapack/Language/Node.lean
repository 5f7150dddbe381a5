import Datapack.Language.Operator
import Datapack.Number.Numeral

/-!
# Syntax trees

Statements and values share one type, because every phrase may be written, or
handed over as data, where a statement or a value is asked for; which phrases
make sense where is decided when they are lowered to commands.
-/

namespace Datapack

/-- Names one entry of a store. -/
inductive Entry where
  /-- A variable of the program, which receives a short target name. -/
  | named (name : String)
  /-- A target name used as it stands, such as the selector `@s`. -/
  | verbatim (text : String)
  deriving DecidableEq, Repr

/-- One entry of one store, in source names. -/
structure Access where
  entry : Entry
  store : String
  deriving DecidableEq, Repr

/-- A phrase of the language. -/
inductive Node where
  /-- Statements run in order. -/
  | block (body : List Node)
  | int (value : Int32)
  /-- Can be written, but has no lowering: the target only knows integers. -/
  | float (value : Binary64)
  /-- A target command line; as a value, the result of running it. -/
  | text (line : String)
  | access (source : Access)
  | assign (target : Access) (operator : Operator) (value : Node)
  | calc (first : Node) (operator : Operator) (second : Node)
  /-- Runs the body where the comparison holds, or where it fails if negated. -/
  | branch (negate : Bool) (first : Node) (comparator : Comparator) (second : Node)
      (body : List Node)
  /-- Runs the body as the entities that the selector picks. -/
  | runAs (selector : String) (body : List Node)
  | create (store : String)
  | call (name : String) (arguments : List Node)
  deriving Repr

/-- The form of a phrase, for messages. -/
inductive Kind where
  | block
  | int
  | float
  | text
  | access
  | assign
  | calc
  | branch
  | runAs
  | create
  | call
  deriving DecidableEq, Repr

/-- What a message calls a phrase of this form. -/
def Kind.description : Kind → String
  | .block => "block"
  | .int => "integer literal"
  | .float => "float literal"
  | .text => "string literal"
  | .access => "store access"
  | .assign => "store assignment"
  | .calc => "calculation"
  | .branch => "if statement"
  | .runAs => "as statement"
  | .create => "store creation"
  | .call => "function call"

/-- The form of a phrase. -/
def Node.kind : Node → Kind
  | .block _ => .block
  | .int _ => .int
  | .float _ => .float
  | .text _ => .text
  | .access _ => .access
  | .assign .. => .assign
  | .calc .. => .calc
  | .branch .. => .branch
  | .runAs .. => .runAs
  | .create _ => .create
  | .call .. => .call

end Datapack
