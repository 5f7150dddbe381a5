import Datapack.Grammar.Statement
import Datapack.Token.Scan

/-!
# Programs

A program is text. Its tokens are read first, and the first piece of text that
is no token is reported whatever follows; then the tokens are read as
statements, and what stops that is reported at its place in the text.
-/

namespace Datapack

/-- Why a text is no program, and where. -/
inductive ParseError where
  | lexical (fault : LexicalFault) (span : Span)
  | unexpected (expected : Expected) (found : Token) (span : Span)
  | unexpectedEnd (expected : Expected) (span : Span)
  | unassignable (kind : Kind) (span : Span)
  | uncreatable (name : String) (span : Span)
  deriving DecidableEq, Repr

namespace ParseError

/-- The bytes of the text that the error points at. -/
def span : ParseError → Span
  | .lexical _ span => span
  | .unexpected _ _ span => span
  | .unexpectedEnd _ span => span
  | .unassignable _ span => span
  | .uncreatable _ span => span

/-- Wording of the error. -/
def message : ParseError → String
  | .lexical fault _ => fault.message
  | .unexpected expected found _ =>
    "expected " ++ expected.description ++ ", found `" ++ found.spelling ++ "`"
  | .unexpectedEnd expected _ => "expected " ++ expected.description ++ ", found end of input"
  | .unassignable kind _ => "only store entries can be assigned to, found " ++ kind.description
  | .uncreatable name _ => "`create` can only create a store, not `" ++ name ++ "`"

end ParseError

/-- A token with its place in the text. -/
structure Placed where
  token : Token
  span : Span
  deriving DecidableEq, Repr

/-- The tokens of a text, or its first fault. -/
def placedTokens : List Lexeme → Except ParseError (List Placed)
  | [] => .ok []
  | ⟨.ok token, span⟩ :: rest => do return ⟨token, span⟩ :: (← placedTokens rest)
  | ⟨.error fault, span⟩ :: _ => .error (.lexical fault span)

/-- Place of the first token of `rest`, which ends the placed tokens; `stop` if it is empty. -/
def spanOf (placed : List Placed) (stop : Nat) (rest : List Token) : Span :=
  match placed.drop (placed.length - rest.length) with
  | p :: _ => p.span
  | [] => ⟨stop, stop⟩

/-- The error to report for reading that got stuck in a text of `stop` bytes. -/
def ParseError.ofStuck (placed : List Placed) (stop : Nat) (stuck : Grammar.Stuck) : ParseError :=
  let here := spanOf placed stop stuck.rest
  match stuck.fault with
  | .expected what =>
    match stuck.rest with
    | found :: _ => .unexpected what found here
    | [] => .unexpectedEnd what here
  | .unassignable kind target => .unassignable kind (spanOf placed stop target)
  | .uncreatable name => .uncreatable name here

/-- Reads a text as a program. -/
def parse (source : String) : Except ParseError (List Node) := do
  let placed ← placedTokens (lexemes source)
  match Grammar.statements (placed.map Placed.token) with
  | .ok nodes => .ok nodes
  | .error stuck => .error (.ofStuck placed (utf8Length source.toList) stuck)

end Datapack
