import Datapack.Language.Operator
import Datapack.Number.Numeral
import Datapack.Text.Span

/-!
# Tokens

The words a program is read as, how a message spells them, and the three ways
in which a piece of text fails to be one.
-/

namespace Datapack

/-- A word of the language. -/
inductive Token where
  | leftBrace
  | rightBrace
  | leftParen
  | rightParen
  | leftBracket
  | rightBracket
  | comma
  | createWord
  | ifWord
  | asWord
  | notWord
  | identifier (name : String)
  /-- A quoted text, its escapes resolved. -/
  | text (content : String)
  | integer (value : Int32)
  | float (value : Binary64)
  | operation (operator : Operator)
  | assignment (operator : Operator)
  | increment
  | decrement
  | comparison (comparator : Comparator)
  deriving DecidableEq, Repr

/-- How a message spells the token; a text stands between quotes, without escapes. -/
def Token.spelling : Token → String
  | .leftBrace => "\x7b"
  | .rightBrace => "\x7d"
  | .leftParen => "("
  | .rightParen => ")"
  | .leftBracket => "["
  | .rightBracket => "]"
  | .comma => ","
  | .createWord => "create"
  | .ifWord => "if"
  | .asWord => "as"
  | .notWord => "not"
  | .identifier name => name
  | .text content => "'" ++ content ++ "'"
  | .integer value => signedDecimal value.toInt
  | .float value => value.text
  | .operation operator => operator.symbol
  | .assignment .set => "="
  | .assignment operator => operator.symbol ++ "="
  | .increment => "++"
  | .decrement => "--"
  | .comparison comparator => comparator.symbol

/-- Why a piece of text is no token. -/
inductive LexicalFault where
  /-- No token starts with this character. -/
  | invalid
  /-- A quoted text that does not end. -/
  | unterminated
  /-- A whole number that is out of range. -/
  | tooBig
  deriving DecidableEq, Repr

/-- Wording of the fault. -/
def LexicalFault.message : LexicalFault → String
  | .invalid => "invalid token encountered"
  | .unterminated => "unterminated string"
  | .tooBig => "integer literal does not fit in 32 bits"

/-- A token or fault with its place in the text. -/
structure Lexeme where
  item : Except LexicalFault Token
  span : Span

end Datapack
