import Datapack.Token.Basic
import Datapack.Token.Source

/-!
# From text to tokens

Reading is by longest match: at each place the longest piece of text that is a
token, a blank run or a comment is taken, and where there is none a single
character is reported as invalid. Reading goes on after a fault, so the result
covers the whole text.
-/

namespace Datapack.Scan

/-- Characters that separate tokens. -/
def isSeparator (c : Char) : Bool :=
  c == ' ' || c == '\t' || c == '\r' || c == '\n' || c == '\x0c'

/-- Characters that start an identifier. -/
def isWordStart (c : Char) : Bool := c.isAlpha || c == '_'

/-- Characters that continue an identifier. -/
def isWordPart (c : Char) : Bool := c.isAlphanum || c == '_'

/-- Characters that continue a number, once a digit has started it. -/
def isNumberPart (c : Char) : Bool := c.isDigit || c == '_'

/-- What a piece of text turns out to be. -/
inductive Outcome where
  /-- Blanks or a comment. -/
  | skipped
  | token (t : Token)
  | fault (f : LexicalFault)

/-- A piece at the front of a text. -/
structure Piece where
  /-- Number of characters after the first one. -/
  extra : Nat
  outcome : Outcome

/-- A token that takes `extra` characters beside the first one. -/
def Piece.ofToken (extra : Nat) (t : Token) : Piece := ⟨extra, .token t⟩

/-- A single character that starts no token. -/
def Piece.invalid : Piece := ⟨0, .fault .invalid⟩

/-- Words that are not identifiers. -/
def keywords : List (String × Token) :=
  [("create", .createWord), ("if", .ifWord), ("as", .asWord), ("not", .notWord)]

/-- A word is a keyword or an identifier. -/
def wordToken (w : List Char) : Token :=
  (keywords.lookup (String.ofList w)).getD (.identifier (String.ofList w))

/-- Largest whole number that can be written. -/
def maxInteger : Nat := 2147483647

/-- A whole number; underscores only group its digits. -/
def integerOutcome (run : List Char) : Outcome :=
  let value := digitsValue (run.filter Char.isDigit)
  if value ≤ maxInteger then .token (.integer (Int32.ofNat value)) else .fault .tooBig

/-- A number with a point; underscores only group its digits. -/
def floatToken (whole fraction : List Char) : Token :=
  let places := fraction.filter Char.isDigit
  .float (.ofDecimal (digitsValue (whole.filter Char.isDigit ++ places)) places.length)

/-- The piece that starts with the digit `c`. -/
def numberPiece (c : Char) (cs : List Char) : Piece :=
  let run := cs.takeWhile isNumberPart
  match cs.dropWhile isNumberPart with
  | '.' :: rest =>
    let fraction := rest.takeWhile isNumberPart
    .ofToken (run.length + 1 + fraction.length) (floatToken (c :: run) fraction)
  | _ => ⟨run.length, integerOutcome (c :: run)⟩

/-- The piece that starts with a quote. -/
def quotedPiece (cs : List Char) : Piece :=
  let reading := Quoted.read cs
  match reading.content with
  | some content => .ofToken reading.taken (.text (String.ofList content))
  | none => ⟨reading.taken, .fault .unterminated⟩

/-- The piece that starts with a slash: a comment reaches to the end of its line. -/
def slashPiece : List Char → Piece
  | '/' :: cs => ⟨1 + (cs.takeWhile (· != '\n')).length, .skipped⟩
  | '=' :: _ => .ofToken 1 (.assignment .div)
  | _ => .ofToken 0 (.operation .div)

/-- `long` if the next character is `second`, else `short`. -/
def either (second : Char) (long short : Piece) : List Char → Piece
  | c :: _ => if c = second then long else short
  | [] => short

/-- The piece that starts with a sign which is neither letter, digit, blank, quote nor slash. -/
def signPiece (c : Char) (cs : List Char) : Piece :=
  match c with
  | '\x7b' => .ofToken 0 .leftBrace
  | '\x7d' => .ofToken 0 .rightBrace
  | '(' => .ofToken 0 .leftParen
  | ')' => .ofToken 0 .rightParen
  | '[' => .ofToken 0 .leftBracket
  | ']' => .ofToken 0 .rightBracket
  | ',' => .ofToken 0 .comma
  | '+' => either '+' (.ofToken 1 .increment)
      (either '=' (.ofToken 1 (.assignment .add)) (.ofToken 0 (.operation .add)) cs) cs
  | '-' => either '-' (.ofToken 1 .decrement)
      (either '=' (.ofToken 1 (.assignment .sub)) (.ofToken 0 (.operation .sub)) cs) cs
  | '*' => either '=' (.ofToken 1 (.assignment .mul)) (.ofToken 0 (.operation .mul)) cs
  | '%' => either '=' (.ofToken 1 (.assignment .mod)) (.ofToken 0 (.operation .mod)) cs
  | '=' => either '=' (.ofToken 1 (.comparison .eq)) (.ofToken 0 (.assignment .set)) cs
  | '!' => either '=' (.ofToken 1 (.comparison .neq)) .invalid cs
  | '<' => either '=' (.ofToken 1 (.comparison .lte)) (.ofToken 0 (.comparison .lt)) cs
  | '>' => either '=' (.ofToken 1 (.comparison .gte)) (.ofToken 0 (.comparison .gt)) cs
  | _ => .invalid

/-- The longest piece at the front of `c :: cs`. -/
def piece (c : Char) (cs : List Char) : Piece :=
  if isSeparator c then ⟨(cs.takeWhile isSeparator).length, .skipped⟩
  else if isWordStart c then
    let run := cs.takeWhile isWordPart
    .ofToken run.length (wordToken (c :: run))
  else if c.isDigit then numberPiece c cs
  else if c = Quoted.quoteMark then quotedPiece cs
  else if c = '/' then slashPiece cs
  else signPiece c cs

/-- Tokens and faults of a text that starts at byte `offset`. -/
def lexemesFrom (offset : Nat) : List Char → List Lexeme
  | [] => []
  | c :: cs =>
    let p := piece c cs
    let stop := offset + utf8Length (c :: cs.take p.extra)
    match p.outcome with
    | .skipped => lexemesFrom stop (cs.drop p.extra)
    | .token t => ⟨.ok t, offset, stop⟩ :: lexemesFrom stop (cs.drop p.extra)
    | .fault f => ⟨.error f, offset, stop⟩ :: lexemesFrom stop (cs.drop p.extra)
termination_by cs => cs.length
decreasing_by
  all_goals
    simp only [List.length_drop, List.length_cons]
    omega

end Datapack.Scan

namespace Datapack

/-- Tokens and faults of a text, in order. -/
def lexemes (source : String) : List Lexeme := Scan.lexemesFrom 0 source.toList

end Datapack
