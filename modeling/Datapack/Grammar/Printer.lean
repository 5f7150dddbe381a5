import Datapack.Grammar.Statement
import Datapack.Token.Source

/-!
# Writing programs

Statements are written with their bodies in braces and with parentheses around
negative numbers and around just those operands that would otherwise be grouped
differently.
-/

namespace Datapack

/-- Tokens in parentheses. -/
def inParens (ts : List Token) : List Token := .leftParen :: (ts ++ [.rightParen])

/-- Tokens in braces. -/
def inBraces (ts : List Token) : List Token := .leftBrace :: (ts ++ [.rightBrace])

/-- Tokens of an entry name. -/
def Entry.token : Entry → Token
  | .named name => .identifier name
  | .verbatim text => .text text

/-- Tokens of a store access. -/
def Access.tokens (a : Access) : List Token :=
  [.identifier a.store, .leftBracket, a.entry.token, .rightBracket]

/-- Whether the phrase is a calculation that binds weaker than `strength`. -/
def Node.bindsBelow (strength : Nat) : Node → Bool
  | .calc _ o _ => decide (o.precedence < strength)
  | _ => false

mutual

/-- Tokens of a phrase. -/
def Node.tokens : Node → List Token
  | .block body => inBraces (Node.tokensOfAll body)
  | .int value =>
    if 0 ≤ value then [.integer value] else inParens [.operation .sub, .integer (-value)]
  | .float value =>
    if value.isNegative then inParens [.operation .sub, .float value.negate] else [.float value]
  | .text line => [.text line]
  | .access a => a.tokens
  | .assign target o value => target.tokens ++ .assignment o :: value.tokens
  | .calc first o second =>
    (if first.bindsBelow o.precedence then inParens first.tokens else first.tokens) ++
      .operation o ::
        (if second.bindsBelow (o.precedence + 1) then inParens second.tokens else second.tokens)
  | .branch negate first c second body =>
    .ifWord :: ((if negate then [.notWord] else []) ++ first.tokens ++
      .comparison c :: second.tokens ++ inBraces (Node.tokensOfAll body))
  | .runAs selector body => .asWord :: .text selector :: inBraces (Node.tokensOfAll body)
  | .create store => [.createWord, .identifier Grammar.storeWord, .identifier store]
  | .call name arguments =>
    .identifier name :: .leftParen :: (Node.tokensOfArguments arguments ++ [.rightParen])

/-- Tokens of statements in order. -/
def Node.tokensOfAll : List Node → List Token
  | [] => []
  | node :: rest => node.tokens ++ Node.tokensOfAll rest

/-- Tokens of the values of a call, divided by commas. -/
def Node.tokensOfArguments : List Node → List Token
  | [] => []
  | [node] => node.tokens
  | node :: rest => node.tokens ++ .comma :: Node.tokensOfArguments rest

end

/-- Source form of a program. -/
def programSource (body : List Node) : String := tokensSource (Node.tokensOfAll body)

end Datapack
