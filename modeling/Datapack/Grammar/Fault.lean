import Datapack.Language.Node
import Datapack.Token.Basic

/-!
# Where reading gets stuck

Reading tokens fails at one token, or at the end of the tokens, for one reason.
The place is given by the tokens not yet taken, so the rules of the grammar need
no positions; offsets in the text are found from it afterwards.
-/

namespace Datapack

/-- What should have stood where reading got stuck. -/
inductive Expected where
  | statement
  | closingBrace
  | storeWord
  | storeName
  | comparator
  | selector
  | numberAfterMinus
  | closingParen
  | entryName
  | closingBracket
  | accessOrCall
  | value
  | argumentEnd
  deriving DecidableEq, Repr

/-- What a message calls the expected phrase. -/
def Expected.description : Expected → String
  | .statement => "a statement"
  | .closingBrace => "`\x7d`"
  | .storeWord => "`store`"
  | .storeName => "a store name"
  | .comparator => "a comparator"
  | .selector => "a selector string"
  | .numberAfterMinus => "a number after `-`"
  | .closingParen => "`)`"
  | .entryName => "an entry name"
  | .closingBracket => "`]`"
  | .accessOrCall => "`[` or `(` after an identifier"
  | .value => "a value"
  | .argumentEnd => "`,` or `)`"

namespace Grammar

/-- Why reading got stuck. -/
inductive Fault where
  | expected (what : Expected)
  /-- Something that is no store entry stands to the left of an assignment. -/
  | unassignable (kind : Kind) (target : List Token)
  /-- Something that is no store was to be created. -/
  | uncreatable (name : String)
  deriving DecidableEq, Repr

/-- A fault and the tokens from the one at which it was noticed. -/
structure Stuck where
  fault : Fault
  rest : List Token
  deriving DecidableEq, Repr

/-- A phrase that was read, with fewer than `bound` tokens left behind it. -/
structure Found (α : Type) (bound : Nat) where
  value : α
  rest : List Token
  shorter : rest.length < bound

/-- A phrase with `rest` left behind it, under the least bound that holds. -/
def Found.here {α : Type} (value : α) (rest : List Token) : Found α (rest.length + 1) :=
  ⟨value, rest, Nat.lt_succ_self _⟩

/-- A phrase, seen from one token further to the left. -/
def Found.behind {α : Type} {bound : Nat} (f : Found α bound) : Found α (bound + 1) :=
  ⟨f.value, f.rest, Nat.lt_succ_of_lt f.shorter⟩

/-- The same place, with something else made of the phrase. -/
def Found.map {α β : Type} {bound : Nat} (g : α → β) (f : Found α bound) : Found β bound :=
  ⟨g f.value, f.rest, f.shorter⟩

/-- The result of reading a phrase. -/
abbrev Reading (α : Type) (bound : Nat) := Except Stuck (Found α bound)

/-- Stuck for want of something. -/
def missing {α : Type} {bound : Nat} (what : Expected) (rest : List Token) : Reading α bound :=
  .error ⟨.expected what, rest⟩

end Grammar

end Datapack
