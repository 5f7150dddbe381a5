import Datapack.Proofs.Grammar.Acceptance
import Datapack.Proofs.Language.Mentions

/-!
# Where the texts of a program come from

Reading drops no text and makes none up: the texts of a program, in the order of
reading, are the contents of its text tokens.
-/

namespace Datapack

/-- The content of a text token. -/
def Token.text? : Token → Option String
  | .text content => some content
  | _ => none

namespace Grammar

/-- Contents of the text tokens, in order. -/
def textsOf (ts : List Token) : List String := ts.filterMap Token.text?

@[simp] theorem textsOf_nil : textsOf [] = [] := rfl

@[simp] theorem textsOf_cons (t : Token) (ts : List Token) :
    textsOf (t :: ts) = t.text?.toList ++ textsOf ts := by
  rw [textsOf, List.filterMap_cons]
  cases t.text? <;> rfl

private theorem texts_calculations (first : Node) (more : List (Operator × Node)) :
    (calculations first more).texts = first.texts ++ more.flatMap fun next => next.2.texts := by
  induction more generalizing first with
  | nil => simp [calculations]
  | cons next more ih =>
    have hstep : calculations first (next :: more) =
      calculations (.calc first next.1 next.2) more := rfl
    rw [hstep, ih, Node.texts, List.flatMap_cons, List.append_assoc]

/-- Texts of the values that a phrase holds. -/
def ValuePhrase.texts : ValuePhrase → List String
  | .primary node | .term node | .value node | .change _ node => node.texts
  | .arguments values => Node.textsAll values
  | .factors more | .terms more => more.flatMap fun next => next.2.texts

private theorem ValueDerivation.textsOf_eq {p : ValuePhrase} {ts rest : List Token}
    (d : ValueDerivation p ts rest) : textsOf ts = p.texts ++ textsOf rest := by
  induction d with
  | integer | float | negativeInteger | negativeFloat | text | named | verbatim | callEmpty
  | noFactor | noTerm | increment | decrement => rfl
  | parens _ ih | call _ ih | assignment _ ih => exact ih
  | lastArgument _ ih => simp [ih, ValuePhrase.texts, Node.textsAll]
  | argument _ _ ih ih' => simp [ih, ih', ValuePhrase.texts, Node.textsAll, Token.text?]
  | factor _ _ _ ih ih' | nextTerm _ _ _ ih ih' => simp [ih, ih', ValuePhrase.texts, Token.text?]
  | term _ _ ih ih' | value _ _ _ ih ih' => simp [ih, ih', ValuePhrase.texts, texts_calculations]

/-- Texts of the statements that a phrase holds. -/
def Phrase.texts : Phrase → List String
  | .statement node => node.texts
  | .statements nodes | .body nodes => Node.textsAll nodes

private theorem Derivation.textsOf_eq {p : Phrase} {ts rest : List Token}
    (d : Derivation p ts rest) :
    textsOf ts = p.texts ++ textsOf rest := by
  induction d with
  | create | none => rfl
  | branch d d' _ ih | branchNot d d' _ ih =>
    simp [d.textsOf_eq, d'.textsOf_eq, ih, ValuePhrase.texts, Phrase.texts, Node.texts,
      Token.text?]
  | runAs _ ih => exact congrArg (List.cons _) ih
  | assign d d' =>
    simp [d.textsOf_eq, d'.textsOf_eq, ValuePhrase.texts, Phrase.texts, Node.texts]
  | value d => exact d.textsOf_eq
  | more _ _ ih ih' => simp [ih, ih', Phrase.texts, Node.textsAll]
  | braces _ ih => exact ih
  | single _ ih => simp [ih, Phrase.texts, Node.textsAll]

end Grammar

/-- Contents of the texts that stand in a source, their escapes resolved. -/
def quotedTexts (source : String) : List String :=
  (lexemes source).filterMap fun lexeme => lexeme.item.toOption.bind Token.text?

/-- The texts of a program are those that stand in its source. -/
theorem textsAll_of_parse {source : String} {body : List Node} (h : parse source = .ok body) :
    Node.textsAll body = quotedTexts source := by
  obtain ⟨ts, hts, ⟨d⟩⟩ := exists_derivation_of_parse h
  have htexts := d.textsOf_eq
  rw [Grammar.textsOf_nil, List.append_nil] at htexts
  have hquoted : quotedTexts source =
      ((lexemes source).map Lexeme.item).filterMap fun item => item.toOption.bind Token.text? := by
    rw [List.filterMap_map]
    rfl
  rw [hquoted, hts, List.filterMap_map]
  exact htexts.symm

end Datapack
