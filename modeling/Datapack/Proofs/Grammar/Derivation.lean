import Datapack.Grammar.Statement

/-!
# The grammar

What tokens stand for, said by rules and without a reader:

* program = statement\*
* body = `{` statement\* `}` | statement
* statement = `create` `store` name | `if` [`not`] value comparator value body
  | `as` text body | target (assignment value | `++` | `--`) | value
* value = term ((`+` | `-`) term)\*
* term = primary ((`*` | `/` | `%`) primary)\*
* primary = number | text | `-` number | `(` value `)` | name `(` [value (`,` value)\*] `)`
  | name `[` (name | text) `]`

A target is a primary that is a store access, in parentheses or not. Operators
group to the left. Since nothing divides statements, one condition is added: no
value stands in front of an operator of calculations, so that a value takes all
the operators it can.

A derivation is a tree of rules. It starts at some tokens and leaves some tokens
behind, and where these cannot continue the phrase, there is no other derivation.
-/

namespace Datapack.Grammar

/-- Whether the tokens go on with an operator of the given kind. -/
def goesOnWith (kind : Operator → Bool) : List Token → Bool
  | .operation o :: _ => kind o
  | _ => false

/-- Operators that stand inside calculations. -/
def isArithmetic (o : Operator) : Bool := isProductOperator o || isSumOperator o

/-- Operators applied to a first value, from left to right. -/
def calculations (first : Node) (more : List (Operator × Node)) : Node :=
  more.foldl (fun value next => .calc value next.1 next.2) first

/-- What tokens may stand for inside a statement. -/
inductive ValuePhrase where
  | primary (node : Node)
  /-- One or more values divided by commas. -/
  | arguments (values : List Node)
  /-- Operators of a product, each with the factor behind it. -/
  | factors (more : List (Operator × Node))
  | term (node : Node)
  /-- Operators of a sum, each with the term behind it. -/
  | terms (more : List (Operator × Node))
  | value (node : Node)
  /-- What stands behind the target of an assignment. -/
  | change (operator : Operator) (node : Node)

/-- `ValueDerivation phrase ts rest`: the tokens `ts` start with the phrase, and `rest` follows. -/
inductive ValueDerivation : ValuePhrase → List Token → List Token → Type
  | integer {value rest} : ValueDerivation (.primary (.int value)) (.integer value :: rest) rest
  | float {value rest} : ValueDerivation (.primary (.float value)) (.float value :: rest) rest
  | text {content rest} : ValueDerivation (.primary (.text content)) (.text content :: rest) rest
  | negativeInteger {value rest} :
      ValueDerivation (.primary (.int (-value))) (.operation .sub :: .integer value :: rest) rest
  | negativeFloat {value rest} :
      ValueDerivation (.primary (.float value.negate)) (.operation .sub :: .float value :: rest)
        rest
  | parens {node ts rest} :
      ValueDerivation (.value node) ts (.rightParen :: rest) →
      ValueDerivation (.primary node) (.leftParen :: ts) rest
  | named {store name rest} :
      ValueDerivation (.primary (.access ⟨.named name, store⟩))
        (.identifier store :: .leftBracket :: .identifier name :: .rightBracket :: rest) rest
  | verbatim {store content rest} :
      ValueDerivation (.primary (.access ⟨.verbatim content, store⟩))
        (.identifier store :: .leftBracket :: .text content :: .rightBracket :: rest) rest
  | callEmpty {name rest} :
      ValueDerivation (.primary (.call name []))
        (.identifier name :: .leftParen :: .rightParen :: rest) rest
  | call {name values ts rest} :
      ValueDerivation (.arguments values) ts (.rightParen :: rest) →
      ValueDerivation (.primary (.call name values)) (.identifier name :: .leftParen :: ts) rest
  | lastArgument {node ts rest} :
      ValueDerivation (.value node) ts rest → ValueDerivation (.arguments [node]) ts rest
  | argument {node values ts mid rest} :
      ValueDerivation (.value node) ts (.comma :: mid) →
      ValueDerivation (.arguments values) mid rest →
      ValueDerivation (.arguments (node :: values)) ts rest
  | noFactor {ts} : ValueDerivation (.factors []) ts ts
  | factor {o node more ts mid rest} :
      isProductOperator o = true → ValueDerivation (.primary node) ts mid →
      ValueDerivation (.factors more) mid rest →
      ValueDerivation (.factors ((o, node) :: more)) (.operation o :: ts) rest
  | term {first more ts mid rest} :
      ValueDerivation (.primary first) ts mid → ValueDerivation (.factors more) mid rest →
      ValueDerivation (.term (calculations first more)) ts rest
  | noTerm {ts} : ValueDerivation (.terms []) ts ts
  | nextTerm {o node more ts mid rest} :
      isSumOperator o = true → ValueDerivation (.term node) ts mid →
      ValueDerivation (.terms more) mid rest →
      ValueDerivation (.terms ((o, node) :: more)) (.operation o :: ts) rest
  | value {first more ts mid rest} :
      ValueDerivation (.term first) ts mid → ValueDerivation (.terms more) mid rest →
      goesOnWith isArithmetic rest = false →
      ValueDerivation (.value (calculations first more)) ts rest
  | assignment {o node ts rest} :
      ValueDerivation (.value node) ts rest →
      ValueDerivation (.change o node) (.assignment o :: ts) rest
  | increment {rest} : ValueDerivation (.change .add (.int 1)) (.increment :: rest) rest
  | decrement {rest} : ValueDerivation (.change .sub (.int 1)) (.decrement :: rest) rest

/-- What tokens may stand for as statements. -/
inductive Phrase where
  | statement (node : Node)
  | statements (nodes : List Node)
  | body (nodes : List Node)

/-- `Derivation phrase ts rest`: the tokens `ts` start with the phrase, and `rest` follows. -/
inductive Derivation : Phrase → List Token → List Token → Type
  | create {store rest} :
      Derivation (.statement (.create store))
        (.createWord :: .identifier storeWord :: .identifier store :: rest) rest
  | branch {first c second nodes ts mid mid' rest} :
      ValueDerivation (.value first) ts (.comparison c :: mid) →
      ValueDerivation (.value second) mid mid' → Derivation (.body nodes) mid' rest →
      Derivation (.statement (.branch false first c second nodes)) (.ifWord :: ts) rest
  | branchNot {first c second nodes ts mid mid' rest} :
      ValueDerivation (.value first) ts (.comparison c :: mid) →
      ValueDerivation (.value second) mid mid' → Derivation (.body nodes) mid' rest →
      Derivation (.statement (.branch true first c second nodes)) (.ifWord :: .notWord :: ts) rest
  | runAs {selector nodes ts rest} :
      Derivation (.body nodes) ts rest →
      Derivation (.statement (.runAs selector nodes)) (.asWord :: .text selector :: ts) rest
  | assign {target o node ts mid rest} :
      ValueDerivation (.primary (.access target)) ts mid →
      ValueDerivation (.change o node) mid rest →
      Derivation (.statement (.assign target o node)) ts rest
  | value {node ts rest} :
      ValueDerivation (.value node) ts rest → Derivation (.statement node) ts rest
  | none {ts} : Derivation (.statements []) ts ts
  | more {node nodes ts mid rest} :
      Derivation (.statement node) ts mid → Derivation (.statements nodes) mid rest →
      Derivation (.statements (node :: nodes)) ts rest
  | braces {nodes ts rest} :
      Derivation (.statements nodes) ts (.rightBrace :: rest) →
      Derivation (.body nodes) (.leftBrace :: ts) rest
  | single {node ts rest} :
      Derivation (.statement node) ts rest → Derivation (.body [node]) ts rest

section Following

variable {ts rest : List Token}

/-- Tokens that go on with an operator begin with it. -/
theorem goesOnWith_eq_true {kind : Operator → Bool} (h : goesOnWith kind ts = true) :
    ∃ o more, ts = .operation o :: more ∧ kind o = true := by
  unfold goesOnWith at h
  split at h
  · exact ⟨_, _, rfl, h⟩
  · cases h

/-- Operators of calculations are those of products and those of sums. -/
theorem goesOnWith_isArithmetic :
    goesOnWith isArithmetic ts = false ↔
      goesOnWith isProductOperator ts = false ∧ goesOnWith isSumOperator ts = false := by
  unfold goesOnWith
  split
  · exact Bool.or_eq_false_iff
  · exact ⟨fun _ => ⟨rfl, rfl⟩, fun _ => rfl⟩

/-- No operator is both of products and of sums. -/
theorem not_isProductOperator {o : Operator} (h : isSumOperator o = true) :
    isProductOperator o = false := by
  revert h
  cases o <;> decide

/-- What follows a term of a complete value is no operator of products. -/
theorem ValueDerivation.not_product {more : List (Operator × Node)}
    (d : ValueDerivation (.terms more) ts rest) (h : goesOnWith isArithmetic rest = false) :
    goesOnWith isProductOperator ts = false := by
  cases d with
  | noTerm => exact (goesOnWith_isArithmetic.mp h).1
  | nextTerm ho _ _ => exact not_isProductOperator ho

/-- Tokens that a value can start with. -/
def opensValue : Token → Bool
  | .integer _ | .float _ | .text _ | .leftParen | .identifier _ => true
  | .operation o => o == .sub
  | _ => false

/-- Phrases that a value starts with. -/
def ValuePhrase.isOperand : ValuePhrase → Bool
  | .primary _ | .arguments _ | .term _ | .value _ => true
  | _ => false

/-- An operand begins with a token that opens values. -/
theorem ValueDerivation.opens {p : ValuePhrase} (d : ValueDerivation p ts rest)
    (hp : p.isOperand = true) : ts.head?.any opensValue = true := by
  induction d with
  | integer | float | text | negativeInteger | negativeFloat | named | verbatim | callEmpty
  | parens | call => rfl
  | lastArgument _ ih => exact ih rfl
  | argument _ _ ih _ => exact ih rfl
  | term _ _ ih _ => exact ih rfl
  | value _ _ _ ih _ => exact ih rfl
  | noFactor | factor | noTerm | nextTerm | assignment | increment | decrement => cases hp

/-- After its first primary, a value ends or goes on with an operator. -/
theorem ValueDerivation.value_start {node : Node} (d : ValueDerivation (.value node) ts rest) :
    ∃ first mid, Nonempty (ValueDerivation (.primary first) ts mid) ∧
      (mid = rest ∧ first = node ∨ goesOnWith isArithmetic mid = true) := by
  cases d with
  | value d₁ d₂ _ =>
    cases d₁ with
    | term d₃ d₄ =>
      refine ⟨_, _, ⟨d₃⟩, ?_⟩
      cases d₄ with
      | noFactor =>
        cases d₂ with
        | noTerm => exact .inl ⟨rfl, rfl⟩
        | nextTerm ho _ _ => exact .inr (Bool.or_eq_true_iff.mpr (.inr ho))
      | factor ho _ _ => exact .inr (Bool.or_eq_true_iff.mpr (.inl ho))

end Following

section Uniqueness

/-- Phrases of the same form, whatever they stand for. -/
def ValuePhrase.SameForm : ValuePhrase → ValuePhrase → Prop
  | .primary _, .primary _ | .arguments _, .arguments _ | .factors _, .factors _
  | .term _, .term _ | .terms _, .terms _ | .value _, .value _ | .change .., .change .. => True
  | _, _ => False

/-- No phrase of this form that ends in front of `rest` could go on there. -/
def ValuePhrase.EndsAt : ValuePhrase → List Token → Prop
  | .primary _, _ | .value _, _ | .change .., _ => True
  | .arguments _, rest => ∃ more, rest = .rightParen :: more
  | .factors _, rest | .term _, rest => goesOnWith isProductOperator rest = false
  | .terms _, rest => goesOnWith isArithmetic rest = false

/-- A derivation with what it derives and what it leaves behind. -/
structure ValueDerived (ts : List Token) where
  phrase : ValuePhrase
  rest : List Token
  derivation : ValueDerivation phrase ts rest

private theorem ValueDerivation.unique {p q : ValuePhrase} {ts rest rest' : List Token}
    (d : ValueDerivation p ts rest) (e : ValueDerivation q ts rest') (hform : p.SameForm q)
    (hp : p.EndsAt rest) (hq : q.EndsAt rest') :
    (⟨p, rest, d⟩ : ValueDerived ts) = ⟨q, rest', e⟩ := by
  induction d generalizing q rest' with
  | integer | float | text | negativeInteger | negativeFloat | named | verbatim | increment
  | decrement =>
    cases e <;> first | rfl | cases hform
  | callEmpty =>
    cases e with
    | callEmpty => rfl
    | call e => cases e.opens rfl
    | _ => cases hform
  | parens d ih =>
    cases e with
    | parens e =>
      cases ih e trivial trivial trivial
      rfl
    | _ => cases hform
  | call d ih =>
    cases e with
    | call e =>
      cases ih e trivial ⟨_, rfl⟩ ⟨_, rfl⟩
      rfl
    | callEmpty => cases d.opens rfl
    | _ => cases hform
  | lastArgument d ih =>
    cases e with
    | lastArgument e =>
      cases ih e trivial trivial trivial
      rfl
    | argument e e' =>
      obtain ⟨_, rfl⟩ := hp
      cases ih e trivial trivial trivial
    | _ => cases hform
  | argument d d' ih ih' =>
    cases e with
    | argument e e' =>
      cases ih e trivial trivial trivial
      cases ih' e' trivial hp hq
      rfl
    | lastArgument e =>
      obtain ⟨_, rfl⟩ := hq
      cases ih e trivial trivial trivial
    | _ => cases hform
  | noFactor =>
    cases e with
    | noFactor => rfl
    | factor ho _ _ => exact absurd ho (Bool.eq_false_iff.mp hp)
    | _ => cases hform
  | factor ho d d' ih ih' =>
    cases e with
    | noFactor => exact absurd ho (Bool.eq_false_iff.mp hq)
    | factor ho' e e' =>
      cases ih e trivial trivial trivial
      cases ih' e' trivial hp hq
      rfl
    | _ => cases hform
  | term d d' ih ih' =>
    cases e with
    | term e e' =>
      cases ih e trivial trivial trivial
      cases ih' e' trivial hp hq
      rfl
    | _ => cases hform
  | noTerm =>
    cases e with
    | noTerm => rfl
    | nextTerm ho _ _ => exact absurd ho (Bool.eq_false_iff.mp (goesOnWith_isArithmetic.mp hp).2)
    | _ => cases hform
  | nextTerm ho d d' ih ih' =>
    cases e with
    | noTerm => exact absurd ho (Bool.eq_false_iff.mp (goesOnWith_isArithmetic.mp hq).2)
    | nextTerm ho' e e' =>
      cases ih e trivial (d'.not_product hp) (e'.not_product hq)
      cases ih' e' trivial hp hq
      rfl
    | _ => cases hform
  | value d d' hend ih ih' =>
    cases e with
    | value e e' hend' =>
      cases ih e trivial (d'.not_product hend) (e'.not_product hend')
      cases ih' e' trivial hend hend'
      rfl
    | _ => cases hform
  | assignment d ih =>
    cases e with
    | assignment e =>
      cases ih e trivial trivial trivial
      rfl
    | _ => cases hform

/-- Whether the tokens go on with a sign that stands behind the target of an assignment. -/
def goesOnAssigning (ts : List Token) : Bool := ts.head?.any fun t => (assignmentSign t).isSome

/-- Whether no statement can follow: the tokens end here, or a brace closes what came before. -/
def endsStatements (ts : List Token) : Bool := ts.head?.all (· == .rightBrace)

/-- Where an assignment could stand, a value ends before the sign. -/
theorem ValueDerivation.value_before_change {first node new : Node} {o : Operator}
    {ts mid rest rest' : List Token} (d : ValueDerivation (.primary first) ts mid)
    (d' : ValueDerivation (.change o new) mid rest) (e : ValueDerivation (.value node) ts rest') :
    goesOnAssigning rest' = true := by
  obtain ⟨first', mid', ⟨e'⟩, hmid⟩ := e.value_start
  cases d.unique e' trivial trivial trivial
  rcases hmid with ⟨rfl, -⟩ | hgo
  · cases d' <;> rfl
  · cases d' <;> cases hgo

/-- Tokens that a statement can start with. -/
def opensStatement (t : Token) : Bool :=
  t == .createWord || t == .ifWord || t == .asWord || opensValue t

/-- A statement begins with a token that opens statements. -/
theorem Derivation.opens {node : Node} {ts rest : List Token}
    (d : Derivation (.statement node) ts rest) : ts.head?.any opensStatement = true := by
  have hvalue : ∀ {p : ValuePhrase} {rest : List Token}, ValueDerivation p ts rest →
      p.isOperand = true → ts.head?.any opensStatement = true := by
    intro p rest d hp
    have hopens := d.opens hp
    cases ts with
    | nil => cases hopens
    | cons t _ => exact Bool.or_eq_true_iff.mpr (.inr hopens)
  cases d with
  | create | branch | branchNot | runAs => rfl
  | assign d _ => exact hvalue d rfl
  | value d => exact hvalue d rfl

/-- Phrases of the same form, whatever they stand for. -/
def Phrase.SameForm : Phrase → Phrase → Prop
  | .statement _, .statement _ | .statements _, .statements _ | .body _, .body _ => True
  | _, _ => False

/-- No phrase of this form that ends in front of `rest` could go on there. -/
def Phrase.EndsAt : Phrase → List Token → Prop
  | .statement _, rest | .body _, rest => goesOnAssigning rest = false
  | .statements _, rest => endsStatements rest = true

/-- A derivation with what it derives and what it leaves behind. -/
structure Derived (ts : List Token) where
  phrase : Phrase
  rest : List Token
  derivation : Derivation phrase ts rest

/-- Where a statement starts, the statements do not end. -/
theorem Derivation.not_endsStatements {node : Node} {ts rest : List Token}
    (d : Derivation (.statement node) ts rest) : ¬ endsStatements ts = true := by
  have hopens := d.opens
  cases ts with
  | nil => cases hopens
  | cons t _ =>
    intro hend
    obtain rfl : t = .rightBrace := beq_iff_eq.mp hend
    cases hopens

/-- No assignment sign follows a statement that others follow. -/
theorem Derivation.not_assigning {nodes : List Node} {ts rest : List Token}
    (d : Derivation (.statements nodes) ts rest) (hrest : endsStatements rest = true) :
    goesOnAssigning ts = false := by
  cases d with
  | none =>
    cases ts with
    | nil => rfl
    | cons t _ =>
      obtain rfl : t = .rightBrace := beq_iff_eq.mp hrest
      rfl
  | more d _ =>
    have hopens := d.opens
    cases ts with
    | nil => rfl
    | cons t _ => cases t <;> first | rfl | cases hopens

/-- Two derivations from the same tokens, for phrases of one form that both end where they should,
are the same. -/
theorem Derivation.unique {p q : Phrase} {ts rest rest' : List Token}
    (d : Derivation p ts rest) (e : Derivation q ts rest') (hform : p.SameForm q)
    (hp : p.EndsAt rest) (hq : q.EndsAt rest') :
    (⟨p, rest, d⟩ : Derived ts) = ⟨q, rest', e⟩ := by
  induction d generalizing q rest' with
  | create =>
    cases e with
    | create => rfl
    | assign e _ | value e => cases e.opens rfl
    | _ => cases hform
  | branch d₁ d₂ d₃ ih =>
    cases e with
    | branch e₁ e₂ e₃ =>
      cases d₁.unique e₁ trivial trivial trivial
      cases d₂.unique e₂ trivial trivial trivial
      cases ih e₃ trivial hp hq
      rfl
    | branchNot => cases d₁.opens rfl
    | assign e _ | value e => cases e.opens rfl
    | _ => cases hform
  | branchNot d₁ d₂ d₃ ih =>
    cases e with
    | branchNot e₁ e₂ e₃ =>
      cases d₁.unique e₁ trivial trivial trivial
      cases d₂.unique e₂ trivial trivial trivial
      cases ih e₃ trivial hp hq
      rfl
    | branch e₁ => cases e₁.opens rfl
    | assign e _ | value e => cases e.opens rfl
    | _ => cases hform
  | runAs d ih =>
    cases e with
    | runAs e =>
      cases ih e trivial hp hq
      rfl
    | assign e _ | value e => cases e.opens rfl
    | _ => cases hform
  | assign d d' =>
    cases e with
    | assign e e' =>
      cases d.unique e trivial trivial trivial
      cases d'.unique e' trivial trivial trivial
      rfl
    | value e => exact absurd (d.value_before_change d' e) (Bool.eq_false_iff.mp hq)
    | create | branch | branchNot | runAs => cases d.opens rfl
    | _ => cases hform
  | value d =>
    cases e with
    | value e =>
      cases d.unique e trivial trivial trivial
      rfl
    | assign e e' => exact absurd (e.value_before_change e' d) (Bool.eq_false_iff.mp hp)
    | create | branch | branchNot | runAs => cases d.opens rfl
    | _ => cases hform
  | none =>
    cases e with
    | none => rfl
    | more e _ => exact absurd hp e.not_endsStatements
    | _ => cases hform
  | more d d' ih ih' =>
    cases e with
    | more e e' =>
      cases ih e trivial (d'.not_assigning hp) (e'.not_assigning hq)
      cases ih' e' trivial hp hq
      rfl
    | none => exact absurd hq d.not_endsStatements
    | _ => cases hform
  | braces d ih =>
    cases e with
    | braces e =>
      cases ih e trivial rfl rfl
      rfl
    | single e => cases e.opens
    | _ => cases hform
  | single d ih =>
    cases e with
    | single e =>
      cases ih e trivial hp hq
      rfl
    | braces e => cases d.opens
    | _ => cases hform

end Uniqueness

end Datapack.Grammar
