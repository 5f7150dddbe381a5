import Datapack.Proofs.Grammar.Acceptance

/-!
# Phrases and the token behind them

What a phrase is does not depend on the tokens behind it, the next one apart. A
derivation takes some tokens and would take the same ones in front of anything
that does not go on a calculation, and the readers find the same phrase wherever
the same token follows.
-/

namespace Datapack.Grammar

section Whole

variable {next : Option Token} {ts us rest : List Token}

private theorem goesOnWith_head? {kind : Operator → Bool} (ts : List Token) :
    goesOnWith kind ts.head?.toList = goesOnWith kind ts := by
  rcases ts with _ | ⟨t, ts⟩
  · rfl
  · cases t <;> rfl

/-- Whether an operator follows is decided by the next token. -/
theorem goesOnWith_append_of_next {kind : Operator → Bool}
    (h : goesOnWith kind next.toList = false → goesOnWith kind rest = false) :
    goesOnWith kind (us.head?.or next).toList = false → goesOnWith kind (us ++ rest) = false := by
  cases us with
  | nil => exact h
  | cons t us => cases t <;> exact id

/-- The tokens `ts` are the whole phrase in front of `next`. They are so in front of any token that
a value can stand before, if a value can stand before `next`. -/
def ValuePhrase.Whole (p : ValuePhrase) (ts : List Token) (next : Option Token) : Prop :=
  ∀ rest, (goesOnWith isArithmetic next.toList = false → goesOnWith isArithmetic rest = false) →
    Nonempty (ValueDerivation p (ts ++ rest) rest)

namespace ValuePhrase.Whole

variable {p : ValuePhrase} {node : Node} {values : List Node} {more : List (Operator × Node)}
  {o : Operator}

/-- A whole phrase has a derivation in front of what follows it. -/
theorem derivation (h : p.Whole ts rest.head?) : Nonempty (ValueDerivation p (ts ++ rest) rest) :=
  h rest fun hnext => (goesOnWith_head? rest).symm.trans hnext

/-- A whole phrase is whole in front of any token that continues no more than the given one. -/
theorem mono {next' : Option Token} (h : p.Whole ts next)
    (hnext : goesOnWith isArithmetic next.toList = false →
      goesOnWith isArithmetic next'.toList = false) : p.Whole ts next' :=
  fun rest hrest => h rest fun h => hrest (hnext h)

/-- A whole value in parentheses is a whole operand, whatever follows. -/
theorem parens (h : (value node).Whole ts (some .rightParen)) :
    (primary node).Whole (.leftParen :: (ts ++ [.rightParen])) next := by
  intro rest _
  obtain ⟨d⟩ := h (.rightParen :: rest) fun _ => rfl
  simpa using ⟨d.parens⟩

/-- A call with whole arguments is a whole operand, whatever follows. -/
theorem call {name : String} (h : (arguments values).Whole ts (some .rightParen)) :
    (primary (.call name values)).Whole (.identifier name :: .leftParen :: (ts ++ [.rightParen]))
      next := by
  intro rest _
  obtain ⟨d⟩ := h (.rightParen :: rest) fun _ => rfl
  simpa using ⟨d.call⟩

/-- A whole value is a whole last argument. -/
theorem lastArgument (h : (value node).Whole ts next) : (arguments [node]).Whole ts next := by
  intro rest hrest
  obtain ⟨d⟩ := h rest hrest
  exact ⟨d.lastArgument⟩

/-- An argument goes in front of whole arguments. -/
theorem argument (h : (value node).Whole ts (some .comma)) (h' : (arguments values).Whole us next) :
    (arguments (node :: values)).Whole (ts ++ .comma :: us) next := by
  intro rest hrest
  obtain ⟨d'⟩ := h' rest hrest
  obtain ⟨d⟩ := h (.comma :: (us ++ rest)) fun _ => rfl
  simpa using ⟨d.argument d'⟩

private theorem factor (ho : isProductOperator o = true)
    (h : (primary node).Whole ts (us.head?.or next))
    (h' : (factors more).Whole us next) :
    (factors ((o, node) :: more)).Whole (.operation o :: (ts ++ us)) next := by
  intro rest hrest
  obtain ⟨d'⟩ := h' rest hrest
  obtain ⟨d⟩ := h (us ++ rest) (goesOnWith_append_of_next hrest)
  simpa using ⟨d.factor ho d'⟩

private theorem term (h : (primary node).Whole ts (us.head?.or next))
    (h' : (factors more).Whole us next) :
    (term (calculations node more)).Whole (ts ++ us) next := by
  intro rest hrest
  obtain ⟨d'⟩ := h' rest hrest
  obtain ⟨d⟩ := h (us ++ rest) (goesOnWith_append_of_next hrest)
  simpa using ⟨d.term d'⟩

private theorem nextTerm (ho : isSumOperator o = true)
    (h : (ValuePhrase.term node).Whole ts (us.head?.or next)) (h' : (terms more).Whole us next) :
    (terms ((o, node) :: more)).Whole (.operation o :: (ts ++ us)) next := by
  intro rest hrest
  obtain ⟨d'⟩ := h' rest hrest
  obtain ⟨d⟩ := h (us ++ rest) (goesOnWith_append_of_next hrest)
  simpa using ⟨d.nextTerm ho d'⟩

private theorem value (h : (ValuePhrase.term node).Whole ts (us.head?.or next))
    (h' : (terms more).Whole us next) (hnext : goesOnWith isArithmetic next.toList = false) :
    (value (calculations node more)).Whole (ts ++ us) next := by
  intro rest hrest
  obtain ⟨d'⟩ := h' rest hrest
  obtain ⟨d⟩ := h (us ++ rest) (goesOnWith_append_of_next hrest)
  simpa using ⟨d.value d' (hrest hnext)⟩

/-- A sign of assignment in front of a whole value makes a whole change. -/
theorem assignment (h : (ValuePhrase.value node).Whole ts next) :
    (change o node).Whole (.assignment o :: ts) next := by
  intro rest hrest
  obtain ⟨d⟩ := h rest hrest
  exact ⟨d.assignment⟩

end ValuePhrase.Whole

/-- What a derivation has taken is the whole phrase, whatever is left behind it. -/
theorem ValueDerivation.whole {p : ValuePhrase} (d : ValueDerivation p ts rest) :
    ∃ front, ts = front ++ rest ∧ p.Whole front rest.head? := by
  induction d with
  | integer => exact ⟨[_], rfl, fun _ _ => ⟨.integer⟩⟩
  | float => exact ⟨[_], rfl, fun _ _ => ⟨.float⟩⟩
  | text => exact ⟨[_], rfl, fun _ _ => ⟨.text⟩⟩
  | negativeInteger => exact ⟨[_, _], rfl, fun _ _ => ⟨.negativeInteger⟩⟩
  | negativeFloat => exact ⟨[_, _], rfl, fun _ _ => ⟨.negativeFloat⟩⟩
  | named => exact ⟨[_, _, _, _], rfl, fun _ _ => ⟨.named⟩⟩
  | verbatim => exact ⟨[_, _, _, _], rfl, fun _ _ => ⟨.verbatim⟩⟩
  | callEmpty => exact ⟨[_, _, _], rfl, fun _ _ => ⟨.callEmpty⟩⟩
  | parens _ ih =>
    obtain ⟨front, rfl, h⟩ := ih
    exact ⟨_, by simp, h.parens⟩
  | call _ ih =>
    obtain ⟨front, rfl, h⟩ := ih
    exact ⟨_, by simp, h.call⟩
  | lastArgument _ ih =>
    obtain ⟨front, rfl, h⟩ := ih
    exact ⟨front, rfl, h.lastArgument⟩
  | argument _ _ ih ih' =>
    obtain ⟨others, rfl, h'⟩ := ih'
    obtain ⟨front, rfl, h⟩ := ih
    exact ⟨_, by simp, h.argument h'⟩
  | noFactor => exact ⟨[], rfl, fun _ _ => ⟨.noFactor⟩⟩
  | factor ho _ _ ih ih' =>
    obtain ⟨others, rfl, h'⟩ := ih'
    obtain ⟨front, rfl, h⟩ := ih
    rw [List.head?_append] at h
    exact ⟨_, by simp, h.factor ho h'⟩
  | term _ _ ih ih' =>
    obtain ⟨others, rfl, h'⟩ := ih'
    obtain ⟨front, rfl, h⟩ := ih
    rw [List.head?_append] at h
    exact ⟨_, by simp, h.term h'⟩
  | noTerm => exact ⟨[], rfl, fun _ _ => ⟨.noTerm⟩⟩
  | nextTerm ho _ _ ih ih' =>
    obtain ⟨others, rfl, h'⟩ := ih'
    obtain ⟨front, rfl, h⟩ := ih
    rw [List.head?_append] at h
    exact ⟨_, by simp, h.nextTerm ho h'⟩
  | value _ _ hend ih ih' =>
    obtain ⟨others, rfl, h'⟩ := ih'
    obtain ⟨front, rfl, h⟩ := ih
    rw [List.head?_append] at h
    exact ⟨_, by simp, h.value h' ((goesOnWith_head? _).trans hend)⟩
  | assignment _ ih =>
    obtain ⟨front, rfl, h⟩ := ih
    exact ⟨_, rfl, h.assignment⟩
  | increment => exact ⟨[_], rfl, fun _ _ => ⟨.increment⟩⟩
  | decrement => exact ⟨[_], rfl, fun _ _ => ⟨.decrement⟩⟩

/-- What was read as an operand is whole in front of the next token. -/
theorem whole_of_reads_primary {node : Node} (h : Reads (primary ts) node rest) :
    ∃ front, ts = front ++ rest ∧ (ValuePhrase.primary node).Whole front rest.head? := by
  obtain ⟨d⟩ := derives_primary h
  exact d.whole

/-- What was read as a value is whole in front of the next token. -/
theorem whole_of_reads_expression {node : Node} (h : Reads (expression ts) node rest) :
    ∃ front, ts = front ++ rest ∧ (ValuePhrase.value node).Whole front rest.head? := by
  obtain ⟨d⟩ := derives_value h
  exact d.whole

/-- A whole operand is read in front of whatever begins with the next token. -/
theorem ValuePhrase.Whole.reads_primary {node : Node} (rest : List Token)
    (h : (ValuePhrase.primary node).Whole ts rest.head?) :
    Reads (Grammar.primary (ts ++ rest)) node rest := by
  obtain ⟨d⟩ := h.derivation
  exact d.isRead trivial

/-- A whole value is read in front of whatever begins with the next token. -/
theorem ValuePhrase.Whole.reads_expression {node : Node} (rest : List Token)
    (h : (ValuePhrase.value node).Whole ts rest.head?) :
    Reads (expression (ts ++ rest)) node rest := by
  obtain ⟨d⟩ := h.derivation
  exact d.isRead trivial

/-- The tokens `ts` are the whole phrase in front of `next`. They are so in front of any token that
a value can stand before, if a value can stand before `next`. -/
def Phrase.Whole (p : Phrase) (ts : List Token) (next : Option Token) : Prop :=
  ∀ rest, (goesOnWith isArithmetic next.toList = false → goesOnWith isArithmetic rest = false) →
    Nonempty (Derivation p (ts ++ rest) rest)

namespace Phrase.Whole

variable {p : Phrase} {node : Node} {nodes : List Node}

/-- A whole phrase is whole in front of any token that continues no more than the given one. -/
theorem mono {next' : Option Token} (h : p.Whole ts next)
    (hnext : goesOnWith isArithmetic next.toList = false →
      goesOnWith isArithmetic next'.toList = false) : p.Whole ts next' :=
  fun rest hrest => h rest fun h => hrest (hnext h)

/-- A condition with whole values and a whole body is a whole statement, negated or not. -/
theorem branch (negate : Bool) {first second : Node} {c : Comparator} {vs : List Token}
    (h : (ValuePhrase.value first).Whole ts (some (.comparison c)))
    (h' : (ValuePhrase.value second).Whole us (vs.head?.or next))
    (h'' : (body nodes).Whole vs next) :
    (statement (.branch negate first c second nodes)).Whole
      (.ifWord :: ((if negate then [.notWord] else []) ++ (ts ++ .comparison c :: (us ++ vs))))
      next := by
  intro rest hrest
  obtain ⟨d''⟩ := h'' rest hrest
  obtain ⟨d'⟩ := h' (vs ++ rest) (goesOnWith_append_of_next hrest)
  obtain ⟨d⟩ := h (.comparison c :: (us ++ (vs ++ rest))) fun _ => rfl
  cases negate with
  | false => simpa using ⟨Derivation.branch d d' d''⟩
  | true => simpa using ⟨Derivation.branchNot d d' d''⟩

/-- A selector in front of a whole body makes a whole statement. -/
theorem runAs {selector : String} (h : (body nodes).Whole ts next) :
    (statement (.runAs selector nodes)).Whole (.asWord :: .text selector :: ts) next := by
  intro rest hrest
  obtain ⟨d⟩ := h rest hrest
  exact ⟨.runAs d⟩

/-- A whole target with a whole change behind it is a whole statement. -/
theorem assign {target : Access} {o : Operator}
    (h : (ValuePhrase.primary (.access target)).Whole ts (us.head?.or next))
    (h' : (ValuePhrase.change o node).Whole us next) :
    (statement (.assign target o node)).Whole (ts ++ us) next := by
  intro rest hrest
  obtain ⟨d'⟩ := h' rest hrest
  obtain ⟨d⟩ := h (us ++ rest) (goesOnWith_append_of_next hrest)
  simpa using ⟨Derivation.assign d d'⟩

/-- A whole value is a whole statement. -/
theorem ofValue (h : (ValuePhrase.value node).Whole ts next) : (statement node).Whole ts next := by
  intro rest hrest
  obtain ⟨d⟩ := h rest hrest
  exact ⟨.value d⟩

/-- No statements are whole in front of anything. -/
theorem none : (statements []).Whole [] next := fun _ _ => ⟨.none⟩

/-- A whole statement goes in front of whole statements. -/
theorem more (h : (statement node).Whole ts (us.head?.or next))
    (h' : (statements nodes).Whole us next) :
    (statements (node :: nodes)).Whole (ts ++ us) next := by
  intro rest hrest
  obtain ⟨d'⟩ := h' rest hrest
  obtain ⟨d⟩ := h (us ++ rest) (goesOnWith_append_of_next hrest)
  simpa using ⟨Derivation.more d d'⟩

/-- Whole statements in braces are a whole body, whatever follows. -/
theorem braces (h : (statements nodes).Whole ts (some .rightBrace)) :
    (body nodes).Whole (.leftBrace :: (ts ++ [.rightBrace])) next := by
  intro rest _
  obtain ⟨d⟩ := h (.rightBrace :: rest) fun _ => rfl
  simpa using ⟨Derivation.braces d⟩

/-- A whole statement is a whole body. -/
theorem single (h : (statement node).Whole ts next) : (body [node]).Whole ts next := by
  intro rest hrest
  obtain ⟨d⟩ := h rest hrest
  exact ⟨.single d⟩

end Phrase.Whole

/-- What a derivation has taken is the whole phrase, whatever is left behind it. -/
theorem Derivation.whole {p : Phrase} (d : Derivation p ts rest) :
    ∃ front, ts = front ++ rest ∧ p.Whole front rest.head? := by
  induction d with
  | create => exact ⟨[_, _, _], rfl, fun _ _ => ⟨.create⟩⟩
  | branch d d' _ ih =>
    obtain ⟨inner, rfl, h''⟩ := ih
    obtain ⟨right, rfl, h'⟩ := d'.whole
    obtain ⟨left, rfl, h⟩ := d.whole
    rw [List.head?_append] at h'
    exact ⟨_, by simp, Phrase.Whole.branch false h h' h''⟩
  | branchNot d d' _ ih =>
    obtain ⟨inner, rfl, h''⟩ := ih
    obtain ⟨right, rfl, h'⟩ := d'.whole
    obtain ⟨left, rfl, h⟩ := d.whole
    rw [List.head?_append] at h'
    exact ⟨_, by simp, Phrase.Whole.branch true h h' h''⟩
  | runAs _ ih =>
    obtain ⟨inner, rfl, h⟩ := ih
    exact ⟨_, rfl, h.runAs⟩
  | assign d d' =>
    obtain ⟨change, rfl, h'⟩ := d'.whole
    obtain ⟨target, rfl, h⟩ := d.whole
    rw [List.head?_append] at h
    exact ⟨_, by simp, .assign h h'⟩
  | value d =>
    obtain ⟨front, rfl, h⟩ := d.whole
    exact ⟨front, rfl, .ofValue h⟩
  | none => exact ⟨[], rfl, .none⟩
  | more _ _ ih ih' =>
    obtain ⟨others, rfl, h'⟩ := ih'
    obtain ⟨front, rfl, h⟩ := ih
    rw [List.head?_append] at h
    exact ⟨_, by simp, h.more h'⟩
  | braces _ ih =>
    obtain ⟨inner, rfl, h⟩ := ih
    exact ⟨_, by simp, h.braces⟩
  | single _ ih =>
    obtain ⟨front, rfl, h⟩ := ih
    exact ⟨front, rfl, h.single⟩

end Whole

section Local

/-- The reading depends on the phrase and on the next token only. -/
def Local {α : Type} (read : List Token → α → List Token → Prop) (ts : List Token) (a : α)
    (rest : List Token) : Prop :=
  ∃ front, ts = front ++ rest ∧ ∀ rest', rest'.head? = rest.head? → read (front ++ rest') a rest'

variable {ts rest : List Token} {node : Node}

private theorem head?_append_congr {rest' : List Token} (h : rest'.head? = rest.head?)
    (front : List Token) : (front ++ rest').head? = (front ++ rest).head? := by
  rw [List.head?_append, h, ← List.head?_append]

private theorem local_primary (h : Reads (primary ts) node rest) :
    Local (fun ts => Reads (primary ts)) ts node rest := by
  obtain ⟨front, rfl, hwhole⟩ := whole_of_reads_primary h
  refine ⟨front, rfl, fun rest' hrest => ?_⟩
  rw [← hrest] at hwhole
  exact hwhole.reads_primary rest'

private theorem local_expression (h : Reads (expression ts) node rest) :
    Local (fun ts => Reads (expression ts)) ts node rest := by
  obtain ⟨front, rfl, hwhole⟩ := whole_of_reads_expression h
  refine ⟨front, rfl, fun rest' hrest => ?_⟩
  rw [← hrest] at hwhole
  exact hwhole.reads_expression rest'

/-- A value that stands as a statement is read as one wherever the same token follows. -/
theorem local_assignmentOrValue (h : Reads (assignmentOrValue ts) node rest) :
    Local (fun ts => Reads (assignmentOrValue ts)) ts node rest := by
  obtain ⟨first, mid, hfirst, hmore⟩ := reads_assignmentOrValue.mp h
  rcases hmore with ⟨hsign, hafter⟩ | ⟨target, sign, more, o, value, rfl, rfl, rfl, hnew⟩
  · obtain ⟨front, rfl, hvalue⟩ := local_expression (reads_expression.mpr ⟨_, _, hfirst, hafter⟩)
    refine ⟨front, rfl, fun rest' hrest => ?_⟩
    obtain ⟨first', mid', hfirst', hafter'⟩ := reads_expression.mp (hvalue rest' hrest)
    refine reads_assignmentOrValue.mpr ⟨first', mid', hfirst', .inl ⟨?_, hafter'⟩⟩
    obtain ⟨d⟩ := derives_value (hvalue rest' hrest)
    obtain ⟨_, _, ⟨d'⟩, hmid⟩ := d.value_start
    obtain ⟨rfl, rfl⟩ := hfirst'.unique (d'.isRead trivial)
    rcases hmid with ⟨rfl, -⟩ | hgo
    · -- the value is a primary alone, and the sign that does not follow it is the next token
      obtain ⟨front', hfront, hprimary⟩ := local_primary hfirst'
      obtain rfl := List.append_cancel_right hfront
      obtain ⟨-, rfl⟩ := hfirst.unique (hprimary rest hrest.symm)
      rwa [goesOnAssigning, hrest]
    · obtain ⟨o, more, rfl, -⟩ := goesOnWith_eq_true hgo
      rfl
  · obtain ⟨front, rfl, htarget⟩ := local_primary hfirst
    rcases hnew with ⟨hsign, rfl⟩ | ⟨hsign, hvalue⟩
    · refine ⟨front ++ [sign], by simp, fun rest' _ => ?_⟩
      rw [List.append_assoc]
      exact reads_assignmentOrValue.mpr ⟨_, _, htarget (sign :: rest') rfl,
        .inr ⟨_, _, _, _, _, rfl, rfl, rfl, .inl ⟨hsign, rfl⟩⟩⟩
    · obtain ⟨new, rfl, hnew⟩ := local_expression hvalue
      refine ⟨front ++ sign :: new, by simp, fun rest' hrest => ?_⟩
      rw [List.append_assoc]
      exact reads_assignmentOrValue.mpr ⟨_, _, htarget (sign :: (new ++ rest')) rfl,
        .inr ⟨_, _, _, _, _, rfl, rfl, rfl, .inr ⟨hsign, hnew rest' hrest⟩⟩⟩

/-- Tokens that a statement starts with if it is neither a value nor an assignment. -/
def isStatementWord (t : Token) : Bool := t == .createWord || t == .ifWord || t == .asWord

/-- A statement that begins with no word of its own is an assignment or a value. -/
theorem statement_of_not_word {t : Token} (h : isStatementWord t = false) :
    statement (t :: ts) = assignmentOrValue (t :: ts) := by
  cases t with
  | createWord | ifWord | asWord => cases h
  | _ => simp [statement]

/-- A statement whose first token is no word of its own is an assignment or a value. -/
theorem statement_of_head (h : ts.head?.any (!isStatementWord ·) = true) :
    statement ts = assignmentOrValue ts := by
  cases ts with
  | nil => cases h
  | cons t ts => exact statement_of_not_word (by simpa using h)

private theorem local_statement_value {t : Token} (ht : isStatementWord t = false)
    (h : Reads (statement (t :: ts)) node rest) :
    Local (fun ts => Reads (statement ts)) (t :: ts) node rest := by
  rw [statement_of_not_word ht] at h
  obtain ⟨front, hfront, hread⟩ := local_assignmentOrValue h
  cases front with
  | nil =>
    obtain rfl : t :: ts = rest := hfront
    exact absurd h.length_lt (Nat.lt_irrefl _)
  | cons t' front =>
    obtain ⟨rfl, rfl⟩ := List.cons.inj hfront
    refine ⟨t :: front, rfl, fun rest' hrest => ?_⟩
    change Reads (statement (t :: (front ++ rest'))) node rest'
    rw [statement_of_not_word ht]
    exact hread rest' hrest

private theorem reads_statement_create :
    Reads (statement (.createWord :: ts)) node rest ↔ Reads (creation ts) node rest := by
  rw [statement, reads_behind]

private theorem reads_statement_ifNot :
    Reads (statement (.ifWord :: .notWord :: ts)) node rest ↔
      Reads (conditional true ts) node rest := by
  rw [statement, reads_behind_behind]

private theorem reads_statement_if (h : ts.head? ≠ some .notWord) :
    Reads (statement (.ifWord :: ts)) node rest ↔ Reads (conditional false ts) node rest := by
  rw [statement, reads_behind]
  rintro more rfl
  exact h rfl

private theorem reads_statement_as :
    Reads (statement (.asWord :: ts)) node rest ↔
      ∃ selector more nodes, ts = .text selector :: more ∧ node = .runAs selector nodes ∧
        Reads (body more) nodes rest := by
  rcases ts with _ | ⟨t, ts⟩
  · simp [statement]
  · cases t with
    | text selector =>
      rw [statement, reads_map_behind_behind]
      simp [and_comm, eq_comm]
    | _ => simp [statement]

mutual

/-- Reading a statement looks one token ahead. -/
theorem local_statement {ts rest : List Token} {node : Node} (h : Reads (statement ts) node rest) :
    Local (fun ts => Reads (statement ts)) ts node rest := by
  match ts, h with
  | [], h =>
    rw [statement] at h
    exact absurd h not_reads_missing
  | t :: ts, h =>
    cases t with
    | createWord =>
      obtain ⟨store, rfl, rfl⟩ := reads_creation.mp (reads_statement_create.mp h)
      exact ⟨[_, _, _], rfl, fun rest' _ =>
        reads_statement_create.mpr (reads_creation.mpr ⟨store, rfl, rfl⟩)⟩
    | ifWord =>
      by_cases hnot : ts.head? = some .notWord
      · obtain ⟨ts, rfl⟩ := List.head?_eq_some_iff.mp hnot
        obtain ⟨front, rfl, hread⟩ := local_conditional (reads_statement_ifNot.mp h)
        exact ⟨.ifWord :: .notWord :: front, rfl, fun rest' hrest =>
          reads_statement_ifNot.mpr (hread rest' hrest)⟩
      · obtain ⟨front, rfl, hread⟩ := local_conditional ((reads_statement_if hnot).mp h)
        refine ⟨.ifWord :: front, rfl, fun rest' hrest => ?_⟩
        rw [← head?_append_congr hrest front] at hnot
        exact (reads_statement_if hnot).mpr (hread rest' hrest)
    | asWord =>
      obtain ⟨selector, more, nodes, rfl, rfl, hbody⟩ := reads_statement_as.mp h
      obtain ⟨front, rfl, hread⟩ := local_body hbody
      exact ⟨.asWord :: .text selector :: front, rfl, fun rest' hrest =>
        reads_statement_as.mpr ⟨selector, _, nodes, rfl, rfl, hread rest' hrest⟩⟩
    | _ => exact local_statement_value rfl h
termination_by 3 * ts.length

private theorem local_conditional {negate : Bool} {ts rest : List Token} {node : Node}
    (h : Reads (conditional negate ts) node rest) :
    Local (fun ts => Reads (conditional negate ts)) ts node rest := by
  obtain ⟨first, c, mid, second, mid', nodes, hfirst, hsecond, hbody, rfl⟩ :=
    reads_conditional.mp h
  have hlt : mid.length < _ := Nat.lt_of_succ_lt hfirst.length_lt
  have hlt' := hsecond.length_lt
  obtain ⟨inner, rfl, hinner⟩ := local_body hbody
  obtain ⟨right, rfl, hright⟩ := local_expression hsecond
  obtain ⟨left, rfl, hleft⟩ := local_expression hfirst
  refine ⟨left ++ .comparison c :: (right ++ inner), by simp, fun rest' hrest => ?_⟩
  rw [List.append_assoc, List.cons_append, List.append_assoc]
  exact reads_conditional.mpr ⟨first, c, _, second, _, nodes, hleft _ rfl,
    hright _ (head?_append_congr hrest inner), hinner rest' hrest, rfl⟩
termination_by 3 * ts.length

private theorem local_body {ts rest : List Token} {nodes : List Node}
    (h : Reads (body ts) nodes rest) :
    Local (fun ts => Reads (body ts)) ts nodes rest := by
  by_cases hbrace : ts.head? = some .leftBrace
  · obtain ⟨ts, rfl⟩ := List.head?_eq_some_iff.mp hbrace
    obtain ⟨front, rfl, hread⟩ := local_untilBrace (reads_body_braces.mp h)
    exact ⟨.leftBrace :: front, rfl, fun rest' hrest => reads_body_braces.mpr (hread rest' hrest)⟩
  · obtain ⟨node, rfl, hnode⟩ := (reads_body_single hbrace).mp h
    obtain ⟨front, rfl, hread⟩ := local_statement hnode
    refine ⟨front, rfl, fun rest' hrest => ?_⟩
    rw [← head?_append_congr hrest front] at hbrace
    exact (reads_body_single hbrace).mpr ⟨node, rfl, hread rest' hrest⟩
termination_by 3 * ts.length + 1
decreasing_by
  · subst_vars
    simp only [List.length_cons]
    omega
  · omega

private theorem local_untilBrace {ts rest : List Token} {nodes : List Node}
    (h : Reads (untilBrace ts) nodes rest) :
    Local (fun ts => Reads (untilBrace ts)) ts nodes rest := by
  by_cases hbrace : ts.head? = some .rightBrace
  · obtain ⟨ts, rfl⟩ := List.head?_eq_some_iff.mp hbrace
    obtain ⟨rfl, rfl⟩ := reads_untilBrace_end.mp h
    exact ⟨[.rightBrace], rfl, fun rest' _ => reads_untilBrace_end.mpr ⟨rfl, rfl⟩⟩
  · obtain ⟨node, others, mid, rfl, hnode, hothers⟩ := (reads_untilBrace_more hbrace).mp h
    have hlt := hnode.length_lt
    obtain ⟨more, rfl, hmore⟩ := local_untilBrace hothers
    obtain ⟨front, rfl, hread⟩ := local_statement hnode
    refine ⟨front ++ more, by simp, fun rest' hrest => ?_⟩
    have hnext := head?_append_congr hrest more
    rw [← head?_append_congr hnext front] at hbrace
    rw [List.append_assoc]
    exact (reads_untilBrace_more hbrace).mpr
      ⟨node, others, _, rfl, hread _ hnext, hmore rest' hrest⟩
termination_by 3 * ts.length + 1

end

/-- The reader takes the tokens for this statement in front of the next token. -/
def TakenAsStatement (node : Node) (ts : List Token) (next : Option Token) : Prop :=
  ∀ rest, rest.head? = next → Reads (statement (ts ++ rest)) node rest

/-- What is taken as a statement is a whole one. -/
theorem TakenAsStatement.whole {next : Option Token} (h : TakenAsStatement node ts next) :
    (Phrase.statement node).Whole ts next := by
  have hnext : next.toList.head? = next := by cases next <;> rfl
  obtain ⟨d⟩ := derives_statement (h next.toList hnext)
  obtain ⟨front, hfront, hwhole⟩ := d.whole
  obtain rfl := List.append_cancel_right hfront
  rwa [hnext] at hwhole

end Local

end Datapack.Grammar
