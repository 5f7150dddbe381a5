import Datapack.Proofs.Grammar.Failing
import Datapack.Proofs.Grammar.Whole

/-!
# Where reading stops

Where reading gets stuck, said by rules. A phrase has been begun with some tokens
and cannot go on with the token that follows, or with the end of the tokens.
Nothing behind that token is looked at: the rules mention the tokens in front and
the next one, and no others. Values that were read in front are given by what
derives them. Statements are given by the reader, since one that ends in a target
may be derived in front of a sign at which it is not read.

The readers get stuck exactly where the rules say. As with derivations, one
direction follows the recursion of the readers and the other is by induction on
the rules.
-/

namespace Datapack.Grammar

section Rules

/-- What reading can stop in, inside a statement. -/
inductive ValueForm where
  | primary
  | arguments
  | value

/-- `ValueStop next form ts what`: a phrase of this form begins with the tokens `ts`, and does not
go on with `next` where `what` is expected. -/
inductive ValueStop (next : Option Token) : ValueForm → List Token → Expected → Prop
  | value : Misses .value next → ValueStop next .primary [] .value
  | minus : Misses .numberAfterMinus next →
      ValueStop next .primary [.operation .sub] .numberAfterMinus
  | name {name} : Misses .accessOrCall next →
      ValueStop next .primary [.identifier name] .accessOrCall
  | entry {store} : Misses .entryName next →
      ValueStop next .primary [.identifier store, .leftBracket] .entryName
  | bracket {store t} : Expected.entryName.admits t = true → Misses .closingBracket next →
      ValueStop next .primary [.identifier store, .leftBracket, t] .closingBracket
  | parens {ts what} : ValueStop next .value ts what →
      ValueStop next .primary (.leftParen :: ts) what
  | parensEnd {node ts} : (ValuePhrase.value node).Whole ts next → Misses .closingParen next →
      ValueStop next .primary (.leftParen :: ts) .closingParen
  | call {name ts what} : ts.head?.or next ≠ some .rightParen → ValueStop next .arguments ts what →
      ValueStop next .primary (.identifier name :: .leftParen :: ts) what
  | argument {ts what} : ValueStop next .value ts what → ValueStop next .arguments ts what
  | argumentEnd {node ts} : (ValuePhrase.value node).Whole ts next → Misses .argumentEnd next →
      ValueStop next .arguments ts .argumentEnd
  | nextArgument {node ts us what} : (ValuePhrase.value node).Whole ts (some .comma) →
      ValueStop next .arguments us what → ValueStop next .arguments (ts ++ .comma :: us) what
  | first {ts what} : ValueStop next .primary ts what → ValueStop next .value ts what
  | operand {node o ts us what} : isArithmetic o = true →
      (ValuePhrase.primary node).Whole ts (some (.operation o)) → ValueStop next .value us what →
      ValueStop next .value (ts ++ .operation o :: us) what

/-- What reading can stop in. -/
inductive Form where
  | statement
  /-- The condition and the body of a conditional statement. -/
  | conditional
  | body
  /-- Statements up to a brace, or up to the end of the tokens. -/
  | statements (inBraces : Bool)

/-- `Stop next form ts fault`: a phrase of this form begins with the tokens `ts`, and does not go on
with `next` because of the fault. The target in the fault ends in front of `next`. -/
inductive Stop (next : Option Token) : Form → List Token → Fault → Prop
  | nothing : next = none → Stop next .statement [] (.expected .statement)
  | create : Misses .storeWord next → Stop next .statement [.createWord] (.expected .storeWord)
  | uncreatable {word} : next = some (.identifier word) → word ≠ storeWord →
      Stop next .statement [.createWord] (.uncreatable word)
  | created : Misses .storeName next →
      Stop next .statement [.createWord, .identifier storeWord] (.expected .storeName)
  | branch {ts fault} : ts.head?.or next ≠ some .notWord → Stop next .conditional ts fault →
      Stop next .statement (.ifWord :: ts) fault
  | branchNot {ts fault} : Stop next .conditional ts fault →
      Stop next .statement (.ifWord :: .notWord :: ts) fault
  | left {ts what} : ValueStop next .value ts what → Stop next .conditional ts (.expected what)
  | comparator {first ts} : (ValuePhrase.value first).Whole ts next → Misses .comparator next →
      Stop next .conditional ts (.expected .comparator)
  | right {first c ts us what} : (ValuePhrase.value first).Whole ts (some (.comparison c)) →
      ValueStop next .value us what →
      Stop next .conditional (ts ++ .comparison c :: us) (.expected what)
  | branchBody {first c second ts us vs fault} :
      (ValuePhrase.value first).Whole ts (some (.comparison c)) →
      (ValuePhrase.value second).Whole us (vs.head?.or next) → Stop next .body vs fault →
      Stop next .conditional (ts ++ .comparison c :: (us ++ vs)) fault
  | selector : Misses .selector next → Stop next .statement [.asWord] (.expected .selector)
  | scope {selector ts fault} : Stop next .body ts fault →
      Stop next .statement (.asWord :: .text selector :: ts) fault
  | value {ts what} : (ts.head?.or next).any (!isStatementWord ·) = true →
      ValueStop next .value ts what → Stop next .statement ts (.expected what)
  | assigned {target o ts us what} :
      (ValuePhrase.primary (.access target)).Whole ts (some (.assignment o)) →
      ValueStop next .value us what →
      Stop next .statement (ts ++ .assignment o :: us) (.expected what)
  | target {node ts} : (ValuePhrase.primary node).Whole ts next →
      goesOnAssigning next.toList = true → (∀ target, node ≠ .access target) →
      Stop next .statement ts (.unassignable node.kind ts)
  | single {ts fault} : ts.head?.or next ≠ some .leftBrace → Stop next .statement ts fault →
      Stop next .body ts fault
  | braces {ts fault} : Stop next (.statements true) ts fault →
      Stop next .body (.leftBrace :: ts) fault
  | unclosed : next = none → Stop next (.statements true) [] (.expected .closingBrace)
  | first {inBraces ts fault} : (ts.head?.or next).isSome = true →
      (inBraces = true → ts.head?.or next ≠ some .rightBrace) → Stop next .statement ts fault →
      Stop next (.statements inBraces) ts fault
  | next {inBraces node ts us fault} : TakenAsStatement node ts (us.head?.or next) →
      Stop next (.statements inBraces) us fault → Stop next (.statements inBraces) (ts ++ us) fault

end Rules

section Soundness

/-- Reading a phrase of this form stops as the rules say. -/
def ValueForm.StopsAt (form : ValueForm) (ts : List Token) (e : Stuck) : Prop :=
  ∃ front rest what, ts = front ++ rest ∧ e = ⟨.expected what, rest⟩ ∧
    ValueStop rest.head? form front what

mutual

private theorem stops_primary {ts : List Token} {e : Stuck} (h : primary ts = .error e) :
    ValueForm.primary.StopsAt ts e := by
  match ts, h with
  | [], h =>
    simp only [primary, missing_eq_error] at h
    exact ⟨[], [], _, rfl, h, .value rfl⟩
  | [.identifier name], h =>
    simp only [primary, missing_eq_error] at h
    exact ⟨[_], [], _, rfl, h, .name rfl⟩
  | .identifier name :: t :: ts, h =>
    cases t with
    | leftBracket =>
      rw [primary_access_eq_error, accessEntry_eq_error] at h
      rcases h with hentry | ⟨t, rest, rfl, ht, hend⟩
      · exact ⟨[_, _], ts, _, rfl, hentry.2, .entry hentry.1⟩
      · exact ⟨[_, _, _], rest, _, rfl, hend.2, .bracket ht hend.1⟩
    | leftParen =>
      by_cases hclose : ts.head? = some .rightParen
      · obtain ⟨rest, rfl⟩ := List.head?_eq_some_iff.mp hclose
        rw [primary] at h
        cases h
      · rw [primary_call_eq_error hclose] at h
        obtain ⟨front, rest, what, rfl, rfl, hstop⟩ := stops_arguments h
        rw [List.head?_append] at hclose
        exact ⟨_, rest, what, rfl, rfl, .call hclose hstop⟩
    | _ =>
      simp only [primary, missing_eq_error] at h
      exact ⟨[_], _, _, rfl, h, .name rfl⟩
  | .leftParen :: ts, h =>
    rcases primary_parens_eq_error.mp h with hvalue | ⟨node, rest, hnode, hend⟩
    · obtain ⟨front, rest, what, rfl, rfl, hstop⟩ := stops_expression hvalue
      exact ⟨_, rest, what, rfl, rfl, .parens hstop⟩
    · obtain ⟨front, rfl, hwhole⟩ := whole_of_reads_expression hnode
      exact ⟨_, rest, _, rfl, hend.2, .parensEnd hwhole hend.1⟩
  | .operation o :: ts, h =>
    cases o with
    | sub =>
      rw [primary_minus_eq_error] at h
      exact ⟨[_], ts, _, rfl, h.2, .minus h.1⟩
    | _ =>
      simp only [primary, missing_eq_error] at h
      exact ⟨[], _, _, rfl, h, .value rfl⟩
  | .integer _ :: _, h | .float _ :: _, h | .text _ :: _, h =>
    rw [primary] at h
    cases h
  | .leftBrace :: _, h | .rightBrace :: _, h | .rightParen :: _, h | .leftBracket :: _, h
  | .rightBracket :: _, h | .comma :: _, h | .createWord :: _, h | .ifWord :: _, h
  | .asWord :: _, h | .notWord :: _, h | .assignment _ :: _, h | .increment :: _, h
  | .decrement :: _, h | .comparison _ :: _, h =>
    simp only [primary, missing_eq_error] at h
    exact ⟨[], _, _, rfl, h, .value rfl⟩
termination_by 3 * ts.length

private theorem stops_arguments {ts : List Token} {e : Stuck} (h : arguments ts = .error e) :
    ValueForm.arguments.StopsAt ts e := by
  rcases arguments_eq_error.mp h with hvalue | ⟨node, mid, hnode, hmore⟩
  · obtain ⟨front, rest, what, rfl, rfl, hstop⟩ := stops_expression hvalue
    exact ⟨front, rest, what, rfl, rfl, .argument hstop⟩
  · have hlt := hnode.length_lt
    obtain ⟨front, rfl, hwhole⟩ := whole_of_reads_expression hnode
    rcases hmore with hend | ⟨mid, rfl, hothers⟩
    · exact ⟨front, mid, _, rfl, hend.2, .argumentEnd hwhole hend.1⟩
    · obtain ⟨others, rest, what, rfl, rfl, hstop⟩ := stops_arguments hothers
      exact ⟨front ++ .comma :: others, rest, what, by simp, rfl, .nextArgument hwhole hstop⟩
termination_by 3 * ts.length + 2
decreasing_by
  · omega
  · subst_vars
    simp only [List.length_cons] at hlt
    omega

private theorem stops_expression {ts : List Token} {e : Stuck} (h : expression ts = .error e) :
    ValueForm.value.StopsAt ts e := by
  rcases expression_eq_error.mp h with hfirst | ⟨first, mid, hfirst, hmore⟩
  · obtain ⟨front, rest, what, rfl, rfl, hstop⟩ := stops_primary hfirst
    exact ⟨front, rest, what, rfl, rfl, .first hstop⟩
  · obtain ⟨o, mid, rfl, ho, hvalue⟩ := afterPrimary_eq_error_iff.mp hmore
    have hlt := hfirst.length_lt
    obtain ⟨front, rfl, hwhole⟩ := whole_of_reads_primary hfirst
    obtain ⟨others, rest, what, rfl, rfl, hstop⟩ := stops_expression hvalue
    exact ⟨front ++ .operation o :: others, rest, what, by simp, rfl, .operand ho hwhole hstop⟩
termination_by 3 * ts.length + 1
decreasing_by
  · omega
  · subst_vars
    simp only [List.length_cons] at hlt
    omega

end

/-- Reading stuck in front of `rest`. The target of an assignment goes on there. -/
def Fault.stuckAt (rest : List Token) : Fault → Stuck
  | .unassignable kind target => ⟨.unassignable kind (target ++ rest), rest⟩
  | fault => ⟨fault, rest⟩

/-- Reading a phrase of this form stops as the rules say. -/
def Form.StopsAt (form : Form) (ts : List Token) (e : Stuck) : Prop :=
  ∃ front rest fault, ts = front ++ rest ∧ e = fault.stuckAt rest ∧ Stop rest.head? form front fault

private theorem stops_assignmentOrValue {t : Token} {ts : List Token} {e : Stuck}
    (ht : isStatementWord t = false) (h : assignmentOrValue (t :: ts) = .error e) :
    Form.statement.StopsAt (t :: ts) e := by
  rcases assignmentOrValue_eq_error.mp h with hvalue | ⟨first, mid, hfirst, sign, rest, rfl, hmore⟩
  · obtain ⟨front, rest, what, hts, rfl, hstop⟩ := stops_expression hvalue
    refine ⟨front, rest, _, hts, rfl, .value ?_ hstop⟩
    rw [← List.head?_append, ← hts, List.head?_cons, Option.any_some, ht]
    rfl
  · obtain ⟨front, hts, hwhole⟩ := whole_of_reads_primary hfirst
    rw [hts]
    rcases hmore with ⟨target, o, rfl, rfl, hvalue⟩ | ⟨hsign, hfirst, rfl⟩
    · obtain ⟨new, rest, what, rfl, rfl, hstop⟩ := stops_expression hvalue
      exact ⟨front ++ .assignment o :: new, rest, _, by simp, rfl, .assigned hwhole hstop⟩
    · rw [hts]
      exact ⟨front, sign :: rest, _, rfl, rfl, .target hwhole hsign hfirst⟩

mutual

private theorem stops_statement {ts : List Token} {e : Stuck} (h : statement ts = .error e) :
    Form.statement.StopsAt ts e := by
  match ts, h with
  | [], h =>
    rw [statement, missing_eq_error] at h
    exact ⟨[], [], .expected _, rfl, h, .nothing rfl⟩
  | t :: ts, h =>
    cases t with
    | createWord =>
      rw [statement_create_eq_error, creation_eq_error] at h
      rcases h with hword | ⟨word, rest, rfl, ⟨rfl, hname⟩ | ⟨hword, rfl⟩⟩
      · exact ⟨[_], ts, .expected _, rfl, hword.2, .create hword.1⟩
      · exact ⟨[_, _], rest, .expected _, rfl, hname.2, .created hname.1⟩
      · exact ⟨[_], _, _, rfl, rfl, .uncreatable rfl hword⟩
    | ifWord =>
      rcases statement_if_eq_error.mp h with ⟨rest, rfl, hmore⟩ | ⟨hnot, hmore⟩
      · obtain ⟨front, rest, fault, rfl, rfl, hstop⟩ := stops_conditional hmore
        exact ⟨_, rest, fault, rfl, rfl, .branchNot hstop⟩
      · obtain ⟨front, rest, fault, rfl, rfl, hstop⟩ := stops_conditional hmore
        rw [List.head?_append] at hnot
        exact ⟨_, rest, fault, rfl, rfl, .branch hnot hstop⟩
    | asWord =>
      rcases statement_as_eq_error.mp h with hselector | ⟨selector, rest, rfl, hbody⟩
      · exact ⟨[_], ts, .expected _, rfl, hselector.2, .selector hselector.1⟩
      · obtain ⟨front, rest, fault, rfl, rfl, hstop⟩ := stops_body hbody
        exact ⟨_, rest, fault, rfl, rfl, .scope hstop⟩
    | _ =>
      rw [statement_of_not_word rfl] at h
      exact stops_assignmentOrValue rfl h
termination_by 3 * ts.length

private theorem stops_conditional {negate : Bool} {ts : List Token} {e : Stuck}
    (h : conditional negate ts = .error e) : Form.conditional.StopsAt ts e := by
  rcases conditional_eq_error.mp h with hleft | ⟨first, mid, hfirst, hmore⟩
  · obtain ⟨front, rest, what, rfl, rfl, hstop⟩ := stops_expression hleft
    exact ⟨front, rest, _, rfl, rfl, .left hstop⟩
  · have hlt := hfirst.length_lt
    obtain ⟨left, rfl, hwhole⟩ := whole_of_reads_expression hfirst
    rcases hmore with hend | ⟨c, mid, rfl, hright | ⟨second, mid', hsecond, hbody⟩⟩
    · exact ⟨left, mid, .expected _, rfl, hend.2, .comparator hwhole hend.1⟩
    · obtain ⟨right, rest, what, rfl, rfl, hstop⟩ := stops_expression hright
      exact ⟨left ++ .comparison c :: right, rest, _, by simp, rfl, .right hwhole hstop⟩
    · have hlt' := hsecond.length_lt
      obtain ⟨right, rfl, hwhole'⟩ := whole_of_reads_expression hsecond
      obtain ⟨inner, rest, fault, rfl, rfl, hstop⟩ := stops_body hbody
      rw [List.head?_append] at hwhole'
      exact ⟨left ++ .comparison c :: (right ++ inner), rest, fault, by simp, rfl,
        .branchBody hwhole hwhole' hstop⟩
termination_by 3 * ts.length
decreasing_by
  subst_vars
  simp only [List.length_cons] at hlt
  omega

private theorem stops_body {ts : List Token} {e : Stuck} (h : body ts = .error e) :
    Form.body.StopsAt ts e := by
  by_cases hbrace : ts.head? = some .leftBrace
  · obtain ⟨ts, rfl⟩ := List.head?_eq_some_iff.mp hbrace
    obtain ⟨front, rest, fault, rfl, rfl, hstop⟩ := stops_untilBrace (body_braces_eq_error.mp h)
    exact ⟨_, rest, fault, rfl, rfl, .braces hstop⟩
  · obtain ⟨front, rest, fault, rfl, rfl, hstop⟩ :=
      stops_statement ((body_single_eq_error hbrace).mp h)
    rw [List.head?_append] at hbrace
    exact ⟨front, rest, fault, rfl, rfl, .single hbrace hstop⟩
termination_by 3 * ts.length + 1
decreasing_by
  · subst_vars
    simp only [List.length_cons]
    omega
  · omega

private theorem stops_untilBrace {ts : List Token} {e : Stuck} (h : untilBrace ts = .error e) :
    (Form.statements true).StopsAt ts e := by
  match ts, h with
  | [], h =>
    rw [untilBrace, missing_eq_error] at h
    exact ⟨[], [], .expected _, rfl, h, .unclosed rfl⟩
  | t :: ts, h =>
    by_cases hbrace : t = .rightBrace
    · subst hbrace
      rw [untilBrace] at h
      cases h
    · rcases (untilBrace_eq_error hbrace).mp h with hfirst | ⟨node, mid, hnode, hmore⟩
      · obtain ⟨front, rest, fault, hts, rfl, hstop⟩ := stops_statement hfirst
        refine ⟨front, rest, fault, hts, rfl, .first ?_ ?_ hstop⟩
        · rw [← List.head?_append, ← hts]
          rfl
        · rw [← List.head?_append, ← hts]
          simpa using hbrace
      · have hlt := hnode.length_lt
        obtain ⟨front, hts, hread⟩ := local_statement hnode
        obtain ⟨others, rest, fault, rfl, rfl, hstop⟩ := stops_untilBrace hmore
        rw [List.head?_append] at hread
        exact ⟨front ++ others, rest, fault, by simpa using hts, rfl, .next hread hstop⟩
termination_by 3 * ts.length + 1
decreasing_by
  · omega
  · omega

end

private theorem stops_statements {ts : List Token} {e : Stuck} (h : statements ts = .error e) :
    (Form.statements false).StopsAt ts e := by
  cases ts with
  | nil =>
    rw [statements] at h
    cases h
  | cons t ts =>
    rcases statements_eq_error.mp h with hfirst | ⟨node, mid, hnode, hmore⟩
    · obtain ⟨front, rest, fault, hts, rfl, hstop⟩ := stops_statement hfirst
      refine ⟨front, rest, fault, hts, rfl, .first ?_ (by simp) hstop⟩
      rw [← List.head?_append, ← hts]
      rfl
    · have hlt := hnode.length_lt
      obtain ⟨front, hts, hread⟩ := local_statement hnode
      obtain ⟨others, rest, fault, rfl, rfl, hstop⟩ := stops_statements hmore
      rw [List.head?_append] at hread
      exact ⟨front ++ others, rest, fault, by simpa using hts, rfl, .next hread hstop⟩
termination_by ts.length
decreasing_by
  subst_vars
  exact hlt

end Soundness

section Completeness

/-- The reader for phrases of this form gets stuck. -/
def ValueForm.Fails : ValueForm → List Token → Stuck → Prop
  | .primary, ts, e => Grammar.primary ts = .error e
  | .arguments, ts, e => Grammar.arguments ts = .error e
  | .value, ts, e => expression ts = .error e

/-- The readers stop where the rules say, whatever follows the next token. -/
theorem ValueStop.fails {form : ValueForm} {ts rest : List Token} {what : Expected}
    (h : ValueStop rest.head? form ts what) : form.Fails (ts ++ rest) ⟨.expected what, rest⟩ := by
  induction h with
  | value h => exact primary_of_misses h
  | minus h => exact primary_minus_eq_error.mpr ⟨h, rfl⟩
  | name h => exact primary_name_of_misses h
  | entry h => exact primary_access_eq_error.mpr (accessEntry_eq_error.mpr (.inl ⟨h, rfl⟩))
  | bracket ht h =>
    exact primary_access_eq_error.mpr (accessEntry_eq_error.mpr (.inr ⟨_, _, rfl, ht, h, rfl⟩))
  | parens _ ih => exact primary_parens_eq_error.mpr (.inl ih)
  | parensEnd hwhole h =>
    exact primary_parens_eq_error.mpr (.inr ⟨_, _, hwhole.reads_expression rest, h, rfl⟩)
  | call hclose _ ih =>
    rw [← List.head?_append] at hclose
    exact (primary_call_eq_error hclose).mpr ih
  | argument _ ih => exact arguments_eq_error.mpr (.inl ih)
  | argumentEnd hwhole h =>
    exact arguments_eq_error.mpr (.inr ⟨_, _, hwhole.reads_expression rest, .inl ⟨h, rfl⟩⟩)
  | @nextArgument _ _ us _ hwhole _ ih =>
    have hfirst := hwhole.reads_expression (.comma :: (us ++ rest))
    rw [List.append_assoc]
    exact arguments_eq_error.mpr (.inr ⟨_, _, hfirst, .inr ⟨_, rfl, ih⟩⟩)
  | first _ ih => exact expression_eq_error.mpr (.inl ih)
  | @operand _ o _ us _ ho hwhole _ ih =>
    have hfirst := hwhole.reads_primary (.operation o :: (us ++ rest))
    rw [List.append_assoc]
    exact expression_eq_error.mpr (.inr ⟨_, _, hfirst,
      afterPrimary_eq_error_iff.mpr ⟨o, _, rfl, ho, ih⟩⟩)

/-- The reader for phrases of this form gets stuck. -/
def Form.Fails : Form → List Token → Stuck → Prop
  | .statement, ts, e => Grammar.statement ts = .error e
  | .conditional, ts, e => ∀ negate, Grammar.conditional negate ts = .error e
  | .body, ts, e => Grammar.body ts = .error e
  | .statements true, ts, e => untilBrace ts = .error e
  | .statements false, ts, e => Grammar.statements ts = .error e

section Cases

variable {ts us rest : List Token} {e : Stuck}

/-- A condition gets stuck in its body. -/
theorem conditional_fails_body {first second : Node} {c : Comparator}
    (hfirst : (ValuePhrase.value first).Whole ts (some (.comparison c)))
    (hsecond : (ValuePhrase.value second).Whole us rest.head?) (h : body rest = .error e)
    (negate : Bool) : conditional negate (ts ++ .comparison c :: (us ++ rest)) = .error e := by
  have hread := hfirst.reads_expression (.comparison c :: (us ++ rest))
  have hread' := hsecond.reads_expression rest
  exact conditional_eq_error.mpr
    (.inr ⟨_, _, hread, .inr ⟨c, _, rfl, .inr ⟨_, _, hread', h⟩⟩⟩)

/-- An assignment gets stuck in its value. -/
theorem statement_fails_assigned {target : Access} {o : Operator}
    (htarget : (ValuePhrase.primary (.access target)).Whole ts (some (.assignment o)))
    (h : expression rest = .error e) : statement (ts ++ .assignment o :: rest) = .error e := by
  obtain ⟨d⟩ := htarget (.assignment o :: rest) fun _ => rfl
  rw [statement_of_opensValue (d.opens rfl)]
  exact assignmentOrValue_eq_error.mpr
    (.inr ⟨_, _, d.isRead trivial, _, _, rfl, .inl ⟨_, o, rfl, rfl, h⟩⟩)

/-- Behind what cannot be assigned to, a sign of assignment is an error of its own. -/
theorem statement_fails_target {node : Node}
    (hwhole : (ValuePhrase.primary node).Whole ts rest.head?)
    (hsign : goesOnAssigning rest.head?.toList = true) (hnode : ∀ target, node ≠ .access target) :
    statement (ts ++ rest) = .error ((Fault.unassignable node.kind ts).stuckAt rest) := by
  obtain ⟨d⟩ := hwhole.derivation
  rw [statement_of_opensValue (d.opens rfl)]
  cases rest with
  | nil => cases hsign
  | cons sign rest =>
    exact assignmentOrValue_eq_error.mpr
      (.inr ⟨_, _, d.isRead trivial, sign, rest, rfl, .inr ⟨hsign, hnode, rfl⟩⟩)

/-- Statements get stuck in the first one or behind it, in braces and outside. -/
theorem fails_statements {inBraces : Bool} {t : Token}
    (ht : inBraces = true → t ≠ .rightBrace) :
    (Form.statements inBraces).Fails (t :: ts) e ↔
      statement (t :: ts) = .error e ∨
        ∃ node rest, Reads (statement (t :: ts)) node rest ∧
          (Form.statements inBraces).Fails rest e := by
  cases inBraces with
  | false => exact statements_eq_error
  | true => exact untilBrace_eq_error (ht rfl)

private theorem fails_first {inBraces : Bool} (hsome : ts.head?.isSome = true)
    (hbrace : inBraces = true → ts.head? ≠ some .rightBrace) (h : statement ts = .error e) :
    (Form.statements inBraces).Fails ts e := by
  cases ts with
  | nil => cases hsome
  | cons t ts => exact (fails_statements (by simpa using hbrace)).mpr (.inl h)

private theorem fails_next {inBraces : Bool} {node : Node} (hread : Reads (statement ts) node rest)
    (h : (Form.statements inBraces).Fails rest e) : (Form.statements inBraces).Fails ts e := by
  obtain ⟨d⟩ := derives_statement hread
  have hopens := d.opens
  cases ts with
  | nil => exact absurd hread.length_lt (Nat.not_lt_zero _)
  | cons t ts =>
    refine (fails_statements fun _ => ?_).mpr (.inr ⟨_, _, hread, h⟩)
    rintro rfl
    cases hopens

end Cases

/-- The readers stop where the rules say, whatever follows the next token. -/
theorem Stop.fails {form : Form} {ts rest : List Token} {fault : Fault}
    (h : Stop rest.head? form ts fault) : form.Fails (ts ++ rest) (fault.stuckAt rest) := by
  induction h with
  | nothing hnext =>
    obtain rfl := List.head?_eq_none_iff.mp hnext
    simp [Form.Fails, statement, Fault.stuckAt]
  | create h => exact statement_create_eq_error.mpr (creation_eq_error.mpr (.inl ⟨h, rfl⟩))
  | uncreatable hnext hword =>
    obtain ⟨more, hrest⟩ := List.head?_eq_some_iff.mp hnext
    exact statement_create_eq_error.mpr
      (creation_eq_error.mpr (.inr ⟨_, more, hrest, .inr ⟨hword, rfl⟩⟩))
  | created h =>
    exact statement_create_eq_error.mpr
      (creation_eq_error.mpr (.inr ⟨_, rest, rfl, .inl ⟨rfl, h, rfl⟩⟩))
  | branch hnot _ ih =>
    rw [← List.head?_append] at hnot
    exact statement_if_eq_error.mpr (.inr ⟨hnot, ih false⟩)
  | branchNot _ ih => exact statement_if_eq_error.mpr (.inl ⟨_, rfl, ih true⟩)
  | left h => exact fun negate => conditional_eq_error.mpr (.inl h.fails)
  | comparator hwhole h =>
    intro negate
    exact conditional_eq_error.mpr
      (.inr ⟨_, _, hwhole.reads_expression rest, .inl ⟨h, rfl⟩⟩)
  | @right _ c _ us _ hwhole h =>
    intro negate
    have hfirst := hwhole.reads_expression (.comparison c :: (us ++ rest))
    rw [List.append_assoc]
    exact conditional_eq_error.mpr (.inr ⟨_, _, hfirst, .inr ⟨c, _, rfl, .inl h.fails⟩⟩)
  | branchBody hwhole hwhole' _ ih =>
    intro negate
    rw [← List.head?_append] at hwhole'
    rw [List.append_assoc, List.cons_append, List.append_assoc]
    exact conditional_fails_body hwhole hwhole' ih negate
  | selector h => exact statement_as_eq_error.mpr (.inl ⟨h, rfl⟩)
  | scope _ ih => exact statement_as_eq_error.mpr (.inr ⟨_, _, rfl, ih⟩)
  | value hword h =>
    rw [← List.head?_append] at hword
    simp only [Form.Fails]
    rw [statement_of_head hword]
    exact assignmentOrValue_eq_error.mpr (.inl h.fails)
  | assigned hwhole h =>
    rw [List.append_assoc, List.cons_append]
    exact statement_fails_assigned hwhole h.fails
  | target hwhole hsign hnode => exact statement_fails_target hwhole hsign hnode
  | single hbrace _ ih =>
    rw [← List.head?_append] at hbrace
    exact (body_single_eq_error hbrace).mpr ih
  | braces _ ih => exact body_braces_eq_error.mpr ih
  | unclosed hnext =>
    obtain rfl := List.head?_eq_none_iff.mp hnext
    simp [Form.Fails, untilBrace, Fault.stuckAt]
  | first hsome hbrace _ ih =>
    rw [← List.head?_append] at hsome hbrace
    exact fails_first hsome hbrace ih
  | next hread _ ih =>
    rw [List.append_assoc]
    exact fails_next (hread _ List.head?_append) ih

/-- Reading statements gets stuck exactly where the rules stop. -/
theorem statements_eq_error_iff {ts : List Token} {e : Stuck} :
    statements ts = .error e ↔ (Form.statements false).StopsAt ts e := by
  constructor
  · exact stops_statements
  · rintro ⟨front, rest, fault, rfl, rfl, h⟩
    exact h.fails

end Completeness

end Datapack.Grammar
