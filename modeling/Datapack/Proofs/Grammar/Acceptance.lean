import Mathlib.Data.List.Basic
import Datapack.Grammar.Program
import Datapack.Proofs.Grammar.Reading

/-!
# The reader accepts the grammar

Tokens are read as statements exactly when the grammar derives these statements
from them, and there is then one derivation only. For a text this holds of its
tokens, provided that the text consists of tokens; otherwise the first piece that
is none is reported.

Soundness follows the recursion of the readers. Completeness goes by induction on
derivations; each phrase is read back whole as long as what follows cannot
continue it, and what follows is known from the rule around it.
-/

namespace Datapack.Grammar

section Soundness

mutual

/-- What is read as an operand has a derivation as one. -/
theorem derives_primary {ts rest : List Token} {node : Node}
    (h : Reads (primary ts) node rest) : Nonempty (ValueDerivation (.primary node) ts rest) := by
  unfold primary at h
  split at h
  · obtain ⟨rfl, rfl⟩ := reads_ok.mp h
    exact ⟨.integer⟩
  · obtain ⟨rfl, rfl⟩ := reads_ok.mp h
    exact ⟨.float⟩
  · obtain ⟨rfl, rfl⟩ := reads_ok.mp h
    exact ⟨.text⟩
  · rw [reads_behind, reads_negativeNumber] at h
    obtain ⟨value, rfl, rfl⟩ | ⟨value, rfl, rfl⟩ := h
    · exact ⟨.negativeInteger⟩
    · exact ⟨.negativeFloat⟩
  next ts' =>
    have h' : Reads (primary (.leftParen :: ts')) node rest := by rw [primary]; exact h
    obtain ⟨d⟩ := derives_value (reads_primary_parens.mp h')
    exact ⟨.parens d⟩
  · obtain ⟨rfl, rfl⟩ := reads_ok.mp h
    exact ⟨.callEmpty⟩
  · obtain ⟨values, hvalues, rfl⟩ := reads_map_behind_behind.mp h
    obtain ⟨d⟩ := derives_arguments hvalues
    exact ⟨.call d⟩
  · rw [reads_behind_behind, reads_accessEntry] at h
    obtain ⟨name, rfl, rfl⟩ | ⟨content, rfl, rfl⟩ := h
    · exact ⟨.named⟩
    · exact ⟨.verbatim⟩
  · exact absurd h not_reads_missing
  · exact absurd h not_reads_missing
termination_by 5 * ts.length
decreasing_by
  all_goals
    subst_vars
    simp only [List.length_cons]
    omega

private theorem derives_arguments {ts rest : List Token} {values : List Node}
    (h : Reads (arguments ts) values rest) :
    Nonempty (ValueDerivation (.arguments values) ts (.rightParen :: rest)) := by
  obtain ⟨value, ⟨rfl, hvalue⟩ | ⟨mid, others, rfl, hvalue, hothers⟩⟩ := reads_arguments.mp h
  · obtain ⟨d⟩ := derives_value hvalue
    exact ⟨.lastArgument d⟩
  · have hlt : mid.length < ts.length := Nat.lt_of_succ_lt hvalue.length_lt
    obtain ⟨d⟩ := derives_value hvalue
    obtain ⟨d'⟩ := derives_arguments hothers
    exact ⟨.argument d d'⟩
termination_by 5 * ts.length + 4

/-- What is read as a value has a derivation as one. -/
theorem derives_value {ts rest : List Token} {node : Node}
    (h : Reads (expression ts) node rest) : Nonempty (ValueDerivation (.value node) ts rest) := by
  obtain ⟨first, mid, hfirst, hafter⟩ := reads_expression.mp h
  obtain ⟨term, mid', hproduct, hsum⟩ := reads_afterPrimary.mp hafter
  have hlt := hfirst.length_lt
  have hlt' := hproduct.length_lt
  obtain ⟨d⟩ := derives_primary hfirst
  obtain ⟨factors, rfl, ⟨d'⟩, hend⟩ := derives_factors hproduct
  obtain ⟨terms, rfl, ⟨d''⟩, hend'⟩ := derives_terms hsum hend
  exact ⟨.value (.term d d') d'' hend'⟩
termination_by 5 * ts.length + 3

/-- What is read behind an operand are its further factors, all of them. -/
theorem derives_factors {first node : Node} {ts rest : List Token}
    (h : Reads (productTail first ts) node rest) :
    ∃ more, node = calculations first more ∧ Nonempty (ValueDerivation (.factors more) ts rest) ∧
      goesOnWith isProductOperator rest = false := by
  cases hgo : goesOnWith isProductOperator ts with
  | false =>
    obtain ⟨rfl, rfl⟩ := (reads_productTail_stop hgo).mp h
    exact ⟨[], rfl, ⟨.noFactor⟩, hgo⟩
  | true =>
    obtain ⟨o, ts, rfl, ho⟩ := goesOnWith_eq_true hgo
    obtain ⟨second, mid, hsecond, hmore⟩ := (reads_productTail_operation ho).mp h
    have hlt := hsecond.length_lt
    obtain ⟨d⟩ := derives_primary hsecond
    obtain ⟨more, rfl, ⟨d'⟩, hend⟩ := derives_factors hmore
    exact ⟨(o, second) :: more, rfl, ⟨.factor ho d d'⟩, hend⟩
termination_by 5 * ts.length
decreasing_by
  all_goals
    subst_vars
    simp only [List.length_cons]
    omega

private theorem derives_terms {first node : Node} {ts rest : List Token}
    (h : Reads (sumTail first ts) node rest) (hts : goesOnWith isProductOperator ts = false) :
    ∃ more, node = calculations first more ∧ Nonempty (ValueDerivation (.terms more) ts rest) ∧
      goesOnWith isArithmetic rest = false := by
  cases hgo : goesOnWith isSumOperator ts with
  | false =>
    obtain ⟨rfl, rfl⟩ := (reads_sumTail_stop hgo).mp h
    exact ⟨[], rfl, ⟨.noTerm⟩, goesOnWith_isArithmetic.mpr ⟨hts, hgo⟩⟩
  | true =>
    obtain ⟨o, ts, rfl, ho⟩ := goesOnWith_eq_true hgo
    obtain ⟨factor, mid, second, mid', hfactor, hsecond, hmore⟩ :=
      (reads_sumTail_operation ho).mp h
    have hlt := hfactor.length_lt
    have hlt' := hsecond.length_lt
    obtain ⟨d⟩ := derives_primary hfactor
    obtain ⟨factors, rfl, ⟨d'⟩, hend⟩ := derives_factors hsecond
    obtain ⟨more, rfl, ⟨d''⟩, hend'⟩ := derives_terms hmore hend
    exact ⟨(o, _) :: more, rfl, ⟨.nextTerm ho (.term d d') d''⟩, hend'⟩
termination_by 5 * ts.length + 1
decreasing_by
  all_goals
    subst_vars
    simp only [List.length_cons]
    omega

end

private theorem derives_assignmentOrValue {ts rest : List Token} {node : Node}
    (h : Reads (assignmentOrValue ts) node rest) :
    Nonempty (Derivation (.statement node) ts rest) := by
  obtain ⟨first, mid, hfirst, ⟨-, hafter⟩ | ⟨target, sign, more, o, value, rfl, rfl, rfl, hnew⟩⟩ :=
    reads_assignmentOrValue.mp h
  · obtain ⟨d⟩ := derives_value (reads_expression.mpr ⟨first, mid, hfirst, hafter⟩)
    exact ⟨.value d⟩
  · obtain ⟨d⟩ := derives_primary hfirst
    rcases hnew with ⟨hsign, rfl⟩ | ⟨hsign, hvalue⟩
    · cases sign <;> cases hsign
      · exact ⟨.assign d .increment⟩
      · exact ⟨.assign d .decrement⟩
    · obtain ⟨d'⟩ := derives_value hvalue
      cases sign <;> cases hsign
      exact ⟨.assign d (.assignment d')⟩

mutual

/-- What is read as a statement has a derivation as one. -/
theorem derives_statement {ts rest : List Token} {node : Node}
    (h : Reads (statement ts) node rest) : Nonempty (Derivation (.statement node) ts rest) := by
  unfold statement at h
  split at h
  · exact absurd h not_reads_missing
  · rw [reads_behind, reads_creation] at h
    obtain ⟨store, rfl, rfl⟩ := h
    exact ⟨.create⟩
  · rw [reads_behind_behind, reads_conditional] at h
    obtain ⟨first, c, mid, second, mid', nodes, hfirst, hsecond, hbody, rfl⟩ := h
    have hlt : mid.length < _ := Nat.lt_of_succ_lt hfirst.length_lt
    have hlt' := hsecond.length_lt
    obtain ⟨d⟩ := derives_value hfirst
    obtain ⟨d'⟩ := derives_value hsecond
    obtain ⟨d''⟩ := derives_body hbody
    exact ⟨.branchNot d d' d''⟩
  · rw [reads_behind, reads_conditional] at h
    obtain ⟨first, c, mid, second, mid', nodes, hfirst, hsecond, hbody, rfl⟩ := h
    have hlt : mid.length < _ := Nat.lt_of_succ_lt hfirst.length_lt
    have hlt' := hsecond.length_lt
    obtain ⟨d⟩ := derives_value hfirst
    obtain ⟨d'⟩ := derives_value hsecond
    obtain ⟨d''⟩ := derives_body hbody
    exact ⟨.branch d d' d''⟩
  · obtain ⟨nodes, hbody, rfl⟩ := reads_map_behind_behind.mp h
    obtain ⟨d⟩ := derives_body hbody
    exact ⟨.runAs d⟩
  · exact absurd h not_reads_missing
  · exact derives_assignmentOrValue h
termination_by 3 * ts.length
decreasing_by
  all_goals
    subst_vars
    simp only [List.length_cons]
    omega

private theorem derives_body {ts rest : List Token} {nodes : List Node}
    (h : Reads (body ts) nodes rest) : Nonempty (Derivation (.body nodes) ts rest) := by
  by_cases hbrace : ts.head? = some .leftBrace
  · obtain ⟨ts, rfl⟩ := List.head?_eq_some_iff.mp hbrace
    obtain ⟨d⟩ := derives_untilBrace (reads_body_braces.mp h)
    exact ⟨.braces d⟩
  · obtain ⟨node, rfl, hnode⟩ := (reads_body_single hbrace).mp h
    obtain ⟨d⟩ := derives_statement hnode
    exact ⟨.single d⟩
termination_by 3 * ts.length + 1
decreasing_by
  · subst_vars
    simp only [List.length_cons]
    omega
  · omega

private theorem derives_untilBrace {ts rest : List Token} {nodes : List Node}
    (h : Reads (untilBrace ts) nodes rest) :
    Nonempty (Derivation (.statements nodes) ts (.rightBrace :: rest)) := by
  by_cases hbrace : ts.head? = some .rightBrace
  · obtain ⟨ts, rfl⟩ := List.head?_eq_some_iff.mp hbrace
    obtain ⟨rfl, rfl⟩ := reads_untilBrace_end.mp h
    exact ⟨.none⟩
  · obtain ⟨node, others, mid, rfl, hnode, hothers⟩ := (reads_untilBrace_more hbrace).mp h
    have hlt := hnode.length_lt
    obtain ⟨d⟩ := derives_statement hnode
    obtain ⟨d'⟩ := derives_untilBrace hothers
    exact ⟨.more d d'⟩
termination_by 3 * ts.length + 1

end

/-- What is read as statements is derived as these statements. -/
theorem derives_statements {ts : List Token} {nodes : List Node}
    (h : statements ts = .ok nodes) : Nonempty (Derivation (.statements nodes) ts []) := by
  cases ts with
  | nil =>
    rw [statements] at h
    cases h
    exact ⟨.none⟩
  | cons t ts =>
    obtain ⟨node, others, mid, rfl, hnode, hothers⟩ := statements_eq_ok.mp h
    have hlt := hnode.length_lt
    obtain ⟨d⟩ := derives_statement hnode
    obtain ⟨d'⟩ := derives_statements hothers
    exact ⟨.more d d'⟩
termination_by ts.length

end Soundness

section Completeness

/-- The reader for phrases of this form finds the phrase in front of `rest`. -/
def ValuePhrase.IsRead : ValuePhrase → List Token → List Token → Prop
  | .primary node, ts, rest => Reads (Grammar.primary ts) node rest
  | .arguments values, ts, rest => ∀ more, rest = .rightParen :: more →
      Reads (Grammar.arguments ts) values more
  | .factors more, ts, rest => ∀ first,
      Reads (productTail first ts) (calculations first more) rest
  | .term node, ts, rest => ∃ first mid,
      Reads (Grammar.primary ts) first mid ∧ Reads (productTail first mid) node rest
  | .terms more, ts, rest => ∀ first, Reads (sumTail first ts) (calculations first more) rest
  | .value node, ts, rest => Reads (expression ts) node rest
  | .change o node, ts, rest => ∃ sign more, ts = sign :: more ∧
      (assignmentSign sign = some (o, some node) ∧ more = rest ∨
        assignmentSign sign = some (o, none) ∧ Reads (expression more) node rest)

/-- What has a derivation as a value phrase is read as that phrase, if it ends there. -/
theorem ValueDerivation.isRead {p : ValuePhrase} {ts rest : List Token}
    (d : ValueDerivation p ts rest) (hend : p.EndsAt rest) : p.IsRead ts rest := by
  induction d with
  | integer | float | text =>
    simp only [ValuePhrase.IsRead]
    rw [primary, reads_ok]
    exact ⟨rfl, rfl⟩
  | negativeInteger =>
    simp only [ValuePhrase.IsRead]
    rw [primary, reads_behind, reads_negativeNumber]
    exact .inl ⟨_, rfl, rfl⟩
  | negativeFloat =>
    simp only [ValuePhrase.IsRead]
    rw [primary, reads_behind, reads_negativeNumber]
    exact .inr ⟨_, rfl, rfl⟩
  | parens _ ih => exact reads_primary_parens.mpr (ih trivial)
  | named =>
    simp only [ValuePhrase.IsRead]
    rw [primary, reads_behind_behind, reads_accessEntry]
    exact .inl ⟨_, rfl, rfl⟩
  | verbatim =>
    simp only [ValuePhrase.IsRead]
    rw [primary, reads_behind_behind, reads_accessEntry]
    exact .inr ⟨_, rfl, rfl⟩
  | callEmpty =>
    simp only [ValuePhrase.IsRead]
    rw [primary, reads_ok]
    exact ⟨rfl, rfl⟩
  | call d ih =>
    simp only [ValuePhrase.IsRead]
    rw [primary, reads_map_behind_behind]
    · exact ⟨_, ih ⟨_, rfl⟩ _ rfl, rfl⟩
    · rintro more rfl
      cases d.opens rfl
  | lastArgument _ ih =>
    rintro more rfl
    exact reads_arguments.mpr ⟨_, .inl ⟨rfl, ih trivial⟩⟩
  | argument _ _ ih ih' =>
    rintro more rfl
    exact reads_arguments.mpr ⟨_, .inr ⟨_, _, rfl, ih trivial, ih' ⟨_, rfl⟩ _ rfl⟩⟩
  | noFactor => exact fun first => (reads_productTail_stop hend).mpr ⟨rfl, rfl⟩
  | factor ho _ _ ih ih' =>
    intro first
    exact (reads_productTail_operation ho).mpr ⟨_, _, ih trivial, ih' hend _⟩
  | term _ _ ih ih' => exact ⟨_, _, ih trivial, ih' hend _⟩
  | noTerm =>
    intro first
    exact (reads_sumTail_stop (goesOnWith_isArithmetic.mp hend).2).mpr ⟨rfl, rfl⟩
  | nextTerm ho _ d' ih ih' =>
    intro first
    obtain ⟨factor, mid, hfactor, hsecond⟩ := ih (d'.not_product hend)
    exact (reads_sumTail_operation ho).mpr ⟨_, _, _, _, hfactor, hsecond, ih' hend _⟩
  | value _ d' hend' ih ih' =>
    obtain ⟨first, mid, hfirst, hterm⟩ := ih (d'.not_product hend')
    have hafter := reads_afterPrimary.mpr ⟨_, _, hterm, ih' hend' _⟩
    exact reads_expression.mpr ⟨first, mid, hfirst, hafter⟩
  | assignment _ ih => exact ⟨_, _, rfl, .inr ⟨rfl, ih trivial⟩⟩
  | increment | decrement => exact ⟨_, _, rfl, .inl ⟨rfl, rfl⟩⟩

/-- Statements without a keyword start like values. -/
theorem statement_of_opensValue {ts : List Token} (h : ts.head?.any opensValue = true) :
    statement ts = assignmentOrValue ts := by
  rw [statement]
  all_goals
    intros
    subst ts
    cases h

/-- The reader for phrases of this form finds the phrase in front of `rest`. -/
def Phrase.IsRead : Phrase → List Token → List Token → Prop
  | .statement node, ts, rest => Reads (Grammar.statement ts) node rest
  | .statements nodes, ts, rest => (rest = [] → Grammar.statements ts = .ok nodes) ∧
      ∀ more, rest = .rightBrace :: more → Reads (untilBrace ts) nodes more
  | .body nodes, ts, rest => Reads (Grammar.body ts) nodes rest

private theorem Derivation.isRead {p : Phrase} {ts rest : List Token} (d : Derivation p ts rest)
    (hend : p.EndsAt rest) : p.IsRead ts rest := by
  induction d with
  | create =>
    simp only [Phrase.IsRead]
    rw [statement, reads_behind, reads_creation]
    exact ⟨_, rfl, rfl⟩
  | branch d d' _ ih =>
    simp only [Phrase.IsRead]
    rw [statement, reads_behind, reads_conditional]
    · exact ⟨_, _, _, _, _, _, d.isRead trivial, d'.isRead trivial, ih hend, rfl⟩
    · rintro more rfl
      cases d.opens rfl
  | branchNot d d' _ ih =>
    simp only [Phrase.IsRead]
    rw [statement, reads_behind_behind, reads_conditional]
    exact ⟨_, _, _, _, _, _, d.isRead trivial, d'.isRead trivial, ih hend, rfl⟩
  | runAs _ ih =>
    simp only [Phrase.IsRead]
    rw [statement, reads_map_behind_behind]
    exact ⟨_, ih hend, rfl⟩
  | assign d d' =>
    obtain ⟨sign, more, rfl, hnew⟩ := d'.isRead trivial
    simp only [Phrase.IsRead]
    rw [statement_of_opensValue (d.opens rfl)]
    exact reads_assignmentOrValue.mpr
      ⟨_, _, d.isRead trivial, .inr ⟨_, sign, more, _, _, rfl, rfl, rfl, hnew⟩⟩
  | value d =>
    obtain ⟨first, mid, hfirst, hafter⟩ := reads_expression.mp (d.isRead trivial)
    obtain ⟨first', mid', ⟨d'⟩, hmid⟩ := d.value_start
    obtain ⟨rfl, rfl⟩ := hfirst.unique (d'.isRead trivial)
    have hsign : goesOnAssigning mid = false := by
      rcases hmid with ⟨rfl, -⟩ | hgo
      · exact hend
      · obtain ⟨o, more, rfl, -⟩ := goesOnWith_eq_true hgo
        rfl
    simp only [Phrase.IsRead]
    rw [statement_of_opensValue (d.opens rfl)]
    exact reads_assignmentOrValue.mpr ⟨first, mid, hfirst, .inl ⟨hsign, hafter⟩⟩
  | none =>
    constructor
    · rintro rfl
      rw [statements]
    · rintro more rfl
      exact reads_untilBrace_end.mpr ⟨rfl, rfl⟩
  | @more _ _ ts _ _ d d' ih ih' =>
    have hfirst := ih (d'.not_assigning hend)
    have hne := d.not_endsStatements
    constructor
    · rintro rfl
      cases ts with
      | nil => exact absurd rfl hne
      | cons t ts => exact statements_eq_ok.mpr ⟨_, _, _, rfl, hfirst, (ih' hend).1 rfl⟩
    · rintro more rfl
      refine (reads_untilBrace_more fun hhead => hne ?_).mpr
        ⟨_, _, _, rfl, hfirst, (ih' hend).2 _ rfl⟩
      rw [endsStatements, hhead]
      rfl
  | braces _ ih => exact reads_body_braces.mpr ((ih rfl).2 _ rfl)
  | @single _ ts _ d ih =>
    refine (reads_body_single fun hhead => ?_).mpr ⟨_, rfl, ih hend⟩
    obtain ⟨more, rfl⟩ := List.head?_eq_some_iff.mp hhead
    cases d.opens

end Completeness

/-- Tokens are read as statements exactly where they are derived as these statements. -/
theorem statements_iff {ts : List Token} {nodes : List Node} :
    statements ts = .ok nodes ↔ Nonempty (Derivation (.statements nodes) ts []) := by
  constructor
  · exact derives_statements
  · rintro ⟨d⟩
    exact (d.isRead rfl).1 rfl

/-- Statements that make up all tokens have one derivation, and so has no other row of them. -/
theorem Derivation.eq_of_statements {ts : List Token} {nodes nodes' : List Node}
    (d : Derivation (.statements nodes) ts []) (d' : Derivation (.statements nodes') ts []) :
    nodes = nodes' ∧ HEq d d' := by
  cases d.unique d' trivial rfl rfl
  exact ⟨rfl, .rfl⟩

end Datapack.Grammar

namespace Datapack

section Lexemes

variable {lexemes : List Lexeme}

/-- A text that consists of tokens is read as these tokens. -/
theorem placedTokens_of_tokens {ts : List Token}
    (h : lexemes.map Lexeme.item = ts.map Except.ok) :
    ∃ placed, placedTokens lexemes = .ok placed ∧ placed.map Placed.token = ts := by
  induction lexemes generalizing ts with
  | nil =>
    obtain rfl := List.map_eq_nil_iff.mp h.symm
    exact ⟨[], rfl, rfl⟩
  | cons lexeme lexemes ih =>
    obtain ⟨item, span⟩ := lexeme
    obtain ⟨t, ts, rfl, hitem, hrest⟩ := List.map_eq_cons_iff.mp h.symm
    obtain ⟨placed, hplaced, rfl⟩ := ih hrest.symm
    obtain rfl : .ok t = item := hitem
    exact ⟨⟨t, span⟩ :: placed, by simp [placedTokens, hplaced, bind, Except.bind, pure,
      Except.pure], rfl⟩

/-- The first piece of a text that is no token is reported, whatever follows it. -/
theorem placedTokens_of_fault {before after : List Lexeme} {fault : LexicalFault} {span : Span}
    (h : ∀ lexeme ∈ before, ∃ t, lexeme.item = .ok t) :
    placedTokens (before ++ ⟨.error fault, span⟩ :: after) = .error (.lexical fault span) := by
  induction before with
  | nil => rfl
  | cons lexeme before ih =>
    obtain ⟨item, place⟩ := lexeme
    obtain ⟨⟨t, rfl⟩, hrest⟩ := List.forall_mem_cons.mp h
    simp [placedTokens, ih hrest, bind, Except.bind]

/-- Where all tokens are found, the text consists of them. -/
theorem eq_map_of_placedTokens {placed : List Placed} (h : placedTokens lexemes = .ok placed) :
    lexemes = placed.map fun p => ⟨.ok p.token, p.span⟩ := by
  induction lexemes generalizing placed with
  | nil =>
    cases h
    rfl
  | cons lexeme lexemes ih =>
    obtain ⟨item, span⟩ := lexeme
    cases item with
    | error fault => cases h
    | ok t =>
      cases hothers : placedTokens lexemes with
      | error e => simp [placedTokens, hothers, bind, Except.bind] at h
      | ok others =>
        simp only [placedTokens, hothers, bind, Except.bind, pure, Except.pure] at h
        cases h
        rw [List.map_cons, ← ih hothers]

private theorem map_item_of_placedTokens {placed : List Placed}
    (h : placedTokens lexemes = .ok placed) :
    lexemes.map Lexeme.item = (placed.map Placed.token).map Except.ok := by
  rw [eq_map_of_placedTokens h, List.map_map, List.map_map]
  rfl

/-- Where not all pieces are tokens, one that is none is reported at its place. -/
theorem exists_of_placedTokens_error {e : ParseError} (h : placedTokens lexemes = .error e) :
    ∃ fault span, e = .lexical fault span ∧ ⟨.error fault, span⟩ ∈ lexemes := by
  induction lexemes with
  | nil => cases h
  | cons lexeme lexemes ih =>
    obtain ⟨item, span⟩ := lexeme
    cases item with
    | error fault =>
      cases h
      exact ⟨fault, span, rfl, List.mem_cons_self⟩
    | ok t =>
      cases hothers : placedTokens lexemes with
      | ok others => simp [placedTokens, hothers, bind, Except.bind, pure, Except.pure] at h
      | error e' =>
        simp only [placedTokens, hothers, bind, Except.bind] at h
        cases h
        obtain ⟨fault, place, rfl, hmem⟩ := ih hothers
        exact ⟨fault, place, rfl, List.mem_cons_of_mem _ hmem⟩

end Lexemes

/-- A text that consists of tokens is read as what the grammar derives from them. -/
theorem parse_eq_ok_iff {source : String} {ts : List Token} {nodes : List Node}
    (hts : (lexemes source).map Lexeme.item = ts.map Except.ok) :
    parse source = .ok nodes ↔ Nonempty (Grammar.Derivation (.statements nodes) ts []) := by
  obtain ⟨placed, hplaced, rfl⟩ := placedTokens_of_tokens hts
  rw [← Grammar.statements_iff, parse, hplaced]
  cases hread : Grammar.statements (placed.map Placed.token) with
  | ok nodes' => simp [bind, Except.bind, hread]
  | error stuck => simp [bind, Except.bind, hread]

/-- A text that is read consists of tokens, and what is read is derived from them. -/
theorem exists_derivation_of_parse {source : String} {nodes : List Node}
    (h : parse source = .ok nodes) :
    ∃ ts : List Token, (lexemes source).map Lexeme.item = ts.map Except.ok ∧
      Nonempty (Grammar.Derivation (.statements nodes) ts []) := by
  cases hplaced : placedTokens (lexemes source) with
  | error e => simp [parse, hplaced, bind, Except.bind] at h
  | ok placed =>
    have hts := map_item_of_placedTokens hplaced
    exact ⟨_, hts, (parse_eq_ok_iff hts).mp h⟩

/--
A text that consists of tokens is read as exactly those statements that the
grammar derives from the tokens, and has one derivation at most. A text that does
not is refused at its first piece that is no token.
-/
theorem parse_iff_derivation (source : String) :
    (∀ ts : List Token, (lexemes source).map Lexeme.item = ts.map Except.ok →
      (∀ nodes, parse source = .ok nodes ↔
        Nonempty (Grammar.Derivation (.statements nodes) ts [])) ∧
      ∀ nodes nodes' (d : Grammar.Derivation (.statements nodes) ts [])
        (d' : Grammar.Derivation (.statements nodes') ts []), nodes = nodes' ∧ HEq d d') ∧
    ∀ before fault span after, lexemes source = before ++ ⟨.error fault, span⟩ :: after →
      (∀ lexeme ∈ before, ∃ t, lexeme.item = .ok t) →
      parse source = .error (.lexical fault span) := by
  constructor
  · intro ts hts
    exact ⟨fun nodes => parse_eq_ok_iff hts, fun _ _ d d' => d.eq_of_statements d'⟩
  · intro before fault span after hsplit hbefore
    rw [parse, hsplit, placedTokens_of_fault hbefore]
    rfl

deriving instance DecidableEq for Lexeme

/-- A target in parentheses, a difference that groups to the left, and a text behind it; and a sign
that is no token in front of a text that does not end. -/
theorem parse_iff_derivation_difference :
    parse "(a[b]) = 1 - 2 - 3 'say hi'" =
        .ok [.assign ⟨.named "b", "a"⟩ .set (.calc (.calc (.int 1) .sub (.int 2)) .sub (.int 3)),
          .text "say hi"] ∧
      parse "a[b] § 'x" = .error (.lexical .invalid ⟨5, 7⟩) := by
  constructor
  · refine ((parse_iff_derivation _).1 [.leftParen, .identifier "a", .leftBracket, .identifier "b",
      .rightBracket, .rightParen, .assignment .set, .integer 1, .operation .sub, .integer 2,
      .operation .sub, .integer 3, .text "say hi"] (by decide +kernel)).1 _ |>.mpr ⟨?_⟩
    exact .more (.assign (.parens (.value (.term .named .noFactor) .noTerm rfl)) (.assignment
      (.value (.term .integer .noFactor) (.nextTerm rfl (.term .integer .noFactor)
        (.nextTerm rfl (.term .integer .noFactor) .noTerm)) rfl)))
      (.more (.value (.value (.term .text .noFactor) .noTerm rfl)) .none)
  · refine (parse_iff_derivation _).2 [⟨.ok (.identifier "a"), 0, 1⟩, ⟨.ok .leftBracket, 1, 2⟩,
      ⟨.ok (.identifier "b"), 2, 3⟩, ⟨.ok .rightBracket, 3, 4⟩] .invalid ⟨5, 7⟩
      [⟨.error .unterminated, 8, 10⟩] (by decide +kernel) ?_
    simp

end Datapack
