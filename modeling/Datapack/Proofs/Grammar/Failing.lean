import Datapack.Proofs.Grammar.Acceptance

/-!
# When the readers fail

One law for each reader of the grammar: when it gets stuck, where, and for want
of what. A reader gets stuck where one that it calls does, or where the tokens do
not go on with anything that it expects.

Operators are read in two loops, and what has been read of a value is carried
along in them. It does not matter for getting stuck: after the first primary of a
value, reading gets stuck exactly where it gets stuck on a value of its own behind
the operator that follows.
-/

namespace Datapack

/-- Whether the token is what was expected. Any word may follow `create` as far as this goes. -/
def Expected.admits (what : Expected) (t : Token) : Bool :=
  match what with
  | .statement | .closingBrace => true
  | .storeWord | .storeName => (t matches .identifier _)
  | .comparator => (t matches .comparison _)
  | .selector => (t matches .text _)
  | .numberAfterMinus => (t matches .integer _ | .float _)
  | .closingParen => t == .rightParen
  | .entryName => (t matches .identifier _ | .text _)
  | .closingBracket => t == .rightBracket
  | .accessOrCall => t == .leftParen || t == .leftBracket
  | .value => Grammar.opensValue t
  | .argumentEnd => t == .comma || t == .rightParen

namespace Grammar

/-- The next token is not what is expected, or there is none. -/
def Misses (what : Expected) (next : Option Token) : Prop := next.any what.admits = false

/-- Reading is stuck in front of the tokens for want of something. -/
def Lacks (what : Expected) (ts : List Token) (e : Stuck) : Prop :=
  Misses what ts.head? ∧ e = ⟨.expected what, ts⟩

private theorem not_lacks {what : Expected} {t : Token} {ts : List Token} {e : Stuck}
    (h : what.admits t = true) : ¬ Lacks what (t :: ts) e := by
  simp [Lacks, Misses, h]

section Steps

variable {α β : Type} {bound bound' : Nat} {r : Reading α bound} {e : Stuck}

/-- A reader that misses something fails with just that. -/
@[simp] theorem missing_eq_error {what : Expected} {ts : List Token} :
    (missing what ts : Reading α bound) = .error e ↔ e = ⟨.expected what, ts⟩ := by
  rw [missing, Except.error.injEq, eq_comm]

/-- Two readings in a row get stuck when the first does, or the second behind it. -/
theorem bind_eq_error {k : Found α bound → Reading β bound'} {P : α → List Token → Prop}
    (hk : ∀ f, k f = .error e ↔ P f.value f.rest) :
    r >>= k = .error e ↔ r = .error e ∨ ∃ a rest, Reads r a rest ∧ P a rest := by
  cases r with
  | error e' =>
    constructor
    · rintro ⟨⟩
      exact .inl rfl
    · rintro (h | ⟨a, rest, ⟨_, h⟩, -⟩)
      · cases h
        rfl
      · cases h
  | ok f =>
    constructor
    · exact fun h => .inr ⟨f.value, f.rest, ⟨f.shorter, rfl⟩, (hk f).mp h⟩
    · rintro (h | ⟨a, rest, ⟨_, h⟩, hP⟩)
      · cases h
      · cases h
        exact (hk _).mpr hP

/-- A reading gets stuck whatever is made of the phrase. -/
theorem bind_ok_eq_error {k : Found α bound → Reading β bound'} (hk : ∀ f, ∃ g, k f = .ok g) :
    r >>= k = .error e ↔ r = .error e := by
  have hnever : ∀ f, k f = .error e ↔ False := by
    intro f
    obtain ⟨g, hg⟩ := hk f
    simp [hg]
  simpa using bind_eq_error (P := fun _ _ => False) hnever

@[simp] theorem map_eq_error {g : Found α bound → Found β bound'} :
    g <$> r = .error e ↔ r = .error e := by
  cases r <;> simp [Functor.map, Except.map]

end Steps

section Values

variable {ts : List Token} {e : Stuck} {first : Node} {o : Operator}

private theorem negativeNumber_eq_error :
    negativeNumber ts = .error e ↔ Lacks .numberAfterMinus ts e := by
  rcases ts with _ | ⟨t, ts⟩
  · simp [negativeNumber, Lacks, Misses]
  · cases t <;> simp [negativeNumber, Lacks, Misses, Expected.admits]

private theorem closedAccess_eq_error {a : Access} :
    closedAccess a ts = .error e ↔ Lacks .closingBracket ts e := by
  rcases ts with _ | ⟨t, ts⟩
  · simp [closedAccess, Lacks, Misses]
  · cases t <;> simp [closedAccess, Lacks, Misses, Expected.admits]

/-- Reading an entry fails for want of its name or of the bracket behind it. -/
theorem accessEntry_eq_error {store : String} :
    accessEntry store ts = .error e ↔
      Lacks .entryName ts e ∨
        ∃ t rest, ts = t :: rest ∧ Expected.entryName.admits t = true ∧
          Lacks .closingBracket rest e := by
  rcases ts with _ | ⟨t, ts⟩
  · simp [accessEntry, Lacks, Misses]
  · cases t <;> simp [accessEntry, closedAccess_eq_error, Lacks, Misses, Expected.admits]

/-- Nothing is read where no value starts. -/
theorem primary_of_misses (h : Misses .value ts.head?) :
    primary ts = .error ⟨.expected .value, ts⟩ := by
  rcases ts with _ | ⟨t, ts⟩
  · simp [primary]
  · cases t with
    | integer | float | text | leftParen | identifier => cases h
    | operation o =>
      cases o with
      | sub => cases h
      | _ => simp [primary]
    | _ => simp [primary]

/-- A name alone is no value. -/
theorem primary_name_of_misses {name : String} (h : Misses .accessOrCall ts.head?) :
    primary (.identifier name :: ts) = .error ⟨.expected .accessOrCall, ts⟩ := by
  rcases ts with _ | ⟨t, ts⟩
  · simp [primary]
  · cases t with
    | leftParen | leftBracket => cases h
    | _ => simp [primary]

/-- Behind a minus sign a number is wanted. -/
theorem primary_minus_eq_error :
    primary (.operation .sub :: ts) = .error e ↔ Lacks .numberAfterMinus ts e := by
  rw [primary, map_eq_error, negativeNumber_eq_error]

/-- A value in parentheses fails inside, or for want of the closing one. -/
theorem primary_parens_eq_error :
    primary (.leftParen :: ts) = .error e ↔
      expression ts = .error e ∨
        ∃ node rest, Reads (expression ts) node rest ∧ Lacks .closingParen rest e := by
  rw [primary]
  refine bind_eq_error ?_
  rintro ⟨node, rest, h⟩
  rcases rest with _ | ⟨t, rest⟩
  · simp [Lacks, Misses]
  · cases t <;> simp [Lacks, Misses, Expected.admits]

/-- A call with arguments fails where these fail. -/
theorem primary_call_eq_error {name : String} (h : ts.head? ≠ some .rightParen) :
    primary (.identifier name :: .leftParen :: ts) = .error e ↔ arguments ts = .error e := by
  rw [primary, map_eq_error]
  rintro rest rfl
  exact h rfl

/-- An access fails where its entry fails. -/
theorem primary_access_eq_error {store : String} :
    primary (.identifier store :: .leftBracket :: ts) = .error e ↔
      accessEntry store ts = .error e := by
  rw [primary, map_eq_error]

/-- Arguments fail in the first one, behind it, or in the further ones. -/
theorem arguments_eq_error :
    arguments ts = .error e ↔
      expression ts = .error e ∨
        ∃ node rest, Reads (expression ts) node rest ∧
          (Lacks .argumentEnd rest e ∨
            ∃ more, rest = .comma :: more ∧ arguments more = .error e) := by
  rw [arguments]
  refine bind_eq_error ?_
  rintro ⟨node, rest, h⟩
  rcases rest with _ | ⟨t, rest⟩
  · simp [Lacks, Misses]
  · cases t with
    | comma =>
      have hno : ¬ Lacks .argumentEnd (.comma :: rest) e := not_lacks rfl
      simp only [hno, false_or, List.cons.injEq, true_and, exists_eq_left']
      exact bind_ok_eq_error fun _ => ⟨_, rfl⟩
    | _ => simp [Lacks, Misses, Expected.admits]

/-- A value fails in its first operand or behind it. -/
theorem expression_eq_error :
    expression ts = .error e ↔
      primary ts = .error e ∨
        ∃ first rest, Reads (primary ts) first rest ∧ afterPrimary first rest = .error e := by
  rw [expression]
  exact bind_eq_error fun f => bind_ok_eq_error fun _ => ⟨_, rfl⟩

private theorem afterPrimary_eq_error :
    afterPrimary first ts = .error e ↔
      productTail first ts = .error e ∨
        ∃ term rest, Reads (productTail first ts) term rest ∧ sumTail term rest = .error e := by
  rw [afterPrimary]
  exact bind_eq_error fun f => bind_ok_eq_error fun _ => ⟨_, rfl⟩

private theorem productTail_eq_error (ho : isProductOperator o = true) :
    productTail first (.operation o :: ts) = .error e ↔
      primary ts = .error e ∨
        ∃ second rest, Reads (primary ts) second rest ∧
          productTail (.calc first o second) rest = .error e := by
  rw [productTail, if_pos ho]
  exact bind_eq_error fun f => bind_ok_eq_error fun _ => ⟨_, rfl⟩

private theorem sumTail_eq_error (ho : isSumOperator o = true) :
    sumTail first (.operation o :: ts) = .error e ↔
      primary ts = .error e ∨
        ∃ factor rest, Reads (primary ts) factor rest ∧
          (productTail factor rest = .error e ∨
            ∃ second rest', Reads (productTail factor rest) second rest' ∧
              sumTail (.calc first o second) rest' = .error e) := by
  rw [sumTail, if_pos ho]
  exact bind_eq_error fun f => bind_eq_error fun f => bind_ok_eq_error fun _ => ⟨_, rfl⟩

private theorem not_productTail_eq_error (h : goesOnWith isProductOperator ts = false) :
    ¬ productTail first ts = .error e := by
  intro herror
  obtain ⟨_, hok⟩ := (reads_productTail_stop h).mpr ⟨rfl, rfl⟩
  cases herror.symm.trans hok

private theorem not_sumTail_eq_error (h : goesOnWith isSumOperator ts = false) :
    ¬ sumTail first ts = .error e := by
  intro herror
  obtain ⟨_, hok⟩ := (reads_sumTail_stop h).mpr ⟨rfl, rfl⟩
  cases herror.symm.trans hok

/-- What has been read of a product does not matter for getting stuck in it. -/
theorem productTail_eq_error_congr (first first' : Node) {ts : List Token}
    (h : productTail first ts = .error e) : productTail first' ts = .error e := by
  cases hgo : goesOnWith isProductOperator ts with
  | false => exact absurd h (not_productTail_eq_error hgo)
  | true =>
    obtain ⟨o, ts, rfl, ho⟩ := goesOnWith_eq_true hgo
    refine (productTail_eq_error ho).mpr ((productTail_eq_error ho).mp h |>.imp_right ?_)
    rintro ⟨second, rest, hsecond, hmore⟩
    have hlt := hsecond.length_lt
    exact ⟨second, rest, hsecond, productTail_eq_error_congr _ _ hmore⟩
termination_by ts.length
decreasing_by
  subst_vars
  simp only [List.length_cons]
  omega

/-- What has been read of a sum does not matter for getting stuck in it. -/
theorem sumTail_eq_error_congr (first first' : Node) {ts : List Token}
    (h : sumTail first ts = .error e) : sumTail first' ts = .error e := by
  cases hgo : goesOnWith isSumOperator ts with
  | false => exact absurd h (not_sumTail_eq_error hgo)
  | true =>
    obtain ⟨o, ts, rfl, ho⟩ := goesOnWith_eq_true hgo
    refine (sumTail_eq_error ho).mpr ((sumTail_eq_error ho).mp h |>.imp_right ?_)
    rintro ⟨factor, mid, hfactor, herror | ⟨second, rest, hsecond, hmore⟩⟩
    · exact ⟨factor, mid, hfactor, .inl herror⟩
    · have hlt := hfactor.length_lt
      have hlt' := hsecond.length_lt
      exact ⟨factor, mid, hfactor, .inr ⟨second, rest, hsecond,
        sumTail_eq_error_congr _ _ hmore⟩⟩
termination_by ts.length
decreasing_by
  subst_vars
  simp only [List.length_cons]
  omega

/-- What has been read of a value does not matter for getting stuck in it. -/
theorem afterPrimary_eq_error_congr (first first' : Node)
    (h : afterPrimary first ts = .error e) : afterPrimary first' ts = .error e := by
  rcases afterPrimary_eq_error.mp h with herror | ⟨term, mid, hterm, herror⟩
  · exact afterPrimary_eq_error.mpr (.inl (productTail_eq_error_congr _ _ herror))
  · obtain ⟨more, -, ⟨d⟩, hend⟩ := derives_factors hterm
    exact afterPrimary_eq_error.mpr
      (.inr ⟨_, mid, d.isRead hend first', sumTail_eq_error_congr _ _ herror⟩)

/-- Behind an operator of products, a value is stuck where one of its own would be. -/
theorem afterPrimary_product_eq_error (ho : isProductOperator o = true) :
    afterPrimary first (.operation o :: ts) = .error e ↔ expression ts = .error e := by
  rw [afterPrimary_eq_error, expression_eq_error, productTail_eq_error ho]
  constructor
  · rintro ((herror | ⟨second, rest, hsecond, herror⟩) | ⟨term, rest, hterm, herror⟩)
    · exact .inl herror
    · have hmore := productTail_eq_error_congr _ second herror
      exact .inr ⟨second, rest, hsecond, afterPrimary_eq_error.mpr (.inl hmore)⟩
    · obtain ⟨second, mid, hsecond, hmore⟩ := (reads_productTail_operation ho).mp hterm
      refine .inr ⟨second, mid, hsecond, afterPrimary_eq_error_congr (.calc first o second) _ ?_⟩
      exact afterPrimary_eq_error.mpr (.inr ⟨term, rest, hmore, herror⟩)
  · rintro (herror | ⟨second, mid, hsecond, herror⟩)
    · exact .inl (.inl herror)
    · rcases afterPrimary_eq_error.mp (afterPrimary_eq_error_congr _ (.calc first o second) herror)
        with hmore | ⟨term, rest, hmore, hsum⟩
      · exact .inl (.inr ⟨second, mid, hsecond, hmore⟩)
      · have hterm := (reads_productTail_operation ho).mpr ⟨second, mid, hsecond, hmore⟩
        exact .inr ⟨term, rest, hterm, hsum⟩

/-- Behind an operator of sums, a value is stuck where one of its own would be. -/
theorem afterPrimary_sum_eq_error (ho : isSumOperator o = true) :
    afterPrimary first (.operation o :: ts) = .error e ↔ expression ts = .error e := by
  have hstop : goesOnWith isProductOperator (.operation o :: ts) = false := not_isProductOperator ho
  have hsum : afterPrimary first (.operation o :: ts) = .error e ↔
      sumTail first (.operation o :: ts) = .error e := by
    rw [afterPrimary_eq_error]
    simp [not_productTail_eq_error hstop, reads_productTail_stop hstop]
  rw [hsum, sumTail_eq_error ho, expression_eq_error]
  refine or_congr_right (exists_congr fun factor => exists_congr fun rest => and_congr_right ?_)
  intro _
  rw [afterPrimary_eq_error]
  refine or_congr_right (exists_congr fun second => exists_congr fun rest' => and_congr_right ?_)
  exact fun _ => ⟨sumTail_eq_error_congr _ _, sumTail_eq_error_congr _ _⟩

/-- Behind a primary, reading gets stuck only in the value that follows an operator. -/
theorem afterPrimary_eq_error_iff :
    afterPrimary first ts = .error e ↔
      ∃ o rest, ts = .operation o :: rest ∧ isArithmetic o = true ∧ expression rest = .error e := by
  constructor
  · intro h
    cases hgo : goesOnWith isArithmetic ts with
    | true =>
      obtain ⟨o, ts, rfl, ho⟩ := goesOnWith_eq_true hgo
      refine ⟨o, ts, rfl, ho, ?_⟩
      rcases Bool.or_eq_true_iff.mp ho with ho | ho
      · exact (afterPrimary_product_eq_error ho).mp h
      · exact (afterPrimary_sum_eq_error ho).mp h
    | false =>
      obtain ⟨hproduct, hsum⟩ := goesOnWith_isArithmetic.mp hgo
      rcases afterPrimary_eq_error.mp h with herror | ⟨term, rest, hterm, herror⟩
      · exact absurd herror (not_productTail_eq_error hproduct)
      · obtain ⟨-, rfl⟩ := (reads_productTail_stop hproduct).mp hterm
        exact absurd herror (not_sumTail_eq_error hsum)
  · rintro ⟨o, rest, rfl, ho, h⟩
    rcases Bool.or_eq_true_iff.mp ho with ho | ho
    · exact (afterPrimary_product_eq_error ho).mpr h
    · exact (afterPrimary_sum_eq_error ho).mpr h

end Values

section Statements

variable {ts : List Token} {e : Stuck}

private theorem createdStore_eq_error : createdStore ts = .error e ↔ Lacks .storeName ts e := by
  rcases ts with _ | ⟨t, ts⟩
  · simp [createdStore, Lacks, Misses]
  · cases t <;> simp [createdStore, Lacks, Misses, Expected.admits]

/-- A creation fails for want of the word or the name of a store, or at another word. -/
theorem creation_eq_error :
    creation ts = .error e ↔
      Lacks .storeWord ts e ∨
        ∃ word rest, ts = .identifier word :: rest ∧
          (word = storeWord ∧ Lacks .storeName rest e ∨
            word ≠ storeWord ∧ e = ⟨.uncreatable word, ts⟩) := by
  rcases ts with _ | ⟨t, ts⟩
  · simp [creation, Lacks, Misses]
  · cases t with
    | identifier word =>
      rw [creation]
      by_cases hword : word = storeWord
      · simp [hword, createdStore_eq_error, Lacks, Misses, Expected.admits]
      · simp [hword, Lacks, Misses, Expected.admits, @eq_comm _ e]
    | _ => simp [creation, Lacks, Misses, Expected.admits]

/-- Behind a primary that is followed by a sign, a statement is stuck in the new value of the
target, or in front of the sign if the primary is no target. -/
def StuckBehindTarget (ts : List Token) (first : Node) (mid : List Token) (e : Stuck) : Prop :=
  ∃ sign rest, mid = sign :: rest ∧
    ((∃ target o, first = .access target ∧ sign = .assignment o ∧ expression rest = .error e) ∨
      (assignmentSign sign).isSome = true ∧ (∀ target, first ≠ .access target) ∧
        e = ⟨.unassignable first.kind ts, mid⟩)

/-- A statement that begins with a value fails in the value or behind what would be its target. -/
theorem assignmentOrValue_eq_error :
    assignmentOrValue ts = .error e ↔
      expression ts = .error e ∨
        ∃ first mid, Reads (primary ts) first mid ∧ StuckBehindTarget ts first mid e := by
  have hfirst : assignmentOrValue ts = .error e ↔ primary ts = .error e ∨
      ∃ first mid, Reads (primary ts) first mid ∧
        (afterPrimary first mid = .error e ∨ StuckBehindTarget ts first mid e) := by
    refine bind_eq_error ?_
    rintro ⟨first, mid, h⟩
    rw [afterPrimary_eq_error_iff]
    cases mid with
    | nil => simp [StuckBehindTarget]
    | cons sign rest =>
      cases hsign : assignmentSign sign with
      | none =>
        have hvalue : ¬ StuckBehindTarget ts first (sign :: rest) e := by
          rintro ⟨_, _, ⟨⟩, ⟨_, _, -, rfl, -⟩ | ⟨hsome, -⟩⟩
          · cases hsign
          · simp [hsign] at hsome
        simp only [hvalue, or_false, hsign]
        rw [← afterPrimary_eq_error_iff]
        exact bind_ok_eq_error fun _ => ⟨_, rfl⟩
      | some new =>
        have hno : ¬ ∃ o more, sign :: rest = .operation o :: more ∧ isArithmetic o = true ∧
            expression more = .error e := by
          rintro ⟨o, more, ⟨⟩, -⟩
          cases hsign
        simp only [hno, false_or]
        obtain ⟨o, implied⟩ := new
        cases first with
        | access target =>
          cases implied with
          | some node =>
            have hsign' : ∀ o, sign ≠ .assignment o := by
              rintro o rfl
              cases hsign
            simp [hsign, hsign', StuckBehindTarget]
          | none =>
            cases sign <;> cases hsign
            simp only [assignmentSign, StuckBehindTarget, List.cons.injEq, Node.access.injEq]
            rw [bind_ok_eq_error fun _ => ⟨_, rfl⟩]
            simp
        | _ => simp [hsign, StuckBehindTarget, @eq_comm _ e]
  rw [hfirst, expression_eq_error, or_assoc]
  refine or_congr_right ?_
  simp only [and_or_left, exists_or]

/-- A conditional is stuck in one of its values, between them, or in its body. -/
theorem conditional_eq_error {negate : Bool} :
    conditional negate ts = .error e ↔
      expression ts = .error e ∨
        ∃ first mid, Reads (expression ts) first mid ∧
          (Lacks .comparator mid e ∨
            ∃ c rest, mid = .comparison c :: rest ∧
              (expression rest = .error e ∨
                ∃ second rest', Reads (expression rest) second rest' ∧ body rest' = .error e)) := by
  have hcondition : condition ts = .error e ↔ expression ts = .error e ∨
      ∃ first mid, Reads (expression ts) first mid ∧ (Lacks .comparator mid e ∨
        ∃ c rest, mid = .comparison c :: rest ∧ expression rest = .error e) := by
    refine bind_eq_error ?_
    rintro ⟨first, mid, h⟩
    rcases mid with _ | ⟨t, mid⟩
    · simp [Lacks, Misses]
    · cases t with
      | comparison c =>
        have hno : ¬ Lacks .comparator (.comparison c :: mid) e := not_lacks rfl
        simp only [hno, false_or, List.cons.injEq, Token.comparison.injEq]
        rw [bind_ok_eq_error fun _ => ⟨_, rfl⟩]
        simp
      | _ => simp [Lacks, Misses, Expected.admits]
  have hboth : conditional negate ts = .error e ↔ condition ts = .error e ∨
      ∃ c rest, Reads (condition ts) c rest ∧ body rest = .error e := by
    rw [conditional]
    exact bind_eq_error fun f => bind_ok_eq_error fun _ => ⟨_, rfl⟩
  rw [hboth, hcondition]
  constructor
  · rintro ((h | ⟨first, mid, hfirst, h | ⟨c, rest, rfl, h⟩⟩) | ⟨c, rest, hc, h⟩)
    · exact .inl h
    · exact .inr ⟨first, mid, hfirst, .inl h⟩
    · exact .inr ⟨first, _, hfirst, .inr ⟨c, rest, rfl, .inl h⟩⟩
    · obtain ⟨mid, hfirst, hsecond⟩ := reads_condition.mp hc
      exact .inr ⟨_, _, hfirst, .inr ⟨_, mid, rfl, .inr ⟨_, rest, hsecond, h⟩⟩⟩
  · rintro (h | ⟨first, mid, hfirst, h | ⟨c, rest, rfl, h | ⟨second, rest', hsecond, h⟩⟩⟩)
    · exact .inl (.inl h)
    · exact .inl (.inr ⟨first, mid, hfirst, .inl h⟩)
    · exact .inl (.inr ⟨first, _, hfirst, .inr ⟨c, rest, rfl, h⟩⟩)
    · exact .inr ⟨⟨first, c, second⟩, rest', reads_condition.mpr ⟨rest, hfirst, hsecond⟩, h⟩

/-- A statement that begins with `create` fails where the creation fails. -/
theorem statement_create_eq_error :
    statement (.createWord :: ts) = .error e ↔ creation ts = .error e := by
  rw [statement, map_eq_error]

/-- A statement that begins with `if` fails where the condition fails, negated or not. -/
theorem statement_if_eq_error :
    statement (.ifWord :: ts) = .error e ↔
      (∃ rest, ts = .notWord :: rest ∧ conditional true rest = .error e) ∨
        ts.head? ≠ some .notWord ∧ conditional false ts = .error e := by
  by_cases hnot : ts.head? = some .notWord
  · obtain ⟨rest, rfl⟩ := List.head?_eq_some_iff.mp hnot
    rw [statement, map_eq_error]
    simp
  · rw [statement, map_eq_error]
    · constructor
      · exact fun h => .inr ⟨hnot, h⟩
      · rintro (⟨rest, rfl, -⟩ | ⟨-, h⟩)
        · exact absurd rfl hnot
        · exact h
    · rintro rest rfl
      exact hnot rfl

/-- A statement that begins with `as` fails for want of a selector, or in its body. -/
theorem statement_as_eq_error :
    statement (.asWord :: ts) = .error e ↔
      Lacks .selector ts e ∨
        ∃ selector rest, ts = .text selector :: rest ∧ body rest = .error e := by
  rcases ts with _ | ⟨t, ts⟩
  · simp [statement, Lacks, Misses]
  · cases t <;> simp [statement, Lacks, Misses, Expected.admits]

/-- A body in braces fails where its statements fail. -/
theorem body_braces_eq_error :
    body (.leftBrace :: ts) = .error e ↔ untilBrace ts = .error e := by
  rw [body, map_eq_error]

/-- A body without braces fails where its statement fails. -/
theorem body_single_eq_error (h : ts.head? ≠ some .leftBrace) :
    body ts = .error e ↔ statement ts = .error e := by
  unfold body
  split
  · exact absurd rfl h
  · exact map_eq_error

/-- Statements in braces fail in the first one or behind it. -/
theorem untilBrace_eq_error {t : Token} (h : t ≠ .rightBrace) :
    untilBrace (t :: ts) = .error e ↔
      statement (t :: ts) = .error e ∨
        ∃ node rest, Reads (statement (t :: ts)) node rest ∧ untilBrace rest = .error e := by
  rw [untilBrace]
  · exact bind_eq_error fun f => bind_ok_eq_error fun _ => ⟨_, rfl⟩
  · simp
  · rintro rest ⟨⟩
    exact h rfl

/-- Statements fail in the first one or behind it. -/
theorem statements_eq_error {t : Token} :
    statements (t :: ts) = .error e ↔
      statement (t :: ts) = .error e ∨
        ∃ node rest, Reads (statement (t :: ts)) node rest ∧ statements rest = .error e := by
  rw [statements]
  · cases hfirst : statement (t :: ts) with
    | error e' => simp [bind, Except.bind]
    | ok f =>
      cases hrest : statements f.rest with
      | error e' => simp [bind, Except.bind, hrest]
      | ok others => simp [bind, Except.bind, pure, Except.pure, hrest]
  · simp

end Statements

end Grammar

end Datapack
