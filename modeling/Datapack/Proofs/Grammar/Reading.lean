import Datapack.Proofs.Grammar.Derivation

/-!
# What the readers read

One law for each reader of the grammar: when it succeeds, with which phrase, and
which tokens it leaves behind. The bounds that make reading end are gone here, so
that nothing else has to open a reader.
-/

namespace Datapack.Grammar

/-- The reading succeeds with the phrase `a` and leaves the tokens `rest` behind it. -/
def Reads {α : Type} {bound : Nat} (r : Reading α bound) (a : α) (rest : List Token) : Prop :=
  ∃ h, r = .ok ⟨a, rest, h⟩

section Reads

variable {α β : Type} {bound bound' : Nat} {r : Reading α bound} {a : α} {b : β}
  {rest : List Token}

/-- A reader takes at least one token. -/
theorem Reads.length_lt (h : Reads r a rest) : rest.length < bound := h.1

/-- A reading has one outcome. -/
theorem Reads.unique {a' : α} {rest' : List Token} (h : Reads r a rest) (h' : Reads r a' rest') :
    a = a' ∧ rest = rest' := by
  obtain ⟨_, h⟩ := h
  obtain ⟨_, h'⟩ := h'
  cases h.symm.trans h'
  exact ⟨rfl, rfl⟩

/-- A reader that is done has read what it found. -/
@[simp] theorem reads_ok {f : Found α bound} :
    Reads (.ok f) a rest ↔ f.value = a ∧ f.rest = rest := by
  constructor
  · rintro ⟨_, h⟩
    cases h
    exact ⟨rfl, rfl⟩
  · rintro ⟨rfl, rfl⟩
    exact ⟨f.shorter, rfl⟩

@[simp] theorem not_reads_error {e : Stuck} :
    ¬ Reads (.error e : Reading α bound) a rest := by
  rintro ⟨_, h⟩
  cases h

/-- A reader that misses something reads nothing. -/
@[simp] theorem not_reads_missing {what : Expected} {ts : List Token} :
    ¬ Reads (missing what ts : Reading α bound) a rest := not_reads_error

/-- Two readings in a row succeed when both do. -/
theorem reads_bind {k : Found α bound → Reading β bound'} :
    Reads (r >>= k) b rest ↔
      ∃ a mid, ∃ h : Reads r a mid, Reads (k ⟨a, mid, h.length_lt⟩) b rest := by
  cases r with
  | error e =>
    constructor
    · rintro ⟨_, h⟩
      cases h
    · rintro ⟨a, mid, ⟨_, h⟩, -⟩
      cases h
  | ok f =>
    constructor
    · intro h
      exact ⟨f.value, f.rest, ⟨f.shorter, rfl⟩, h⟩
    · rintro ⟨a, mid, ⟨_, h⟩, hk⟩
      cases h
      exact hk

private theorem reads_map {g : Found α bound → Found β bound'} :
    Reads (g <$> r) b rest ↔
      ∃ a mid, ∃ h : Reads r a mid,
        (g ⟨a, mid, h.length_lt⟩).value = b ∧ (g ⟨a, mid, h.length_lt⟩).rest = rest := by
  have hbind : g <$> r = r >>= fun f => .ok (g f) := by cases r <;> rfl
  simp only [hbind, reads_bind, reads_ok]

/-- A phrase seen from further to the left is the same phrase. -/
@[simp] theorem reads_behind : Reads (Found.behind <$> r) a rest ↔ Reads r a rest := by
  simp [reads_map, Found.behind]

/-- What is read behind two further tokens is what was read. -/
@[simp] theorem reads_behind_behind :
    Reads ((fun f => f.behind.behind) <$> r) a rest ↔ Reads r a rest := by
  simp [reads_map, Found.behind]

/-- What is made of a phrase behind two further tokens is made of what was read. -/
theorem reads_map_behind_behind {g : α → β} :
    Reads ((fun f => (f.map g).behind.behind) <$> r) b rest ↔ ∃ a, Reads r a rest ∧ g a = b := by
  simp [reads_map, Found.behind, Found.map, and_comm]

end Reads

section Values

variable {ts rest : List Token} {node first : Node} {values : List Node} {o : Operator}
  {name : String}

/-- Behind a minus sign a number is read and negated. -/
theorem reads_negativeNumber :
    Reads (negativeNumber ts) node rest ↔
      (∃ value, ts = .integer value :: rest ∧ node = .int (-value)) ∨
        ∃ value, ts = .float value :: rest ∧ node = .float value.negate := by
  unfold negativeNumber
  split <;> grind [reads_ok, not_reads_missing, Found.here]

private theorem reads_closedAccess {a : Access} :
    Reads (closedAccess a ts) node rest ↔ ts = .rightBracket :: rest ∧ node = .access a := by
  unfold closedAccess
  split <;> grind [reads_ok, not_reads_missing, Found.here]

/-- An entry is read as a variable, or as a text in quotes. -/
theorem reads_accessEntry {store : String} :
    Reads (accessEntry store ts) node rest ↔
      (∃ name, ts = .identifier name :: .rightBracket :: rest ∧
        node = .access ⟨.named name, store⟩) ∨
        ∃ content, ts = .text content :: .rightBracket :: rest ∧
          node = .access ⟨.verbatim content, store⟩ := by
  unfold accessEntry
  split <;> grind [reads_behind, not_reads_missing, reads_closedAccess]

/-- Between parentheses a value is read. -/
theorem reads_primary_parens :
    Reads (primary (.leftParen :: ts)) node rest ↔
      Reads (expression ts) node (.rightParen :: rest) := by
  simp only [primary, reads_bind]
  constructor
  · rintro ⟨value, mid, h, hend⟩
    split at hend
    · obtain ⟨rfl, rfl⟩ := reads_ok.mp hend
      exact h
    · exact absurd hend not_reads_missing
  · intro h
    exact ⟨node, _, h, reads_ok.mpr ⟨rfl, rfl⟩⟩

/-- Arguments are read one by one, up to the closing parenthesis. -/
theorem reads_arguments :
    Reads (arguments ts) values rest ↔
      ∃ value, (values = [value] ∧ Reads (expression ts) value (.rightParen :: rest)) ∨
        ∃ mid others, values = value :: others ∧ Reads (expression ts) value (.comma :: mid) ∧
          Reads (arguments mid) others rest := by
  rw [arguments]
  simp only [reads_bind]
  constructor
  · rintro ⟨value, mid, h, hmore⟩
    refine ⟨value, ?_⟩
    split at hmore
    · obtain ⟨rfl, rfl⟩ := reads_ok.mp hmore
      exact .inl ⟨rfl, h⟩
    · obtain ⟨others, mid', h', hend⟩ := reads_bind.mp hmore
      obtain ⟨rfl, rfl⟩ := reads_ok.mp hend
      exact .inr ⟨_, others, rfl, h, h'⟩
    · exact absurd hmore not_reads_missing
  · rintro ⟨value, ⟨rfl, h⟩ | ⟨mid, others, rfl, h, h'⟩⟩
    · exact ⟨value, _, h, reads_ok.mpr ⟨rfl, rfl⟩⟩
    · exact ⟨value, _, h, reads_bind.mpr ⟨others, rest, h', reads_ok.mpr ⟨rfl, rfl⟩⟩⟩

/-- A value is read from its first operand on. -/
theorem reads_expression :
    Reads (expression ts) node rest ↔
      ∃ first mid, Reads (primary ts) first mid ∧ Reads (afterPrimary first mid) node rest := by
  rw [expression]
  simp [reads_bind]

/-- Behind an operand, factors are read before terms. -/
theorem reads_afterPrimary :
    Reads (afterPrimary first ts) node rest ↔
      ∃ term mid, Reads (productTail first ts) term mid ∧ Reads (sumTail term mid) node rest := by
  rw [afterPrimary]
  simp [reads_bind]

/-- A further factor is multiplied to what was read so far. -/
theorem reads_productTail_operation (ho : isProductOperator o = true) :
    Reads (productTail first (.operation o :: ts)) node rest ↔
      ∃ second mid, Reads (primary ts) second mid ∧
        Reads (productTail (.calc first o second) mid) node rest := by
  rw [productTail, if_pos ho]
  simp [reads_bind]

/-- A further term is read with its factors and added to what was read so far. -/
theorem reads_sumTail_operation (ho : isSumOperator o = true) :
    Reads (sumTail first (.operation o :: ts)) node rest ↔
      ∃ factor mid second mid', Reads (primary ts) factor mid ∧
        Reads (productTail factor mid) second mid' ∧
        Reads (sumTail (.calc first o second) mid') node rest := by
  rw [sumTail, if_pos ho]
  simp [reads_bind]

/-- A product ends where no operator of products follows. -/
theorem reads_productTail_stop (h : goesOnWith isProductOperator ts = false) :
    Reads (productTail first ts) node rest ↔ first = node ∧ ts = rest := by
  unfold productTail
  split
  · rw [if_neg (Bool.eq_false_iff.mp h : ¬ isProductOperator _ = true)]
    exact reads_ok
  · exact reads_ok

/-- A sum ends where no operator of sums follows. -/
theorem reads_sumTail_stop (h : goesOnWith isSumOperator ts = false) :
    Reads (sumTail first ts) node rest ↔ first = node ∧ ts = rest := by
  unfold sumTail
  split
  · rw [if_neg (Bool.eq_false_iff.mp h : ¬ isSumOperator _ = true)]
    exact reads_ok
  · exact reads_ok

/-- Nothing is added to a primary that the tokens end with. -/
theorem reads_afterPrimary_nil :
    Reads (afterPrimary first []) node rest ↔ first = node ∧ [] = rest := by
  rw [reads_afterPrimary]
  constructor
  · rintro ⟨term, mid, h, h'⟩
    obtain ⟨rfl, rfl⟩ := (reads_productTail_stop rfl).mp h
    exact (reads_sumTail_stop rfl).mp h'
  · rintro ⟨rfl, rfl⟩
    exact ⟨first, [], (reads_productTail_stop rfl).mpr ⟨rfl, rfl⟩,
      (reads_sumTail_stop rfl).mpr ⟨rfl, rfl⟩⟩

end Values

section Statements

variable {ts rest : List Token} {node : Node} {nodes : List Node}

private theorem reads_createdStore :
    Reads (createdStore ts) node rest ↔
      ∃ store, ts = .identifier store :: rest ∧ node = .create store := by
  unfold createdStore
  split <;> grind [reads_ok, not_reads_missing, Found.here]

/-- A creation is read from its two words. -/
theorem reads_creation :
    Reads (creation ts) node rest ↔
      ∃ store, ts = .identifier storeWord :: .identifier store :: rest ∧ node = .create store := by
  unfold creation
  split
  · split <;> grind [reads_behind, not_reads_error, reads_createdStore]
  · grind [not_reads_missing]

/-- After its first primary, a statement is an assignment or the rest of a value. -/
theorem reads_assignmentOrValue :
    Reads (assignmentOrValue ts) node rest ↔
      ∃ first mid, Reads (primary ts) first mid ∧
        (goesOnAssigning mid = false ∧ Reads (afterPrimary first mid) node rest ∨
          ∃ target sign more o value, first = .access target ∧ mid = sign :: more ∧
            node = .assign target o value ∧
            (assignmentSign sign = some (o, some value) ∧ more = rest ∨
              assignmentSign sign = some (o, none) ∧ Reads (expression more) value rest)) := by
  unfold assignmentOrValue
  simp only [reads_bind]
  constructor
  · rintro ⟨first, mid, h, hmore⟩
    refine ⟨first, mid, h, ?_⟩
    split at hmore
    · exact .inl ⟨rfl, reads_afterPrimary_nil.mpr (reads_ok.mp hmore)⟩
    · split at hmore
      next hsign =>
        obtain ⟨rfl, rfl⟩ := reads_ok.mp hmore
        exact .inr ⟨_, _, _, _, _, rfl, rfl, rfl, .inl ⟨hsign, rfl⟩⟩
      next hsign =>
        obtain ⟨value, mid', h', hend⟩ := reads_bind.mp hmore
        obtain ⟨rfl, rfl⟩ := reads_ok.mp hend
        exact .inr ⟨_, _, _, _, _, rfl, rfl, rfl, .inr ⟨hsign, h'⟩⟩
      next => exact absurd hmore not_reads_error
      next hsign =>
        obtain ⟨value, mid', h', hend⟩ := reads_bind.mp hmore
        obtain ⟨rfl, rfl⟩ := reads_ok.mp hend
        exact .inl ⟨by simp [goesOnAssigning, hsign], h'⟩
  · rintro ⟨first, mid, h, ⟨hsign, hmore⟩ | ⟨target, sign, more, o, value, rfl, rfl, rfl, hmore⟩⟩
    · refine ⟨first, mid, h, ?_⟩
      cases mid with
      | nil => exact reads_ok.mpr (reads_afterPrimary_nil.mp hmore)
      | cons sign more =>
        have hnone : assignmentSign sign = none := by simpa [goesOnAssigning] using hsign
        simp only [hnone]
        exact reads_bind.mpr ⟨_, _, hmore, reads_ok.mpr ⟨rfl, rfl⟩⟩
    · refine ⟨.access target, sign :: more, h, ?_⟩
      rcases hmore with ⟨hsign, rfl⟩ | ⟨hsign, hvalue⟩
      · simp only [hsign]
        exact reads_ok.mpr ⟨rfl, rfl⟩
      · simp only [hsign]
        exact reads_bind.mpr ⟨_, _, hvalue, reads_ok.mpr ⟨rfl, rfl⟩⟩

/-- A condition is two values with a comparator between them. -/
theorem reads_condition {condition : Condition} :
    Reads (Grammar.condition ts) condition rest ↔
      ∃ mid, Reads (expression ts) condition.first (.comparison condition.comparator :: mid) ∧
        Reads (expression mid) condition.second rest := by
  unfold Grammar.condition
  simp only [reads_bind]
  constructor
  · rintro ⟨first, mid, h, hmore⟩
    split at hmore
    · obtain ⟨second, mid', h', hend⟩ := reads_bind.mp hmore
      obtain ⟨rfl, rfl⟩ := reads_ok.mp hend
      exact ⟨_, h, h'⟩
    · exact absurd hmore not_reads_missing
  · rintro ⟨mid, h, h'⟩
    exact ⟨_, _, h, reads_bind.mpr ⟨_, _, h', reads_ok.mpr ⟨rfl, rfl⟩⟩⟩

/-- A conditional is a condition with a body behind it. -/
theorem reads_conditional {negate : Bool} :
    Reads (conditional negate ts) node rest ↔
      ∃ first c mid second mid' nodes, Reads (expression ts) first (.comparison c :: mid) ∧
        Reads (expression mid) second mid' ∧ Reads (body mid') nodes rest ∧
        node = .branch negate first c second nodes := by
  rw [conditional]
  simp only [reads_bind, reads_ok]
  constructor
  · rintro ⟨⟨first, c, second⟩, mid', h, nodes, _, h', rfl, rfl⟩
    obtain ⟨mid, hfirst, hsecond⟩ := reads_condition.mp h
    exact ⟨first, c, mid, second, mid', nodes, hfirst, hsecond, h', rfl⟩
  · rintro ⟨first, c, mid, second, mid', nodes, hfirst, hsecond, h', rfl⟩
    have h : Reads (Grammar.condition ts) ⟨first, c, second⟩ mid' :=
      reads_condition.mpr ⟨mid, hfirst, hsecond⟩
    exact ⟨_, mid', h, nodes, rest, h', rfl, rfl⟩

/-- In braces, statements are read up to the closing one. -/
theorem reads_body_braces :
    Reads (body (.leftBrace :: ts)) nodes rest ↔ Reads (untilBrace ts) nodes rest := by
  rw [body, reads_behind]

/-- Without braces, the body is one statement. -/
theorem reads_body_single (h : ts.head? ≠ some .leftBrace) :
    Reads (body ts) nodes rest ↔ ∃ node, nodes = [node] ∧ Reads (statement ts) node rest := by
  unfold body
  split
  · exact absurd rfl h
  · simp [reads_map, Found.map, eq_comm, and_comm]

/-- The closing brace ends the statements. -/
theorem reads_untilBrace_end :
    Reads (untilBrace (.rightBrace :: ts)) nodes rest ↔ nodes = [] ∧ ts = rest := by
  rw [untilBrace, reads_ok, eq_comm]
  rfl

/-- Before the closing brace, one more statement is read. -/
theorem reads_untilBrace_more (h : ts.head? ≠ some .rightBrace) :
    Reads (untilBrace ts) nodes rest ↔
      ∃ node others mid, nodes = node :: others ∧ Reads (statement ts) node mid ∧
        Reads (untilBrace mid) others rest := by
  cases ts with
  | nil => simp [untilBrace, statement]
  | cons t ts =>
    have hne : ∀ more, t :: ts = .rightBrace :: more → False := by
      rintro more heq
      cases heq
      exact h rfl
    rw [untilBrace]
    · simp only [reads_bind, reads_ok]
      constructor
      · rintro ⟨node, mid, h, others, _, h', rfl, rfl⟩
        exact ⟨node, others, mid, rfl, h, h'⟩
      · rintro ⟨node, others, mid, rfl, h, h'⟩
        exact ⟨node, mid, h, others, rest, h', rfl, rfl⟩
    · simp
    · exact hne

/-- Where there are tokens, a statement is read, and further ones after it. -/
theorem statements_eq_ok {t : Token} :
    statements (t :: ts) = .ok nodes ↔
      ∃ node others mid, nodes = node :: others ∧ Reads (statement (t :: ts)) node mid ∧
        statements mid = .ok others := by
  rw [statements]
  · constructor
    · intro h
      cases hfirst : statement (t :: ts) with
      | error e =>
        rw [hfirst] at h
        cases h
      | ok f =>
        rw [hfirst] at h
        cases hrest : statements f.rest with
        | error e => simp [bind, Except.bind, hrest] at h
        | ok others =>
          have heq : f.value :: others = nodes := by
            simpa [bind, Except.bind, pure, Except.pure, hrest] using h
          exact ⟨f.value, others, f.rest, heq.symm, ⟨f.shorter, rfl⟩, hrest⟩
    · rintro ⟨node, others, mid, rfl, ⟨_, h⟩, h'⟩
      simp [bind, Except.bind, pure, Except.pure, h, h']
  · simp

end Statements

end Datapack.Grammar
