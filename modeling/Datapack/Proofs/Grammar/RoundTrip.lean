import Datapack.Grammar.Printer
import Datapack.Proofs.Grammar.Acceptance
import Datapack.Proofs.Token.Layout

/-!
# Programs read back

A program is writable if no phrase in it stands where the grammar has no place
for it, its names are identifiers and its numbers have a numeral. Writing such a
program and reading the text gives the program again: the derivation of the
written tokens is built along the phrase, and a phrase that binds too weakly for
its place stands in parentheses. Conversely every text that is read without
meeting a decimal point gives a writable program.
-/

namespace Datapack

/-- Whether the entry can be written: a variable is an identifier, any other name is quoted. -/
def Entry.isWritable : Entry → Bool
  | .named name => Scan.isIdentifier name
  | .verbatim _ => true

/-- Whether the store access can be written. -/
def Access.isWritable (a : Access) : Bool := Scan.isIdentifier a.store && a.entry.isWritable

/-- Whether the number can be written, with a minus sign or without. -/
def isWritableInt (value : Int32) : Bool :=
  decide (-(Scan.maxInteger : Int) ≤ value.toInt ∧ value.toInt ≤ Scan.maxInteger)

namespace Node

mutual

/-- Phrases without a float that can be written as values. -/
def isWritableValue : Node → Bool
  | .int value => isWritableInt value
  | .text _ => true
  | .access source => source.isWritable
  | .calc first o second => o != .set && first.isWritableValue && second.isWritableValue
  | .call name arguments => Scan.isIdentifier name && areWritableValues arguments
  | _ => false

/-- Whether all phrases can be written as values. -/
def areWritableValues : List Node → Bool
  | [] => true
  | node :: rest => node.isWritableValue && areWritableValues rest

end

mutual

/-- Phrases without a float that can be written as statements. -/
def isWritable : Node → Bool
  | .block _ => false
  | .assign target _ value => target.isWritable && value.isWritableValue
  | .branch _ first _ second body =>
    first.isWritableValue && second.isWritableValue && areWritable body
  | .runAs _ body => areWritable body
  | .create store => Scan.isIdentifier store
  | node => node.isWritableValue

/-- Whether all phrases can be written as statements. -/
def areWritable : List Node → Bool
  | [] => true
  | node :: rest => node.isWritable && areWritable rest

end

mutual

/-- Whether a number with a point stands anywhere in the phrase. -/
def hasFloat : Node → Bool
  | .float _ => true
  | .int _ | .text _ | .access _ | .create _ => false
  | .assign _ _ value => value.hasFloat
  | .calc first _ second => first.hasFloat || second.hasFloat
  | .branch _ first _ second body => first.hasFloat || second.hasFloat || haveFloat body
  | .block body | .runAs _ body | .call _ body => haveFloat body

/-- Whether a number with a point stands anywhere in the phrases. -/
def haveFloat : List Node → Bool
  | [] => false
  | node :: rest => node.hasFloat || haveFloat rest

end

end Node

namespace Grammar

section Strength

variable {s : Nat} {node first second : Node} {o : Operator} {ts mid rest : List Token}

/-- A phrase derived so that it may stand beside an operator of a lower strength: up to one it is a
sum that may go on, at two a term, and beyond that a primary. -/
def DerivesAt : Nat → Node → List Token → List Token → Prop
  | 0, node, ts, rest | 1, node, ts, rest => ∃ first more mid, calculations first more = node ∧
      Nonempty (ValueDerivation (.term first) ts mid) ∧
      Nonempty (ValueDerivation (.terms more) mid rest)
  | 2, node, ts, rest => Nonempty (ValueDerivation (.term node) ts rest)
  | _, node, ts, rest => Nonempty (ValueDerivation (.primary node) ts rest)

private theorem DerivesAt.of_primary (h : Nonempty (ValueDerivation (.primary node) ts rest))
    (s : Nat) :
    DerivesAt s node ts rest := by
  obtain ⟨d⟩ := h
  have hterm : ValueDerivation (.term node) ts rest := .term d .noFactor
  match s with
  | 0 | 1 => exact ⟨node, [], rest, rfl, ⟨hterm⟩, ⟨.noTerm⟩⟩
  | 2 => exact ⟨hterm⟩
  | _ + 3 => exact ⟨d⟩

private theorem DerivesAt.weaken {s' : Nat} (h : DerivesAt s' node ts rest) (hs : s ≤ s') :
    DerivesAt s node ts rest := by
  match s, s' with
  | _, n + 3 => exact .of_primary h _
  | 0, 0 | 0, 1 | 1, 1 | 2, 2 => exact h
  | 0, 2 | 1, 2 => exact ⟨node, [], rest, rfl, h, ⟨.noTerm⟩⟩
  | _ + 1, 0 | _ + 2, 1 | _ + 3, 2 => omega

/-- A phrase of any strength is a value where no operator follows. -/
theorem DerivesAt.value (h : DerivesAt s node ts rest)
    (hrest : goesOnWith isArithmetic rest = false) :
    Nonempty (ValueDerivation (.value node) ts rest) := by
  obtain ⟨first, more, mid, rfl, ⟨d⟩, ⟨d'⟩⟩ : DerivesAt 0 node ts rest := h.weaken (Nat.zero_le s)
  exact ⟨.value d d' hrest⟩

/-- In parentheses a phrase has every strength. -/
theorem DerivesAt.parens (h : DerivesAt s node ts (.rightParen :: rest)) (s' : Nat) :
    DerivesAt s' node (.leftParen :: ts) rest := by
  obtain ⟨d⟩ := h.value rfl
  exact .of_primary ⟨.parens d⟩ s'

private theorem calculations_append_singleton (first : Node) (more : List (Operator × Node))
    (o : Operator) (node : Node) :
    calculations first (more ++ [(o, node)]) = .calc (calculations first more) o node := by
  simp [calculations]

/-- One more factor at the end of a product. -/
theorem factors_append_singleton {more : List (Operator × Node)}
    (d : ValueDerivation (.factors more) ts (.operation o :: mid))
    (ho : isProductOperator o = true) (d' : ValueDerivation (.primary second) mid rest) :
    Nonempty (ValueDerivation (.factors (more ++ [(o, second)])) ts rest) := by
  induction more generalizing ts with
  | nil =>
    cases d
    exact ⟨.factor ho d' .noFactor⟩
  | cons next more ih =>
    cases d with
    | factor ho' e e' =>
      obtain ⟨d⟩ := ih e'
      exact ⟨.factor ho' e d⟩

/-- One more term at the end of a sum. -/
theorem terms_append_singleton {more : List (Operator × Node)}
    (d : ValueDerivation (.terms more) ts (.operation o :: mid))
    (ho : isSumOperator o = true) (d' : ValueDerivation (.term second) mid rest) :
    Nonempty (ValueDerivation (.terms (more ++ [(o, second)])) ts rest) := by
  induction more generalizing ts with
  | nil =>
    cases d
    exact ⟨.nextTerm ho d' .noTerm⟩
  | cons next more ih =>
    cases d with
    | nextTerm ho' e e' =>
      obtain ⟨d⟩ := ih e'
      exact ⟨.nextTerm ho' e d⟩

/-- Operators group to the left: the operand behind one has to bind tighter than it does. -/
theorem DerivesAt.calc (hfirst : DerivesAt o.precedence first ts (.operation o :: mid))
    (ho : o ≠ .set) (hsecond : DerivesAt (o.precedence + 1) second mid rest) :
    DerivesAt o.precedence (.calc first o second) ts rest := by
  have sum (ho : isSumOperator o = true) (hfirst : DerivesAt 1 first ts (.operation o :: mid))
      (hsecond : DerivesAt 2 second mid rest) : DerivesAt 1 (.calc first o second) ts rest := by
    obtain ⟨start, more, mid', rfl, hstart, ⟨d⟩⟩ := hfirst
    obtain ⟨e⟩ := hsecond
    exact ⟨start, _, mid', calculations_append_singleton .., hstart,
      terms_append_singleton d ho e⟩
  have product (ho : isProductOperator o = true)
      (hfirst : DerivesAt 2 first ts (.operation o :: mid))
      (hsecond : DerivesAt 3 second mid rest) : DerivesAt 2 (.calc first o second) ts rest := by
    obtain ⟨d⟩ := hfirst
    obtain ⟨e⟩ := hsecond
    cases d with
    | @term start more _ _ _ d d' =>
      obtain ⟨d'⟩ := factors_append_singleton d' ho e
      exact calculations_append_singleton start more o second ▸ ⟨.term d d'⟩
  cases o with
  | add => exact sum rfl hfirst hsecond
  | sub => exact sum rfl hfirst hsecond
  | set => exact absurd rfl ho
  | mod => exact product rfl hfirst hsecond
  | mul => exact product rfl hfirst hsecond
  | div => exact product rfl hfirst hsecond

end Strength

section Written

private theorem bindsBelow_zero (node : Node) : node.bindsBelow 0 = false := by
  cases node <;> rfl

/-- An operand stands in parentheses exactly where it binds weaker than its place asks for. -/
def operandTokens (s : Nat) (node : Node) : List Token :=
  if node.bindsBelow s then inParens node.tokens else node.tokens

private theorem derivesAt_operand {s : Nat} {node : Node} {rest : List Token}
    (h : ∀ s rest, node.bindsBelow s = false → DerivesAt s node (node.tokens ++ rest) rest) :
    DerivesAt s node (operandTokens s node ++ rest) rest := by
  unfold operandTokens
  split
  · rw [inParens, List.cons_append, List.append_assoc]
    exact (h 0 _ (bindsBelow_zero node)).parens s
  · exact h s rest (Bool.eq_false_iff.mpr ‹_›)

private theorem derives_int (value : Int32) (rest : List Token) :
    Nonempty (ValueDerivation (.primary (.int value)) ((Node.int value).tokens ++ rest) rest) := by
  unfold Node.tokens
  split
  · exact ⟨.integer⟩
  · have d : ValueDerivation (.primary (.int (- -value)))
        (.operation .sub :: .integer (-value) :: .rightParen :: rest) (.rightParen :: rest) :=
      .negativeInteger
    rw [Int32.neg_neg] at d
    exact ⟨.parens (.value (.term d .noFactor) .noTerm rfl)⟩

private theorem derives_access (a : Access) (rest : List Token) :
    Nonempty (ValueDerivation (.primary (.access a)) (a.tokens ++ rest) rest) := by
  obtain ⟨entry, store⟩ := a
  cases entry with
  | named name => exact ⟨.named⟩
  | verbatim text => exact ⟨.verbatim⟩

mutual

/-- The tokens of a value derive the value, wherever it binds strongly enough. -/
theorem derivesAt_tokens {node : Node} (hnode : node.isWritableValue = true) (s : Nat)
    (rest : List Token) (hs : node.bindsBelow s = false) :
    DerivesAt s node (node.tokens ++ rest) rest := by
  cases node with
  | int value => exact .of_primary (derives_int value rest) s
  | text line => exact .of_primary ⟨.text⟩ s
  | access source => exact .of_primary (derives_access source rest) s
  | «calc» first o second =>
    simp only [Node.isWritableValue, Bool.and_eq_true, bne_iff_ne] at hnode
    obtain ⟨⟨ho, hfirst⟩, hsecond⟩ := hnode
    have hs : s ≤ o.precedence := by
      have := of_decide_eq_false hs
      omega
    refine DerivesAt.weaken ?_ hs
    rw [Node.tokens, List.append_assoc, List.cons_append]
    exact (derivesAt_operand (derivesAt_tokens hfirst)).calc ho
      (derivesAt_operand (derivesAt_tokens hsecond))
  | call name arguments =>
    simp only [Node.isWritableValue, Bool.and_eq_true] at hnode
    refine .of_primary ?_ s
    rw [Node.tokens, List.cons_append, List.cons_append, List.append_assoc, List.singleton_append]
    cases arguments with
    | nil => exact ⟨.callEmpty⟩
    | cons first others =>
      obtain ⟨d⟩ := derives_tokensOfArguments hnode.2 (by simp) rest
      exact ⟨.call d⟩
  | block | float | assign | branch | runAs | create => cases hnode

private theorem derives_tokensOfArguments {values : List Node}
    (hvalues : Node.areWritableValues values = true) (hne : values ≠ []) (rest : List Token) :
    Nonempty (ValueDerivation (.arguments values)
      (Node.tokensOfArguments values ++ .rightParen :: rest) (.rightParen :: rest)) := by
  match values with
  | [] => exact absurd rfl hne
  | [node] =>
    rw [Node.areWritableValues, Bool.and_eq_true] at hvalues
    have h := derivesAt_tokens hvalues.1 0 (.rightParen :: rest) (bindsBelow_zero node)
    obtain ⟨d⟩ := h.value rfl
    exact ⟨.lastArgument d⟩
  | node :: next :: others =>
    rw [Node.areWritableValues, Bool.and_eq_true] at hvalues
    have h := derivesAt_tokens hvalues.1 0
      (.comma :: (Node.tokensOfArguments (next :: others) ++ .rightParen :: rest))
      (bindsBelow_zero node)
    obtain ⟨d⟩ := h.value rfl
    obtain ⟨d'⟩ := derives_tokensOfArguments hvalues.2 (by simp) rest
    rw [Node.tokensOfArguments, List.append_assoc, List.cons_append]
    · exact ⟨.argument d d'⟩
    · simp

end

/-- The tokens of a value derive the value, where no operator follows. -/
theorem derives_valueTokens {node : Node} (hnode : node.isWritableValue = true)
    (rest : List Token) (hrest : goesOnWith isArithmetic rest = false) :
    Nonempty (ValueDerivation (.value node) (node.tokens ++ rest) rest) :=
  (derivesAt_tokens hnode 0 rest (bindsBelow_zero node)).value hrest

/-- A written value does not start with an operator. -/
theorem valueTokens_start {node : Node} (hnode : node.isWritableValue = true)
    (rest : List Token) : goesOnWith isArithmetic (node.tokens ++ rest) = false := by
  cases node with
  | int value =>
    unfold Node.tokens
    split <;> rfl
  | text | access | call => rfl
  | «calc» first o second =>
    simp only [Node.isWritableValue, Bool.and_eq_true] at hnode
    rw [Node.tokens, List.append_assoc]
    split
    · rfl
    · exact valueTokens_start hnode.1.2 _
  | block | float | assign | branch | runAs | create => cases hnode

/-- A written statement does not start with an operator, so that it ends what stands before it. -/
theorem tokens_start {node : Node} (hnode : node.isWritable = true) (rest : List Token) :
    goesOnWith isArithmetic (node.tokens ++ rest) = false := by
  cases node with
  | block => cases hnode
  | assign | branch | runAs | create => rfl
  | int | text | access | «calc» | call | float => exact valueTokens_start hnode rest

private theorem tokensOfAll_start {nodes : List Node} (hnodes : Node.areWritable nodes = true)
    {rest : List Token} (hrest : goesOnWith isArithmetic rest = false) :
    goesOnWith isArithmetic (Node.tokensOfAll nodes ++ rest) = false := by
  cases nodes with
  | nil => exact hrest
  | cons node nodes =>
    rw [Node.areWritable, Bool.and_eq_true] at hnodes
    rw [Node.tokensOfAll, List.append_assoc]
    exact tokens_start hnodes.1 _

mutual

/-- The tokens of a statement derive the statement, where no operator follows. -/
theorem derives_statementTokens {node : Node} (hnode : node.isWritable = true)
    (rest : List Token) (hrest : goesOnWith isArithmetic rest = false) :
    Nonempty (Derivation (.statement node) (node.tokens ++ rest) rest) := by
  cases node with
  | block => cases hnode
  | assign target o value =>
    rw [Node.isWritable, Bool.and_eq_true] at hnode
    obtain ⟨d⟩ := derives_access target (.assignment o :: (value.tokens ++ rest))
    obtain ⟨d'⟩ := derives_valueTokens hnode.2 rest hrest
    rw [Node.tokens, List.append_assoc, List.cons_append]
    exact ⟨.assign d (.assignment d')⟩
  | branch negate first c second body =>
    rw [Node.isWritable, Bool.and_eq_true, Bool.and_eq_true] at hnode
    obtain ⟨⟨hfirst, hsecond⟩, hbody⟩ := hnode
    let braced := inBraces (Node.tokensOfAll body) ++ rest
    obtain ⟨d⟩ := derives_valueTokens hfirst (.comparison c :: (second.tokens ++ braced)) rfl
    obtain ⟨d'⟩ := derives_valueTokens hsecond braced rfl
    obtain ⟨d''⟩ := derives_bodyTokens hbody rest
    cases negate with
    | false =>
      have htokens : (Node.branch false first c second body).tokens ++ rest =
          .ifWord :: (first.tokens ++ .comparison c :: (second.tokens ++ braced)) := by
        simp [Node.tokens, braced]
      exact htokens ▸ ⟨.branch d d' d''⟩
    | true =>
      have htokens : (Node.branch true first c second body).tokens ++ rest =
          .ifWord :: .notWord :: (first.tokens ++ .comparison c :: (second.tokens ++ braced)) := by
        simp [Node.tokens, braced]
      exact htokens ▸ ⟨.branchNot d d' d''⟩
  | runAs selector body =>
    obtain ⟨d⟩ := derives_bodyTokens hnode rest
    exact ⟨.runAs d⟩
  | create store => exact ⟨.create⟩
  | int | text | access | «calc» | call | float =>
    obtain ⟨d⟩ := derives_valueTokens hnode rest hrest
    exact ⟨.value d⟩

private theorem derives_bodyTokens {nodes : List Node} (hnodes : Node.areWritable nodes = true)
    (rest : List Token) :
    Nonempty (Derivation (.body nodes) (inBraces (Node.tokensOfAll nodes) ++ rest) rest) := by
  obtain ⟨d⟩ := derives_tokensOfAll hnodes (.rightBrace :: rest) rfl
  rw [inBraces, List.cons_append, List.append_assoc]
  exact ⟨.braces d⟩

private theorem derives_tokensOfAll {nodes : List Node} (hnodes : Node.areWritable nodes = true)
    (rest : List Token) (hrest : goesOnWith isArithmetic rest = false) :
    Nonempty (Derivation (.statements nodes) (Node.tokensOfAll nodes ++ rest) rest) := by
  cases nodes with
  | nil => exact ⟨.none⟩
  | cons node nodes =>
    rw [Node.areWritable, Bool.and_eq_true] at hnodes
    obtain ⟨d'⟩ := derives_tokensOfAll hnodes.2 rest hrest
    obtain ⟨d⟩ := derives_statementTokens hnodes.1 _ (tokensOfAll_start hnodes.2 hrest)
    rw [Node.tokensOfAll, List.append_assoc]
    exact ⟨.more d d'⟩

end

end Written

section Spelled

private theorem all_inParens (ts : List Token) :
    (inParens ts).all Token.isWritable = ts.all Token.isWritable := by
  simp [inParens, Token.isWritable]

private theorem all_inBraces (ts : List Token) :
    (inBraces ts).all Token.isWritable = ts.all Token.isWritable := by
  simp [inBraces, Token.isWritable]

private theorem all_operandTokens (s : Nat) (node : Node) :
    (operandTokens s node).all Token.isWritable = node.tokens.all Token.isWritable := by
  unfold operandTokens
  split
  · exact all_inParens node.tokens
  · rfl

private theorem all_accessTokens (a : Access) : a.tokens.all Token.isWritable = a.isWritable := by
  obtain ⟨entry, store⟩ := a
  cases entry <;> simp [Access.tokens, Access.isWritable, Entry.token, Entry.isWritable,
    Token.isWritable]

/-- The negative of a number that can be written does not overflow. -/
theorem toInt_neg {value : Int32} (h : isWritableInt value = true) :
    (-value).toInt = -value.toInt := by
  have hbounds := of_decide_eq_true h
  rw [Int32.toInt_neg]
  simp only [Scan.maxInteger] at hbounds
  exact Int.bmod_eq_of_le (by omega) (by omega)

private theorem all_intTokens {value : Int32} (h : isWritableInt value = true) :
    (Node.int value).tokens.all Token.isWritable = true := by
  unfold Node.tokens
  split
  case isTrue hvalue => simpa [Token.isWritable] using hvalue
  case isFalse hvalue =>
    have hneg : (0 : Int32) ≤ -value := by
      rw [Int32.le_iff_toInt_le, Int32.toInt_zero] at hvalue ⊢
      rw [toInt_neg h]
      omega
    rw [all_inParens]
    simpa [Token.isWritable] using hneg

mutual

private theorem all_valueTokens {node : Node} (hnode : node.isWritableValue = true) :
    node.tokens.all Token.isWritable = true := by
  cases node with
  | int value => exact all_intTokens hnode
  | text line => rfl
  | access source => exact (all_accessTokens source).trans hnode
  | «calc» first o second =>
    simp only [Node.isWritableValue, Bool.and_eq_true] at hnode
    obtain ⟨⟨ho, hfirst⟩, hsecond⟩ := hnode
    change (operandTokens o.precedence first ++
      .operation o :: operandTokens (o.precedence + 1) second).all Token.isWritable = true
    simp only [List.all_append, List.all_cons, all_operandTokens, Token.isWritable, ho,
      all_valueTokens hfirst, all_valueTokens hsecond, Bool.and_self]
  | call name arguments =>
    simp only [Node.isWritableValue, Bool.and_eq_true] at hnode
    simp [Node.tokens, Token.isWritable, hnode.1, all_argumentTokens hnode.2, -List.all_eq_true]
  | block | float | assign | branch | runAs | create => cases hnode

private theorem all_argumentTokens {values : List Node}
    (hvalues : Node.areWritableValues values = true) :
    (Node.tokensOfArguments values).all Token.isWritable = true := by
  match values with
  | [] => rfl
  | [node] =>
    rw [Node.areWritableValues, Bool.and_eq_true] at hvalues
    exact all_valueTokens hvalues.1
  | node :: next :: others =>
    rw [Node.areWritableValues, Bool.and_eq_true] at hvalues
    rw [Node.tokensOfArguments]
    · simp only [List.all_append, List.all_cons, Token.isWritable, all_valueTokens hvalues.1,
        all_argumentTokens hvalues.2, Bool.and_self]
    · simp

end

mutual

private theorem all_tokens {node : Node} (hnode : node.isWritable = true) :
    node.tokens.all Token.isWritable = true := by
  cases node with
  | block => cases hnode
  | assign target o value =>
    rw [Node.isWritable, Bool.and_eq_true] at hnode
    simp only [Node.tokens, List.all_append, List.all_cons, Token.isWritable, all_accessTokens,
      hnode.1, all_valueTokens hnode.2, Bool.and_self]
  | branch negate first c second body =>
    rw [Node.isWritable, Bool.and_eq_true, Bool.and_eq_true] at hnode
    obtain ⟨⟨hfirst, hsecond⟩, hbody⟩ := hnode
    have hnegate : (if negate then [Token.notWord] else []).all Token.isWritable = true := by
      cases negate <;> rfl
    simp only [Node.tokens, List.all_append, List.all_cons, Token.isWritable, all_inBraces, hnegate,
      all_valueTokens hfirst, all_valueTokens hsecond, all_tokensOfAll hbody, Bool.and_self]
  | runAs selector body =>
    simp only [Node.tokens, List.all_cons, Token.isWritable, all_inBraces, all_tokensOfAll hnode,
      Bool.and_self]
  | create store =>
    have hword : Scan.isIdentifier storeWord = true := by decide
    have hstore : Scan.isIdentifier store = true := hnode
    simp only [Node.tokens, List.all_cons, List.all_nil, Token.isWritable, hword, hstore,
      Bool.and_self]
  | int | text | access | «calc» | call | float => exact all_valueTokens hnode

private theorem all_tokensOfAll {nodes : List Node} (hnodes : Node.areWritable nodes = true) :
    (Node.tokensOfAll nodes).all Token.isWritable = true := by
  cases nodes with
  | nil => rfl
  | cons node nodes =>
    rw [Node.areWritable, Bool.and_eq_true] at hnodes
    simp only [Node.tokensOfAll, List.all_append, all_tokens hnodes.1, all_tokensOfAll hnodes.2,
      Bool.and_self]

end

end Spelled

section Read

/-- Tokens that a text can hold. -/
def IsScanned (t : Token) : Prop := t.isWritable = true ∨ ∃ value, t = .float value

private theorem IsScanned.identifier {name : String} (h : IsScanned (.identifier name)) :
    Scan.isIdentifier name = true := by
  rcases h with h | ⟨_, h⟩
  · exact h
  · cases h

/-- A number that was scanned can be written, and so can its negative. -/
theorem IsScanned.integer {value : Int32} (h : IsScanned (.integer value)) :
    isWritableInt value = true ∧ isWritableInt (-value) = true := by
  rcases h with h | ⟨_, h⟩
  · have hvalue : 0 ≤ value.toInt := by
      simpa [Int32.le_iff_toInt_le] using of_decide_eq_true h
    have hmax := Int32.toInt_lt value
    have hpositive : isWritableInt value = true := by
      refine decide_eq_true ?_
      simp only [Scan.maxInteger]
      omega
    refine ⟨hpositive, decide_eq_true ?_⟩
    rw [toInt_neg hpositive]
    simp only [Scan.maxInteger]
    omega
  · cases h

/-- Unless a float stands in it, the phrase can be written as a value. -/
def Node.Writes (node : Node) : Prop := node.hasFloat = false → node.isWritableValue = true

private theorem writes_calculations {first : Node} {more : List (Operator × Node)}
    (hfirst : Node.Writes first) (hmore : ∀ next ∈ more, next.1 ≠ .set ∧ Node.Writes next.2) :
    Node.Writes (calculations first more) := by
  induction more generalizing first with
  | nil => exact hfirst
  | cons next more ih =>
    obtain ⟨⟨ho, hnext⟩, hmore⟩ := List.forall_mem_cons.mp hmore
    refine ih (fun hfloat => ?_) hmore
    simp only [Node.hasFloat, Bool.or_eq_false_iff] at hfloat
    simp [Node.isWritableValue, ho, hfirst hfloat.1, hnext hfloat.2]

/-- Unless a float stands in them, the values that the phrase holds can be written. -/
def ValuePhrase.Writes : ValuePhrase → Prop
  | .primary node | .term node | .value node | .change _ node => Node.Writes node
  | .arguments values => Node.haveFloat values = false → Node.areWritableValues values = true
  | .factors more | .terms more => ∀ next ∈ more, next.1 ≠ .set ∧ Node.Writes next.2

private theorem ValueDerivation.writes {p : ValuePhrase} {ts rest : List Token}
    (d : ValueDerivation p ts rest) (hts : ∀ t ∈ ts, IsScanned t) :
    p.Writes ∧ ∀ t ∈ rest, IsScanned t := by
  induction d with
  | integer =>
    simp only [List.forall_mem_cons] at hts
    exact ⟨fun _ => hts.1.integer.1, hts.2⟩
  | negativeInteger =>
    simp only [List.forall_mem_cons] at hts
    exact ⟨fun _ => hts.2.1.integer.2, hts.2.2⟩
  | float | negativeFloat =>
    simp only [List.forall_mem_cons] at hts
    exact ⟨nofun, by simp_all⟩
  | text =>
    simp only [List.forall_mem_cons] at hts
    exact ⟨fun _ => rfl, hts.2⟩
  | parens _ ih =>
    simp only [List.forall_mem_cons] at hts
    obtain ⟨hvalue, hrest⟩ := ih hts.2
    exact ⟨hvalue, (List.forall_mem_cons.mp hrest).2⟩
  | named =>
    simp only [List.forall_mem_cons] at hts
    obtain ⟨hstore, -, hname, -, hrest⟩ := hts
    exact ⟨fun _ => Bool.and_eq_true_iff.mpr ⟨hstore.identifier, hname.identifier⟩, hrest⟩
  | verbatim =>
    simp only [List.forall_mem_cons] at hts
    obtain ⟨hstore, -, -, -, hrest⟩ := hts
    exact ⟨fun _ => Bool.and_eq_true_iff.mpr ⟨hstore.identifier, rfl⟩, hrest⟩
  | callEmpty =>
    simp only [List.forall_mem_cons] at hts
    obtain ⟨hname, -, -, hrest⟩ := hts
    exact ⟨fun _ => Bool.and_eq_true_iff.mpr ⟨hname.identifier, rfl⟩, hrest⟩
  | call _ ih =>
    simp only [List.forall_mem_cons] at hts
    obtain ⟨hvalues, hrest⟩ := ih hts.2.2
    exact ⟨fun hfloat => Bool.and_eq_true_iff.mpr ⟨hts.1.identifier, hvalues hfloat⟩,
      (List.forall_mem_cons.mp hrest).2⟩
  | lastArgument _ ih =>
    obtain ⟨hvalue, hrest⟩ := ih hts
    refine ⟨fun hfloat => ?_, hrest⟩
    rw [Node.haveFloat, Bool.or_eq_false_iff] at hfloat
    exact Bool.and_eq_true_iff.mpr ⟨hvalue hfloat.1, rfl⟩
  | argument _ _ ih ih' =>
    obtain ⟨hvalue, hmid⟩ := ih hts
    obtain ⟨hvalues, hrest⟩ := ih' (List.forall_mem_cons.mp hmid).2
    refine ⟨fun hfloat => ?_, hrest⟩
    rw [Node.haveFloat, Bool.or_eq_false_iff] at hfloat
    exact Bool.and_eq_true_iff.mpr ⟨hvalue hfloat.1, hvalues hfloat.2⟩
  | noFactor | noTerm => exact ⟨nofun, hts⟩
  | factor ho _ _ ih ih' | nextTerm ho _ _ ih ih' =>
    obtain ⟨hnode, hmid⟩ := ih (List.forall_mem_cons.mp hts).2
    obtain ⟨hmore, hrest⟩ := ih' hmid
    refine ⟨List.forall_mem_cons.mpr ⟨⟨?_, hnode⟩, hmore⟩, hrest⟩
    rintro rfl
    cases ho
  | term _ _ ih ih' | value _ _ _ ih ih' =>
    obtain ⟨hfirst, hmid⟩ := ih hts
    obtain ⟨hmore, hrest⟩ := ih' hmid
    exact ⟨writes_calculations hfirst hmore, hrest⟩
  | assignment _ ih => exact ih (List.forall_mem_cons.mp hts).2
  | increment | decrement => exact ⟨fun _ => rfl, (List.forall_mem_cons.mp hts).2⟩

private theorem Node.isWritable_of_value {node : Node} (h : node.isWritableValue = true) :
    node.isWritable = true := by
  cases node with
  | int | text | access | «calc» | call => exact h
  | block | float | assign | branch | runAs | create => cases h

/-- Unless a float stands in them, the statements that the phrase holds can be written. -/
def Phrase.Writes : Phrase → Prop
  | .statement node => node.hasFloat = false → node.isWritable = true
  | .statements nodes | .body nodes => Node.haveFloat nodes = false → Node.areWritable nodes = true

private theorem Derivation.writes {p : Phrase} {ts rest : List Token} (d : Derivation p ts rest)
    (hts : ∀ t ∈ ts, IsScanned t) : p.Writes ∧ ∀ t ∈ rest, IsScanned t := by
  induction d with
  | create =>
    simp only [List.forall_mem_cons] at hts
    obtain ⟨-, -, hstore, hrest⟩ := hts
    exact ⟨fun _ => hstore.identifier, hrest⟩
  | branch d d' _ ih | branchNot d d' _ ih =>
    simp only [List.forall_mem_cons] at hts
    obtain ⟨hfirst, hmid⟩ := d.writes (by simp_all)
    obtain ⟨hsecond, hmid'⟩ := d'.writes (List.forall_mem_cons.mp hmid).2
    obtain ⟨hbody, hrest⟩ := ih hmid'
    refine ⟨fun hfloat => ?_, hrest⟩
    rw [Node.hasFloat, Bool.or_eq_false_iff, Bool.or_eq_false_iff] at hfloat
    simp only [Node.isWritable, hfirst hfloat.1.1, hsecond hfloat.1.2, hbody hfloat.2,
      Bool.and_self]
  | runAs _ ih =>
    simp only [List.forall_mem_cons] at hts
    exact ih hts.2.2
  | assign d d' =>
    obtain ⟨htarget, hmid⟩ := d.writes hts
    obtain ⟨hvalue, hrest⟩ := d'.writes hmid
    exact ⟨fun hfloat => Bool.and_eq_true_iff.mpr ⟨htarget rfl, hvalue hfloat⟩, hrest⟩
  | value d =>
    obtain ⟨hvalue, hrest⟩ := d.writes hts
    exact ⟨fun hfloat => Node.isWritable_of_value (hvalue hfloat), hrest⟩
  | none => exact ⟨fun _ => rfl, hts⟩
  | more _ _ ih ih' =>
    obtain ⟨hnode, hmid⟩ := ih hts
    obtain ⟨hnodes, hrest⟩ := ih' hmid
    refine ⟨fun hfloat => ?_, hrest⟩
    rw [Node.haveFloat, Bool.or_eq_false_iff] at hfloat
    exact Bool.and_eq_true_iff.mpr ⟨hnode hfloat.1, hnodes hfloat.2⟩
  | braces _ ih =>
    obtain ⟨hnodes, hrest⟩ := ih (List.forall_mem_cons.mp hts).2
    exact ⟨hnodes, (List.forall_mem_cons.mp hrest).2⟩
  | single _ ih =>
    obtain ⟨hnode, hrest⟩ := ih hts
    refine ⟨fun hfloat => ?_, hrest⟩
    rw [Node.haveFloat, Bool.or_eq_false_iff] at hfloat
    exact Bool.and_eq_true_iff.mpr ⟨hnode hfloat.1, rfl⟩

end Read

end Grammar

/--
Writing a program and reading the text gives the program again, whatever program
can be written at all; and every program that is read and holds no float can be
written.
-/
theorem parse_programSource :
    (∀ body, Node.areWritable body = true → parse (programSource body) = .ok body) ∧
      ∀ source body, parse source = .ok body → Node.haveFloat body = false →
        Node.areWritable body = true := by
  constructor
  · intro body hbody
    have htokens := List.all_eq_true.mp (Grammar.all_tokensOfAll hbody)
    have hderives := Grammar.derives_tokensOfAll hbody [] rfl
    rw [List.append_nil] at hderives
    exact (parse_eq_ok_iff (lexemes_tokensSource htokens)).mpr hderives
  · intro source body hparse hfloat
    obtain ⟨ts, hts, ⟨d⟩⟩ := exists_derivation_of_parse hparse
    refine (d.writes fun t ht => ?_).1 hfloat
    have hmem : .ok t ∈ (lexemes source).map Lexeme.item := hts ▸ List.mem_map_of_mem ht
    exact Scan.isWritable_of_mem hmem

/-- A difference that groups to the right and starts with a negative number, and a quote in a
text. -/
theorem parse_programSource_difference :
    parse (programSource
        [.calc (.int 1) .sub (.calc (.int (-2)) .sub (.call "f" [.int 3])), .text "it's"]) =
      .ok [.calc (.int 1) .sub (.calc (.int (-2)) .sub (.call "f" [.int 3])), .text "it's"] ∧
      Node.areWritable [.text "it's", .call "f" [.int 7]] = true := by
  refine ⟨parse_programSource.1 _ (by decide), ?_⟩
  have hts : (lexemes "'it\\'s'f(7)").map Lexeme.item =
      [Token.text "it's", .identifier "f", .leftParen, .integer 7, .rightParen].map .ok := by
    decide +kernel
  refine parse_programSource.2 "'it\\'s'f(7)" _ ((parse_eq_ok_iff hts).mpr ⟨?_⟩) (by decide)
  have hseven : Grammar.ValueDerivation (.value (.int 7)) [.integer 7, .rightParen] [.rightParen] :=
    .value (.term .integer .noFactor) .noTerm rfl
  exact .more (.value (.value (.term .text .noFactor) .noTerm rfl))
    (.more (.value (.value (.term (.call (.lastArgument hseven)) .noFactor) .noTerm rfl)) .none)

example :
    programSource
        [.calc (.int 1) .sub (.calc (.int (-2)) .sub (.call "f" [.int 3])), .text "it's"] =
      "1 - ( ( - 2 ) - f ( 3 ) ) 'it\\'s'" := by
  decide +kernel

end Datapack
