import Datapack.Proofs.Grammar.RoundTrip
import Datapack.Proofs.Language.Mentions

/-!
# Where the whole numbers of a program come from

Reading changes the sign of a number at most: the magnitudes of the numbers of a
program, in the order of reading, are those of its number tokens, and one for each
`++` and `--`. Tokens hold no number below zero. So the least number of 32 bits,
which has no opposite, stands in no program, and no sign is changed in vain.
-/

namespace Datapack

/-- How far a number is from zero. -/
def magnitude (value : Int32) : Nat := value.toInt.natAbs

/-- The opposite of a number is as far from zero, also where it is the number itself. -/
theorem magnitude_neg (value : Int32) : magnitude (-value) = magnitude value := by
  have hle := value.le_toInt
  have hlt := value.toInt_lt
  rw [magnitude, magnitude, Int32.toInt_neg]
  by_cases hmin : value.toInt = -2 ^ 31
  · rw [hmin]
    rfl
  · rw [Int.bmod_eq_of_le (by omega) (by omega), Int.natAbs_neg]

private theorem isWritableInt_iff {value : Int32} :
    isWritableInt value = true ↔ magnitude value ≤ Scan.maxInteger := by
  rw [isWritableInt, decide_eq_true_eq, magnitude]
  omega

/-- The magnitude of the number that a token brings into the program. -/
def Token.magnitude? : Token → Option Nat
  | .integer value => some (magnitude value)
  | .increment | .decrement => some 1
  | _ => none

namespace Grammar

/-- Magnitudes that tokens bring into the program, in order. -/
def magnitudesOf (ts : List Token) : List Nat := ts.filterMap Token.magnitude?

/-- The tokens in front of `rest` bring in the numbers, in order and up to their signs. -/
def BringsIn (numbers : List Int32) (ts rest : List Token) : Prop :=
  magnitudesOf ts = numbers.map magnitude ++ magnitudesOf rest

private theorem BringsIn.append {numbers others : List Int32} {ts mid rest : List Token}
    (h : BringsIn numbers ts mid) (h' : BringsIn others mid rest) :
    BringsIn (numbers ++ others) ts rest := by
  unfold BringsIn at *
  rw [h, h', List.map_append, List.append_assoc]

private theorem integers_calculations (first : Node) (more : List (Operator × Node)) :
    (calculations first more).integers =
      first.integers ++ more.flatMap fun next => next.2.integers := by
  induction more generalizing first with
  | nil => simp [calculations]
  | cons next more ih =>
    have hstep : calculations first (next :: more) =
      calculations (.calc first next.1 next.2) more := rfl
    rw [hstep, ih, Node.integers, List.flatMap_cons, List.append_assoc]

private theorem integersAll_singleton (node : Node) : Node.integersAll [node] = node.integers :=
  List.append_nil node.integers

/-- Whole numbers of the values that a phrase holds. -/
def ValuePhrase.integers : ValuePhrase → List Int32
  | .primary node | .term node | .value node | .change _ node => node.integers
  | .arguments values => Node.integersAll values
  | .factors more | .terms more => more.flatMap fun next => next.2.integers

/-- The tokens of a value bring in its numbers; no other token of it counts. -/
theorem ValueDerivation.bringsIn {p : ValuePhrase} {ts rest : List Token}
    (d : ValueDerivation p ts rest) : BringsIn p.integers ts rest := by
  induction d with
  | integer | float | text | negativeFloat | named | verbatim | callEmpty | noFactor | noTerm
  | increment | decrement => rfl
  | @negativeInteger value rest =>
    change magnitude value :: magnitudesOf rest = magnitude (-value) :: magnitudesOf rest
    rw [magnitude_neg]
  | parens _ ih | call _ ih | assignment _ ih => exact ih
  | lastArgument _ ih =>
    rw [ValuePhrase.integers, integersAll_singleton]
    exact ih
  | argument _ _ ih ih' | factor _ _ _ ih ih' | nextTerm _ _ _ ih ih' => exact ih.append ih'
  | term _ _ ih ih' | value _ _ _ ih ih' =>
    rw [ValuePhrase.integers, integers_calculations]
    exact ih.append ih'

/-- Whole numbers of the statements that a phrase holds. -/
def Phrase.integers : Phrase → List Int32
  | .statement node => node.integers
  | .statements nodes | .body nodes => Node.integersAll nodes

/-- The tokens of statements bring in their numbers. -/
theorem Derivation.bringsIn {p : Phrase} {ts rest : List Token} (d : Derivation p ts rest) :
    BringsIn p.integers ts rest := by
  induction d with
  | create | none => rfl
  | branch d d' _ ih | branchNot d d' _ ih => exact d.bringsIn.append (d'.bringsIn.append ih)
  | runAs _ ih | braces _ ih => exact ih
  | assign d d' => exact d.bringsIn.append d'.bringsIn
  | value d => exact d.bringsIn
  | more _ _ ih ih' => exact ih.append ih'
  | single _ ih =>
    rw [Phrase.integers, integersAll_singleton]
    exact ih

/-- No token that a text can hold brings in a number out of range. -/
theorem IsScanned.magnitude_le {t : Token} (ht : IsScanned t) {n : Nat}
    (h : t.magnitude? = some n) : n ≤ Scan.maxInteger := by
  cases t with
  | integer value =>
    cases h
    exact isWritableInt_iff.mp ht.integer.1
  | increment | decrement =>
    cases h
    decide
  | _ => cases h

/-- Behind a minus sign, a number that a text can hold is read as its opposite, without overflow. -/
theorem IsScanned.reads_negative {value : Int32} (ht : IsScanned (.integer value))
    (rest : List Token) :
    ∃ opposite : Int32, opposite.toInt = -value.toInt ∧
      Reads (primary (.operation .sub :: .integer value :: rest)) (.int opposite) rest := by
  have hread : Reads (primary (.operation .sub :: .integer value :: rest)) (.int (-value)) rest :=
    ValueDerivation.negativeInteger.isRead trivial
  exact ⟨-value, toInt_neg ht.integer.1, hread⟩

end Grammar

/-- No number of a program is out of the range that is the same on both sides of zero. -/
theorem magnitude_le_of_parse {source : String} {body : List Node} (h : parse source = .ok body)
    {value : Int32} (hvalue : value ∈ Node.integersAll body) :
    magnitude value ≤ Scan.maxInteger := by
  obtain ⟨ts, hts, ⟨d⟩⟩ := exists_derivation_of_parse h
  have hbrings : Grammar.BringsIn (Node.integersAll body) ts [] := d.bringsIn
  have hmem : magnitude value ∈ Grammar.magnitudesOf ts := by
    rw [hbrings]
    exact List.mem_append_left _ (List.mem_map_of_mem hvalue)
  obtain ⟨t, ht, hmagnitude⟩ := List.mem_filterMap.mp hmem
  have hitem : .ok t ∈ (lexemes source).map Lexeme.item := hts ▸ List.mem_map_of_mem ht
  have hscanned : Grammar.IsScanned t := Scan.isWritable_of_mem hitem
  exact hscanned.magnitude_le hmagnitude

end Datapack
