import Datapack.Proofs.Token.LongestMatch

/-!
# Whole numbers

A text is cut into longest matches in one way only. Where one of them is a whole
number, the text holds there the number that the digits stand for in base ten,
whatever zeros stand in front of it and wherever underscores group the digits. A
number that does not fit into 32 bits is a fault. The digits may be as many as they
like: the number is compared, not its length.
-/

namespace Datapack

/-- Folding digits from the left gives their value as a positional numeral, the least significant
digit of which stands last. -/
theorem digitsValue_eq_ofDigits (cs : List Char) :
    digitsValue cs = Nat.ofDigits 10 (cs.reverse.map digitValue) := by
  induction cs using List.reverseRecOn with
  | nil => rfl
  | append_singleton cs c ih =>
    rw [digitsValue_append_singleton, ih, List.reverse_append, List.reverse_singleton,
      List.singleton_append, List.map_cons, Nat.ofDigits_cons, Nat.add_comm]

namespace Scan

section Uniqueness

/-- The longest match at the front of a text is determined. -/
theorem LongestMatch.unique {x y : Segment} {xrest yrest : List Char} (hx : LongestMatch x xrest)
    (hy : LongestMatch y yrest) (h : x.text ++ xrest = y.text ++ yrest) :
    x = y ∧ xrest = yrest := by
  cases hx with
  | @rule r text _ hr hfits hlongest hpreferred =>
    cases hy with
    | @rule r' text' _ hr' hfits' hlongest' hpreferred' =>
      -- each text competes with the other at the same place, so that neither is longer
      have hle : text.length ≤ text'.length := hlongest' r hr text hfits ⟨_, h⟩
      have hge : text'.length ≤ text.length := hlongest r' hr' text' hfits' ⟨_, h.symm⟩
      obtain ⟨rfl, rfl⟩ := List.append_inj h (Nat.le_antisymm hle hge)
      -- nor can both rules be below the other
      obtain rfl : r = r' := by
        rcases hpreferred r' hr' hfits' with hsame | hlower
        · exact hsame.symm
        · rcases hpreferred' r hr hfits with hsame | hlower'
          · exact hsame
          · omega
      exact ⟨rfl, rfl⟩
    | invalid hnone => exact absurd ⟨_, h⟩ (hnone r hr text hfits)
  | invalid hnone =>
    cases hy with
    | @rule r' text' _ hr' hfits' _ _ => exact absurd ⟨_, h.symm⟩ (hnone r' hr' text' hfits')
    | invalid _ =>
      obtain ⟨rfl, rfl⟩ := List.cons.inj h
      exact ⟨rfl, rfl⟩

variable {segment : Segment} {segments others : List Segment}

private theorem joined_cons (segment : Segment) (segments : List Segment) :
    joined (segment :: segments) = segment.text ++ joined segments := List.flatMap_cons

private theorem LongestMatches.head (h : LongestMatches (segment :: segments)) :
    LongestMatch segment (joined segments) := h [] segment segments rfl

private theorem LongestMatches.tail (h : LongestMatches (segment :: segments)) :
    LongestMatches segments := by
  rintro before other after rfl
  exact h (segment :: before) other after rfl

private theorem LongestMatches.joined_ne_nil (h : LongestMatches (segment :: segments)) :
    joined (segment :: segments) ≠ [] := by
  rw [joined_cons]
  exact List.append_ne_nil_of_left_ne_nil h.head.text_ne_nil _

/-- There is one way only to cut a text into longest matches. -/
theorem LongestMatches.unique (h : LongestMatches segments) (h' : LongestMatches others)
    (hjoined : joined segments = joined others) : segments = others := by
  induction segments generalizing others with
  | nil =>
    cases others with
    | nil => rfl
    | cons other others => exact absurd hjoined.symm h'.joined_ne_nil
  | cons segment segments ih =>
    cases others with
    | nil => exact absurd hjoined h.joined_ne_nil
    | cons other others =>
      rw [joined_cons, joined_cons] at hjoined
      obtain ⟨rfl, hrest⟩ := h.head.unique h'.head hjoined
      rw [ih h.tail h'.tail hrest]

/-- The tokens and faults of a text are those of its longest matches. -/
theorem LongestMatches.lexemes_eq {source : String} (h : LongestMatches segments)
    (hjoined : joined segments = source.toList) : lexemes source = placed 0 segments := by
  obtain ⟨found, hfound, hplaced, hmatches⟩ := exists_segments 0 source.toList
  rw [h.unique hmatches (hjoined.trans hfound.symm)]
  exact hplaced

private theorem placed_append (offset : Nat) (before after : List Segment) :
    placed offset (before ++ after) =
      placed offset before ++ placed (offset + utf8Length (joined before)) after := by
  induction before generalizing offset with
  | nil => rfl
  | cons segment before ih =>
    rw [List.cons_append, placed, placed, ih, joined_cons, utf8Length_append, Nat.add_assoc,
      List.append_assoc]

end Uniqueness

section Values

variable {w : List Char}

/-- The number that a numeral in base ten stands for, underscores left out. -/
def decimalValue (w : List Char) : Nat :=
  Nat.ofDigits 10 ((w.filter (· != '_')).reverse.map digitValue)

/-- All that stands in a whole number are digits and underscores. -/
theorem digitsValue_filter (hw : w ∈ Rule.whole.language) :
    digitsValue (w.filter Char.isDigit) = decimalValue w := by
  obtain ⟨c, run, rfl, hc, hrun⟩ := mem_whole.mp hw
  have hfilter : (c :: run).filter Char.isDigit = (c :: run).filter (· != '_') := by
    apply List.filter_congr
    intro d hd
    have hpart : isNumberPart d = true := by
      rcases List.mem_cons.mp hd with rfl | hd
      · exact Bool.or_eq_true_iff.mpr (.inl hc)
      · exact hrun d hd
    by_cases hunderscore : d = '_'
    · subst hunderscore
      rfl
    · have hdigit : d.isDigit = true := by simpa [isNumberPart, hunderscore] using hpart
      rw [hdigit, bne_iff_ne.mpr hunderscore]
  rw [hfilter, digitsValue_eq_ofDigits, decimalValue]

/-- A whole number in range is read as what it stands for. -/
theorem integerOutcome_of_le (hw : w ∈ Rule.whole.language) (hle : decimalValue w ≤ maxInteger) :
    ∃ v : Int32, v.toInt = decimalValue w ∧ integerOutcome w = .token (.integer v) := by
  refine ⟨Int32.ofNat (decimalValue w), toInt_ofNat hle, ?_⟩
  rw [integerOutcome, digitsValue_filter hw]
  exact if_pos hle

/-- A whole number out of range is a fault. -/
theorem integerOutcome_of_lt (hw : w ∈ Rule.whole.language) (hlt : maxInteger < decimalValue w) :
    integerOutcome w = .fault .tooBig := by
  rw [integerOutcome, digitsValue_filter hw]
  exact if_neg (Nat.not_le.mpr hlt)

/-- A longest match that has the form of a whole number is read as one. -/
theorem LongestMatch.outcome_of_whole {o : Outcome} {rest : List Char}
    (h : LongestMatch ⟨w, o⟩ rest) (hw : w ∈ Rule.whole.language) : o = integerOutcome w := by
  have hwhole : Rule.whole ∈ rules := by decide +kernel
  cases h with
  | @rule r _ _ hr hfits _ _ =>
    obtain ⟨c, run, rfl, hc, -⟩ := mem_whole.mp hw
    obtain ⟨d, cs, heq, hstart⟩ := exists_startsWith hr hfits
    obtain ⟨rfl, -⟩ := List.cons.inj heq
    rcases eq_whole_or_point hc hstart with rfl | rfl
    · rfl
    · exact absurd hfits (not_mem_point hw)
  | invalid hnone => exact absurd (List.prefix_append _ rest) (hnone _ hwhole _ hw)

/-- What a text holds where one of its longest matches has the form of a whole number. -/
theorem LongestMatches.lexemes_whole {source : String} {before after : List Segment} {o : Outcome}
    (h : LongestMatches (before ++ ⟨w, o⟩ :: after))
    (hjoined : joined (before ++ ⟨w, o⟩ :: after) = source.toList)
    (hw : w ∈ Rule.whole.language) :
    let start := utf8Length (joined before)
    let stop := start + utf8Length w
    ∃ item, lexemes source = placed 0 before ++ ⟨item, start, stop⟩ :: placed stop after ∧
      ((∃ v : Int32, v.toInt = decimalValue w ∧ item = .ok (.integer v)) ↔
        decimalValue w ≤ 2 ^ 31 - 1) ∧
      (item = .error .tooBig ↔ 2 ^ 31 - 1 < decimalValue w) := by
  intro start stop
  obtain rfl : o = integerOutcome w := (h before _ after rfl).outcome_of_whole hw
  rw [h.lexemes_eq hjoined, placed_append, Nat.zero_add, placed]
  rcases Nat.lt_or_ge maxInteger (decimalValue w) with hlt | hle
  · rw [integerOutcome_of_lt hw hlt]
    refine ⟨.error .tooBig, rfl, ⟨?_, fun hle => absurd hlt (Nat.not_lt.mpr hle)⟩,
      fun _ => hlt, fun _ => rfl⟩
    rintro ⟨v, -, hv⟩
    cases hv
  · obtain ⟨v, hv, houtcome⟩ := integerOutcome_of_le hw hle
    rw [houtcome]
    refine ⟨.ok (.integer v), rfl, ⟨fun _ => hle, fun _ => ⟨v, hv, rfl⟩⟩, nofun, fun hlt => ?_⟩
    exact absurd hlt (Nat.not_lt.mpr hle)

end Values

end Scan

end Datapack
