import Mathlib.Data.List.Induction
import Mathlib.Data.List.Shortlex
import Datapack.Naming.ShortNames
import Datapack.Proofs.Naming.Numbering

/-!
# The order of short names

Every word over `a` to `z` is the name of exactly one number. A greater number has a
longer name, or one of the same length that comes later in the alphabet, so names
never get shorter as they are handed out.
-/

namespace Datapack.Letters

/-- A letter is found again from its place. -/
theorem letter_of_isLower {c : Char} (h : c.isLower = true) :
    c.toNat - 'a'.toNat < base ∧ letter (c.toNat - 'a'.toNat) = c := by
  have hrange : 97 ≤ c.toNat ∧ c.toNat ≤ 122 := by
    unfold Char.isLower at h
    simpa [UInt32.le_iff_toNat_le, ← Char.toNat_val] using h
  have ha : 'a'.toNat = 97 := rfl
  constructor
  · simp only [base]
    omega
  · rw [letter, Nat.add_sub_cancel' (by omega), Char.ofNat_toNat]

/-- The number of a word has that word. -/
theorem word_number {w : List Char} (h : ∀ c ∈ w, c.isLower = true) : word (number w) = w := by
  induction w using List.reverseRecOn with
  | nil => exact word_zero
  | append_singleton w c ih =>
    obtain ⟨hw, hc⟩ := List.forall_mem_append.mp h
    obtain ⟨hlt, hletter⟩ := letter_of_isLower (hc c (List.mem_singleton_self c))
    have hbase : 0 < base := by decide
    rw [number_append_singleton, ← Nat.add_assoc, word_succ, Nat.mul_add_div hbase,
      Nat.div_eq_of_lt hlt, Nat.add_zero, ih hw, Nat.mul_add_mod, Nat.mod_eq_of_lt hlt, hletter]

/-- Letters stand in the order of their places. -/
theorem letter_lt_letter {d e : Nat} (h : d < e) (he : e < base) : letter d < letter e := by
  have hall : ∀ e < base, ∀ d < e, letter d < letter e := by decide
  exact hall e he d h

/-- The first place at which two words differ decides, whatever letters are appended to both. -/
theorem shortlex_append_singleton {r : Char → Char → Prop} {v w : List Char}
    (h : List.Shortlex r v w) (c d : Char) : List.Shortlex r (v ++ [c]) (w ++ [d]) := by
  rcases List.shortlex_def.mp h with hlt | ⟨heq, hlex⟩
  · apply List.Shortlex.of_length_lt
    simpa using hlt
  · apply List.Shortlex.of_lex (by simpa using heq)
    clear h
    induction hlex with
    | nil => simp at heq
    | rel hr => exact .rel hr
    | cons _ ih => exact .cons (ih (by simpa using heq))

/-- The words of greater numbers come later, shorter words before longer ones. -/
theorem shortlex_word {m n : Nat} (h : m < n) : List.Shortlex (· < ·) (word m) (word n) := by
  induction n using Nat.strongRecOn generalizing m with
  | ind n ih =>
    cases n with
    | zero => omega
    | succ n =>
      rw [word_succ n]
      cases m with
      | zero =>
        apply List.Shortlex.of_length_lt
        simp [word_zero]
      | succ m =>
        have hle : m / base ≤ n / base := Nat.div_le_div_right (by omega)
        rw [word_succ m]
        -- what stands in front of the last letter decides, unless it is the same for both
        by_cases heq : m / base = n / base
        · have hm := Nat.div_add_mod m base
          have hn := Nat.div_add_mod n base
          have hlt : m % base < n % base := by
            rw [heq] at hm
            omega
          rw [heq]
          apply List.Shortlex.append_left
          rw [List.shortlex_singleton_iff]
          exact letter_lt_letter hlt (Nat.mod_lt n (by decide))
        · apply shortlex_append_singleton
          have hdiv : n / base ≤ n := Nat.div_le_self n base
          exact ih (n / base) (by omega) (by omega)

/-- A word of at least one letter has a positive number. -/
theorem number_pos {text : String} (h : IsWord text) : 0 < number text.toList := by
  obtain ⟨hne, hlower⟩ := h
  apply Nat.pos_of_ne_zero
  intro hzero
  have hword := word_number hlower
  rw [hzero, word_zero] at hword
  exact hne (String.toList_eq_nil_iff.mp hword.symm)

/--
Short names are the words over `a` to `z`, numbered from one without gap or repetition
in the order of their length, and by the alphabet among words of one length. So of two
names handed out by a supply the later one is another name, and not a shorter one.
-/
theorem name_bijective_shortlex :
    (∀ n, 0 < n → IsWord (name n) ∧ number (name n).toList = n) ∧
      (∀ text, IsWord text → 0 < number text.toList ∧ name (number text.toList) = text) ∧
      (∀ m n, m < n → List.Shortlex (· < ·) (name m).toList (name n).toList) ∧
      ∀ s t : Supply, s.issued < t.issued →
        s.next.1 ≠ t.next.1 ∧ s.next.1.length ≤ t.next.1.length := by
  have hlist : ∀ n, (name n).toList = word n := fun n => String.toList_ofList
  refine ⟨?_, ?_, ?_, ?_⟩
  · intro n hn
    refine ⟨isWord_name hn, ?_⟩
    rw [hlist, number_word]
  · intro text htext
    refine ⟨number_pos htext, ?_⟩
    rw [name, word_number htext.2, String.ofList_toList]
  · intro m n h
    rw [hlist, hlist]
    exact shortlex_word h
  · intro s t h
    constructor
    · intro heq
      have := name_injective heq
      omega
    · have hshort := shortlex_word (Nat.succ_lt_succ h)
      rw [← hlist, ← hlist, List.shortlex_def, String.length_toList, String.length_toList] at hshort
      rcases hshort with hlt | ⟨heq, -⟩
      · exact Nat.le_of_lt hlt
      · exact Nat.le_of_eq heq

/-- The largest number of 64 bits, the last word of two letters, and the step to words of three. -/
theorem name_bijective_shortlex_powers :
    (0 < 18446744073709551615 ∧
      number (name 18446744073709551615).toList = 18446744073709551615) ∧
      (IsWord "zz" ∧ name (number "zz".toList) = "zz") ∧
      (702 < 703 ∧ List.Shortlex (· < ·) (name 702).toList (name 703).toList) ∧
      Supply.issued ⟨701⟩ < Supply.issued ⟨702⟩ ∧ (Supply.next ⟨701⟩).1 = "zz" ∧
        (Supply.next ⟨701⟩).1.length ≤ (Supply.next ⟨702⟩).1.length := by
  obtain ⟨hnumber, hname, horder, hsupply⟩ := name_bijective_shortlex
  have hword : IsWord "zz" := by decide
  exact ⟨⟨by decide, (hnumber _ (by decide)).2⟩, ⟨hword, (hname _ hword).2⟩,
    ⟨by decide, horder 702 703 (by decide)⟩, by decide, by decide +kernel,
    (hsupply ⟨701⟩ ⟨702⟩ (by decide)).2⟩

end Datapack.Letters
