import Datapack.Naming.ShortNames

/-!
# Numbers of short names

Reading the word of a number gives the number back, so names handed out under
different numbers are different.
-/

namespace Datapack.Letters

/-- The code of a letter gives back its place. -/
theorem toNat_letter {d : Nat} (h : d < base) : (letter d).toNat = 'a'.toNat + d := by
  have hd : 'a'.toNat + d < 0xd800 := by
    simp only [base] at h
    have ha : 'a'.toNat = 97 := rfl
    omega
  rw [letter, Char.ofNat, dif_pos (Or.inl hd)]
  rfl

/-- The word of a number has that number. -/
theorem number_word (n : Nat) : number (word n) = n := by
  induction n using Nat.strongRecOn with
  | ind n ih =>
    cases n with
    | zero => rw [word_zero]; rfl
    | succ m =>
      have hlt : m / base < m + 1 := Nat.lt_succ_of_le (Nat.div_le_self m base)
      have hd : m % base < base := Nat.mod_lt m (by decide)
      rw [word_succ, number_append_singleton, ih _ hlt, toNat_letter hd]
      have hsplit := Nat.div_add_mod m base
      omega

/-- Names with different numbers are different. -/
theorem name_injective {m n : Nat} (h : name m = name n) : m = n := by
  have hword : word m = word n := String.ofList_injective h
  rw [← number_word m, hword, number_word]

/-- Whether the text is a word over `a` to `z`, as all short names are. -/
def IsWord (text : String) : Prop := text ≠ "" ∧ ∀ c ∈ text.toList, c.isLower = true

instance (text : String) : Decidable (IsWord text) :=
  decidable_of_iff (text ≠ "" ∧ text.toList.all Char.isLower = true)
    (by rw [IsWord, List.all_eq_true])

private theorem isLower_letter {d : Nat} (h : d < base) : (letter d).isLower = true := by
  have hall : ∀ d < base, (letter d).isLower = true := by decide
  exact hall d h

/-- Words hold nothing but letters. -/
theorem isLower_of_mem_word {n : Nat} {c : Char} (h : c ∈ word n) : c.isLower = true := by
  induction n using Nat.strongRecOn with
  | ind n ih =>
    cases n with
    | zero =>
      rw [word_zero] at h
      cases h
    | succ m =>
      have hlt : m / base < m + 1 := Nat.lt_succ_of_le (Nat.div_le_self m base)
      rw [word_succ, List.mem_append, List.mem_singleton] at h
      rcases h with h | rfl
      · exact ih _ hlt h
      · exact isLower_letter (Nat.mod_lt m (by decide))

/-- Every name is a word. -/
theorem isWord_name {n : Nat} (h : 0 < n) : IsWord (name n) := by
  constructor
  · intro hempty
    have hzero : name n = name 0 := by
      rw [hempty, name, word_zero]
    have := name_injective hzero
    omega
  · intro c hc
    rw [name, String.toList_ofList] at hc
    exact isLower_of_mem_word hc

end Datapack.Letters
