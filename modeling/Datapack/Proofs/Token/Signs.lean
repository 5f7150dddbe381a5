import Datapack.Proofs.Token.Patterns

/-!
# Where a piece of text starts

The first character of a piece of text decides which rules can fit it. Signs are
the only characters at which several fixed texts compete; there the scanner takes
the longest of them.
-/

namespace Datapack.Scan

section Kinds

/-- Kinds of characters that a piece of text may start with. -/
inductive FirstKind where
  | separator
  | letter
  | digit
  | quote
  | sign
  deriving DecidableEq

/-- The kind of a character. -/
def firstKind (c : Char) : FirstKind :=
  if isSeparator c then .separator
  else if isWordStart c then .letter
  else if c.isDigit then .digit
  else if c = Quoted.quoteMark then .quote
  else .sign

variable {c : Char}

/-- A separator is told from all others first. -/
theorem firstKind_separator (h : isSeparator c = true) : firstKind c = .separator := if_pos h

/-- A letter that begins a word is no separator. -/
theorem firstKind_letter (h : isWordStart c = true) : firstKind c = .letter := by
  rw [firstKind, not_isSeparator_of_isWordStart h, if_neg Bool.false_ne_true, if_pos h]

/-- A digit is neither a separator nor a letter. -/
theorem firstKind_digit (h : c.isDigit = true) : firstKind c = .digit := by
  obtain ⟨hseparator, hword⟩ := not_isWordStart_of_isDigit h
  rw [firstKind, hseparator, hword, if_neg Bool.false_ne_true, if_neg Bool.false_ne_true, if_pos h]

/-- The kinds of characters that texts of the rule start with. -/
def Rule.startsWith : Rule → FirstKind → Bool
  | .skip, k => k == .separator || k == .sign
  | .fixed .., k => k == .letter || k == .sign
  | .word, k => k == .letter
  | .closedText, k | .openText, k => k == .quote
  | .whole, k | .point, k => k == .digit

private theorem mem_rules {r : Rule} : r ∈ rules ↔
    (r = .skip ∨ r = .word ∨ r = .closedText ∨ r = .openText ∨ r = .whole ∨ r = .point) ∨
      ∃ entry ∈ fixedTexts, r = .fixed entry.1 entry.2 := by
  simp only [rules, List.mem_append, List.mem_cons, List.not_mem_nil, or_false, List.mem_map,
    eq_comm]

/-- The rules hold a rule for each fixed text. -/
theorem fixed_mem_rules {text : String} {token : Token} :
    .fixed text token ∈ rules ↔ (text, token) ∈ fixedTexts := by
  simp [mem_rules]

/-- Every text that a rule fits starts with a character of its kinds. -/
theorem exists_startsWith {r : Rule} (hr : r ∈ rules) {w : List Char} (hw : w ∈ r.language) :
    ∃ c cs, w = c :: cs ∧ r.startsWith (firstKind c) = true := by
  cases r with
  | skip =>
    rcases mem_skip.mp hw with ⟨c, cs, rfl, hc, -⟩ | ⟨cs, rfl, -⟩
    · exact ⟨c, cs, rfl, by rw [firstKind_separator hc]; rfl⟩
    · exact ⟨_, _, rfl, rfl⟩
  | fixed text token =>
    have hstart : ∀ entry ∈ fixedTexts, entry.1.toList.head?.any
        fun c => firstKind c == .letter || firstKind c == .sign := by decide +kernel
    obtain rfl : w = text.toList := hw
    have htext := hstart _ (fixed_mem_rules.mp hr)
    cases hlist : text.toList with
    | nil => simp [hlist] at htext
    | cons c cs => exact ⟨c, cs, rfl, by simpa [Rule.startsWith, hlist] using htext⟩
  | word =>
    obtain ⟨c, cs, rfl, hc, -⟩ := mem_word.mp hw
    exact ⟨c, cs, rfl, by rw [firstKind_letter hc]; rfl⟩
  | closedText =>
    obtain ⟨body, rfl, -⟩ := mem_closedText.mp hw
    exact ⟨_, _, rfl, rfl⟩
  | openText =>
    obtain ⟨body, rfl, -⟩ := mem_openText.mp hw
    exact ⟨_, _, rfl, rfl⟩
  | whole =>
    obtain ⟨c, cs, rfl, hc, -⟩ := mem_whole.mp hw
    exact ⟨c, cs, rfl, by rw [firstKind_digit hc]; rfl⟩
  | point =>
    obtain ⟨c, run, fraction, rfl, hc, -⟩ := mem_point.mp hw
    exact ⟨c, _, rfl, by rw [firstKind_digit hc]; rfl⟩

end Kinds

section Table

variable {c : Char}

/-- A text is fixed in one way only. -/
theorem fixedTexts_injective {a b : String × Token} (ha : a ∈ fixedTexts) (hb : b ∈ fixedTexts)
    (h : a.1 = b.1) : a = b := by
  have hall : ∀ a ∈ fixedTexts, ∀ b ∈ fixedTexts, a.1 = b.1 → a = b := by decide +kernel
  exact hall a ha b hb h

/-- The fixed texts that start like a word are the keywords, and are words. -/
theorem keyword_of_letter {entry : String × Token} {w : List Char} (hentry : entry ∈ fixedTexts)
    (hw : entry.1.toList = c :: w) (hc : isWordStart c = true) :
    entry ∈ keywords ∧ ∀ d ∈ w, isWordPart d = true := by
  have hall : ∀ entry ∈ fixedTexts, entry.1.toList.head?.any isWordStart = true →
      entry ∈ keywords ∧ entry.1.toList.tail.all isWordPart = true := by decide +kernel
  have h := hall entry hentry (by rw [hw]; exact hc)
  rw [hw] at h
  exact ⟨h.1, List.all_eq_true.mp h.2⟩

end Table

section Signs

variable {c : Char} {cs : List Char}

deriving instance DecidableEq for Outcome, Piece

/-- The longest fixed text that is a sign, or a sign with the next character behind it. -/
def longestFixed (c : Char) (next : Option Char) : Piece :=
  match next.bind fun d => fixedTexts.lookup (String.ofList [c, d]) with
  | some token => .ofToken 1 token
  | none =>
    match fixedTexts.lookup (String.ofList [c]) with
    | some token => .ofToken 0 token
    | none => .invalid

/-- A sign has its meaning together with one of these behind it, or alone. -/
def seconds : List Char := ['+', '-', '=']

/-- The signs that fixed texts start with. -/
def firsts : List Char :=
  ['\x7b', '\x7d', '(', ')', '[', ']', ',', '+', '-', '*', '/', '%', '=', '!', '<', '>']

/-- Fixed texts that begin with a sign have one or two signs. -/
theorem fixed_sign {entry : String × Token} {w : List Char} (hentry : entry ∈ fixedTexts)
    (hw : entry.1.toList = c :: w) (hc : firstKind c = .sign) :
    c ∈ firsts ∧ (w = [] ∨ ∃ d ∈ seconds, w = [d]) := by
  have hall : ∀ entry ∈ fixedTexts,
      (entry.1.toList.head?.all fun c => firstKind c != .sign) = true ∨
        (entry.1.toList.head?.all firsts.contains) = true ∧
          entry.1.toList.tail ∈ [] :: seconds.map fun d => [d] := by
    decide +kernel
  rcases hall entry hentry with h | ⟨hfirst, hrest⟩
  · rw [hw] at h
    simp [hc] at h
  · rw [hw] at hfirst hrest
    refine ⟨by simpa using hfirst, ?_⟩
    simpa [eq_comm] using hrest

/-- Each fixed text is listed once. -/
theorem lookup_eq_some {text : String} {token : Token} :
    fixedTexts.lookup text = some token ↔ (text, token) ∈ fixedTexts := by
  constructor
  · intro h
    obtain ⟨_, _, hsplit, -⟩ := List.lookup_eq_some_iff.mp h
    exact hsplit ▸ List.mem_append_right _ List.mem_cons_self
  · intro hmem
    cases h : fixedTexts.lookup text with
    | none =>
      have hne := List.lookup_eq_none_iff.mp h _ hmem
      simp at hne
    | some other =>
      obtain ⟨_, _, hsplit, -⟩ := List.lookup_eq_some_iff.mp h
      have hother : (text, other) ∈ fixedTexts :=
        hsplit ▸ List.mem_append_right _ List.mem_cons_self
      cases fixedTexts_injective hother hmem rfl
      rfl

/-- A sign is looked up among the signs of the table, and with one of three signs behind it. -/
theorem lookup_sign {w : List Char} {token : Token} (hc : firstKind c = .sign)
    (h : fixedTexts.lookup (String.ofList (c :: w)) = some token) :
    c ∈ firsts ∧ (w = [] ∨ ∃ d ∈ seconds, w = [d]) :=
  fixed_sign (lookup_eq_some.mp h) String.toList_ofList hc

private theorem piece_of_sign (hc : firstKind c = .sign) (cs : List Char) :
    piece c cs = if c = '/' then slashPiece cs else signPiece c cs := by
  unfold firstKind at hc
  unfold piece
  split at hc
  · cases hc
  split at hc
  · cases hc
  split at hc
  · cases hc
  split at hc
  · cases hc
  simp only [*, if_false, Bool.false_eq_true]

/-- Nothing but the three signs changes the meaning of a sign in front of it, comments apart. -/
theorem piece_sign_of_other {d : Char} (hc : firstKind c = .sign) (hd : d ∉ seconds)
    (hcomment : ¬ (c = '/' ∧ d = '/')) (cs : List Char) : piece c (d :: cs) = piece c [] := by
  obtain ⟨hplus, hminus, hequals⟩ : d ≠ '+' ∧ d ≠ '-' ∧ d ≠ '=' := by simpa [seconds] using hd
  rw [piece_of_sign hc, piece_of_sign hc]
  by_cases hslash : c = '/'
  · have hd : d ≠ '/' := fun h => hcomment ⟨hslash, h⟩
    rw [if_pos hslash, if_pos hslash, slashPiece_of_other, slashPiece]
    · exact nofun
    · exact nofun
    · simpa using hd
    · simpa using hequals
  · rw [if_neg hslash, if_neg hslash]
    unfold signPiece
    split <;> simp only [either, hplus, hminus, hequals, if_false]

private theorem piece_sign_of_second {d : Char} (hc : firstKind c = .sign) (hd : d ∈ seconds)
    (cs : List Char) : piece c (d :: cs) = piece c [d] := by
  rw [piece_of_sign hc, piece_of_sign hc]
  by_cases hslash : c = '/'
  · rw [if_pos hslash, if_pos hslash]
    have hd : d = '+' ∨ d = '-' ∨ d = '=' := by simpa [seconds] using hd
    rcases hd with rfl | rfl | rfl <;> rfl
  · rw [if_neg hslash, if_neg hslash]
    rfl

private theorem longestFixed_of_other {d : Char} (hc : firstKind c = .sign) (hd : d ∉ seconds) :
    longestFixed c (some d) = longestFixed c none := by
  have hnone : fixedTexts.lookup (String.ofList [c, d]) = none := by
    by_contra h
    obtain ⟨token, htoken⟩ := Option.ne_none_iff_exists'.mp h
    obtain ⟨-, h | ⟨_, hmem, heq⟩⟩ := lookup_sign hc htoken
    · cases h
    · cases heq
      exact hd hmem
  simp only [longestFixed, Option.bind_some, Option.bind_none, hnone]

private theorem longestFixed_of_not_first (hc : firstKind c = .sign) (hfirst : c ∉ firsts)
    (next : Option Char) : longestFixed c next = .invalid := by
  have hnone : ∀ w, fixedTexts.lookup (String.ofList (c :: w)) = none := by
    intro w
    by_contra h
    obtain ⟨token, htoken⟩ := Option.ne_none_iff_exists'.mp h
    exact hfirst (lookup_sign hc htoken).1
  cases next <;> simp only [longestFixed, Option.bind_some, Option.bind_none, hnone]

private theorem piece_of_not_first (hc : firstKind c = .sign) (hfirst : c ∉ firsts)
    (cs : List Char) :
    piece c cs = .invalid := by
  have hslash : c ≠ '/' := fun h => hfirst (h ▸ by decide)
  rw [piece_of_sign hc, if_neg hslash]
  unfold signPiece
  split
  case h_16 => rfl
  all_goals exact absurd (by decide) hfirst

/-- Where no comment starts, a sign is the longest fixed text. -/
theorem piece_sign (hc : firstKind c = .sign) (hcomment : ¬ (c = '/' ∧ cs.head? = some '/')) :
    piece c cs = longestFixed c cs.head? := by
  by_cases hfirst : c ∈ firsts
  · have hall : (firsts.all fun c => (none :: seconds.map some).all fun next =>
        piece c next.toList == longestFixed c next) = true := by decide +kernel
    have htable : ∀ next ∈ none :: seconds.map some,
        piece c next.toList = longestFixed c next := by
      intro next hnext
      exact eq_of_beq (List.all_eq_true.mp (List.all_eq_true.mp hall c hfirst) next hnext)
    cases cs with
    | nil => exact htable none List.mem_cons_self
    | cons d cs =>
      by_cases hd : d ∈ seconds
      · rw [piece_sign_of_second hc hd]
        exact htable (some d) (List.mem_cons_of_mem _ (List.mem_map_of_mem hd))
      · have hcomment : ¬ (c = '/' ∧ d = '/') := by simpa using hcomment
        rw [piece_sign_of_other hc hd hcomment, List.head?_cons, longestFixed_of_other hc hd]
        exact htable none List.mem_cons_self
  · rw [piece_of_not_first hc hfirst, longestFixed_of_not_first hc hfirst]

end Signs

end Datapack.Scan
