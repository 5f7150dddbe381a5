import Datapack.Token.Scan
import Datapack.Token.Source
import Mathlib.Data.List.TakeWhile
import Mathlib.Data.Nat.Digits.Defs

/-!
# Tokens read back

A token is writable if some text is read as it. Every writable token has a source
form, and in front of a separator, or at the end of the text, the source form is
read as that token and no further. Conversely a text holds no tokens but writable
ones and numbers with a point.
-/

namespace Datapack

/-- The decimal digits of a number have the number as their value. -/
theorem digitsValue_toDigits (n : Nat) : digitsValue (Nat.toDigits 10 n) = n := by
  induction n using Nat.strong_induction_on with
  | _ n ih =>
    by_cases hn : n < 10
    · rw [Nat.toDigits_of_lt_base hn]
      simp [digitsValue, digitValue, Nat.toNat_digitChar_of_lt_ten hn]
    · have hdigit := Nat.toNat_digitChar_of_lt_ten (Nat.mod_lt n (by decide : 10 > 0))
      rw [Nat.toDigits_of_base_le (by decide) (by omega), digitsValue_append_singleton,
        ih (n / 10) (by omega), digitValue, hdigit]
      simp only [Char.reduceToNat]
      omega

namespace Quoted

/-- An escaped content is read back, up to the quote behind it. -/
theorem read_escape (content rest : List Char) :
    read (escape content ++ quoteMark :: rest) =
      ⟨(escape content).length + 1, some content⟩ := by
  induction content with
  | nil => exact read_quoteMark rest
  | cons c content ih =>
    by_cases hc : c = quoteMark ∨ c = escapeMark
    · have hnewline : c ≠ '\n' := by rcases hc with rfl | rfl <;> decide
      have hself : unescape c = c := by rcases hc with rfl | rfl <;> decide
      rw [escape, if_pos hc, List.cons_append, List.cons_append, read_escapeMark hnewline, ih,
        hself]
      rfl
    · obtain ⟨hquote, hescape⟩ := not_or.mp hc
      rw [escape, if_neg hc, List.cons_append, read_plain hquote hescape, ih]
      rfl

end Quoted

namespace Scan

/-- Whether the name is an identifier: it has the form of a word and is no keyword. -/
def isIdentifier (name : String) : Bool :=
  match name.toList with
  | [] => false
  | c :: cs => isWordStart c && cs.all isWordPart && (keywords.lookup name).isNone

end Scan

/-- Tokens that some text without a decimal point is read as. -/
def Token.isWritable : Token → Bool
  | .identifier name => Scan.isIdentifier name
  | .integer value => decide (0 ≤ value)
  | .float _ => false
  | .operation o => o != .set
  | _ => true

/-- The bytes that lie `k` bytes further on. -/
def Span.shift (k : Nat) (s : Span) : Span := ⟨s.start + k, s.stop + k⟩

/-- The same token or fault, `k` bytes further on. -/
def Lexeme.shift (k : Nat) (l : Lexeme) : Lexeme := ⟨l.item, l.span.shift k⟩

namespace Scan

section Front

variable {rest : List Char}

private theorem eq_of_isSeparator {c : Char} (h : isSeparator c = true) :
    c = ' ' ∨ c = '\t' ∨ c = '\r' ∨ c = '\n' ∨ c = '\x0c' := by
  simpa [isSeparator, or_assoc] using h

/-- A run of characters that no separator belongs to ends in front of one. -/
theorem takeWhile_run {p : Char → Bool} {run : List Char} (hrun : ∀ c ∈ run, p c = true)
    (hrest : rest.head?.all isSeparator = true) (hp : ∀ c, isSeparator c = true → p c = false) :
    (run ++ rest).takeWhile p = run ∧ (run ++ rest).dropWhile p = rest := by
  rw [List.takeWhile_append_of_pos hrun, List.dropWhile_append_of_pos hrun]
  cases rest with
  | nil => simp
  | cons c rest => simp [hp c hrest]

private theorem either_of_separator {second : Char} {long short : Piece}
    (hrest : rest.head?.all isSeparator = true) (hsecond : isSeparator second = false) :
    either second long short rest = short := by
  cases rest with
  | nil => rfl
  | cons c rest =>
    refine if_neg ?_
    rintro rfl
    exact absurd hrest (by simp [hsecond])

/-- No letter that begins a word is a separator. -/
theorem not_isSeparator_of_isWordStart {c : Char} (h : isWordStart c = true) :
    isSeparator c = false := by
  refine Bool.eq_false_iff.mpr fun hc => ?_
  rcases eq_of_isSeparator hc with rfl | rfl | rfl | rfl | rfl <;> cases h

private theorem isIdentifier_iff {name : String} :
    isIdentifier name = true ↔ ∃ c run, name.toList = c :: run ∧ isWordStart c = true ∧
      (∀ d ∈ run, isWordPart d = true) ∧ keywords.lookup name = none := by
  unfold isIdentifier
  cases name.toList with
  | nil => simp
  | cons c run => simp [and_assoc]

/-- Numbers up to the largest integer are kept exactly. -/
theorem toInt_ofNat {n : Nat} (h : n ≤ maxInteger) : (Int32.ofNat n).toInt = n :=
  Int32.toInt_ofNat_of_lt (Nat.lt_succ_of_le h)

/-- A number that is not negative, as a natural number. -/
theorem exists_natural {value : Int32} (h : 0 ≤ value) :
    ∃ n, n ≤ maxInteger ∧ value = Int32.ofNat n :=
  ⟨value.toNatClampNeg, Nat.le_of_lt_succ (Int32.toNatClampNeg_lt value),
    (Int32.ofNat_toNatClampNeg value h).symm⟩

private theorem piece_word {c : Char} {run : List Char} (hc : isWordStart c = true)
    (hrun : ∀ d ∈ run, isWordPart d = true) (hrest : rest.head?.all isSeparator = true) :
    piece c (run ++ rest) = .ofToken run.length (wordToken (c :: run)) := by
  have hpart : ∀ d, isSeparator d = true → isWordPart d = false := by
    intro d hd
    rcases eq_of_isSeparator hd with rfl | rfl | rfl | rfl | rfl <;> rfl
  simp [piece, not_isSeparator_of_isWordStart hc, hc, (takeWhile_run hrun hrest hpart).1]

/-- A digit starts no word and separates nothing. -/
theorem not_isWordStart_of_isDigit {c : Char} (h : c.isDigit = true) :
    isSeparator c = false ∧ isWordStart c = false := by
  constructor
  · refine Bool.eq_false_iff.mpr fun hc => ?_
    rcases eq_of_isSeparator hc with rfl | rfl | rfl | rfl | rfl <;> cases h
  · refine Bool.eq_false_iff.mpr fun hc => ?_
    unfold isWordStart Char.isAlpha Char.isUpper Char.isLower at hc
    simp only [Char.isDigit, Bool.or_eq_true, Bool.and_eq_true, decide_eq_true_eq, beq_iff_eq,
      ge_iff_le, UInt32.le_iff_toNat_le, UInt32.reduceToNat, Char.reduceVal] at h hc
    rcases hc with (hc | hc) | rfl
    · omega
    · omega
    · exact absurd h (by decide)

private theorem piece_digits {c : Char} {run : List Char} (hc : c.isDigit = true)
    (hrun : ∀ d ∈ run, d.isDigit = true) (hrest : rest.head?.all isSeparator = true)
    (hvalue : digitsValue (c :: run) ≤ maxInteger) :
    piece c (run ++ rest) =
      .ofToken run.length (.integer (Int32.ofNat (digitsValue (c :: run)))) := by
  obtain ⟨hsep, hword⟩ := not_isWordStart_of_isDigit hc
  have hpart : ∀ d, isSeparator d = true → isNumberPart d = false := by
    intro d hd
    rcases eq_of_isSeparator hd with rfl | rfl | rfl | rfl | rfl <;> rfl
  have hnumber : ∀ d ∈ run, isNumberPart d = true := fun d hd => by simp [isNumberPart, hrun d hd]
  obtain ⟨htake, hdrop⟩ := takeWhile_run hnumber hrest hpart
  have hfilter : (c :: run).filter Char.isDigit = c :: run := by
    simpa [hc] using hrun
  have houtcome : integerOutcome (c :: run) =
      .token (.integer (Int32.ofNat (digitsValue (c :: run)))) := by
    rw [integerOutcome, hfilter]
    exact if_pos hvalue
  have hpiece : piece c (run ++ rest) = numberPiece c (run ++ rest) := by
    simp [piece, hsep, hword, hc]
  rw [hpiece, numberPiece, htake, hdrop]
  split
  · cases hrest
  · rw [houtcome]
    rfl

private theorem piece_quoted (content : List Char) :
    piece Quoted.quoteMark (Quoted.escape content ++ Quoted.quoteMark :: rest) =
      .ofToken ((Quoted.escape content).length + 1) (.text (String.ofList content)) := by
  have hpiece : ∀ cs, piece Quoted.quoteMark cs = quotedPiece cs := fun _ => rfl
  rw [hpiece, quotedPiece, Quoted.read_escape]

/-- In front of a separator a writable token is read from its source form, and no further. -/
theorem piece_source {t : Token} (ht : t.isWritable = true)
    (hrest : rest.head?.all isSeparator = true) :
    ∃ c cs, t.source = c :: cs ∧ piece c (cs ++ rest) = .ofToken cs.length t := by
  have either_rest : ∀ {second long short}, isSeparator second = false →
      either second long short rest = short := either_of_separator hrest
  cases t with
  | leftBrace | rightBrace | leftParen | rightParen | leftBracket | rightBracket | comma
  | increment | decrement => exact ⟨_, _, rfl, rfl⟩
  | createWord | ifWord | asWord | notWord =>
    exact ⟨_, _, rfl, piece_word rfl (List.all_eq_true.mp rfl) hrest⟩
  | text content =>
    refine ⟨_, _, rfl, ?_⟩
    rw [List.append_assoc, List.singleton_append, piece_quoted, String.ofList_toList,
      List.length_append, List.length_singleton]
  | identifier name =>
    have hname : isIdentifier name = true := ht
    obtain ⟨c, run, hlist, hc, hrun, hkeyword⟩ := isIdentifier_iff.mp hname
    have hword : wordToken (c :: run) = .identifier name := by
      rw [wordToken, ← hlist, String.ofList_toList, hkeyword]
      rfl
    refine ⟨c, run, hlist, ?_⟩
    rw [piece_word hc hrun hrest, hword]
  | integer value =>
    obtain ⟨n, hn, rfl⟩ := exists_natural (of_decide_eq_true ht)
    have hne : Nat.toDigits 10 n ≠ [] := Nat.toDigits_ne_nil
    obtain ⟨c, run, hdigits⟩ := List.exists_cons_of_ne_nil hne
    have hdigit : ∀ d ∈ c :: run, d.isDigit = true := by
      intro d hd
      rw [← hdigits] at hd
      exact Nat.isDigit_of_mem_toDigits (by decide) (by decide) hd
    have hvalue : digitsValue (c :: run) = n := by rw [← hdigits, digitsValue_toDigits]
    obtain ⟨hc, hrun⟩ := List.forall_mem_cons.mp hdigit
    refine ⟨c, run, ?_, ?_⟩
    · have hsource : (Token.integer (Int32.ofNat n)).source = (signedDecimal n).toList := by
        rw [← toInt_ofNat hn]
        rfl
      rw [hsource, ← hdigits]
      exact String.toList_ofList
    · rw [piece_digits hc hrun hrest (hvalue ▸ hn), hvalue]
  | float value => cases ht
  | operation o =>
    cases o with
    | add => exact ⟨_, [], rfl, (either_rest rfl).trans (either_rest rfl)⟩
    | sub => exact ⟨_, [], rfl, (either_rest rfl).trans (either_rest rfl)⟩
    | set => cases ht
    | mod => exact ⟨_, [], rfl, either_rest rfl⟩
    | mul => exact ⟨_, [], rfl, either_rest rfl⟩
    | div =>
      refine ⟨'/', [], rfl, ?_⟩
      have hpiece : piece '/' rest = slashPiece rest := rfl
      rw [List.nil_append, hpiece]
      unfold slashPiece
      split
      · cases hrest
      · cases hrest
      · rfl
  | assignment o =>
    cases o with
    | set => exact ⟨_, [], rfl, either_rest rfl⟩
    | _ => exact ⟨_, _, rfl, rfl⟩
  | comparison c =>
    cases c with
    | gt => exact ⟨_, [], rfl, either_rest rfl⟩
    | lt => exact ⟨_, [], rfl, either_rest rfl⟩
    | _ => exact ⟨_, _, rfl, rfl⟩

end Front

section Rows

/-- A text that starts further on has all its tokens and faults further on, and no others. -/
theorem lexemesFrom_add (offset k : Nat) (cs : List Char) :
    lexemesFrom (offset + k) cs = (lexemesFrom offset cs).map (Lexeme.shift k) := by
  fun_induction lexemesFrom offset cs with
  | case1 => simp [lexemesFrom]
  | case2 offset c cs p stop houtcome ih =>
    rw [lexemesFrom]
    simp only [show (piece c cs).outcome = .skipped from houtcome]
    rw [← ih, Nat.add_right_comm]
  | case3 offset c cs p stop t houtcome ih =>
    rw [lexemesFrom]
    simp only [show (piece c cs).outcome = .token t from houtcome, List.map_cons]
    rw [← ih, Nat.add_right_comm]
    rfl
  | case4 offset c cs p stop f houtcome ih =>
    rw [lexemesFrom]
    simp only [show (piece c cs).outcome = .fault f from houtcome, List.map_cons]
    rw [← ih, Nat.add_right_comm]
    rfl

/-- What is read does not depend on the offset at which the text starts. -/
theorem map_item_lexemesFrom (offset offset' : Nat) (cs : List Char) :
    (lexemesFrom offset cs).map Lexeme.item = (lexemesFrom offset' cs).map Lexeme.item := by
  have hstart : ∀ k, (lexemesFrom k cs).map Lexeme.item = (lexemesFrom 0 cs).map Lexeme.item := by
    intro k
    rw [← Nat.zero_add k, lexemesFrom_add, List.map_map]
    rfl
  rw [hstart offset, hstart offset']

/-- The source form of a writable token is read as that token. -/
theorem map_item_source {t : Token} {rest : List Char} (ht : t.isWritable = true)
    (hrest : rest.head?.all isSeparator = true) (offset : Nat) :
    (lexemesFrom offset (t.source ++ rest)).map Lexeme.item =
      .ok t :: (lexemesFrom offset rest).map Lexeme.item := by
  obtain ⟨c, cs, hsource, hpiece⟩ := piece_source ht hrest
  rw [hsource, List.cons_append, lexemesFrom, hpiece]
  simp only [Piece.ofToken, List.map_cons, List.drop_left]
  rw [map_item_lexemesFrom]

end Rows

section Converse

private theorem isWritable_wordToken {c : Char} {run : List Char} (hc : isWordStart c = true)
    (hrun : ∀ d ∈ run, isWordPart d = true) : (wordToken (c :: run)).isWritable = true := by
  have hkeywords : ∀ k ∈ keywords, k.2.isWritable = true := by decide
  unfold wordToken
  cases hkeyword : keywords.lookup (String.ofList (c :: run)) with
  | none => exact isIdentifier_iff.mpr ⟨c, run, String.toList_ofList, hc, hrun, hkeyword⟩
  | some t =>
    obtain ⟨_, _, hsplit, -⟩ := List.lookup_eq_some_iff.mp hkeyword
    exact hkeywords (_, t) (hsplit ▸ List.mem_append_right _ List.mem_cons_self)

/-- Outcomes other than a token that cannot be written back. -/
def Outcome.isWritable : Outcome → Bool
  | .token t => t.isWritable
  | _ => true

private theorem isWritable_integerOutcome (run : List Char) :
    (integerOutcome run).isWritable = true := by
  unfold integerOutcome
  dsimp only
  split
  case isTrue hvalue =>
    refine decide_eq_true (Int32.le_iff_toInt_le.mpr ?_)
    rw [toInt_ofNat hvalue]
    exact Int.natCast_nonneg _
  case isFalse => rfl

private theorem isWritable_quotedPiece (cs : List Char) :
    (quotedPiece cs).outcome.isWritable = true := by
  unfold quotedPiece
  dsimp only
  split <;> rfl

private theorem isWritable_slashPiece (cs : List Char) :
    (slashPiece cs).outcome.isWritable = true := by
  unfold slashPiece
  split <;> rfl

private theorem isWritable_either {second : Char} {long short : Piece}
    (hlong : long.outcome.isWritable = true) (hshort : short.outcome.isWritable = true)
    (cs : List Char) : (either second long short cs).outcome.isWritable = true := by
  unfold either
  split
  · split
    · exact hlong
    · exact hshort
  · exact hshort

private theorem isWritable_signPiece (c : Char) (cs : List Char) :
    (signPiece c cs).outcome.isWritable = true := by
  unfold signPiece
  split
  case h_8 | h_9 => exact isWritable_either rfl (isWritable_either rfl rfl cs) cs
  case h_10 | h_11 | h_12 | h_13 | h_14 | h_15 => exact isWritable_either rfl rfl cs
  all_goals rfl

/-- A piece of text is no token but a writable one or a number with a point. -/
theorem isWritable_of_piece {c : Char} {cs : List Char} {t : Token}
    (h : (piece c cs).outcome = .token t) : t.isWritable = true ∨ ∃ value, t = .float value := by
  have of_outcome : ∀ {o : Outcome}, o.isWritable = true → o = .token t →
      t.isWritable = true := by
    rintro o ho rfl
    exact ho
  unfold piece at h
  split at h
  · cases h
  split at h
  case isTrue hc =>
    cases h
    exact .inl (isWritable_wordToken hc fun d hd => List.mem_takeWhile_imp hd)
  split at h
  · unfold numberPiece at h
    dsimp only at h
    split at h
    · cases h
      exact .inr ⟨_, rfl⟩
    · exact .inl (of_outcome (isWritable_integerOutcome _) h)
  split at h
  · exact .inl (of_outcome (isWritable_quotedPiece cs) h)
  split at h
  · exact .inl (of_outcome (isWritable_slashPiece cs) h)
  · exact .inl (of_outcome (isWritable_signPiece c cs) h)

/-- Tokens that are scanned can be written, numbers with a fraction apart. -/
theorem isWritable_of_mem {offset : Nat} {cs : List Char} {t : Token}
    (h : .ok t ∈ (lexemesFrom offset cs).map Lexeme.item) :
    t.isWritable = true ∨ ∃ value, t = .float value := by
  fun_induction lexemesFrom offset cs with
  | case1 => cases h
  | case2 offset c cs p stop houtcome ih => exact ih h
  | case3 offset c cs p stop u houtcome ih =>
    rcases List.mem_cons.mp h with hu | hmem
    · cases hu
      exact isWritable_of_piece houtcome
    · exact ih hmem
  | case4 offset c cs p stop f houtcome ih =>
    rcases List.mem_cons.mp h with hf | hmem
    · cases hf
    · exact ih hmem

end Converse

end Scan

end Datapack
