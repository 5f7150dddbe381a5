import Datapack.Proofs.Token.Writing

/-!
# Cutting a text into pieces

A text is cut into pieces from its front, each of them followed by what is cut
from the rest, and nothing is lost. Tokens and faults are the pieces that are not
skipped, at the places where they stand.
-/

namespace Datapack.Scan

/-- What a piece at the given place adds to the tokens and faults of a text. -/
def Outcome.lexemes (span : Span) : Outcome → List Lexeme
  | .skipped => []
  | .token t => [⟨.ok t, span⟩]
  | .fault f => [⟨.error f, span⟩]

@[simp] theorem lexemesFrom_nil (offset : Nat) : lexemesFrom offset [] = [] := by
  rw [lexemesFrom]

/-- The first piece of a text, and what is read behind it. -/
theorem lexemesFrom_cons (offset : Nat) (c : Char) (cs : List Char) :
    let stop := offset + utf8Length (c :: cs.take (piece c cs).extra)
    lexemesFrom offset (c :: cs) = (piece c cs).outcome.lexemes ⟨offset, stop⟩ ++
      lexemesFrom stop (cs.drop (piece c cs).extra) := by
  rw [lexemesFrom]
  cases (piece c cs).outcome <;> rfl

section Forms

variable {c : Char} {cs rest : List Char}

/-- A separator is skipped with those behind it. -/
theorem piece_of_separator (h : isSeparator c = true) :
    piece c cs = ⟨(cs.takeWhile isSeparator).length, .skipped⟩ :=
  if_pos h

/-- A word reaches as far as its letters do. -/
theorem piece_of_wordStart (h : isWordStart c = true) :
    piece c cs =
      .ofToken (cs.takeWhile isWordPart).length (wordToken (c :: cs.takeWhile isWordPart)) := by
  rw [piece, not_isSeparator_of_isWordStart h, if_neg Bool.false_ne_true, if_pos h]

/-- A digit begins a number. -/
theorem piece_of_digit (h : c.isDigit = true) : piece c cs = numberPiece c cs := by
  obtain ⟨hseparator, hword⟩ := not_isWordStart_of_isDigit h
  rw [piece, hseparator, hword, if_neg Bool.false_ne_true, if_neg Bool.false_ne_true, if_pos h]

/-- A quote begins a text. -/
theorem piece_quoteMark : piece Quoted.quoteMark cs = quotedPiece cs := rfl

/-- A number goes on behind a point. -/
theorem numberPiece_of_point (h : cs.dropWhile isNumberPart = '.' :: rest) :
    numberPiece c cs =
      .ofToken ((cs.takeWhile isNumberPart).length + 1 + (rest.takeWhile isNumberPart).length)
        (floatToken (c :: cs.takeWhile isNumberPart) (rest.takeWhile isNumberPart)) := by
  simp only [numberPiece, h]

/-- A number that no point follows is a whole number. -/
theorem numberPiece_of_whole (h : (cs.dropWhile isNumberPart).head? ≠ some '.') :
    numberPiece c cs =
      ⟨(cs.takeWhile isNumberPart).length, integerOutcome (c :: cs.takeWhile isNumberPart)⟩ := by
  unfold numberPiece
  dsimp only
  split
  case h_1 hdrop => exact absurd (congrArg List.head? hdrop) h
  case h_2 => rfl

/-- A slash that neither a slash nor an equality sign follows is an operator. -/
theorem slashPiece_of_other (hslash : cs.head? ≠ some '/') (hequals : cs.head? ≠ some '=') :
    slashPiece cs = .ofToken 0 (.operation .div) := by
  unfold slashPiece
  split
  · exact absurd rfl hslash
  · exact absurd rfl hequals
  · rfl

end Forms

section Width

private theorem extra_numberPiece_le (c : Char) (cs : List Char) :
    (numberPiece c cs).extra ≤ cs.length := by
  have hrun := congrArg List.length (cs.takeWhile_append_dropWhile (p := isNumberPart))
  rw [List.length_append] at hrun
  by_cases hpoint : (cs.dropWhile isNumberPart).head? = some '.'
  · obtain ⟨rest, hrest⟩ := List.head?_eq_some_iff.mp hpoint
    have hfraction := (rest.takeWhile_prefix isNumberPart).length_le
    rw [hrest, List.length_cons] at hrun
    rw [numberPiece_of_point hrest, Piece.ofToken]
    dsimp only
    omega
  · rw [numberPiece_of_whole hpoint]
    dsimp only
    omega

/-- A quoted piece reaches as far as the text is read. -/
theorem extra_quotedPiece (cs : List Char) :
    (quotedPiece cs).extra = (Quoted.read cs).taken := by
  unfold quotedPiece
  dsimp only
  split <;> rfl

private theorem extra_slashPiece_le (cs : List Char) : (slashPiece cs).extra ≤ cs.length := by
  unfold slashPiece
  split
  case h_1 cs =>
    have hcomment := (cs.takeWhile_prefix (· != '\n')).length_le
    simp only [List.length_cons]
    omega
  case h_2 => simp [Piece.ofToken]
  case h_3 => exact Nat.zero_le _

private theorem extra_either_le {second : Char} {long short : Piece} {cs : List Char}
    (hlong : long.extra ≤ 1) (hshort : short.extra ≤ cs.length) :
    (either second long short cs).extra ≤ cs.length := by
  unfold either
  split
  case h_1 c cs =>
    split
    · rw [List.length_cons]
      omega
    · exact hshort
  case h_2 => exact hshort

private theorem extra_signPiece_le (c : Char) (cs : List Char) :
    (signPiece c cs).extra ≤ cs.length := by
  have hzero : ∀ t, (Piece.ofToken 0 t).extra ≤ cs.length := fun _ => Nat.zero_le _
  have hone : ∀ t, (Piece.ofToken 1 t).extra ≤ 1 := fun _ => Nat.le_refl 1
  unfold signPiece
  split
  case h_8 | h_9 => exact extra_either_le (hone _) (extra_either_le (hone _) (hzero _))
  case h_10 | h_11 | h_12 | h_14 | h_15 => exact extra_either_le (hone _) (hzero _)
  case h_13 => exact extra_either_le (hone _) (Nat.zero_le _)
  all_goals exact Nat.zero_le _

/-- A piece takes no more characters than there are. -/
theorem extra_piece_le (c : Char) (cs : List Char) : (piece c cs).extra ≤ cs.length := by
  unfold piece
  split
  · exact (cs.takeWhile_prefix isSeparator).length_le
  split
  · exact (cs.takeWhile_prefix isWordPart).length_le
  split
  · exact extra_numberPiece_le c cs
  split
  · rw [extra_quotedPiece]
    exact Quoted.taken_read_le cs
  split
  · exact extra_slashPiece_le cs
  · exact extra_signPiece_le c cs

end Width

end Datapack.Scan
