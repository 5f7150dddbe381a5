/-!
# Characters and pieces of texts

Classes of characters by their code points, the blank characters among them,
and texts cut at a separator.
-/

namespace Datapack

/-! ## Ranges of code points

Classes of characters are listed by the code points they take up, as closed
ranges in ascending order. -/

/-- First and last code point of each range, in order. -/
abbrev CodeRanges := List (Nat × Nat)

namespace CodeRanges

/-- Whether the character lies in one of the ranges. -/
def has (ranges : CodeRanges) (c : Char) : Bool :=
  ranges.any fun (first, last) => first ≤ c.toNat && c.toNat ≤ last

/-- A character lies in the ranges if it lies in one of them. -/
theorem has_iff (ranges : CodeRanges) (c : Char) :
    ranges.has c = true ↔ ∃ r ∈ ranges, r.1 ≤ c.toNat ∧ c.toNat ≤ r.2 := by
  simp [has]

end CodeRanges

/-! ## Blank characters

The characters with the Unicode property `White_Space`. A line is blank if it
holds nothing else, and messages about the end of a text point at the last
character that is not blank. -/

/-- The characters with the property `White_Space`. -/
def blankRanges : CodeRanges :=
  [(0x0009, 0x000d), (0x0020, 0x0020), (0x0085, 0x0085), (0x00a0, 0x00a0), (0x1680, 0x1680),
    (0x2000, 0x200a), (0x2028, 0x2029), (0x202f, 0x202f), (0x205f, 0x205f), (0x3000, 0x3000)]

/-- Whether the character has the property `White_Space`. -/
def isBlank (c : Char) : Bool := blankRanges.has c

/-- The text without the blank characters at its end. -/
def trimEnd (cs : List Char) : List Char := (cs.reverse.dropWhile isBlank).reverse

/-- Only characters at the end are dropped, and all of those are blank. -/
theorem trimEnd_append (cs : List Char) :
    trimEnd cs ++ (cs.reverse.takeWhile isBlank).reverse = cs := by
  rw [trimEnd, ← List.reverse_append, List.takeWhile_append_dropWhile, List.reverse_reverse]

/-! ## Cutting texts at a separator

A text with `n` separators has `n + 1` pieces, empty ones included. Lines are
the pieces between newlines, path components the pieces between slashes. -/

/-- The pieces of a text between separators: the first one, and the others in order. -/
def splitPieces (sep : Char) : List Char → List Char × List (List Char)
  | [] => ([], [])
  | c :: cs =>
    let (head, rest) := splitPieces sep cs
    if c = sep then ([], head :: rest) else (c :: head, rest)

/-- All pieces of a text between separators, in order. -/
def pieces (sep : Char) (cs : List Char) : List (List Char) :=
  (splitPieces sep cs).1 :: (splitPieces sep cs).2

/-- Pieces with a separator between each two. -/
def joinPieces (sep : Char) : List (List Char) → List Char
  | [] => []
  | [piece] => piece
  | piece :: rest => piece ++ sep :: joinPieces sep rest

/-- Cutting loses nothing but the separators. -/
theorem joinPieces_pieces (sep : Char) (cs : List Char) : joinPieces sep (pieces sep cs) = cs := by
  induction cs with
  | nil => rfl
  | cons c cs ih =>
    unfold pieces at ih ⊢
    by_cases h : c = sep
    · simp only [splitPieces, h, if_true, joinPieces, List.nil_append]
      rw [ih]
    · cases hr : (splitPieces sep cs).2 with
      | nil => simpa [splitPieces, h, hr, joinPieces] using ih
      | cons piece rest => simpa [splitPieces, h, hr, joinPieces] using ih

/-- No piece holds a separator. -/
theorem sep_not_mem_pieces (sep : Char) (cs : List Char) : ∀ p ∈ pieces sep cs, sep ∉ p := by
  induction cs with
  | nil => simp [pieces, splitPieces]
  | cons c cs ih =>
    unfold pieces at ih ⊢
    by_cases h : c = sep
    · simpa [splitPieces, h] using ih
    · simpa [splitPieces, h, Ne.symm h] using ih

end Datapack
