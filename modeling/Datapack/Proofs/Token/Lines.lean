import Datapack.Proofs.Token.Cutting
import Datapack.Proofs.Token.Writing

/-!
# Lines are read apart

No token, comment or fault reaches over the end of a line, quoted texts apart. So
unless a quoted text is open where a first text ends, what is read of the text, a
newline and further lines is what is read of both sides of the newline.
-/

namespace Datapack

namespace Quoted

/-- What is read behind a quote does not change when a newline and more are added, unless the text
is open at the end. -/
theorem read_append_newline {cs : List Char}
    (h : (read cs).content = none → (read cs).taken < cs.length) (ds : List Char) :
    read (cs ++ '\n' :: ds) = read cs := by
  fun_induction read cs with
  | case1 => exact absurd (h rfl) (Nat.lt_irrefl 0)
  | case2 => exact read_quoteMark _
  | case3 hquote =>
    rw [List.singleton_append, read, if_neg hquote, if_pos rfl]
    exact if_pos rfl
  | case4 cs hquote =>
    rw [List.cons_append, List.cons_append, read, if_neg hquote, if_pos rfl]
    exact if_pos rfl
  | case5 d cs hd hquote ih =>
    rw [List.cons_append, List.cons_append, read_escapeMark hd, ih]
    intro hnone
    have hlt := h (by rw [Reading.extend, hnone, Option.map_none])
    simp only [Reading.extend, List.length_cons] at hlt
    omega
  | case6 c cs hquote hescape ih =>
    rw [List.cons_append, read_plain hquote hescape, ih]
    intro hnone
    have hlt := h (by rw [Reading.extend, hnone, Option.map_none])
    simp only [Reading.extend, List.length_cons] at hlt
    omega

end Quoted

namespace Scan

section Run

variable {p : Char → Bool} (hp : p '\n' = false)

include hp

/-- A run that no newline belongs to ends where a newline is added. -/
theorem takeWhile_append_newline (cs ds : List Char) :
    (cs ++ '\n' :: ds).takeWhile p = cs.takeWhile p := by
  induction cs with
  | nil => simp [hp]
  | cons c cs ih => simp only [List.cons_append, List.takeWhile_cons, ih]

private theorem dropWhile_append_newline (cs ds : List Char) :
    (cs ++ '\n' :: ds).dropWhile p = cs.dropWhile p ++ '\n' :: ds := by
  induction cs with
  | nil => simp [hp]
  | cons c cs ih =>
    by_cases hc : p c = true
    · simp only [List.cons_append, List.dropWhile_cons, hc, if_true, ih]
    · simp only [List.cons_append, List.dropWhile_cons, hc, if_false, Bool.false_eq_true]

end Run

section Piece

variable (cs ds : List Char)

private theorem numberPiece_append_newline (c : Char) :
    numberPiece c (cs ++ '\n' :: ds) = numberPiece c cs := by
  have hdrop : (cs ++ '\n' :: ds).dropWhile isNumberPart =
      cs.dropWhile isNumberPart ++ '\n' :: ds := dropWhile_append_newline rfl cs ds
  by_cases hpoint : (cs.dropWhile isNumberPart).head? = some '.'
  · obtain ⟨rest, hrest⟩ := List.head?_eq_some_iff.mp hpoint
    rw [hrest, List.cons_append] at hdrop
    rw [numberPiece_of_point hdrop, numberPiece_of_point hrest, takeWhile_append_newline rfl,
      takeWhile_append_newline rfl]
  · have hpoint' : ((cs ++ '\n' :: ds).dropWhile isNumberPart).head? ≠ some '.' := by
      rw [hdrop]
      cases h : cs.dropWhile isNumberPart with
      | nil => simp
      | cons d rest => simpa [h] using hpoint
    rw [numberPiece_of_whole hpoint', numberPiece_of_whole hpoint, takeWhile_append_newline rfl]

private theorem slashPiece_append_newline : slashPiece (cs ++ '\n' :: ds) = slashPiece cs := by
  cases cs with
  | nil => rfl
  | cons c cs =>
    by_cases hslash : c = '/'
    · subst hslash
      rw [List.cons_append, slashPiece, slashPiece, takeWhile_append_newline rfl]
    by_cases hequals : c = '='
    · subst hequals
      rfl
    rw [slashPiece_of_other, slashPiece_of_other]
    all_goals simp [hslash, hequals]

private theorem either_append_newline {second : Char} (hsecond : second ≠ '\n')
    (long short : Piece) :
    either second long short (cs ++ '\n' :: ds) = either second long short cs := by
  cases cs with
  | nil => exact if_neg hsecond.symm
  | cons c cs => rfl

private theorem signPiece_append_newline (c : Char) :
    signPiece c (cs ++ '\n' :: ds) = signPiece c cs := by
  have heither {second : Char} (h : second ≠ '\n') := either_append_newline cs ds h
  unfold signPiece
  split <;> simp only [heither (by decide : '+' ≠ '\n'), heither (by decide : '-' ≠ '\n'),
    heither (by decide : '=' ≠ '\n')]

end Piece

private theorem quotedPiece_append_newline {cs : List Char}
    (h : (quotedPiece cs).outcome = .fault .unterminated → (quotedPiece cs).extra < cs.length)
    (ds : List Char) : quotedPiece (cs ++ '\n' :: ds) = quotedPiece cs := by
  have hread : Quoted.read (cs ++ '\n' :: ds) = Quoted.read cs := by
    refine Quoted.read_append_newline (fun hnone => ?_) ds
    rw [← extra_quotedPiece]
    apply h
    rw [quotedPiece, hnone]
  rw [quotedPiece, quotedPiece, hread]

/-- The first piece of a text does not change when a newline and more are added, unless it is a run
of separators or a quoted text that is open at the end. -/
theorem piece_append_newline {c : Char} {cs : List Char} (hc : isSeparator c = false)
    (h : (piece c cs).outcome = .fault .unterminated → (piece c cs).extra < cs.length)
    (ds : List Char) : piece c (cs ++ '\n' :: ds) = piece c cs := by
  by_cases hquote : c = Quoted.quoteMark
  · subst hquote
    exact quotedPiece_append_newline h ds
  have hword : (cs ++ '\n' :: ds).takeWhile isWordPart = cs.takeWhile isWordPart :=
    takeWhile_append_newline rfl cs ds
  simp only [piece, hc, hquote, Bool.false_eq_true, if_false, hword, numberPiece_append_newline,
    slashPiece_append_newline, signPiece_append_newline]

/-- A single separator is skipped, whatever follows. -/
theorem lexemesFrom_separator {c : Char} (hc : isSeparator c = true) (offset : Nat)
    (cs : List Char) :
    lexemesFrom offset (c :: cs) = lexemesFrom (offset + c.utf8Size) cs := by
  rw [lexemesFrom_cons, piece_of_separator hc]
  cases cs with
  | nil => simp [Outcome.lexemes]
  | cons d cs =>
    by_cases hd : isSeparator d = true
    · rw [lexemesFrom_cons, piece_of_separator hd, List.takeWhile_cons_of_pos hd]
      simp [Outcome.lexemes, Nat.add_assoc]
    · rw [List.takeWhile_cons_of_neg hd]
      simp [Outcome.lexemes]

/--
What is read of two texts with a newline between them is what is read of the
first and then of the second, if no quoted text is open where the first ends.
-/
theorem lexemesFrom_append_newline (offset : Nat) (cs ds : List Char)
    (h : ∀ start, (lexemesFrom offset cs).getLast? ≠
      some ⟨.error .unterminated, start, offset + utf8Length cs⟩) :
    lexemesFrom offset (cs ++ '\n' :: ds) =
      lexemesFrom offset cs ++ lexemesFrom (offset + utf8Length cs + 1) ds := by
  induction hn : cs.length using Nat.strong_induction_on generalizing offset cs with
  | _ n ih =>
    subst hn
    cases cs with
    | nil =>
      have hnewline : isSeparator '\n' = true := by decide
      rw [List.nil_append, lexemesFrom_separator hnewline, lexemesFrom_nil]
      rfl
    | cons c cs =>
      by_cases hc : isSeparator c = true
      · rw [List.cons_append, lexemesFrom_separator hc, lexemesFrom_separator hc]
        rw [lexemesFrom_separator hc, utf8Length_cons, ← Nat.add_assoc] at h
        rw [ih cs.length (Nat.lt_succ_self _) _ cs h rfl, utf8Length_cons, ← Nat.add_assoc]
      · have hlength := extra_piece_le c cs
        have hwidth : utf8Length (c :: cs.take (piece c cs).extra) +
            utf8Length (cs.drop (piece c cs).extra) = utf8Length (c :: cs) := by
          rw [← utf8Length_append, List.cons_append, List.take_append_drop]
        rw [lexemesFrom_cons] at h
        have hopen : (piece c cs).outcome = .fault .unterminated →
            (piece c cs).extra < cs.length := by
          -- else the piece is the last thing that is read, and reaches the end
          intro houtcome
          by_contra hge
          have hge := Nat.le_of_not_lt hge
          rw [houtcome, List.take_of_length_le hge, List.drop_of_length_le hge,
            lexemesFrom_nil, List.append_nil] at h
          exact h offset rfl
        rw [List.cons_append, lexemesFrom_cons, lexemesFrom_cons,
          piece_append_newline (Bool.eq_false_iff.mpr hc) hopen,
          List.take_append_of_le_length hlength, List.drop_append_of_le_length hlength,
          ih _ _ _ _ _ rfl, List.append_assoc, Nat.add_assoc offset, hwidth]
        · simp only [List.length_drop, List.length_cons]
          omega
        · intro start hlast
          rw [Nat.add_assoc, hwidth] at hlast
          apply h start
          rw [List.getLast?_append, hlast, Option.some_or]

end Scan

/-- Characters of two texts that are joined by a newline. -/
theorem toList_append_newline (s t : String) :
    (s ++ "\n" ++ t).toList = s.toList ++ '\n' :: t.toList := by
  rw [String.toList_append, String.toList_append, List.append_assoc]
  rfl

/--
Reading is local to lines. What is read of two texts with a newline between them
is what is read of the first, faults included, and then what is read of the second,
moved on behind the first text and the newline. The one exception is a first text
in which a quoted text is still open at the end.
-/
theorem lexemes_append_newline (s t : String)
    (h : ∀ start, (lexemes s).getLast? ≠ some ⟨.error .unterminated, start, s.utf8ByteSize⟩) :
    lexemes (s ++ "\n" ++ t) =
      lexemes s ++ (lexemes t).map (Lexeme.shift (s.utf8ByteSize + 1)) := by
  have hwidth : utf8Length s.toList = s.utf8ByteSize := by
    rw [utf8Length_eq_utf8ByteSize, String.ofList_toList]
  have hclosed : ∀ start, (Scan.lexemesFrom 0 s.toList).getLast? ≠
      some ⟨.error .unterminated, start, 0 + utf8Length s.toList⟩ := by
    rw [hwidth, Nat.zero_add]
    exact h
  rw [lexemes, toList_append_newline, Scan.lexemesFrom_append_newline 0 _ _ hclosed, hwidth,
    Nat.add_assoc, Scan.lexemesFrom_add]
  rfl

/-- A quoted text that breaks off in front of a backslash leaves nothing open at the end of its
line, so that a newline and a further line change nothing. -/
theorem lexemes_append_newline_backslash :
    (lexemes "x 'é\\").map Lexeme.item =
        [.ok (.identifier "x"), .error .unterminated, .error .invalid] ∧
      lexemes ("x 'é\\" ++ "\n" ++ "' // 2147483648") =
        lexemes "x 'é\\" ++ (lexemes "' // 2147483648").map (Lexeme.shift 7) := by
  have hitems : (lexemes "x 'é\\").map Lexeme.item =
      [.ok (.identifier "x"), .error .unterminated, .error .invalid] := by decide +kernel
  refine ⟨hitems, lexemes_append_newline "x 'é\\" "' // 2147483648" fun start hlast => ?_⟩
  have hlast := congrArg (Option.map Lexeme.item) hlast
  rw [← List.getLast?_map, hitems] at hlast
  cases hlast

/-- A quoted text that is open goes on behind the newline. -/
example : (lexemes ("'a" ++ "\n" ++ "'")).map Lexeme.item = [.ok (.text "a\n")] := by
  decide +kernel

end Datapack
