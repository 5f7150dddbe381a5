import Mathlib.Data.List.Induction
import Datapack.Compile
import Datapack.Proofs.Grammar.ViablePrefix
import Datapack.Proofs.Token.LongestMatch

/-!
# Where errors are shown

Every error of reading has a place in the text that can be shown. It is the place of
one piece of the text, except at the end of the input, where the place is empty and
the last character that is not blank is shown instead. There is such a character,
because a text without one holds no tokens, and reading no tokens does not fail.
-/

namespace Datapack

/-- The span lies in the text: its ends stand in order and fall between characters. -/
structure Span.LiesIn (span : Span) (source : String) : Prop where
  ordered : span.start ≤ span.stop
  stop_le : span.stop ≤ source.utf8ByteSize
  start_isValid : String.Pos.Raw.IsValid source ⟨span.start⟩
  stop_isValid : String.Pos.Raw.IsValid source ⟨span.stop⟩

/-- The span is that of the last character of the text that is not blank. -/
def Span.IsLastVisible (span : Span) (source : String) : Prop :=
  ∃ before c after, source.toList = before ++ c :: after ∧ isBlank c = false ∧
    (∀ d ∈ after, isBlank d = true) ∧ span = ⟨utf8Length before, utf8Length before + c.utf8Size⟩

section Spans

variable {source : String} {span : Span} {before text after : List Char}

private theorem utf8Length_toList (source : String) :
    utf8Length source.toList = source.utf8ByteSize := by
  rw [utf8Length_eq_utf8ByteSize, String.ofList_toList]

/-- An offset falls between characters if a part of the text ends there. -/
theorem isValid_utf8Length (h : source.toList = before ++ after) :
    String.Pos.Raw.IsValid source ⟨utf8Length before⟩ := by
  rw [String.Pos.Raw.isValid_iff_exists_append]
  refine ⟨String.ofList before, String.ofList after, ?_, ?_⟩
  · rw [← String.ofList_append, ← h, String.ofList_toList]
  · rw [utf8Length_eq_utf8ByteSize]
    rfl

/-- What a part of the text takes up lies in the text. -/
theorem liesIn_of_split (h : source.toList = before ++ (text ++ after)) :
    Span.LiesIn ⟨utf8Length before, utf8Length before + utf8Length text⟩ source := by
  have hlength : utf8Length before + utf8Length text + utf8Length after =
      source.utf8ByteSize := by
    rw [← utf8Length_toList, h, utf8Length_append, utf8Length_append, Nat.add_assoc]
  refine ⟨Nat.le_add_right .., by dsimp only; omega, isValid_utf8Length h, ?_⟩
  have hsplit : source.toList = (before ++ text) ++ after := by rw [h, List.append_assoc]
  rw [← utf8Length_append]
  exact isValid_utf8Length hsplit

/-- Where an offset falls between characters, the text is cut at that byte. -/
theorem utf8Length_splitAtByte {n : Nat} (h : String.Pos.Raw.IsValid source ⟨n⟩) :
    utf8Length (splitAtByte n source.toList).1 = n := by
  obtain ⟨first, last, rfl, hn⟩ := String.Pos.Raw.isValid_iff_exists_append.mp h
  obtain rfl : n = first.utf8ByteSize := congrArg String.Pos.Raw.byteIdx hn
  rw [String.toList_append, ← utf8Length_toList, splitAtByte_utf8Length]

/-- The last character that is not blank stands in the text. -/
theorem Span.IsLastVisible.liesIn (h : span.IsLastVisible source) :
    span.LiesIn source ∧ span.start < span.stop := by
  obtain ⟨before, c, after, hsplit, -, -, rfl⟩ := h
  have hcut : source.toList = before ++ ([c] ++ after) := hsplit
  have hlies := liesIn_of_split hcut
  rw [utf8Length_cons, utf8Length_nil, Nat.add_zero] at hlies
  exact ⟨hlies, Nat.lt_add_of_pos_right c.utf8Size_pos⟩

/-- The end of the text lies in it. -/
theorem liesIn_atEnd (source : String) :
    Span.LiesIn ⟨source.utf8ByteSize, source.utf8ByteSize⟩ source := by
  have hsplit : source.toList = source.toList ++ ([] ++ []) := by simp
  have hlies := liesIn_of_split hsplit
  rwa [utf8Length_nil, Nat.add_zero, utf8Length_toList] at hlies

end Spans

section Pieces

variable {source : String}

/-- Tokens and faults stand at places in the text that are not empty. -/
theorem liesIn_of_mem_lexemes {l : Lexeme} (h : l ∈ lexemes source) :
    l.span.LiesIn source ∧ l.span.start < l.span.stop := by
  obtain ⟨segments, hjoined, hplaced, hmatches⟩ := Scan.exists_segments 0 source.toList
  rw [lexemes, hplaced] at h
  obtain ⟨before, segment, after, rfl, hspan⟩ := Scan.exists_of_mem_placed h
  rw [Nat.zero_add] at hspan
  have hsplit : source.toList = Scan.joined before ++ (segment.text ++ Scan.joined after) := by
    rw [← hjoined]
    simp [Scan.joined]
  have hpos : 0 < segment.text.length :=
    List.length_pos_iff.mpr (hmatches before segment after rfl).text_ne_nil
  have hwidth := length_le_utf8Length segment.text
  rw [hspan]
  refine ⟨liesIn_of_split hsplit, ?_⟩
  dsimp only
  omega

/-- Blank characters are neither letters nor digits. -/
theorem Scan.not_isWordStart_of_isBlank {c : Char} (h : isBlank c = true) :
    isWordStart c = false ∧ c.isDigit = false := by
  obtain ⟨r, hr, hfirst, hlast⟩ := (CodeRanges.has_iff blankRanges c).mp h
  have hout : ∀ r ∈ blankRanges, r.2 < 48 ∨ 122 < r.1 := by decide
  have hrange := hout r hr
  constructor
  · refine Bool.eq_false_iff.mpr fun hc => ?_
    unfold isWordStart Char.isAlpha Char.isUpper Char.isLower at hc
    simp only [Bool.or_eq_true, Bool.and_eq_true, decide_eq_true_eq, beq_iff_eq, ge_iff_le,
      UInt32.le_iff_toNat_le, UInt32.reduceToNat, Char.reduceVal, Char.toNat_val] at hc
    rcases hc with (hc | hc) | rfl
    · omega
    · omega
    · exact absurd h (by decide)
  · refine Bool.eq_false_iff.mpr fun hc => ?_
    simp only [Char.isDigit, Bool.and_eq_true, decide_eq_true_eq, ge_iff_le,
      UInt32.le_iff_toNat_le, UInt32.reduceToNat, Char.reduceVal, Char.toNat_val] at hc
    omega

/-- No token starts with a blank character. -/
theorem Scan.piece_of_isBlank {c : Char} (h : isBlank c = true) (cs : List Char) (t : Token) :
    (piece c cs).outcome ≠ .token t := by
  obtain ⟨hword, hdigit⟩ := not_isWordStart_of_isBlank h
  by_cases hseparator : isSeparator c = true
  · rw [piece_of_separator hseparator]
    exact Outcome.noConfusion
  have hquote : c ≠ Quoted.quoteMark := by
    rintro rfl
    exact absurd h (by decide)
  have hslash : c ≠ '/' := by
    rintro rfl
    exact absurd h (by decide)
  have hpiece : piece c cs = signPiece c cs := by
    simp only [piece, hseparator, hword, hdigit, hquote, hslash, Bool.false_eq_true, if_false]
  rw [hpiece]
  unfold signPiece
  split
  case h_16 => exact Outcome.noConfusion
  all_goals exact absurd h (by decide)

/-- A text of blank characters holds no tokens. -/
theorem Scan.item_ne_ok_of_isBlank {offset : Nat} {cs : List Char}
    (h : ∀ c ∈ cs, isBlank c = true) {l : Lexeme} (hl : l ∈ lexemesFrom offset cs) (t : Token) :
    l.item ≠ .ok t := by
  fun_induction lexemesFrom offset cs with
  | case1 => cases hl
  | case2 offset c cs p stop houtcome ih =>
    exact ih (fun d hd => h d (List.mem_cons_of_mem c (List.mem_of_mem_drop hd))) hl
  | case3 offset c cs p stop u houtcome ih =>
    exact absurd houtcome (piece_of_isBlank (h c List.mem_cons_self) cs u)
  | case4 offset c cs p stop f houtcome ih =>
    rcases List.mem_cons.mp hl with rfl | hl
    · intro hitem
      cases hitem
    · exact ih (fun d hd => h d (List.mem_cons_of_mem c (List.mem_of_mem_drop hd))) hl

end Pieces

/-- An error is raised at the end of the input or shown at a token. -/
theorem ParseError.RaisedAt.atEnd_or_atToken {e : ParseError} {stop : Nat}
    {before after : List Placed}
    (h : e.RaisedAt stop before after) : (∃ what, e = .unexpectedEnd what ⟨stop, stop⟩) ∨
      (∀ what span, e ≠ .unexpectedEnd what span) ∧ ∃ p ∈ before ++ after, p.span = e.span := by
  cases e with
  | lexical => cases h
  | unexpectedEnd what span =>
    obtain ⟨-, rfl⟩ := h
    exact .inl ⟨what, rfl⟩
  | unexpected what found span =>
    have hmem := List.mem_of_mem_head? h
    exact .inr ⟨fun _ _ => ParseError.noConfusion, _, List.mem_append_right _ hmem, rfl⟩
  | uncreatable name span =>
    have hmem := List.mem_of_mem_head? h
    exact .inr ⟨fun _ _ => ParseError.noConfusion, _, List.mem_append_right _ hmem, rfl⟩
  | unassignable kind span =>
    obtain ⟨-, start, first, target, node, rfl, rfl, -⟩ := h
    exact .inr ⟨fun _ _ => ParseError.noConfusion, first, by simp, rfl⟩

/-- An error stands at the end of the text, which then holds a character that is not blank, or it
stands at a token or fault of the text. -/
theorem parse_error_atEnd_or_atLexeme {source : String} {e : ParseError}
    (h : parse source = .error e) :
    ((∃ what, e = .unexpectedEnd what ⟨source.utf8ByteSize, source.utf8ByteSize⟩) ∧
      ∃ c ∈ source.toList, isBlank c = false) ∨
      (∀ what span, e ≠ .unexpectedEnd what span) ∧ ∃ l ∈ lexemes source, l.span = e.span := by
  cases hplaced : placedTokens (lexemes source) with
  | error e' =>
    have he : e' = e := by simpa [parse, hplaced, bind, Except.bind] using h
    obtain ⟨fault, span, rfl, hmem⟩ := exists_of_placedTokens_error (he ▸ hplaced)
    exact .inr ⟨fun _ _ => ParseError.noConfusion, _, hmem, rfl⟩
  | ok placed =>
    have hlexemes := eq_map_of_placedTokens hplaced
    rw [parse_eq_parseTokens hplaced] at h
    obtain ⟨before, after, rfl, hraised, -⟩ := parseTokens_error h
    have hmem : ∀ p ∈ before ++ after, ⟨.ok p.token, p.span⟩ ∈ lexemes source := by
      intro p hp
      rw [hlexemes]
      exact List.mem_map.mpr ⟨p, hp, rfl⟩
    rcases hraised.atEnd_or_atToken with ⟨what, he⟩ | ⟨hne, p, hp, hspan⟩
    · refine .inl ⟨⟨what, by rw [he, utf8Length_toList]⟩, ?_⟩
      -- without tokens there would be nothing to read, and no error
      by_contra hblank
      have hnone : before ++ after = [] := by
        rw [List.eq_nil_iff_forall_not_mem]
        intro p hp
        have hall : ∀ c ∈ source.toList, isBlank c = true := by simpa using hblank
        exact Scan.item_ne_ok_of_isBlank hall (hmem p hp) p.token rfl
      rw [hnone] at h
      have hok : parseTokens [] (utf8Length source.toList) = .ok [] :=
        parseTokens_eq_ok.mpr (by simp [Grammar.statements])
      cases hok.symm.trans h
    · exact .inr ⟨hne, _, hmem p hp, hspan⟩

/-- Trimming stops behind the last character that is not blank. -/
theorem trimEnd_of_not_isBlank {cs : List Char} (h : ∃ c ∈ cs, isBlank c = false) :
    ∃ before c after, cs = before ++ c :: after ∧ isBlank c = false ∧
      (∀ d ∈ after, isBlank d = true) ∧ trimEnd cs = before ++ [c] := by
  induction cs using List.reverseRecOn with
  | nil => simp at h
  | append_singleton cs d ih =>
    cases hd : isBlank d with
    | false => exact ⟨cs, d, [], rfl, hd, by simp, by simp [trimEnd, hd]⟩
    | true =>
      have htrim : trimEnd (cs ++ [d]) = trimEnd cs := by simp [trimEnd, hd]
      obtain ⟨c, hc, hblank⟩ := h
      have hmem : c ∈ cs := by
        rcases List.mem_append.mp hc with hc | hc
        · exact hc
        · rw [List.mem_singleton.mp hc, hd] at hblank
          cases hblank
      obtain ⟨before, c, after, rfl, hblank, hafter, hcut⟩ := ih ⟨c, hmem, hblank⟩
      refine ⟨before, c, after ++ [d], by simp, hblank, ?_, htrim.trans hcut⟩
      intro e he
      rcases List.mem_append.mp he with he | he
      · exact hafter e he
      · rw [List.mem_singleton.mp he, hd]

namespace Diagnostic

/-- At the end of a text, its last character that is not blank is shown. -/
theorem visible_atEnd {source : String} (h : ∃ c ∈ source.toList, isBlank c = false) :
    ∃ shown, visible source.toList ⟨source.utf8ByteSize, source.utf8ByteSize⟩ = some shown ∧
      shown.IsLastVisible source := by
  obtain ⟨before, c, after, hsplit, hblank, hafter, htrim⟩ := trimEnd_of_not_isBlank h
  refine ⟨⟨utf8Length before, utf8Length before + c.utf8Size⟩, ?_,
    before, c, after, hsplit, hblank, hafter, rfl⟩
  have hcut : (splitAtByte source.utf8ByteSize source.toList).1 = source.toList := by
    have hall := splitAtByte_utf8Length source.toList []
    rw [List.append_nil, utf8Length_toList] at hall
    rw [hall]
  have hempty : Span.isEmpty ⟨source.utf8ByteSize, source.utf8ByteSize⟩ = true := by
    simp [Span.isEmpty]
  rw [visible, if_pos hempty]
  simp only [hcut, htrim]
  simp

private theorem visible_of_lt {source : List Char} {span : Span} (h : span.start < span.stop) :
    visible source span = some span := by
  have hempty : span.isEmpty = false := by simpa [Span.isEmpty] using h
  rw [visible, hempty, if_neg Bool.false_ne_true]

section Frames

/-- Every byte of a text, and its end, lies in one of its lines. -/
theorem exists_covers {lines : List (List Char)} (hne : lines ≠ []) {number start offset : Nat}
    (hstart : start ≤ offset) (hstop : offset ≤ start + utf8Length (joinPieces '\n' lines)) :
    ∃ l ∈ numberLines number start lines, l.covers offset = true := by
  induction lines generalizing number start with
  | nil => exact absurd rfl hne
  | cons line rest ih =>
    by_cases hfirst : offset ≤ start + utf8Length line
    · refine ⟨⟨number, start, line⟩, List.mem_cons_self, ?_⟩
      simp [SourceLine.covers, hstart, hfirst]
    · cases rest with
      | nil => exact absurd hstop hfirst
      | cons second rest =>
        have hnewline : '\n'.utf8Size = 1 := rfl
        have hjoin : joinPieces '\n' (line :: second :: rest) =
            line ++ '\n' :: joinPieces '\n' (second :: rest) := rfl
        rw [hjoin, utf8Length_append, utf8Length_cons, hnewline] at hstop
        obtain ⟨l, hl, hcovers⟩ : ∃ l ∈ numberLines (number + 1) (start + utf8Length line + 1)
            (second :: rest), l.covers offset = true :=
          ih (List.cons_ne_nil _ _) (by omega) (by omega)
        exact ⟨l, List.mem_cons_of_mem _ hl, hcovers⟩

/-- Around a place in the text there is a frame. -/
theorem frame_ne_empty {source : String} {span : Span} (h : span.LiesIn source)
    (name message : String) : frame name source.toList span message ≠ "" := by
  have hfind : ∀ offset ≤ source.utf8ByteSize,
      ∃ l, (sourceLines source.toList).find? (·.covers offset) = some l := by
    intro offset hoffset
    rw [← Option.isSome_iff_exists, List.find?_isSome]
    have hne : pieces '\n' source.toList ≠ [] := List.cons_ne_nil _ _
    apply exists_covers hne (Nat.zero_le offset)
    rwa [joinPieces_pieces, Nat.zero_add, utf8Length_toList]
  obtain ⟨first, hfirst⟩ := hfind span.start (h.ordered.trans h.stop_le)
  obtain ⟨last, hlast⟩ := hfind span.stop h.stop_le
  intro hempty
  have hlength := congrArg String.length hempty
  simp [frame, hfirst, hlast] at hlength

end Frames

/--
Every error of reading can be shown. Its place lies in the text with both ends between
characters; it is the place of a token or fault of the text, or the error is raised at
the end of the input and the place is the empty one there. What is shown is not empty
and lies in the text: the place itself, or at the end of the input the last character
that is not blank. So a frame is always drawn below the message.
-/
theorem parse_error_shown {source : String} {e : ParseError} (h : parse source = .error e) :
    e.span.LiesIn source ∧
      ((∃ what, e = .unexpectedEnd what ⟨source.utf8ByteSize, source.utf8ByteSize⟩) ∨
        (∀ what span, e ≠ .unexpectedEnd what span) ∧ e.span.start < e.span.stop ∧
          ∃ l ∈ lexemes source, l.span = e.span) ∧
      utf8Length (splitAtByte e.span.start source.toList).1 = e.span.start ∧
      ∃ shown, visible source.toList e.span = some shown ∧ shown.LiesIn source ∧
        shown.start < shown.stop ∧
        ((∃ what span, e = .unexpectedEnd what span) → shown.IsLastVisible source) ∧
        ∀ name, report name source (.parse e) = Paint.boldRed.apply "error:" ++ " " ++ e.message ++
            "\n" ++ frame name source.toList shown e.message ∧
          frame name source.toList shown e.message ≠ "" := by
  have hreport : ∀ {shown}, visible source.toList e.span = some shown → ∀ name,
      report name source (.parse e) = Paint.boldRed.apply "error:" ++ " " ++ e.message ++
        "\n" ++ frame name source.toList shown e.message := by
    intro shown hshown name
    simp only [report, hshown]
    rfl
  rcases parse_error_atEnd_or_atLexeme h with ⟨⟨what, rfl⟩, hvisible⟩ | ⟨hne, l, hl, hspan⟩
  · obtain ⟨shown, hshown, hlast⟩ := visible_atEnd hvisible
    have hlies := liesIn_atEnd source
    exact ⟨hlies, .inl ⟨what, rfl⟩, utf8Length_splitAtByte hlies.start_isValid, shown, hshown,
      hlast.liesIn.1, hlast.liesIn.2, fun _ => hlast,
      fun name => ⟨hreport hshown name, frame_ne_empty hlast.liesIn.1 name _⟩⟩
  · obtain ⟨hlies, hlt⟩ := liesIn_of_mem_lexemes hl
    rw [hspan] at hlies hlt
    refine ⟨hlies, .inr ⟨hne, hlt, l, hl, hspan⟩, utf8Length_splitAtByte hlies.start_isValid,
      e.span, visible_of_lt hlt, hlies, hlt, ?_,
      fun name => ⟨hreport (visible_of_lt hlt) name, frame_ne_empty hlies name _⟩⟩
    rintro ⟨what, span, rfl⟩
    exact absurd rfl (hne what span)

/-- A program that ends behind its first word, with a comment that ends with a character of two
bytes and a blank one. -/
theorem parse_error_shown_comment :
    parse "create // é\u00a0\n" = .error (.unexpectedEnd .storeWord ⟨15, 15⟩) ∧
      visible "create // é\u00a0\n".toList ⟨15, 15⟩ = some ⟨10, 12⟩ ∧
      Span.LiesIn ⟨10, 12⟩ "create // é\u00a0\n" ∧
      Span.IsLastVisible ⟨10, 12⟩ "create // é\u00a0\n" := by
  have hparse : parse "create // é\u00a0\n" = .error (.unexpectedEnd .storeWord ⟨15, 15⟩) :=
    parse_eq_error (by decide +kernel)
  obtain ⟨-, -, -, shown, hshown, hlies, -, hlast, -⟩ := parse_error_shown hparse
  have hspan : visible "create // é\u00a0\n".toList ⟨15, 15⟩ = some ⟨10, 12⟩ := by decide +kernel
  obtain rfl : shown = ⟨10, 12⟩ := Option.some.inj (hshown.symm.trans hspan)
  exact ⟨hparse, hspan, hlies, hlast ⟨_, _, rfl⟩⟩

end Diagnostic

end Datapack
