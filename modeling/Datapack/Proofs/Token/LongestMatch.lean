import Datapack.Proofs.Token.Signs
import Datapack.Proofs.Token.TextUnits

/-!
# Reading is by longest match

The pieces into which a text is cut make up the whole text. Each of them is the
longest text that a rule fits at its place, read by the rule of highest priority
among those that fit it, or else a single character at a place where no rule fits.
-/

namespace Datapack.Scan

open Computability

/-- A piece of text with what it turned out to be. -/
structure Segment where
  text : List Char
  outcome : Outcome

/-- `LongestMatch segment rest`: in front of `rest` the segment is what the rules say. -/
inductive LongestMatch : Segment → List Char → Prop
  | rule {r : Rule} {text rest : List Char} (mem : r ∈ rules) (fits : text ∈ r.language)
      (longest : ∀ q ∈ rules, ∀ w ∈ q.language, w <+: text ++ rest → w.length ≤ text.length)
      (preferred : ∀ q ∈ rules, text ∈ q.language → q = r ∨ q.priority < r.priority) :
      LongestMatch ⟨text, r.read text⟩ rest
  | invalid {c : Char} {rest : List Char}
      (none : ∀ q ∈ rules, ∀ w ∈ q.language, ¬ w <+: c :: rest) :
      LongestMatch ⟨[c], .fault .invalid⟩ rest

/-- The first piece of a text. -/
def firstSegment (c : Char) (cs : List Char) : Segment :=
  ⟨c :: cs.take (piece c cs).extra, (piece c cs).outcome⟩

section Front

variable {c : Char} {cs run : List Char}

/-- The first piece is a longest match if no rule that can start there fits more of the text. -/
theorem longestMatch_of_piece {r : Rule} {n : Nat} {o : Outcome} (hpiece : piece c cs = ⟨n, o⟩)
    (htake : cs.take n = run) (hr : r ∈ rules) (hread : r.read (c :: run) = o)
    (hfits : c :: run ∈ r.language)
    (hlongest : ∀ q ∈ rules, q.startsWith (firstKind c) = true → ∀ w, c :: w ∈ q.language →
      w <+: cs → w.length ≤ run.length)
    (hpreferred : ∀ q ∈ rules, q.startsWith (firstKind c) = true → c :: run ∈ q.language →
      q = r ∨ q.priority < r.priority) :
    LongestMatch (firstSegment c cs) (cs.drop (piece c cs).extra) := by
  subst hread htake
  rw [firstSegment, hpiece]
  refine .rule hr hfits ?_ ?_
  · intro q hq w hw hbegins
    rw [List.cons_append, List.take_append_drop] at hbegins
    obtain ⟨d, w, rfl, hstart⟩ := exists_startsWith hq hw
    obtain ⟨rfl, hrest⟩ := List.cons_prefix_cons.mp hbegins
    rw [List.length_cons, List.length_cons]
    exact Nat.succ_le_succ (hlongest q hq hstart w hw hrest)
  · intro q hq hw
    obtain ⟨d, w, heq, hstart⟩ := exists_startsWith hq hw
    obtain ⟨rfl, -⟩ := List.cons.inj heq
    exact hpreferred q hq hstart hw

/-- A text whose characters all belong to a run is no longer than the run. -/
theorem length_le_of_begins {p : Char → Bool} {w : List Char} (hw : w <+: cs)
    (hp : ∀ d ∈ w, p d = true) : w.length ≤ (cs.takeWhile p).length := by
  obtain ⟨rest, rfl⟩ := hw
  rw [List.takeWhile_append_of_pos hp, List.length_append]
  exact Nat.le_add_right ..

private theorem take_length_takeWhile (p : Char → Bool) :
    cs.take (cs.takeWhile p).length = cs.takeWhile p :=
  (List.prefix_iff_eq_take.mp (List.takeWhile_prefix p)).symm

private theorem longestMatch_separator (hc : isSeparator c = true) :
    LongestMatch (firstSegment c cs) (cs.drop (piece c cs).extra) := by
  have hother : ∀ q ∈ rules, q.startsWith (firstKind c) = true → q = .skip := by
    intro q _ hq
    rw [firstKind_separator hc] at hq
    cases q <;> first | rfl | cases hq
  refine longestMatch_of_piece (piece_of_separator hc) (take_length_takeWhile isSeparator)
    (r := .skip) (by decide +kernel) rfl ?_ ?_ ?_
  · exact mem_skip.mpr (.inl ⟨c, _, rfl, hc, fun d hd => List.mem_takeWhile_imp hd⟩)
  · intro q hq hstart w hw hbegins
    obtain rfl := hother q hq hstart
    rcases mem_skip.mp hw with ⟨_, _, heq, -, hrun⟩ | ⟨_, heq, -⟩
    · obtain ⟨rfl, rfl⟩ := List.cons.inj heq
      exact length_le_of_begins hbegins hrun
    · obtain ⟨rfl, -⟩ := List.cons.inj heq
      cases hc
  · exact fun q hq hstart _ => .inl (hother q hq hstart)

private theorem longestMatch_letter (hc : isWordStart c = true) :
    LongestMatch (firstSegment c cs) (cs.drop (piece c cs).extra) := by
  have hother : ∀ q ∈ rules, q.startsWith (firstKind c) = true →
      q = .word ∨ ∃ entry ∈ fixedTexts, q = .fixed entry.1 entry.2 := by
    intro q hq hstart
    rw [firstKind_letter hc] at hstart
    cases q with
    | word => exact .inl rfl
    | fixed text token => exact .inr ⟨_, fixed_mem_rules.mp hq, rfl⟩
    | _ => cases hstart
  have hlongest : ∀ q ∈ rules, q.startsWith (firstKind c) = true → ∀ w, c :: w ∈ q.language →
      w <+: cs → w.length ≤ (cs.takeWhile isWordPart).length := by
    intro q hq hstart w hw hbegins
    rcases hother q hq hstart with rfl | ⟨entry, hentry, rfl⟩
    · obtain ⟨_, _, heq, -, hrun⟩ := mem_word.mp hw
      obtain ⟨rfl, rfl⟩ := List.cons.inj heq
      exact length_le_of_begins hbegins hrun
    · exact length_le_of_begins hbegins (keyword_of_letter hentry hw.symm hc).2
  have hrun : ∀ d ∈ cs.takeWhile isWordPart, isWordPart d = true :=
    fun d hd => List.mem_takeWhile_imp hd
  have hpiece : piece c cs = .ofToken _ _ := piece_of_wordStart hc
  cases hlookup : keywords.lookup (String.ofList (c :: cs.takeWhile isWordPart)) with
  | some token =>
    have hkeywords : ∀ entry ∈ keywords, entry ∈ fixedTexts := by decide +kernel
    obtain ⟨_, _, hsplit, -⟩ := List.lookup_eq_some_iff.mp hlookup
    have hmem : (String.ofList (c :: cs.takeWhile isWordPart), token) ∈ fixedTexts :=
      hkeywords _ (hsplit ▸ List.mem_append_right _ List.mem_cons_self)
    refine longestMatch_of_piece hpiece (take_length_takeWhile isWordPart)
      (fixed_mem_rules.mpr hmem) ?_ String.toList_ofList.symm hlongest ?_
    · rw [wordToken, hlookup]
      rfl
    · intro q hq hstart hw
      rcases hother q hq hstart with rfl | ⟨entry, hentry, rfl⟩
      · exact .inr Nat.zero_lt_one
      · have htext : entry.1 = String.ofList (c :: cs.takeWhile isWordPart) :=
          String.toList_injective (hw.symm.trans String.toList_ofList.symm)
        cases fixedTexts_injective hentry hmem htext
        exact .inl rfl
  | none =>
    refine longestMatch_of_piece (r := .word) hpiece (take_length_takeWhile isWordPart)
      (by decide +kernel) ?_ (mem_word.mpr ⟨c, _, rfl, hc, hrun⟩) hlongest ?_
    · rw [wordToken, hlookup]
      rfl
    · intro q hq hstart hw
      rcases hother q hq hstart with rfl | ⟨entry, hentry, rfl⟩
      · exact .inl rfl
      · obtain ⟨hkeyword, -⟩ := keyword_of_letter hentry hw.symm hc
        have hw : c :: cs.takeWhile isWordPart = entry.1.toList := hw
        rw [hw, String.ofList_toList] at hlookup
        have hne := List.lookup_eq_none_iff.mp hlookup entry hkeyword
        exact absurd hne (by simp)

section Numbers

private theorem takeWhile_point {run : List Char} (hrun : ∀ d ∈ run, isNumberPart d = true)
    (rest : List Char) :
    (run ++ '.' :: rest).takeWhile isNumberPart = run ∧
      (run ++ '.' :: rest).dropWhile isNumberPart = '.' :: rest := by
  rw [List.takeWhile_append_of_pos hrun, List.dropWhile_append_of_pos hrun]
  exact ⟨List.append_nil run, rfl⟩

/-- No number without a point is one with a point. -/
theorem not_mem_point {w : List Char} (hw : w ∈ Rule.whole.language) :
    w ∉ Rule.point.language := by
  intro hpoint
  obtain ⟨c, cs, rfl, -, hcs⟩ := mem_whole.mp hw
  obtain ⟨_, run, fraction, heq, -⟩ := mem_point.mp hpoint
  obtain ⟨-, rfl⟩ := List.cons.inj heq
  have hdot := hcs '.' (List.mem_append_right _ List.mem_cons_self)
  cases hdot

/-- Only the two kinds of numbers begin with a digit. -/
theorem eq_whole_or_point {q : Rule} (hc : c.isDigit = true)
    (hq : q.startsWith (firstKind c) = true) : q = .whole ∨ q = .point := by
  rw [firstKind_digit hc] at hq
  cases q <;> first | exact .inl rfl | exact .inr rfl | cases hq

/-- What follows the first digit of a whole number is no longer than the run of digits. -/
theorem length_le_of_whole {w : List Char} (hw : c :: w ∈ Rule.whole.language)
    (hbegins : w <+: cs) :
    w.length ≤ (cs.takeWhile isNumberPart).length := by
  obtain ⟨_, _, heq, -, hrun⟩ := mem_whole.mp hw
  obtain ⟨-, rfl⟩ := List.cons.inj heq
  exact length_le_of_begins hbegins hrun

/-- A number with a point goes on with a point behind the run of digits. -/
theorem exists_of_point {w : List Char} (hw : c :: w ∈ Rule.point.language) (hbegins : w <+: cs) :
    ∃ rest, cs.dropWhile isNumberPart = '.' :: rest ∧
      w.length ≤ (cs.takeWhile isNumberPart).length + 1 +
        (rest.takeWhile isNumberPart).length := by
  obtain ⟨_, run, fraction, heq, -, hrun, hfraction⟩ := mem_point.mp hw
  obtain ⟨-, rfl⟩ := List.cons.inj heq
  obtain ⟨rest, rfl⟩ := hbegins
  rw [List.append_assoc, List.cons_append]
  obtain ⟨htake, hdrop⟩ := takeWhile_point hrun (fraction ++ rest)
  have hlength := length_le_of_begins (List.prefix_append fraction rest) hfraction
  refine ⟨_, hdrop, ?_⟩
  rw [htake, List.length_append, List.length_cons]
  omega

/-- A number is taken apart at its point. -/
theorem read_point {run : List Char} (hc : c.isDigit = true)
    (hrun : ∀ d ∈ run, isNumberPart d = true) (fraction : List Char) :
    let w := c :: (run ++ '.' :: fraction)
    floatToken (w.takeWhile (· != '.')) (w.dropWhile (· != '.')).tail =
      floatToken (c :: run) fraction := by
  have hne : ∀ d ∈ c :: run, (d != '.') = true := by
    intro d hd
    rw [bne_iff_ne]
    rintro rfl
    rcases List.mem_cons.mp hd with rfl | hd
    · cases hc
    · cases hrun _ hd
  have hcons : c :: (run ++ '.' :: fraction) = (c :: run) ++ '.' :: fraction := rfl
  rw [hcons]
  simp only [List.takeWhile_append_of_pos hne, List.dropWhile_append_of_pos hne]
  simp

private theorem longestMatch_digit (hc : c.isDigit = true) :
    LongestMatch (firstSegment c cs) (cs.drop (piece c cs).extra) := by
  have hrun : ∀ d ∈ cs.takeWhile isNumberPart, isNumberPart d = true :=
    fun d hd => List.mem_takeWhile_imp hd
  have hpiece : piece c cs = numberPiece c cs := piece_of_digit hc
  by_cases hpoint : (cs.dropWhile isNumberPart).head? = some '.'
  · obtain ⟨rest, hrest⟩ := List.head?_eq_some_iff.mp hpoint
    rw [numberPiece_of_point hrest] at hpiece
    have htake : cs.take ((cs.takeWhile isNumberPart).length + 1 +
        (rest.takeWhile isNumberPart).length) =
        cs.takeWhile isNumberPart ++ '.' :: rest.takeWhile isNumberPart := by
      have hsplit := cs.takeWhile_append_dropWhile (p := isNumberPart)
      rw [hrest, ← rest.takeWhile_append_dropWhile (p := isNumberPart), ← List.cons_append,
        ← List.append_assoc] at hsplit
      have hlength : (cs.takeWhile isNumberPart).length + 1 +
          (rest.takeWhile isNumberPart).length =
          (cs.takeWhile isNumberPart ++ '.' :: rest.takeWhile isNumberPart).length := by
        rw [List.length_append, List.length_cons]
        omega
      rw [hlength]
      exact (List.prefix_iff_eq_take.mp ⟨_, hsplit⟩).symm
    have hfits : c :: (cs.takeWhile isNumberPart ++ '.' :: rest.takeWhile isNumberPart) ∈
        Rule.point.language :=
      mem_point.mpr ⟨c, _, _, rfl, hc, hrun, fun d hd => List.mem_takeWhile_imp hd⟩
    refine longestMatch_of_piece (r := .point) hpiece htake (by decide +kernel) ?_ hfits ?_ ?_
    · exact congrArg Outcome.token (read_point hc hrun _)
    · intro q _ hq w hw hbegins
      rw [List.length_append, List.length_cons]
      rcases eq_whole_or_point hc hq with rfl | rfl
      · have hlength := length_le_of_whole hw hbegins
        omega
      · obtain ⟨rest', hrest', hlength⟩ := exists_of_point hw hbegins
        obtain ⟨-, rfl⟩ := List.cons.inj (hrest.symm.trans hrest')
        omega
    · intro q _ hq hw
      rcases eq_whole_or_point hc hq with rfl | rfl
      · exact absurd hfits (not_mem_point hw)
      · exact .inl rfl
  · rw [numberPiece_of_whole hpoint] at hpiece
    have hfits : c :: cs.takeWhile isNumberPart ∈ Rule.whole.language :=
      mem_whole.mpr ⟨c, _, rfl, hc, hrun⟩
    refine longestMatch_of_piece (r := .whole) hpiece (take_length_takeWhile isNumberPart)
      (by decide +kernel) rfl hfits ?_ ?_
    · intro q _ hq w hw hbegins
      rcases eq_whole_or_point hc hq with rfl | rfl
      · exact length_le_of_whole hw hbegins
      · obtain ⟨rest, hrest, -⟩ := exists_of_point hw hbegins
        exact absurd (congrArg List.head? hrest) hpoint
    · intro q _ hq hw
      rcases eq_whole_or_point hc hq with rfl | rfl
      · exact .inl rfl
      · exact absurd hw (not_mem_point hfits)

end Numbers

section Texts

open Quoted

/-- What a quoted text is made of is read, whatever follows. -/
theorem read_body {body : List Char} (h : body ∈ textUnit∗) :
    ∃ decoded, ∀ rest, read (body ++ rest) =
      ⟨(read rest).taken + body.length, (read rest).content.map (decoded ++ ·)⟩ := by
  obtain ⟨units, rfl⟩ := TextUnit.mem_kstar_textUnit.mp h
  exact ⟨_, TextUnit.read_flatMap_source units⟩

/-- Behind a quote there is a text that is closed, or one that breaks off. -/
theorem exists_body (cs : List Char) : ∃ body ∈ textUnit∗, ∃ rest,
    cs = body ++ rest ∧ ((∃ more, rest = quoteMark :: more) ∨ read rest = .broken) := by
  fun_induction read cs with
  | case1 => exact ⟨[], Language.nil_mem_kstar _, [], rfl, .inr rfl⟩
  | case2 cs => exact ⟨[], Language.nil_mem_kstar _, _, rfl, .inl ⟨cs, rfl⟩⟩
  | case3 => exact ⟨[], Language.nil_mem_kstar _, _, rfl, .inr rfl⟩
  | case4 => exact ⟨[], Language.nil_mem_kstar _, _, rfl, .inr rfl⟩
  | case5 d cs hd hquote ih =>
    obtain ⟨body, hbody, rest, rfl, hrest⟩ := ih
    refine ⟨_, append_mem_kstar (x := [escapeMark, d]) (.inr ?_) hbody, rest, rfl, hrest⟩
    exact mem_oneOf_mul.mpr ⟨_, _, rfl, rfl, d, hd, rfl⟩
  | case6 c cs hquote hescape ih =>
    obtain ⟨body, hbody, rest, rfl, hrest⟩ := ih
    refine ⟨_, append_mem_kstar (x := [c]) (.inl ?_) hbody, rest, rfl, hrest⟩
    exact ⟨c, not_or.mpr ⟨hquote, hescape⟩, rfl⟩

private theorem eq_closedText_or_openText {q : Rule}
    (hq : q.startsWith (firstKind quoteMark) = true) : q = .closedText ∨ q = .openText := by
  have hkind : firstKind quoteMark = .quote := rfl
  rw [hkind] at hq
  cases q <;> first | exact .inl rfl | exact .inr rfl | cases hq

/-- A closed text at the front is read to its end. -/
theorem read_of_closedText {w : List Char} (hw : quoteMark :: w ∈ Rule.closedText.language)
    (hbegins : w <+: cs) :
    (Quoted.read cs).taken = w.length ∧
      (Quoted.read cs).content = (Quoted.read w).content ∧ (Quoted.read w).content.isSome := by
  obtain ⟨body, heq, hbody⟩ := mem_closedText.mp hw
  obtain ⟨-, rfl⟩ := List.cons.inj heq
  obtain ⟨rest, rfl⟩ := hbegins
  obtain ⟨decoded, hdecoded⟩ := read_body hbody
  rw [List.append_assoc, List.singleton_append, hdecoded, hdecoded, read_quoteMark, read_quoteMark,
    List.length_append]
  exact ⟨Nat.add_comm .., rfl, rfl⟩

private theorem length_le_of_quoted {q : Rule} (hq : q.startsWith (firstKind quoteMark) = true)
    {w : List Char} (hw : quoteMark :: w ∈ q.language) (hbegins : w <+: cs) :
    w.length ≤ (Quoted.read cs).taken := by
  rcases eq_closedText_or_openText hq with rfl | rfl
  · rw [(read_of_closedText hw hbegins).1]
  · obtain ⟨body, heq, hbody⟩ := mem_openText.mp hw
    obtain ⟨-, rfl⟩ := List.cons.inj heq
    obtain ⟨rest, rfl⟩ := hbegins
    obtain ⟨decoded, hdecoded⟩ := read_body hbody
    rw [hdecoded]
    exact Nat.le_add_left ..

private theorem longestMatch_quote :
    LongestMatch (firstSegment quoteMark cs) (cs.drop (piece quoteMark cs).extra) := by
  obtain ⟨body, hbody, rest, hcs, hrest⟩ := exists_body cs
  obtain ⟨decoded, hdecoded⟩ := read_body hbody
  have hread := hdecoded rest
  rw [← hcs] at hread
  rcases hrest with ⟨more, rfl⟩ | hbroken
  · have hbegins : body ++ [quoteMark] <+: cs := ⟨more, by rw [hcs, List.append_assoc]; rfl⟩
    have hfits : quoteMark :: (body ++ [quoteMark]) ∈ Rule.closedText.language :=
      mem_closedText.mpr ⟨body, rfl, hbody⟩
    obtain ⟨htaken, hcontent, -⟩ := read_of_closedText hfits hbegins
    rw [read_quoteMark, Option.map_some, List.append_nil] at hread
    have hpiece : piece quoteMark cs =
        .ofToken (Quoted.read cs).taken (.text (String.ofList decoded)) := by
      rw [piece_quoteMark, quotedPiece, hread]
    refine longestMatch_of_piece (r := .closedText) hpiece ?_ (by decide +kernel) ?_ hfits ?_ ?_
    · rw [htaken]
      exact (List.prefix_iff_eq_take.mp hbegins).symm
    · rw [Rule.read, List.tail_cons, ← hcontent, hread]
      rfl
    · intro q _ hq w hw hw'
      rw [← htaken]
      exact length_le_of_quoted hq hw hw'
    · intro q _ hq _
      rcases eq_closedText_or_openText hq with rfl | rfl
      · exact .inl rfl
      · exact .inr Nat.zero_lt_one
  · have hbegins : body <+: cs := ⟨rest, hcs.symm⟩
    rw [hbroken, Reading.broken, Nat.zero_add, Option.map_none] at hread
    have hpiece : piece quoteMark cs = ⟨body.length, .fault .unterminated⟩ := by
      rw [piece_quoteMark, quotedPiece, hread]
    refine longestMatch_of_piece (r := .openText) hpiece
      (List.prefix_iff_eq_take.mp hbegins).symm (by decide +kernel) rfl
      (mem_openText.mpr ⟨body, rfl, hbody⟩) ?_ ?_
    · intro q _ hq w hw hw'
      have hlength := length_le_of_quoted hq hw hw'
      rwa [hread] at hlength
    · intro q _ hq hw
      rcases eq_closedText_or_openText hq with rfl | rfl
      · obtain ⟨-, hcontent, hsome⟩ := read_of_closedText hw hbegins
        rw [← hcontent, hread] at hsome
        cases hsome
      · exact .inl rfl

end Texts

section Signs

/-- Only a comment is skipped that starts with a sign. -/
theorem comment_of_skip {w : List Char} (hc : firstKind c = .sign)
    (hw : c :: w ∈ Rule.skip.language) :
    ∃ rest, c = '/' ∧ w = '/' :: rest ∧ ∀ d ∈ rest, d ≠ '\n' := by
  rcases mem_skip.mp hw with ⟨_, _, heq, hseparator, -⟩ | ⟨rest, heq, hrest⟩
  · obtain ⟨rfl, rfl⟩ := List.cons.inj heq
    rw [firstKind_separator hseparator] at hc
    cases hc
  · obtain ⟨rfl, rfl⟩ := List.cons.inj heq
    exact ⟨rest, rfl, rfl, hrest⟩

private theorem eq_skip_or_fixed {q : Rule} (hc : firstKind c = .sign) (hq : q ∈ rules)
    (hstart : q.startsWith (firstKind c) = true) :
    q = .skip ∨ ∃ entry ∈ fixedTexts, q = .fixed entry.1 entry.2 := by
  rw [hc] at hstart
  cases q with
  | skip => exact .inl rfl
  | fixed text token => exact .inr ⟨_, fixed_mem_rules.mp hq, rfl⟩
  | _ => cases hstart

private theorem longestMatch_comment :
    LongestMatch (firstSegment '/' ('/' :: cs))
      (('/' :: cs).drop (piece '/' ('/' :: cs)).extra) := by
  have hkind : firstKind '/' = .sign := rfl
  have hpiece : piece '/' ('/' :: cs) = ⟨1 + (cs.takeWhile (· != '\n')).length, .skipped⟩ := rfl
  have hfits : '/' :: '/' :: cs.takeWhile (· != '\n') ∈ Rule.skip.language :=
    mem_skip.mpr (.inr ⟨_, rfl, fun d hd => by simpa using List.mem_takeWhile_imp hd⟩)
  refine longestMatch_of_piece (r := .skip) hpiece ?_ (by decide +kernel) rfl hfits ?_ ?_
  · rw [Nat.add_comm, List.take_succ_cons, take_length_takeWhile]
  · intro q hq hstart w hw hbegins
    rcases eq_skip_or_fixed hkind hq hstart with rfl | ⟨entry, hentry, rfl⟩
    · obtain ⟨rest, -, rfl, hrest⟩ := comment_of_skip hkind hw
      obtain ⟨-, hbegins⟩ := List.cons_prefix_cons.mp hbegins
      exact Nat.succ_le_succ (length_le_of_begins hbegins fun d hd => bne_iff_ne.mpr (hrest d hd))
    · rcases (fixed_sign hentry hw.symm hkind).2 with rfl | ⟨d, -, rfl⟩ <;> simp
  · intro q hq hstart hw
    rcases eq_skip_or_fixed hkind hq hstart with rfl | ⟨entry, hentry, rfl⟩
    · exact .inl rfl
    · rcases (fixed_sign hentry hw.symm hkind).2 with h | ⟨d, hd, h⟩
      · cases h
      · obtain ⟨rfl, -⟩ := List.cons.inj h
        exact absurd hd (by decide)

/-- The fixed texts that can stand in front of a sign and what follows it. -/
theorem fixed_of_sign {entry : String × Token} {w : List Char} (hc : firstKind c = .sign)
    (hentry : entry ∈ fixedTexts) (hw : c :: w = entry.1.toList) (hbegins : w <+: cs) :
    w = [] ∨ ∃ d, w = [d] ∧ cs.head?.bind (fun d => fixedTexts.lookup (String.ofList [c, d])) =
      some entry.2 := by
  rcases (fixed_sign hentry hw.symm hc).2 with rfl | ⟨d, -, rfl⟩
  · exact .inl rfl
  · obtain ⟨rest, rfl⟩ := hbegins
    refine .inr ⟨d, rfl, lookup_eq_some.mpr ?_⟩
    rwa [hw, String.ofList_toList]

private theorem not_mem_skip {w : List Char} (hc : firstKind c = .sign)
    (hcomment : ¬ (c = '/' ∧ cs.head? = some '/')) (hbegins : w <+: cs) :
    c :: w ∉ Rule.skip.language := by
  intro hw
  obtain ⟨rest, rfl, rfl, -⟩ := comment_of_skip hc hw
  obtain ⟨more, rfl⟩ := hbegins
  exact hcomment ⟨rfl, rfl⟩

/-- A fixed text is a longest match if no other one goes on at the next character. -/
theorem longestMatch_fixed {token : Token} (run : List Char) (hc : firstKind c = .sign)
    (hcomment : ¬ (c = '/' ∧ cs.head? = some '/')) (hpiece : piece c cs = .ofToken run.length token)
    (hrun : run <+: cs) (hmem : (String.ofList (c :: run), token) ∈ fixedTexts)
    (hpair : run = [] →
      cs.head?.bind (fun d => fixedTexts.lookup (String.ofList [c, d])) = none) :
    LongestMatch (firstSegment c cs) (cs.drop (piece c cs).extra) := by
  refine longestMatch_of_piece hpiece (List.prefix_iff_eq_take.mp hrun).symm
    (fixed_mem_rules.mpr hmem) rfl String.toList_ofList.symm ?_ ?_
  · intro q hq hstart w hw hbegins
    rcases eq_skip_or_fixed hc hq hstart with rfl | ⟨entry, hentry, rfl⟩
    · exact absurd hw (not_mem_skip hc hcomment hbegins)
    rcases fixed_of_sign hc hentry hw hbegins with rfl | ⟨d, rfl, hsome⟩
    · exact Nat.zero_le _
    · apply List.length_pos_iff.mpr
      intro hnil
      rw [hpair hnil] at hsome
      cases hsome
  · intro q hq hstart hw
    rcases eq_skip_or_fixed hc hq hstart with rfl | ⟨entry, hentry, rfl⟩
    · exact absurd hw (not_mem_skip hc hcomment hrun)
    · have htext : entry.1 = String.ofList (c :: run) :=
        String.toList_injective (hw.symm.trans String.toList_ofList.symm)
      cases fixedTexts_injective hentry hmem htext
      exact .inl rfl

private theorem longestMatch_invalid (hc : firstKind c = .sign)
    (hcomment : ¬ (c = '/' ∧ cs.head? = some '/')) (hpiece : piece c cs = .invalid)
    (hpair : cs.head?.bind (fun d => fixedTexts.lookup (String.ofList [c, d])) = none)
    (hsingle : fixedTexts.lookup (String.ofList [c]) = none) :
    LongestMatch (firstSegment c cs) (cs.drop (piece c cs).extra) := by
  rw [firstSegment, hpiece]
  refine .invalid fun q hq w hw hbegins => ?_
  obtain ⟨d, w, rfl, hstart⟩ := exists_startsWith hq hw
  obtain ⟨rfl, hrest⟩ := List.cons_prefix_cons.mp hbegins
  have hrest : w <+: cs := hrest
  rcases eq_skip_or_fixed hc hq hstart with rfl | ⟨entry, hentry, rfl⟩
  · exact absurd hw (not_mem_skip hc hcomment hrest)
  rcases fixed_of_sign hc hentry hw hrest with rfl | ⟨_, -, hsome⟩
  · have hsome : fixedTexts.lookup (String.ofList [d]) = some entry.2 :=
      lookup_eq_some.mpr (by rwa [hw, String.ofList_toList])
    rw [hsingle] at hsome
    cases hsome
  · rw [hpair] at hsome
    cases hsome

private theorem longestMatch_sign (hc : firstKind c = .sign) :
    LongestMatch (firstSegment c cs) (cs.drop (piece c cs).extra) := by
  by_cases hcomment : c = '/' ∧ cs.head? = some '/'
  · obtain ⟨rfl, hhead⟩ := hcomment
    obtain ⟨rest, rfl⟩ := List.head?_eq_some_iff.mp hhead
    exact longestMatch_comment
  have hpiece := piece_sign hc hcomment
  unfold longestFixed at hpiece
  cases hpair : cs.head?.bind fun d => fixedTexts.lookup (String.ofList [c, d]) with
  | some token =>
    obtain ⟨d, hhead, hlookup⟩ := Option.bind_eq_some_iff.mp hpair
    obtain ⟨rest, rfl⟩ := List.head?_eq_some_iff.mp hhead
    rw [hpair] at hpiece
    exact longestMatch_fixed [d] hc hcomment hpiece ⟨rest, rfl⟩
      (lookup_eq_some.mp hlookup) nofun
  | none =>
    rw [hpair] at hpiece
    cases hsingle : fixedTexts.lookup (String.ofList [c]) with
    | some token =>
      rw [hsingle] at hpiece
      exact longestMatch_fixed [] hc hcomment hpiece List.nil_prefix
        (lookup_eq_some.mp hsingle) fun _ => hpair
    | none =>
      rw [hsingle] at hpiece
      exact longestMatch_invalid hc hcomment hpiece hpair hsingle

end Signs

/-- The first piece of every text is a longest match. -/
theorem longestMatch_firstSegment (c : Char) (cs : List Char) :
    LongestMatch (firstSegment c cs) (cs.drop (piece c cs).extra) := by
  by_cases hseparator : isSeparator c = true
  · exact longestMatch_separator hseparator
  by_cases hletter : isWordStart c = true
  · exact longestMatch_letter hletter
  by_cases hdigit : c.isDigit = true
  · exact longestMatch_digit hdigit
  by_cases hquote : c = Quoted.quoteMark
  · subst hquote
    exact longestMatch_quote
  · apply longestMatch_sign
    rw [firstKind, if_neg hseparator, if_neg hletter, if_neg hdigit, if_neg hquote]

end Front

section Segments

/-- The tokens and faults of segments, the first of which starts at byte `offset`. -/
def placed (offset : Nat) : List Segment → List Lexeme
  | [] => []
  | segment :: rest =>
    let stop := offset + utf8Length segment.text
    segment.outcome.lexemes ⟨offset, stop⟩ ++ placed stop rest

/-- The text of segments. -/
def joined (segments : List Segment) : List Char := segments.flatMap Segment.text

/-- Each segment is a longest match in front of those that follow. -/
def LongestMatches (segments : List Segment) : Prop :=
  ∀ before segment after, segments = before ++ segment :: after →
    LongestMatch segment (joined after)

/-- A longest match goes in front of longest matches. -/
theorem LongestMatches.cons {segment : Segment} {segments : List Segment}
    (h : LongestMatch segment (joined segments)) (hrest : LongestMatches segments) :
    LongestMatches (segment :: segments) := by
  intro before other after hsplit
  cases before with
  | nil =>
    obtain ⟨rfl, rfl⟩ := List.cons.inj hsplit
    exact h
  | cons first before =>
    obtain ⟨rfl, rfl⟩ := List.cons.inj hsplit
    exact hrest before other after rfl

/-- Every text is cut into longest matches. -/
theorem exists_segments (offset : Nat) (cs : List Char) : ∃ segments,
    joined segments = cs ∧ lexemesFrom offset cs = placed offset segments ∧
      LongestMatches segments := by
  induction hn : cs.length using Nat.strong_induction_on generalizing offset cs with
  | _ n ih =>
    subst hn
    cases cs with
    | nil =>
      exact ⟨[], rfl, lexemesFrom_nil offset, fun before _ _ h => by cases before <;> cases h⟩
    | cons c cs =>
      have hlt : (cs.drop (piece c cs).extra).length < (c :: cs).length := by
        simp only [List.length_drop, List.length_cons]
        omega
      obtain ⟨segments, hjoined, hplaced, hmatches⟩ := ih _ hlt
        (offset + utf8Length (c :: cs.take (piece c cs).extra)) _ rfl
      refine ⟨firstSegment c cs :: segments, ?_, ?_, .cons ?_ hmatches⟩
      · rw [joined, List.flatMap_cons, ← joined, hjoined, firstSegment, List.cons_append,
          List.take_append_drop]
      · rw [lexemesFrom_cons, hplaced]
        rfl
      · rw [hjoined]
        exact longestMatch_firstSegment c cs

/-- A match is never empty. -/
theorem LongestMatch.text_ne_nil {segment : Segment} {rest : List Char}
    (h : LongestMatch segment rest) : segment.text ≠ [] := by
  cases h with
  | rule hr hfits _ _ =>
    obtain ⟨c, cs, rfl, -⟩ := exists_startsWith hr hfits
    exact List.cons_ne_nil c cs
  | invalid => exact List.cons_ne_nil _ _

private theorem span_of_mem_lexemes {o : Outcome} {span : Span} {l : Lexeme}
    (h : l ∈ o.lexemes span) :
    l.span = span := by
  cases o with
  | skipped => cases h
  | token t | fault f => rw [List.mem_singleton.mp h]

/-- Tokens and faults stand where their segments do. -/
theorem exists_of_mem_placed {offset : Nat} {segments : List Segment} {l : Lexeme}
    (h : l ∈ placed offset segments) : ∃ before segment after,
      segments = before ++ segment :: after ∧
        l.span = ⟨offset + utf8Length (joined before),
          offset + utf8Length (joined before) + utf8Length segment.text⟩ := by
  induction segments generalizing offset with
  | nil => cases h
  | cons segment segments ih =>
    rcases List.mem_append.mp h with hfirst | hrest
    · exact ⟨[], segment, segments, rfl, span_of_mem_lexemes hfirst⟩
    · obtain ⟨before, other, after, rfl, hspan⟩ := ih hrest
      refine ⟨segment :: before, other, after, rfl, ?_⟩
      rw [hspan, joined, joined, List.flatMap_cons, utf8Length_append]
      simp only [Nat.add_assoc]

private theorem pairwise_placed (offset : Nat) (segments : List Segment) :
    (placed offset segments).Pairwise fun l m => l.span.stop ≤ m.span.start := by
  induction segments generalizing offset with
  | nil => exact .nil
  | cons segment segments ih =>
    refine List.pairwise_append.mpr ⟨?_, ih _, ?_⟩
    · cases segment.outcome with
      | skipped => exact .nil
      | token t | fault f => exact List.pairwise_singleton ..
    · intro l hl m hm
      obtain ⟨before, _, _, -, hspan⟩ := exists_of_mem_placed hm
      rw [span_of_mem_lexemes hl, hspan]
      exact Nat.le_add_right ..

end Segments

end Datapack.Scan

namespace Datapack

open Scan

/--
Reading loses nothing and is by longest match. Every text is made up of segments,
and its tokens and faults are the segments that are not skipped, in order and at
their places. Each segment is the longest text that a rule fits in front of the
segments that follow, read by the rule of highest priority that fits it: what is
skipped goes before every token, a keyword before a word, and a closed text before
one that is open. Where no rule fits, a single character is reported as invalid.
The places are not empty, fall between characters of the text, and follow one
another without overlap.
-/
theorem lexemes_longestMatch (source : String) : ∃ segments : List Segment,
    joined segments = source.toList ∧ lexemes source = placed 0 segments ∧
      LongestMatches segments ∧
      (∀ l ∈ lexemes source, l.span.start < l.span.stop ∧ ∃ before text after : String,
        source = before ++ text ++ after ∧
          l.span = ⟨before.utf8ByteSize, (before ++ text).utf8ByteSize⟩) ∧
      (lexemes source).Pairwise fun l m => l.span.stop ≤ m.span.start := by
  obtain ⟨segments, hjoined, hplaced, hmatches⟩ := exists_segments 0 source.toList
  have hplaced : lexemes source = placed 0 segments := hplaced
  refine ⟨segments, hjoined, hplaced, hmatches, ?_, hplaced ▸ pairwise_placed 0 segments⟩
  intro l hl
  rw [hplaced] at hl
  obtain ⟨before, segment, after, hsplit, hspan⟩ := exists_of_mem_placed hl
  rw [Nat.zero_add] at hspan
  have hpos : 0 < segment.text.length :=
    List.length_pos_iff.mpr (hmatches before segment after hsplit).text_ne_nil
  have hwidth := length_le_utf8Length segment.text
  refine ⟨?_, String.ofList (joined before), String.ofList segment.text,
    String.ofList (joined after), ?_, ?_⟩
  · rw [hspan]
    dsimp only
    omega
  · rw [← String.ofList_append, ← String.ofList_append, ← String.ofList_toList (s := source),
      ← hjoined, hsplit]
    simp [joined]
  · rw [hspan, ← String.ofList_append, ← utf8Length_eq_utf8ByteSize, ← utf8Length_eq_utf8ByteSize,
      utf8Length_append]

end Datapack
