import Datapack.Proofs.Token.Patterns

/-!
# What a quoted text stands for

The content of a closed text is made of units, in one way only: characters that
stand for themselves, and escapes, which stand for one character each. Reading
finds the same units. It never breaks off inside a closed text, ends at the last
quote and not before, and gives the characters that the units stand for.
-/

namespace Datapack

open Computability Scan

/-- A unit of a quoted text. -/
inductive TextUnit where
  | plain (c : Char) (not_quote : c ≠ Quoted.quoteMark) (not_escape : c ≠ Quoted.escapeMark)
  | escaped (c : Char) (not_newline : c ≠ '\n')

namespace TextUnit

/-- How the unit is written. -/
def source : TextUnit → List Char
  | .plain c _ _ => [c]
  | .escaped c _ => [Quoted.escapeMark, c]

/-- The character that the unit stands for. -/
def meaning : TextUnit → Char
  | .plain c _ _ => c
  | .escaped 't' _ => '\t'
  | .escaped 'n' _ => '\n'
  | .escaped 'r' _ => '\r'
  | .escaped c _ => c

/-- Units between quotes. -/
def quoted (units : List TextUnit) : List Char :=
  Quoted.quoteMark :: (units.flatMap source ++ [Quoted.quoteMark])

private theorem mem_textUnit {w : List Char} : w ∈ textUnit ↔ ∃ u : TextUnit, u.source = w := by
  constructor
  · rintro (⟨c, hc, rfl⟩ | hescape)
    · obtain ⟨hquote, hescape⟩ := not_or.mp hc
      exact ⟨.plain c hquote hescape, rfl⟩
    · obtain ⟨_, _, rfl, rfl, c, hc, rfl⟩ := mem_oneOf_mul.mp hescape
      exact ⟨.escaped c hc, rfl⟩
  · rintro ⟨u, rfl⟩
    cases u with
    | plain c hquote hescape => exact .inl ⟨c, not_or.mpr ⟨hquote, hescape⟩, rfl⟩
    | escaped c hc => exact .inr (mem_oneOf_mul.mpr ⟨_, _, rfl, rfl, c, hc, rfl⟩)

/-- A repetition of the unit pattern is cut into units. -/
theorem mem_kstar_textUnit {body : List Char} :
    body ∈ textUnit∗ ↔ ∃ units : List TextUnit, units.flatMap source = body := by
  constructor
  · intro h
    obtain ⟨parts, rfl, hparts⟩ := Language.mem_kstar.mp h
    clear h
    induction parts with
    | nil => exact ⟨[], rfl⟩
    | cons part parts ih =>
      obtain ⟨hpart, hrest⟩ := List.forall_mem_cons.mp hparts
      obtain ⟨u, hu⟩ := mem_textUnit.mp hpart
      obtain ⟨units, hunits⟩ := ih hrest
      refine ⟨u :: units, ?_⟩
      rw [List.flatMap_cons, hu, hunits, List.flatten_cons]
  · rintro ⟨units, rfl⟩
    induction units with
    | nil => exact Language.nil_mem_kstar _
    | cons u units ih => exact append_mem_kstar (mem_textUnit.mpr ⟨u, rfl⟩) ih

/-- The first character tells an escape from other units, so that a row of units is written in one
way only. -/
theorem flatMap_source_injective : Function.Injective (List.flatMap source) := by
  intro units
  induction units with
  | nil =>
    intro others h
    cases others with
    | nil => rfl
    | cons u others => cases u <;> cases h
  | cons u units ih =>
    intro others h
    cases others with
    | nil => cases u <;> cases h
    | cons v others =>
      cases u with
      | plain c _ hc =>
        cases v with
        | plain d =>
          obtain ⟨rfl, hrest⟩ := List.cons.inj h
          rw [ih hrest]
        | escaped d => exact absurd (List.cons.inj h).1 hc
      | escaped c =>
        cases v with
        | plain d _ hd => exact absurd (List.cons.inj h).1.symm hd
        | escaped d =>
          obtain ⟨rfl, hrest⟩ := List.cons.inj (List.cons.inj h).2
          rw [ih hrest]

private theorem quoted_injective : Function.Injective quoted := by
  intro units others h
  exact flatMap_source_injective (List.append_cancel_right (List.cons.inj h).2)

/-- A closed text is a row of units between quotes. -/
theorem mem_closedText_iff {w : List Char} :
    w ∈ Rule.closedText.language ↔ ∃ units, w = quoted units := by
  rw [mem_closedText]
  constructor
  · rintro ⟨body, rfl, hbody⟩
    obtain ⟨units, rfl⟩ := mem_kstar_textUnit.mp hbody
    exact ⟨units, rfl⟩
  · rintro ⟨units, rfl⟩
    exact ⟨_, rfl, mem_kstar_textUnit.mpr ⟨units, rfl⟩⟩

private theorem meaning_escaped {c : Char} (h : c ≠ '\n') :
    (escaped c h).meaning = Quoted.unescape c := by
  by_cases htab : c = 't'
  · subst htab
    rfl
  by_cases hnewline : c = 'n'
  · subst hnewline
    rfl
  by_cases hreturn : c = 'r'
  · subst hreturn
    rfl
  simp only [meaning, Quoted.unescape]

/-- Reading gets over a unit and notes the character that the unit stands for. -/
theorem read_source (u : TextUnit) (rest : List Char) :
    Quoted.read (u.source ++ rest) = (Quoted.read rest).extend u.source.length u.meaning := by
  cases u with
  | plain c hquote hescape => exact Quoted.read_plain hquote hescape rest
  | escaped c hc =>
    rw [meaning_escaped]
    exact Quoted.read_escapeMark hc rest

/-- Reading gets over units one by one. -/
theorem read_flatMap_source (units : List TextUnit) (rest : List Char) :
    Quoted.read (units.flatMap source ++ rest) =
      ⟨(Quoted.read rest).taken + (units.flatMap source).length,
        (Quoted.read rest).content.map (units.map meaning ++ ·)⟩ := by
  induction units with
  | nil => simp
  | cons u units ih =>
    rw [List.flatMap_cons, List.append_assoc, read_source, ih]
    simp [Quoted.Reading.extend, Nat.add_assoc, Nat.add_comm u.source.length, Function.comp_def]

/-- Whatever follows, reading ends at the closing quote. -/
theorem read_quoted (units : List TextUnit) (rest : List Char) :
    Quoted.read ((quoted units).tail ++ rest) =
      ⟨(quoted units).tail.length, some (units.map meaning)⟩ := by
  rw [quoted, List.tail_cons, List.append_assoc, List.singleton_append, read_flatMap_source,
    Quoted.read_quoteMark, List.length_append, Nat.add_comm]
  simp

/-- An escaped content is made of units. -/
theorem exists_flatMap_source_eq_escape (content : List Char) :
    ∃ units : List TextUnit, units.flatMap source = Quoted.escape content := by
  induction content with
  | nil => exact ⟨[], rfl⟩
  | cons c content ih =>
    obtain ⟨units, hunits⟩ := ih
    rw [Quoted.escape, ← hunits]
    split_ifs with hc
    · have hnewline : c ≠ '\n' := by rcases hc with rfl | rfl <;> decide
      exact ⟨.escaped c hnewline :: units, rfl⟩
    · obtain ⟨hquote, hescape⟩ := not_or.mp hc
      exact ⟨.plain c hquote hescape :: units, rfl⟩

end TextUnit

/--
A closed text is a row of units between quotes, in one way only. Reading it behind
the first quote does not break off; it takes all of the text, so that it ends at
the last quote; and the content is the row of characters that the units stand for.
Nothing that follows the text makes a difference to the token that is read. The
source form of every content is a closed text and has that content.
-/
theorem closedText_decoded :
    (∀ w ∈ Rule.closedText.language, (∃! units, w = TextUnit.quoted units) ∧
      ∀ units, w = TextUnit.quoted units →
        Quoted.read w.tail = ⟨w.tail.length, some (units.map TextUnit.meaning)⟩ ∧
        ∀ rest, piece Quoted.quoteMark (w.tail ++ rest) =
          .ofToken w.tail.length (.text (String.ofList (units.map TextUnit.meaning)))) ∧
    ∀ content : String, (Token.text content).source ∈ Rule.closedText.language ∧
      Quoted.read (Token.text content).source.tail =
        ⟨(Token.text content).source.tail.length, some content.toList⟩ := by
  constructor
  · intro w hw
    obtain ⟨units, rfl⟩ := TextUnit.mem_closedText_iff.mp hw
    refine ⟨⟨units, rfl, fun others h => TextUnit.quoted_injective h.symm⟩, fun others h => ?_⟩
    obtain rfl := TextUnit.quoted_injective h
    constructor
    · have hread := TextUnit.read_quoted units []
      rwa [List.append_nil] at hread
    · intro rest
      rw [piece_quoteMark, quotedPiece, TextUnit.read_quoted]
  · intro content
    obtain ⟨units, hunits⟩ := TextUnit.exists_flatMap_source_eq_escape content.toList
    constructor
    · refine TextUnit.mem_closedText_iff.mpr ⟨units, ?_⟩
      rw [TextUnit.quoted, hunits]
      rfl
    · rw [Token.source, List.tail_cons, Quoted.read_escape, List.length_append]
      rfl

/-- A backslash and a quote, both escaped, in front of an escape that stands for a newline. -/
theorem closedText_decoded_backslashes :
    "'a\\\\\\'\\n'".toList ∈ Rule.closedText.language ∧
      Quoted.read "a\\\\\\'\\n'".toList = ⟨8, some "a\\'\n".toList⟩ := by
  let units : List TextUnit := [.plain 'a' (by decide) (by decide), .escaped '\x5c' (by decide),
    .escaped '\x27' (by decide), .escaped 'n' (by decide)]
  have hmem : "'a\\\\\\'\\n'".toList ∈ Rule.closedText.language :=
    TextUnit.mem_closedText_iff.mpr ⟨units, rfl⟩
  exact ⟨hmem, ((closedText_decoded.1 _ hmem).2 units rfl).1⟩

end Datapack
