import Datapack.Proofs.Token.Lines
import Datapack.Proofs.Token.Patterns

/-!
# Tokens in any layout

Writable tokens are read back from their source forms, whatever stands between
them, as long as it is made of blanks and comments and starts with a blank. The
blank ends the token in front of it; what follows is skipped piece by piece.
-/

namespace Datapack

namespace Scan

open Computability

/-- A comment with the newline that ends it. -/
def lineComment : Language Char :=
  oneOf {'/'} * (oneOf {'/'} * ((oneOf {'\n'}ᶜ)∗ * oneOf {'\n'}))

/-- What may stand between two tokens: a blank, and then blanks and comments in any order. -/
def gap : Language Char := oneOf blanks * (oneOf blanks + lineComment)∗

/-- A line comment runs from two slashes to the first newline, which it includes. -/
theorem mem_lineComment {w : List Char} : w ∈ lineComment ↔
    ∃ body, w = '/' :: '/' :: (body ++ ['\n']) ∧ ∀ c ∈ body, c ≠ '\n' := by
  rw [lineComment, mem_oneOf_mul]
  constructor
  · rintro ⟨_, _, rfl, rfl, hrest⟩
    obtain ⟨_, _, rfl, rfl, body, hbody, _, ⟨_, rfl, rfl⟩, rfl⟩ := mem_oneOf_mul.mp hrest
    exact ⟨body, rfl, mem_kstar_oneOf.mp hbody⟩
  · rintro ⟨body, rfl, hbody⟩
    have hend : ['\n'] ∈ oneOf {'\n'} := ⟨'\n', rfl, rfl⟩
    have htail := Language.append_mem_mul (mem_kstar_oneOf.mpr hbody) hend
    exact ⟨'/', _, rfl, rfl, mem_oneOf_mul.mpr ⟨'/', _, rfl, rfl, htail⟩⟩

section Skipping

variable {w : List Char} (offset : Nat) (rest : List Char)

/-- A comment is skipped up to the newline that ends it. -/
theorem lexemesFrom_comment {body : List Char} (hbody : ∀ c ∈ body, c ≠ '\n') :
    lexemesFrom offset ('/' :: '/' :: (body ++ '\n' :: rest)) =
      lexemesFrom (offset + utf8Length ('/' :: '/' :: body)) ('\n' :: rest) := by
  have htake : (body ++ '\n' :: rest).takeWhile (· != '\n') = body := by
    rw [List.takeWhile_append_of_pos (by simpa using hbody)]
    simp
  have hpiece : piece '/' ('/' :: (body ++ '\n' :: rest)) = ⟨1 + body.length, .skipped⟩ := by
    change slashPiece ('/' :: (body ++ '\n' :: rest)) = _
    rw [slashPiece, htake]
  rw [lexemesFrom_cons, hpiece, Nat.add_comm 1]
  simp [Outcome.lexemes]

/-- A blank or a comment adds nothing to what is read. -/
theorem map_item_skip (hw : w ∈ oneOf blanks + lineComment) :
    (lexemesFrom offset (w ++ rest)).map Lexeme.item =
      (lexemesFrom offset rest).map Lexeme.item := by
  have hnewline : isSeparator '\n' = true := by decide
  rcases hw with ⟨c, hc, rfl⟩ | hcomment
  · rw [List.singleton_append, lexemesFrom_separator (mem_blanks.mp hc)]
    exact map_item_lexemesFrom ..
  · obtain ⟨body, rfl, hbody⟩ := mem_lineComment.mp hcomment
    rw [List.cons_append, List.cons_append, List.append_assoc, List.singleton_append,
      lexemesFrom_comment _ _ hbody, lexemesFrom_separator hnewline]
    exact map_item_lexemesFrom ..

/-- What stands between tokens adds nothing to what is read. -/
theorem map_item_gap (hw : w ∈ gap) :
    (lexemesFrom offset (w ++ rest)).map Lexeme.item =
      (lexemesFrom offset rest).map Lexeme.item := by
  obtain ⟨c, cs, rfl, hc, hcs⟩ := mem_oneOf_mul.mp hw
  obtain ⟨skips, rfl, hskips⟩ := Language.mem_kstar.mp hcs
  have hfirst : [c] ∈ oneOf blanks + lineComment := .inl ⟨c, hc, rfl⟩
  have hall : ∀ skip ∈ [c] :: skips, skip ∈ oneOf blanks + lineComment :=
    List.forall_mem_cons.mpr ⟨hfirst, hskips⟩
  have hjoin : c :: skips.flatten = ([c] :: skips).flatten := rfl
  rw [hjoin]
  generalize [c] :: skips = parts at hall
  induction parts with
  | nil => rfl
  | cons part parts ih =>
    obtain ⟨hpart, hparts⟩ := List.forall_mem_cons.mp hall
    rw [List.flatten_cons, List.append_assoc, map_item_skip _ _ hpart, ih hparts]

/-- What stands between tokens ends the token in front of it. -/
theorem head?_gap (hw : w ∈ gap) : (w ++ rest).head?.all isSeparator = true := by
  obtain ⟨c, cs, rfl, hc, -⟩ := mem_oneOf_mul.mp hw
  exact mem_blanks.mp hc

end Skipping

end Scan

/-- `LaidOut ts cs`: the text `cs` is made of the source forms of the tokens, in order, with a gap
between each two of them. -/
inductive LaidOut : List Token → List Char → Prop
  | empty : LaidOut [] []
  | last (t : Token) : LaidOut [t] t.source
  | next {t u : Token} {ts : List Token} {gap cs : List Char} (mem : gap ∈ Scan.gap)
      (rest : LaidOut (u :: ts) cs) : LaidOut (t :: u :: ts) (t.source ++ (gap ++ cs))

namespace LaidOut

/-- Writable tokens are read back from any layout. -/
theorem map_item {ts : List Token} {cs : List Char} (h : LaidOut ts cs)
    (hts : ∀ t ∈ ts, t.isWritable = true) (offset : Nat) :
    (Scan.lexemesFrom offset cs).map Lexeme.item = ts.map Except.ok := by
  induction h with
  | empty => simp
  | last t =>
    have hend : ([] : List Char).head?.all Scan.isSeparator = true := rfl
    have hread := Scan.map_item_source (hts t List.mem_cons_self) hend offset
    simpa using hread
  | next hgap _ ih =>
    obtain ⟨ht, hrest⟩ := List.forall_mem_cons.mp hts
    rw [Scan.map_item_source ht (Scan.head?_gap _ hgap), Scan.map_item_gap _ _ hgap, ih hrest]
    rfl

/-- A blank between each two tokens is a layout. -/
theorem intercalate (ts : List Token) : LaidOut ts ([' '].intercalate (ts.map Token.source)) := by
  have hgap : [' '] ∈ Scan.gap :=
    Scan.mem_oneOf_mul.mpr ⟨' ', [], rfl, .inl rfl, Language.nil_mem_kstar _⟩
  induction ts with
  | nil => exact .empty
  | cons t ts ih =>
    cases ts with
    | nil => simpa using LaidOut.last t
    | cons u ts => simpa using LaidOut.next hgap ih

end LaidOut

/-- Writable tokens are read back from their source form. -/
theorem lexemes_tokensSource {ts : List Token} (hts : ∀ t ∈ ts, t.isWritable = true) :
    (lexemes (tokensSource ts)).map Lexeme.item = ts.map Except.ok := by
  rw [lexemes, tokensSource, String.toList_ofList]
  exact (LaidOut.intercalate ts).map_item hts 0

end Datapack
