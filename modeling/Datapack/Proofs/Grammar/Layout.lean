import Datapack.Proofs.Grammar.ViablePrefix
import Datapack.Proofs.Token.Layout

/-!
# Programs in any layout

How the tokens of a program are laid out does not matter: they are read back as
they are, and the program that is read is the same. Where it is no program, the error
is the same too, and only the bytes at which it stands differ.
-/

namespace Datapack

/-- The same error without its place. -/
def ParseError.unplaced : ParseError → ParseError
  | .lexical fault _ => .lexical fault ⟨0, 0⟩
  | .unexpected expected found _ => .unexpected expected found ⟨0, 0⟩
  | .unexpectedEnd expected _ => .unexpectedEnd expected ⟨0, 0⟩
  | .unassignable kind _ => .unassignable kind ⟨0, 0⟩
  | .uncreatable name _ => .uncreatable name ⟨0, 0⟩

/-- Up to its place, an error depends on where and why reading got stuck, and on nothing else. -/
theorem unplaced_ofStuck (placed placed' : List Placed) (stop stop' : Nat)
    (stuck : Grammar.Stuck) : (ParseError.ofStuck placed stop stuck).unplaced =
      (ParseError.ofStuck placed' stop' stuck).unplaced := by
  obtain ⟨fault, rest⟩ := stuck
  cases fault with
  | expected what => cases rest <;> rfl
  | unassignable kind target => rfl
  | uncreatable name => rfl

/-- The places of tokens do not matter for what they are read as. -/
theorem mapError_parseTokens {placed placed' : List Placed}
    (h : placed.map Placed.token = placed'.map Placed.token) (stop stop' : Nat) :
    (parseTokens placed stop).mapError ParseError.unplaced =
      (parseTokens placed' stop').mapError ParseError.unplaced := by
  cases hread : Grammar.statements (placed.map Placed.token) with
  | ok nodes =>
    have hread' := hread
    rw [h] at hread'
    rw [parseTokens_eq_ok.mpr hread, parseTokens_eq_ok.mpr hread']
  | error stuck =>
    have hread' := hread
    rw [h] at hread'
    rw [parseTokens_of_error hread, parseTokens_of_error hread', Except.mapError, Except.mapError,
      unplaced_ofStuck]

/--
Writable tokens are read back from any layout of them: from their source forms with
blanks and comments between each two, as long as a blank comes first. And all layouts
of the same tokens are read as the same program, or refused with the same error.
-/
theorem lexemes_laidOut {ts : List Token} {source : String}
    (hts : ∀ t ∈ ts, t.isWritable = true) (hsource : LaidOut ts source.toList) :
    (lexemes source).map Lexeme.item = ts.map Except.ok ∧
      ∀ other : String, LaidOut ts other.toList →
        (parse source).mapError ParseError.unplaced =
          (parse other).mapError ParseError.unplaced := by
  have hitems := hsource.map_item hts 0
  refine ⟨hitems, ?_⟩
  intro other hother
  obtain ⟨placed, hplaced, htokens⟩ := placedTokens_of_tokens hitems
  obtain ⟨placed', hplaced', htokens'⟩ := placedTokens_of_tokens (hother.map_item hts 0)
  rw [parse_eq_parseTokens hplaced, parse_eq_parseTokens hplaced']
  exact mapError_parseTokens (htokens.trans htokens'.symm) _ _

/-- A text with a quote and slashes in it, a slash in front of a comment, and a minus sign behind
the comment, in two layouts. -/
theorem lexemes_laidOut_comment :
    (lexemes "'it\\'s //'\t/ // -\n- 1").map Lexeme.item =
        [.ok (.text "it's //"), .ok (.operation .div), .ok (.operation .sub), .ok (.integer 1)] ∧
      (parse "'it\\'s //'\t/ // -\n- 1").mapError ParseError.unplaced =
        (parse "'it\\'s //' / - 1").mapError ParseError.unplaced := by
  have hsingle : ∀ c, c ∈ Scan.blanks → [c] ∈ Scan.gap := fun c hc =>
    Scan.mem_oneOf_mul.mpr ⟨c, [], rfl, hc, Language.nil_mem_kstar _⟩
  have hspace : [' '] ∈ Scan.gap := hsingle ' ' (.inl rfl)
  have htab : ['\t'] ∈ Scan.gap := hsingle '\t' (.inr (.inl rfl))
  have hcomment : " // -\n".toList ∈ Scan.gap := by
    have hline : "// -\n".toList ∈ Scan.lineComment :=
      Scan.mem_lineComment.mpr ⟨[' ', '-'], rfl, by simp⟩
    have hskip : "// -\n".toList ∈ Scan.oneOf Scan.blanks + Scan.lineComment := .inr hline
    refine Scan.mem_oneOf_mul.mpr ⟨' ', "// -\n".toList, rfl, .inl rfl, ?_⟩
    exact Scan.append_mem_kstar hskip (Language.nil_mem_kstar _)
  have hts : ∀ t ∈ [Token.text "it's //", .operation .div, .operation .sub, .integer 1],
      t.isWritable = true := by decide
  have hsource : LaidOut [.text "it's //", .operation .div, .operation .sub, .integer 1]
      "'it\\'s //'\t/ // -\n- 1".toList := .next htab (.next hcomment (.next hspace (.last _)))
  have hother : LaidOut [.text "it's //", .operation .div, .operation .sub, .integer 1]
      "'it\\'s //' / - 1".toList := .next hspace (.next hspace (.next hspace (.last _)))
  obtain ⟨hitems, hparse⟩ := lexemes_laidOut hts hsource
  exact ⟨hitems, hparse _ hother⟩

end Datapack
