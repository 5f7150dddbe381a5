import Mathlib.Computability.Language
import Datapack.Proofs.Token.Cutting

/-!
# Patterns of tokens

Each rule of reading is a set of texts and says what such a text is. The rules are
those of the language, said without a scanner:

* skipped: blanks, and a comment from `//` to the end of its line
* a fixed text: a keyword, a bracket, a comma, or an operator of one or two signs
* a word: `[a-zA-Z_][a-zA-Z0-9_]*`
* a closed text: characters and escapes between quotes, and the same without the
  closing quote, which is a fault
* a whole number `[0-9][0-9_]*`, and a number with a point `[0-9][0-9_]*\.[0-9_]*`

An escape is a backslash with any character but a newline behind it.
-/

namespace Datapack.Scan

open Computability

/-- Texts of one character out of a set. -/
def oneOf (s : Set Char) : Language Char := {w | ∃ c ∈ s, w = [c]}

/-- The characters from one to another. -/
def between (first last : Char) : Set Char := {c | first ≤ c ∧ c ≤ last}

/-- The characters between tokens. -/
def blanks : Set Char := {' ', '\t', '\r', '\n', '\x0c'}

/-- The characters that words start with. -/
def letters : Set Char := between 'a' 'z' ∪ between 'A' 'Z' ∪ {'_'}

/-- The characters that numbers start with. -/
def digits : Set Char := between '0' '9'

/-- What a quoted text is made of: a character, or an escape. -/
def textUnit : Language Char :=
  oneOf {Quoted.quoteMark, Quoted.escapeMark}ᶜ + oneOf {Quoted.escapeMark} * oneOf {'\n'}ᶜ

/-- A way to read a piece of text. -/
inductive Rule where
  | skip
  | fixed (text : String) (token : Token)
  | word
  | closedText
  | openText
  | whole
  | point
  deriving DecidableEq

namespace Rule

/-- The texts that the rule fits. -/
def language : Rule → Language Char
  | .skip => oneOf blanks * (oneOf blanks)∗ + oneOf {'/'} * (oneOf {'/'} * (oneOf {'\n'}ᶜ)∗)
  | .fixed text _ => {text.toList}
  | .word => oneOf letters * (oneOf (letters ∪ digits))∗
  | .closedText => oneOf {Quoted.quoteMark} * (textUnit∗ * oneOf {Quoted.quoteMark})
  | .openText => oneOf {Quoted.quoteMark} * textUnit∗
  | .whole => oneOf digits * (oneOf (digits ∪ {'_'}))∗
  | .point => oneOf digits * ((oneOf (digits ∪ {'_'}))∗ *
      (oneOf {'.'} * (oneOf (digits ∪ {'_'}))∗))

/-- What a text is that the rule fits. -/
def read : Rule → List Char → Outcome
  | .skip, _ => .skipped
  | .fixed _ token, _ => .token token
  | .word, w => .token (.identifier (String.ofList w))
  | .closedText, w => .token (.text (String.ofList ((Quoted.read w.tail).content.getD [])))
  | .openText, _ => .fault .unterminated
  | .whole, w => integerOutcome w
  | .point, w => .token (floatToken (w.takeWhile (· != '.')) (w.dropWhile (· != '.')).tail)

/-- Of two rules that fit the same text, the one of higher priority reads it. -/
def priority : Rule → Nat
  | .skip => 2
  | .fixed .. | .closedText => 1
  | .word | .openText | .whole | .point => 0

end Rule

/-- The fixed texts with their tokens. -/
def fixedTexts : List (String × Token) :=
  [("\x7b", .leftBrace), ("\x7d", .rightBrace), ("(", .leftParen), (")", .rightParen),
    ("[", .leftBracket), ("]", .rightBracket), (",", .comma),
    ("create", .createWord), ("if", .ifWord), ("as", .asWord), ("not", .notWord),
    ("+", .operation .add), ("-", .operation .sub), ("*", .operation .mul),
    ("/", .operation .div), ("%", .operation .mod),
    ("=", .assignment .set), ("+=", .assignment .add), ("-=", .assignment .sub),
    ("*=", .assignment .mul), ("/=", .assignment .div), ("%=", .assignment .mod),
    ("++", .increment), ("--", .decrement),
    ("==", .comparison .eq), ("!=", .comparison .neq), ("<", .comparison .lt),
    ("<=", .comparison .lte), (">", .comparison .gt), (">=", .comparison .gte)]

/-- The rules of the language. -/
def rules : List Rule :=
  [.skip, .word, .closedText, .openText, .whole, .point] ++
    fixedTexts.map fun entry => .fixed entry.1 entry.2

section Classes

variable {c : Char}

/-- The blanks of the patterns are the separators. -/
theorem mem_blanks : c ∈ blanks ↔ isSeparator c = true := by
  simp [blanks, isSeparator, or_assoc]

private theorem mem_letters : c ∈ letters ↔ isWordStart c = true := by
  unfold isWordStart Char.isAlpha Char.isUpper Char.isLower
  simp only [letters, between, Set.mem_union, Set.mem_ofPred_eq, Set.mem_singleton_iff, Char.le_def,
    Bool.or_eq_true, Bool.and_eq_true, decide_eq_true_eq, beq_iff_eq, ge_iff_le]
  tauto

private theorem mem_digits : c ∈ digits ↔ c.isDigit = true := by
  simp [digits, between, Char.isDigit, Char.le_def]

private theorem mem_wordParts : c ∈ letters ∪ digits ↔ isWordPart c = true := by
  rw [Set.mem_union, mem_letters, mem_digits]
  simp only [isWordStart, isWordPart, Char.isAlphanum, Bool.or_eq_true]
  tauto

private theorem mem_numberParts : c ∈ digits ∪ {'_'} ↔ isNumberPart c = true := by
  rw [Set.mem_union, mem_digits, Set.mem_singleton_iff]
  simp [isNumberPart]

end Classes

section Languages

variable {s : Set Char} {l : Language Char} {w : List Char}

/-- A word of a class followed by a language is a character in front of a word. -/
theorem mem_oneOf_mul : w ∈ oneOf s * l ↔ ∃ c cs, w = c :: cs ∧ c ∈ s ∧ cs ∈ l := by
  constructor
  · rintro ⟨_, ⟨c, hc, rfl⟩, cs, hcs, rfl⟩
    exact ⟨c, cs, rfl, hc, hcs⟩
  · rintro ⟨c, cs, rfl, hc, hcs⟩
    exact ⟨[c], ⟨c, hc, rfl⟩, cs, hcs, rfl⟩

/-- One more word in front of a repetition is a repetition. -/
theorem append_mem_kstar {x : List Char} (hx : x ∈ l) (hw : w ∈ l∗) : x ++ w ∈ l∗ := by
  obtain ⟨parts, rfl, hparts⟩ := Language.mem_kstar.mp hw
  exact Language.join_mem_kstar (List.forall_mem_cons.mpr ⟨hx, hparts⟩)

/-- A repetition of a class is a text of its characters. -/
theorem mem_kstar_oneOf : w ∈ (oneOf s)∗ ↔ ∀ c ∈ w, c ∈ s := by
  constructor
  · rintro h c hc
    obtain ⟨parts, rfl, hparts⟩ := Language.mem_kstar.mp h
    obtain ⟨part, hpart, hmem⟩ := List.mem_flatten.mp hc
    obtain ⟨d, hd, rfl⟩ := hparts part hpart
    rwa [List.mem_singleton.mp hmem]
  · intro h
    induction w with
    | nil => exact Language.nil_mem_kstar _
    | cons c w ih =>
      obtain ⟨hc, hw⟩ := List.forall_mem_cons.mp h
      have hone : [c] ∈ oneOf s := ⟨c, hc, rfl⟩
      exact append_mem_kstar hone (ih hw)

end Languages

section Rules

variable {w : List Char}

/-- What is skipped are separators, or two slashes and the rest of the line. -/
theorem mem_skip : w ∈ Rule.skip.language ↔
    (∃ c cs, w = c :: cs ∧ isSeparator c = true ∧ ∀ d ∈ cs, isSeparator d = true) ∨
      ∃ cs, w = '/' :: '/' :: cs ∧ ∀ d ∈ cs, d ≠ '\n' := by
  simp only [Rule.language, Language.mem_add, mem_oneOf_mul, mem_kstar_oneOf, mem_blanks]
  simp

/-- A word is a letter and whatever may follow in a word. -/
theorem mem_word : w ∈ Rule.word.language ↔
    ∃ c cs, w = c :: cs ∧ isWordStart c = true ∧ ∀ d ∈ cs, isWordPart d = true := by
  simp only [Rule.language, mem_oneOf_mul, mem_kstar_oneOf, mem_letters, mem_wordParts]

/-- A whole number is a digit and whatever may follow in a number. -/
theorem mem_whole : w ∈ Rule.whole.language ↔
    ∃ c cs, w = c :: cs ∧ c.isDigit = true ∧ ∀ d ∈ cs, isNumberPart d = true := by
  simp only [Rule.language, mem_oneOf_mul, mem_kstar_oneOf, mem_digits, mem_numberParts]

/-- A number with a fraction has one point, behind a digit and what may follow it. -/
theorem mem_point : w ∈ Rule.point.language ↔
    ∃ c run fraction, w = c :: (run ++ '.' :: fraction) ∧ c.isDigit = true ∧
      (∀ d ∈ run, isNumberPart d = true) ∧ ∀ d ∈ fraction, isNumberPart d = true := by
  have hparts : ∀ {cs : List Char}, cs ∈ (oneOf (digits ∪ {'_'}))∗ ↔
      ∀ d ∈ cs, isNumberPart d = true := by
    simp only [mem_kstar_oneOf, mem_numberParts, implies_true]
  rw [Rule.language, mem_oneOf_mul]
  constructor
  · rintro ⟨c, _, rfl, hc, run, hrun, _, hpoint, rfl⟩
    obtain ⟨d, fraction, rfl, hd, hfraction⟩ := mem_oneOf_mul.mp hpoint
    obtain rfl : d = '.' := hd
    exact ⟨c, run, fraction, rfl, mem_digits.mp hc, hparts.mp hrun, hparts.mp hfraction⟩
  · rintro ⟨c, run, fraction, rfl, hc, hrun, hfraction⟩
    refine ⟨c, _, rfl, mem_digits.mpr hc, Language.append_mem_mul (hparts.mpr hrun) ?_⟩
    exact mem_oneOf_mul.mpr ⟨'.', fraction, rfl, rfl, hparts.mpr hfraction⟩

/-- A text that is not closed is a quote and units. -/
theorem mem_openText : w ∈ Rule.openText.language ↔
    ∃ body, w = Quoted.quoteMark :: body ∧ body ∈ textUnit∗ := by
  simp [Rule.language, mem_oneOf_mul]

/-- A text that is closed is units between quotes. -/
theorem mem_closedText : w ∈ Rule.closedText.language ↔
    ∃ body, w = Quoted.quoteMark :: (body ++ [Quoted.quoteMark]) ∧ body ∈ textUnit∗ := by
  rw [Rule.language, mem_oneOf_mul]
  constructor
  · rintro ⟨c, _, rfl, hc, body, hbody, _, ⟨d, hd, rfl⟩, rfl⟩
    obtain rfl : c = Quoted.quoteMark := hc
    obtain rfl : d = Quoted.quoteMark := hd
    exact ⟨body, rfl, hbody⟩
  · rintro ⟨body, rfl, hbody⟩
    have hquote : [Quoted.quoteMark] ∈ oneOf {Quoted.quoteMark} := ⟨_, rfl, rfl⟩
    exact ⟨_, _, rfl, rfl, Language.append_mem_mul hbody hquote⟩

end Rules

end Datapack.Scan
