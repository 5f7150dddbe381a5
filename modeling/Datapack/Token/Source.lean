import Datapack.Token.Basic

/-!
# Source forms of tokens

How tokens are written: quoted texts with their escapes, and the source form of
every token.
-/

namespace Datapack

/-! ## Quoted texts

A text stands between single quotes. A backslash takes the next character out
of its usual meaning: `t`, `n` and `r` then stand for tab, newline and carriage
return, every other character for itself. A backslash in front of a newline, or
at the end of the input, is no escape, and the text breaks off before it. -/

namespace Quoted

/-- The quote around a text. -/
def quoteMark : Char := '\x27'

/-- The character that starts an escape. -/
def escapeMark : Char := '\x5c'

/-- What an escaped character stands for. -/
def unescape : Char → Char
  | 't' => '\t'
  | 'n' => '\n'
  | 'r' => '\r'
  | c => c

/-- How far a quoted text reaches, and its content if it is closed. -/
structure Reading where
  /-- Number of characters taken, the closing quote included. -/
  taken : Nat
  content : Option (List Char)
  deriving DecidableEq, Repr

/-- A reading with one more character of content in front, written in `width` characters. -/
def Reading.extend (width : Nat) (c : Char) (r : Reading) : Reading :=
  ⟨r.taken + width, r.content.map (c :: ·)⟩

/-- A text that breaks off here. -/
def Reading.broken : Reading := ⟨0, none⟩

/-- Reads what follows an opening quote. -/
def read : List Char → Reading
  | [] => .broken
  | c :: cs =>
    if c = quoteMark then ⟨1, some []⟩
    else if c = escapeMark then
      match cs with
      | [] => .broken
      | d :: ds => if d = '\n' then .broken else (read ds).extend 2 (unescape d)
    else (read cs).extend 1 c

/-- A quote ends the text. -/
theorem read_quoteMark (cs : List Char) : read (quoteMark :: cs) = ⟨1, some []⟩ := by
  rw [read.eq_def]
  exact if_pos rfl

/-- An escape stands for one character, whatever follows the backslash but a newline. -/
theorem read_escapeMark {d : Char} (h : d ≠ '\n') (cs : List Char) :
    read (escapeMark :: d :: cs) = (read cs).extend 2 (unescape d) := by
  have hq : escapeMark ≠ quoteMark := by decide
  rw [read, if_neg hq, if_pos rfl, if_neg h]

/-- Every other character stands for itself. -/
theorem read_plain {c : Char} (hq : c ≠ quoteMark) (he : c ≠ escapeMark) (cs : List Char) :
    read (c :: cs) = (read cs).extend 1 c := by
  rw [read.eq_def]
  simp only [hq, he, if_false]

/-- Writes a content so that it can be read back: quotes and backslashes are escaped. -/
def escape : List Char → List Char
  | [] => []
  | c :: cs =>
    if c = quoteMark ∨ c = escapeMark then escapeMark :: c :: escape cs else c :: escape cs

/-- A reading takes no more characters than there are. -/
theorem taken_read_le (cs : List Char) : (read cs).taken ≤ cs.length := by
  fun_induction read cs with
  | case1 => simp [Reading.broken]
  | case2 => simp
  | case3 => simp [Reading.broken]
  | case4 => simp [Reading.broken]
  | case5 _ _ ds _ ih =>
    simp only [Reading.extend, List.length_cons]
    omega
  | case6 c cs _ _ ih =>
    simp only [Reading.extend, List.length_cons]
    omega

end Quoted

/-! ## Writing tokens

Every token has a source form that is read back as that token, provided that a
number or word is kept apart from its neighbours; a blank does that. -/

/-- Source form of a token: its spelling, and for a text the escapes it needs. -/
def Token.source : Token → List Char
  | .text content =>
    Quoted.quoteMark :: (Quoted.escape content.toList ++ [Quoted.quoteMark])
  | t => t.spelling.toList

/-- Source form of tokens, with a blank between any two of them. -/
def tokensSource (ts : List Token) : String :=
  String.ofList ([' '].intercalate (ts.map Token.source))

end Datapack
