/-!
# Byte offsets

Places in a text are counted in bytes of its UTF-8 form. Texts are handled as
lists of characters, so an offset is the summed width of the characters before
it and always falls between two characters.
-/

namespace Datapack

/-- Number of bytes of the UTF-8 form of a list of characters. -/
def utf8Length : List Char → Nat
  | [] => 0
  | c :: cs => c.utf8Size + utf8Length cs

@[simp] theorem utf8Length_nil : utf8Length [] = 0 := rfl

@[simp] theorem utf8Length_cons (c : Char) (cs : List Char) :
    utf8Length (c :: cs) = c.utf8Size + utf8Length cs := rfl

@[simp] theorem utf8Length_append (cs ds : List Char) :
    utf8Length (cs ++ ds) = utf8Length cs + utf8Length ds := by
  induction cs with
  | nil => rw [List.nil_append, utf8Length_nil, Nat.zero_add]
  | cons c cs ih => rw [List.cons_append, utf8Length_cons, utf8Length_cons, ih, Nat.add_assoc]

/-- The width of a text is the size of its UTF-8 form. -/
theorem utf8Length_eq_utf8ByteSize (cs : List Char) :
    utf8Length cs = (String.ofList cs).utf8ByteSize := by
  induction cs with
  | nil => rfl
  | cons c cs ih =>
    rw [utf8Length_cons, ih, String.ofList_cons, String.utf8ByteSize_append,
      String.utf8ByteSize_singleton]

/-- Every character takes at least one byte. -/
theorem length_le_utf8Length (cs : List Char) : cs.length ≤ utf8Length cs := by
  induction cs with
  | nil => simp
  | cons c cs ih =>
    have := c.utf8Size_pos
    simp only [List.length_cons, utf8Length_cons]
    omega

/-- The bytes from `start` up to, but without, `stop`. -/
structure Span where
  start : Nat
  stop : Nat
  deriving DecidableEq, Repr

/-- Whether the span holds no byte. -/
def Span.isEmpty (s : Span) : Bool := s.stop ≤ s.start

/-- Characters lying before byte `offset`, and the others. -/
def splitAtByte : Nat → List Char → List Char × List Char
  | _, [] => ([], [])
  | offset, c :: cs =>
    if offset = 0 then ([], c :: cs)
    else
      let (before, after) := splitAtByte (offset - c.utf8Size) cs
      (c :: before, after)

/-- Cutting at an offset loses nothing. -/
theorem splitAtByte_append (offset : Nat) (cs : List Char) :
    (splitAtByte offset cs).1 ++ (splitAtByte offset cs).2 = cs := by
  induction cs generalizing offset with
  | nil => rfl
  | cons c cs ih =>
    unfold splitAtByte
    split
    · rfl
    · simp [ih]

/-- Cutting where a first part ends gives back that part and the rest. -/
theorem splitAtByte_utf8Length (cs ds : List Char) :
    splitAtByte (utf8Length cs) (cs ++ ds) = (cs, ds) := by
  induction cs with
  | nil => cases ds <;> simp [splitAtByte]
  | cons c cs ih =>
    have := c.utf8Size_pos
    rw [List.cons_append, utf8Length_cons, splitAtByte, if_neg (by omega), Nat.add_sub_cancel_left,
      ih]

end Datapack
