/-!
# Short names and who holds them

Names on the target side are short words, numbered without gaps. Tables and
registers draw on one supply of them: a table keeps a name for good, a register
is given back and handed out again.
-/

namespace Datapack

/-! ## Short names

Target names are words over `a` to `z`, numbered from one in bijective base 26:
`a` is 1, `z` is 26, `aa` is 27. There is no digit for zero, so every non-empty
word has exactly one number and every positive number one word. -/

namespace Letters

/-- Number of letters. -/
def base : Nat := 26

/-- The letter standing for `d + 1`. -/
def letter (d : Nat) : Char := Char.ofNat ('a'.toNat + d)

/-- The word with number `n`, most significant letter first; zero has the empty word. -/
def word : Nat → List Char
  | 0 => []
  | n + 1 => word (n / base) ++ [letter (n % base)]
termination_by n => n
decreasing_by
  simp only [base]
  omega

/-- The number of a word. -/
def number (w : List Char) : Nat :=
  w.foldl (fun n c => base * n + (c.toNat - 'a'.toNat + 1)) 0

/-- The name with number `n`. -/
def name (n : Nat) : String := String.ofList (word n)

/-- Zero has the empty word. -/
theorem word_zero : word 0 = [] := by
  rw [word]

/-- The last letter of a word is the remainder by the base, the word before it the quotient. -/
theorem word_succ (n : Nat) : word (n + 1) = word (n / base) ++ [letter (n % base)] := by
  rw [word]

/-- Appending a letter multiplies the number by the base and adds the letter's place. -/
theorem number_append_singleton (w : List Char) (c : Char) :
    number (w ++ [c]) = base * number w + (c.toNat - 'a'.toNat + 1) := by
  simp [number]

end Letters

/-! ## The supply of short names

One counter numbers all names handed out, whoever asks for them, so that no two
requests receive the same name. -/

/-- Counts the short names handed out so far. -/
structure Supply where
  issued : Nat
  deriving DecidableEq, Repr

namespace Supply

/-- A supply that has handed out nothing. -/
def fresh : Supply := ⟨0⟩

/-- Hands out the name after the last one. -/
def next (s : Supply) : String × Supply := (Letters.name (s.issued + 1), ⟨s.issued + 1⟩)

/-- Hands out `count` names and keeps the last one. -/
def skip (count : Nat) (s : Supply) : Option String × Supply :=
  count.repeat (fun state => (some state.2.next.1, state.2.next.2)) (none, s)

@[simp] theorem issued_next (s : Supply) : s.next.2.issued = s.issued + 1 := rfl

end Supply

/-! ## Tables of short names

A table gives each source name that was ever asked for one short name, in the
order of first requests. Nothing is removed, and several tables may draw on the
same supply. -/

/-- Source names with the short names given to them, oldest first. -/
structure NameTable where
  entries : List (String × String)
  deriving DecidableEq, Repr

namespace NameTable

/-- A table that has named nothing. -/
def empty : NameTable := ⟨[]⟩

/-- Short name of `name`, if it was ever asked for. -/
def lookup (t : NameTable) (name : String) : Option String := t.entries.lookup name

/-- Number of names in the table. -/
def size (t : NameTable) : Nat := t.entries.length

/-- Whether nothing was named yet. -/
def isEmpty (t : NameTable) : Bool := t.entries.isEmpty

/-- A short name, whether the table had it before, and the table and supply afterwards. -/
structure Resolution where
  short : String
  existed : Bool
  table : NameTable
  supply : Supply

/-- Short name of `name`, drawn from the supply on first sight. -/
def resolve (t : NameTable) (name : String) (supply : Supply) : Resolution :=
  match t.lookup name with
  | some short => ⟨short, true, t, supply⟩
  | none =>
    let (short, supply) := supply.next
    ⟨short, false, ⟨t.entries ++ [(name, short)]⟩, supply⟩

/-- After `resolve` the table knows the name under the short name returned. -/
theorem lookup_resolve (t : NameTable) (name : String) (supply : Supply) :
    (t.resolve name supply).table.lookup name = some (t.resolve name supply).short := by
  unfold resolve
  cases h : t.lookup name with
  | some short => exact h
  | none =>
    simp only [lookup] at h ⊢
    rw [List.lookup_append, h]
    simp

/-- A name was in the table exactly when `resolve` reports it as existing. -/
theorem existed_resolve (t : NameTable) (name : String) (supply : Supply) :
    (t.resolve name supply).existed = (t.lookup name).isSome := by
  unfold resolve
  cases t.lookup name <;> rfl

end NameTable

/-! ## Scratch registers

Registers are short names for scratch entries. Freed registers go on a stack and
are handed out again, the last freed first, before the supply is asked for a new
name. -/

/-- The free registers, next one first, and how many are in use. -/
structure Registers where
  free : List String
  outstanding : Nat
  deriving DecidableEq, Repr

namespace Registers

/-- No register exists yet. -/
def empty : Registers := ⟨[], 0⟩

/-- How many registers wait to be handed out again. -/
def available (r : Registers) : Nat := r.free.length

/-- Hands out the register freed last, or a new name if none is free. -/
def acquire (r : Registers) (supply : Supply) : String × Registers × Supply :=
  match r.free with
  | name :: free => (name, ⟨free, r.outstanding + 1⟩, supply)
  | [] =>
    let (name, supply) := supply.next
    (name, ⟨[], r.outstanding + 1⟩, supply)

/-- Takes a register back; the count in use stops at zero. -/
def release (r : Registers) (name : String) : Registers := ⟨name :: r.free, r.outstanding - 1⟩

end Registers

end Datapack
