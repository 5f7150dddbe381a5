import Datapack.Language.Node
import Datapack.Naming.ShortNames
import Datapack.Target.Command

/-!
# Sessions

A session holds everything that one lowering leaves for the next: the names
given out, the stores whose declarations were handed over, and the free
registers. Lowering changes the session even where it fails, because names that
were given out stay taken; only the stores declared by a lowering that fails
count as undeclared again, since their declarations were never handed over.
-/

namespace Datapack

/-- Source name of the store that holds the registers; no identifier starts with its sign. -/
def scratchStore : String := "$tmp"

/-- Why a phrase has no lowering. -/
inductive LowerError where
  | unknownStore (name : String)
  /-- The operator cannot edit a score by a fixed number. -/
  | notImmediate (operator : Operator)
  /-- Phrases of this form have no number. -/
  | unassignable (kind : Kind)
  /-- Phrases of this form do nothing. -/
  | notStatement (kind : Kind)
  deriving DecidableEq, Repr

/-- Wording of the error. -/
def LowerError.message : LowerError → String
  | .unknownStore name => "store `" ++ name ++ "` was never created"
  | .notImmediate operator =>
    "operator `" ++ operator.symbol ++ "` cannot be used as an immediate edit"
  | .unassignable kind => kind.description ++ " cannot be assigned to a store entry"
  | .notStatement kind => kind.description ++ " cannot be used as a statement"

/-- What one lowering leaves for the next. -/
structure Session where
  supply : Supply
  variableNames : NameTable
  storeNames : NameTable
  /-- Stores whose declarations were handed over, by source name. -/
  declared : List String
  /-- Stores declared by the lowering in progress. -/
  pending : List String
  registers : Registers
  deriving DecidableEq, Repr

namespace Session

/-- A session in which nothing was lowered. -/
def fresh : Session := ⟨.fresh, .empty, .empty, [], [], .empty⟩

/-- Whether the store is declared, be it by the lowering in progress. -/
def isDeclared (s : Session) (name : String) : Bool :=
  s.declared.contains name || s.pending.contains name

/-- Target name of a variable, if it was ever used. -/
def variableName? (s : Session) (name : String) : Option String := s.variableNames.lookup name

/-- Target name of a store, if it is declared. -/
def storeName? (s : Session) (name : String) : Option String :=
  if s.isDeclared name then s.storeNames.lookup name else none

/-- Target name of an entry; a variable is named on first use. -/
def nameEntry (s : Session) : Entry → String × Session
  | .named name =>
    let r := s.variableNames.resolve name s.supply
    (r.short, { s with variableNames := r.table, supply := r.supply })
  | .verbatim text => (text, s)

/-- Declares a store unless it is declared already; a store keeps the name it once had. -/
def createStore (s : Session) (name : String) : List Command × Session :=
  if s.isDeclared name then ([], s)
  else
    let r := s.storeNames.resolve name s.supply
    ([.declare r.short],
      { s with storeNames := r.table, supply := r.supply, pending := s.pending ++ [name] })

/-- Takes a register. -/
def acquire (s : Session) : String × Session :=
  let (register, registers, supply) := s.registers.acquire s.supply
  (register, { s with registers, supply })

/-- Gives a register back. -/
def release (s : Session) (register : String) : Session :=
  { s with registers := s.registers.release register }

/-- The declarations of the lowering in progress are handed over. -/
def commit (s : Session) : Session :=
  { s with declared := s.declared ++ s.pending, pending := [] }

/-- The declarations of the lowering in progress are forgotten. -/
def rollback (s : Session) : Session := { s with pending := [] }

end Session

/-- A step of lowering: it may fail, and changes the session in either case. -/
def Lowering (α : Type) : Type := Session → Except LowerError α × Session

namespace Lowering

/-- Steps follow one another until one fails. -/
instance : Monad Lowering where
  pure a := fun s => (.ok a, s)
  bind m f := fun s =>
    match m s with
    | (.ok a, s) => f a s
    | (.error e, s) => (.error e, s)

/-- Fails, leaving the session as it is. -/
def fail {α : Type} (e : LowerError) : Lowering α := fun s => (.error e, s)

/-- A step that cannot fail. -/
def ofSession {α : Type} (f : Session → α × Session) : Lowering α := fun s =>
  let (a, s) := f s
  (.ok a, s)

/-- Target name of a store, which has to be declared. -/
def storeName (name : String) : Lowering String := fun s =>
  match s.storeName? name with
  | some short => (.ok short, s)
  | none => (.error (.unknownStore name), s)

/-- Target name of a score: its store has to be declared, its entry may be new. -/
def scoreOf (a : Access) : Lowering Score := do
  let store ← storeName a.store
  let entry ← ofSession (·.nameEntry a.entry)
  return ⟨entry, store⟩

/-- Declares a store unless it is declared already. -/
def createStore (name : String) : Lowering (List Command) := ofSession (·.createStore name)

/-- Takes a register for the time of `use`, and gives it back even if that fails. -/
def withRegister {α : Type} (use : String → Lowering α) : Lowering α := fun s =>
  let (register, s) := s.acquire
  let (result, s) := use register s
  (result, s.release register)

/-- The entry of the scratch store that a register names. -/
def scratch (register : String) : Access := ⟨.verbatim register, scratchStore⟩

/-- A step that does nothing. -/
theorem pure_apply {α : Type} (a : α) (s : Session) : (pure a : Lowering α) s = (.ok a, s) := rfl

/-- A step after one that succeeded. -/
theorem bind_apply_ok {α β : Type} {m : Lowering α} {f : α → Lowering β} {s t : Session} {a : α}
    (h : m s = (.ok a, t)) : (m >>= f) s = f a t := by
  simp only [bind, h]

/-- Nothing is done after a step that failed. -/
theorem bind_apply_error {α β : Type} {m : Lowering α} {f : α → Lowering β} {s t : Session}
    {e : LowerError} (h : m s = (.error e, t)) : (m >>= f) s = (.error e, t) := by
  simp only [bind, h]

end Lowering

/-- Runs a lowering from start to end: its declarations count only if it succeeds. -/
def Session.run (s : Session) (work : Lowering (List Command)) :
    Except LowerError (List Command) × Session :=
  match work s with
  | (.ok commands, s) => (.ok commands, s.commit)
  | (.error e, s) => (.error e, s.rollback)

end Datapack
