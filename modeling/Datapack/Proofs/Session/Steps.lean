import Datapack.Proofs.Naming.Tables
import Datapack.Proofs.Session.Reach

/-!
# What each step leaves alone

Naming an entry touches the variables, creating a store touches the stores and
the declarations of the lowering in progress, and taking or giving back a
register touches neither. A short name that was given once is kept for ever.
-/

namespace Datapack

namespace Session

/-- A declared store has the name that the table gives it. -/
theorem lookup_of_storeName? {s : Session} {name short : String}
    (h : s.storeName? name = some short) : s.storeNames.lookup name = some short := by
  unfold storeName? at h
  split at h
  · exact h
  · cases h

section NameEntry

variable (s : Session) (e : Entry)

@[simp] theorem storeNames_nameEntry : (s.nameEntry e).2.storeNames = s.storeNames := by
  cases e <;> rfl

@[simp] theorem declared_nameEntry : (s.nameEntry e).2.declared = s.declared := by
  cases e <;> rfl

@[simp] theorem pending_nameEntry : (s.nameEntry e).2.pending = s.pending := by
  cases e <;> rfl

@[simp] theorem registers_nameEntry : (s.nameEntry e).2.registers = s.registers := by
  cases e <;> rfl

@[simp] theorem isDeclared_nameEntry (name : String) :
    (s.nameEntry e).2.isDeclared name = s.isDeclared name := by
  simp only [isDeclared, declared_nameEntry, pending_nameEntry]

@[simp] theorem storeName?_nameEntry (name : String) :
    (s.nameEntry e).2.storeName? name = s.storeName? name := by
  simp only [storeName?, isDeclared_nameEntry, storeNames_nameEntry]

end NameEntry

section CreateStore

variable (s : Session) (name : String)

/-- A store that is declared is not created again. -/
theorem createStore_of_declared {s : Session} {name : String} (h : s.isDeclared name = true) :
    s.createStore name = ([], s) := by
  rw [createStore, if_pos h]

/-- A store that is not declared is declared under the short name it has or receives. -/
theorem createStore_of_undeclared {s : Session} {name : String} (h : s.isDeclared name = false) :
    s.createStore name = ([.declare (s.storeNames.resolve name s.supply).short],
      { s with
        storeNames := (s.storeNames.resolve name s.supply).table
        supply := (s.storeNames.resolve name s.supply).supply
        pending := s.pending ++ [name] }) := by
  rw [createStore, h]
  rfl

@[simp] theorem declared_createStore : (s.createStore name).2.declared = s.declared := by
  unfold createStore
  split <;> rfl

@[simp] theorem registers_createStore : (s.createStore name).2.registers = s.registers := by
  unfold createStore
  split <;> rfl

/-- Exactly one more store is declared afterwards, if it was not before. -/
theorem isDeclared_createStore (other : String) :
    (s.createStore name).2.isDeclared other = (s.isDeclared other || other == name) := by
  cases h : s.isDeclared name with
  | true =>
    rw [createStore_of_declared h]
    by_cases he : other = name
    · subst he
      simp [h]
    · simp [he]
  | false =>
    rw [createStore_of_undeclared h]
    simp only [isDeclared, List.contains_append, Bool.or_assoc]
    rw [List.contains_cons, List.contains_nil, Bool.or_false]

/-- Creating one store names no other. -/
theorem lookup_createStore_of_ne {other : String} (h : other ≠ name) :
    (s.createStore name).2.storeNames.lookup other = s.storeNames.lookup other := by
  unfold createStore
  split
  · rfl
  · exact NameTable.lookup_resolve_of_ne h s.storeNames s.supply

/-- Creating one store says nothing about the others. -/
theorem storeName?_createStore_of_ne {other : String} (h : other ≠ name) :
    (s.createStore name).2.storeName? other = s.storeName? other := by
  have hdeclared : (s.createStore name).2.isDeclared other = s.isDeclared other := by
    simp [isDeclared_createStore, h]
  rw [storeName?, storeName?, hdeclared, lookup_createStore_of_ne s name h]

/-- A store that is created now has the short name under which it is declared. -/
theorem storeName?_createStore_self {s : Session} {name : String}
    (h : s.isDeclared name = false) :
    (s.createStore name).2.storeName? name =
      some (s.storeNames.resolve name s.supply).short := by
  rw [createStore_of_undeclared h]
  simpa [storeName?, isDeclared] using NameTable.lookup_resolve s.storeNames name s.supply

end CreateStore

/-- Handing the declarations over keeps them. -/
@[simp] theorem isDeclared_commit (s : Session) (name : String) :
    s.commit.isDeclared name = s.isDeclared name := by
  simp [isDeclared, commit]

@[simp] theorem storeName?_commit (s : Session) (name : String) :
    s.commit.storeName? name = s.storeName? name := by
  rw [storeName?, isDeclared_commit]
  rfl

/-- Every short name that the first session has given is still the same in the second. -/
structure KeepsNames (s t : Session) : Prop where
  variableNames : ∀ {name short : String},
    s.variableNames.lookup name = some short → t.variableNames.lookup name = some short
  storeNames : ∀ {name short : String},
    s.storeNames.lookup name = some short → t.storeNames.lookup name = some short

/-- A session keeps its own names. -/
theorem KeepsNames.refl (s : Session) : s.KeepsNames s := ⟨id, id⟩

/-- What is kept twice is kept. -/
theorem KeepsNames.trans {s t u : Session} (h : s.KeepsNames t) (h' : t.KeepsNames u) :
    s.KeepsNames u :=
  ⟨fun hv => h'.variableNames (h.variableNames hv), fun hs => h'.storeNames (h.storeNames hs)⟩

/-- Giving a register back says nothing about names. -/
theorem KeepsNames.of_release {s t : Session} {register : String}
    (h : (s.release register).KeepsNames t) : s.KeepsNames t :=
  ⟨h.variableNames, h.storeNames⟩

end Session

namespace Moment

/-- No step takes a short name back. -/
theorem Step.keepsNames {m n : Moment} (h : Step m n) : m.session.KeepsNames n.session := by
  cases h with
  | nameEntry held s e =>
    cases e with
    | named name => exact ⟨fun hv => NameTable.lookup_resolve_of_some hv name s.supply, id⟩
    | verbatim text => exact .refl s
  | createStore held s name =>
    cases h : s.isDeclared name with
    | true =>
      rw [Session.createStore_of_declared h]
      exact .refl s
    | false =>
      rw [Session.createStore_of_undeclared h]
      exact ⟨id, fun hs => NameTable.lookup_resolve_of_some hs name s.supply⟩
  | acquire held s => exact ⟨id, id⟩
  | release held s register => exact ⟨id, id⟩

/-- Steps in a row take no short name back. -/
theorem Reaches.keepsNames {m n : Moment} (h : m.Reaches n) :
    m.session.KeepsNames n.session := by
  induction h with
  | refl => exact .refl _
  | tail _ hstep ih => exact ih.trans hstep.keepsNames

/-- No step touches what earlier lowerings handed over. -/
theorem Reaches.declared_eq {m n : Moment} (h : m.Reaches n) :
    n.session.declared = m.session.declared := by
  induction h with
  | refl => rfl
  | tail _ hstep ih =>
    rw [← ih]
    cases hstep with
    | nameEntry held s e => exact s.declared_nameEntry e
    | createStore held s name => exact s.declared_createStore name
    | acquire held s => rfl
    | release held s register => rfl

end Moment

/-- A lowering that was run has taken no short name back. -/
theorem Lowering.Stepwise.keepsNames {α : Type} {m : Lowering α} (hm : m.Stepwise)
    {s t : Session} {result : Except LowerError α} (h : m s = (result, t)) : s.KeepsNames t := by
  have hsteps : Moment.Reaches ⟨[], s⟩ ⟨[], t⟩ := hm.reaches h
  exact hsteps.keepsNames

namespace Session

/-- Whatever a call does, short names stay. -/
theorem keepsNames_call (s : Session) (c : Call) : s.KeepsNames (s.call c).2 := by
  obtain ⟨t, hsteps, ⟨commands, -, h⟩ | ⟨e, -, h⟩⟩ := s.call_cases c
  · rw [h]
    exact hsteps.keepsNames.trans ⟨id, id⟩
  · rw [h]
    exact hsteps.keepsNames.trans ⟨id, id⟩

/-- Whatever calls do, short names stay. -/
theorem keepsNames_after (s : Session) (calls : List Call) : s.KeepsNames (s.after calls) := by
  induction calls generalizing s with
  | nil => exact .refl s
  | cons c calls ih => exact (s.keepsNames_call c).trans (ih _)

end Session

end Datapack
