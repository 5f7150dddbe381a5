import Datapack.Proofs.Language.Mentions
import Datapack.Proofs.Lowering.Emission

/-!
# Statements of one command

Whether scores may be compared in place is decided on the statement alone, before
it is lowered. The decision is sound: a statement that passes lowers to a single
command, or to none where it only creates a store that is declared already, and it
works without registers and without the store that holds them, also where it
fails.

That no register is taken is said by what the lowering depends on. It gives the
same result whatever registers there are, and hands them on as they are; a lowering
that took one would look at the stack of free registers.
-/

namespace Datapack.Lowering

/-- The lowering takes no register and does not declare the store that holds them, whether or not it
succeeds. -/
structure Registerless {α : Type} (m : Lowering α) : Prop where
  /-- Other registers change nothing, and are handed on as they are. -/
  hands_on : ∀ (s : Session) (registers : Registers),
    m { s with registers } = ((m s).1, { (m s).2 with registers })
  spares : ∀ s : Session, (m s).2.isDeclared scratchStore = s.isDeclared scratchStore

section Registerless

variable {α β : Type} {m : Lowering α}

private theorem Registerless.registers_eq (h : Registerless m) (s : Session) :
    (m s).2.registers = s.registers := by
  have hsame : (m s).2 = { (m s).2 with registers := s.registers } :=
    congrArg Prod.snd (h.hands_on s s.registers)
  rw [hsame]

private theorem registerless_pure (a : α) : Registerless (pure a : Lowering α) :=
  ⟨fun _ _ => rfl, fun _ => rfl⟩

private theorem registerless_fail (e : LowerError) : Registerless (fail e : Lowering α) :=
  ⟨fun _ _ => rfl, fun _ => rfl⟩

private theorem Registerless.bind {f : α → Lowering β} (hm : Registerless m)
    (hf : ∀ a, Registerless (f a)) : Registerless (m >>= f) := by
  constructor
  · intro s registers
    have hfirst := hm.hands_on s registers
    cases h : m s with
    | mk result t =>
      rw [h] at hfirst
      cases result with
      | ok a =>
        rw [bind_apply_ok h, bind_apply_ok hfirst]
        exact (hf a).hands_on t registers
      | error e => rw [bind_apply_error h, bind_apply_error hfirst]
  · intro s
    have hfirst := hm.spares s
    cases h : m s with
    | mk result t =>
      rw [h] at hfirst
      cases result with
      | ok a =>
        rw [bind_apply_ok h]
        exact ((hf a).spares t).trans hfirst
      | error e =>
        rw [bind_apply_error h]
        exact hfirst

/-- What is made of the result does not matter. -/
theorem Registerless.map (hm : Registerless m) (f : α → β) :
    Registerless (m >>= fun a => pure (f a)) :=
  hm.bind fun a => registerless_pure (f a)

end Registerless

section Statements

private theorem registerless_scoreOf (a : Access) : Registerless (scoreOf a) := by
  have hstore : Registerless (storeName a.store) := by
    constructor
    · intro s registers
      have hsame : ({ s with registers } : Session).storeName? a.store = s.storeName? a.store := rfl
      unfold storeName
      rw [hsame]
      cases s.storeName? a.store <;> rfl
    · intro s
      unfold storeName
      cases s.storeName? a.store <;> rfl
  have hentry : Registerless (ofSession (·.nameEntry a.entry)) := by
    refine ⟨fun s registers => ?_, fun s => s.isDeclared_nameEntry a.entry scratchStore⟩
    cases a.entry <;> rfl
  exact hstore.bind fun store => hentry.map _

private theorem registerless_createStore {name : String} (hname : name ≠ scratchStore) :
    Registerless (createStore name) := by
  constructor
  · intro s registers
    have hsame : ({ s with registers } : Session).isDeclared name = s.isDeclared name := rfl
    have happly : ∀ s, createStore name s = (.ok (s.createStore name).1, (s.createStore name).2) :=
      fun _ => rfl
    rw [happly, happly]
    cases hd : s.isDeclared name with
    | true =>
      rw [Session.createStore_of_declared hd, Session.createStore_of_declared (hsame.trans hd)]
    | false =>
      rw [Session.createStore_of_undeclared hd, Session.createStore_of_undeclared (hsame.trans hd)]
  · intro s
    have hother : (scratchStore == name) = false := beq_eq_false_iff_ne.mpr hname.symm
    have hcreated := s.isDeclared_createStore name scratchStore
    rwa [hother, Bool.or_false] at hcreated

private theorem registerless_assign {target : Access} {o : Operator} {node : Node}
    (hone : assignsInOne o node = true) : Registerless (assign target o node) := by
  cases node with
  | int amount =>
    rw [assign, assignInt]
    split
    · exact registerless_fail _
    · exact (registerless_scoreOf target).map _
  | access source =>
    rw [assign]
    exact (registerless_scoreOf target).bind fun _ => (registerless_scoreOf source).map _
  | text line =>
    rw [assign, if_pos (beq_iff_eq.mp hone)]
    exact (registerless_scoreOf target).map _
  | _ => cases hone

/-- A statement of one command is lowered without registers. -/
theorem Sole.registerless {node : Node} (h : Sole node) (hscratch : scratchStore ∉ node.stores) :
    Registerless (lower node) := by
  induction h with
  | text line =>
    rw [lower]
    exact registerless_pure _
  | create store =>
    rw [lower]
    exact registerless_createStore (List.ne_of_not_mem_cons hscratch).symm
  | assign hone =>
    rw [lower]
    exact registerless_assign hone
  | block _ ih =>
    simp only [Node.stores, Node.storesAll, List.append_nil] at hscratch
    rw [lower, lowerAll_singleton]
    exact ih hscratch
  | runAs _ ih =>
    simp only [Node.stores, Node.storesAll, List.append_nil] at hscratch
    rw [lower, lowerAll_singleton]
    exact (ih hscratch).map _
  | @branch _ x _ y _ hsole ih =>
    simp only [Node.stores, Node.storesAll, List.append_nil, List.mem_append, not_or] at hscratch
    rw [hsole.lower_branch]
    exact (registerless_scoreOf x).bind fun _ => (registerless_scoreOf y).bind fun _ =>
      (ih hscratch.2.2).map _

end Statements

/--
A statement that is said to lower to one command does so in every session, in the
middle of a lowering or not. If it is lowered, it is lowered to exactly one command,
or to none where the bodies of one statement lead to the creation of a store that
is declared already. Whether or not it is lowered, it takes no register: with other
registers the outcome is the same, and they are handed on as they are. So all free
registers and the number of those in use stay, and the scratch store is declared
afterwards only if it was before.
-/
theorem lower_of_lowersToOne {node : Node} (hone : lowersToOne node = true)
    (hscratch : scratchStore ∉ node.stores) (s : Session) :
    (∀ commands, (lower node s).1 = .ok commands →
      commands.length = if s.recreates node.innermost then 0 else 1) ∧
      (∀ registers : Registers, lower node { s with registers } =
        ((lower node s).1, { (lower node s).2 with registers })) ∧
      (lower node s).2.registers = s.registers ∧
      (lower node s).2.isDeclared scratchStore = s.isDeclared scratchStore := by
  have hsole := sole_of_lowersToOne hone
  have hfree := hsole.registerless hscratch
  refine ⟨fun commands hok => ?_, hfree.hands_on s, hfree.registers_eq s, hfree.spares s⟩
  exact hsole.length_eq (Prod.ext hok rfl)

/-- Inside a scope, a comparison in place and a block, a store that is declared is created once more
and another one for the first time, while an outer phrase has a register in use. -/
theorem lower_of_lowersToOne_nested :
    let i : Access := ⟨.named "i", "m"⟩
    let around (node : Node) : Node :=
      .runAs "@a" [.branch false (.access i) .eq (.access i) [.block [node]]]
    let s := (Session.fresh.after [.phrase (.create "m")]).acquire.2
    (lower (around (.create "m")) s).1 = .ok [] ∧
      (∃ commands, (lower (around (.create "n")) s).1 = .ok commands ∧ commands.length = 1) ∧
      (lower (around (.create "n")) s).2.registers = s.registers ∧
      (lower (around (.create "n")) s).2.isDeclared scratchStore = false := by
  intro i around s
  have hones : lowersToOne (around (.create "m")) = true ∧
      lowersToOne (around (.create "n")) = true := by decide +kernel
  have hstores : scratchStore ∉ (around (.create "m")).stores ∧
      scratchStore ∉ (around (.create "n")).stores := by decide +kernel
  have hold := lower_of_lowersToOne hones.1 hstores.1 s
  have hnew := lower_of_lowersToOne hones.2 hstores.2 s
  have hok : (lower (around (.create "m")) s).1.isOk = true ∧
      (lower (around (.create "n")) s).1.isOk = true := by decide +kernel
  refine ⟨?_, ?_, hnew.2.2.1, hnew.2.2.2.trans (by decide +kernel)⟩
  · obtain ⟨commands, h⟩ := exists_of_isOk hok.1
    have hlength : commands.length = 0 := hold.1 commands h
    rw [h, List.length_eq_zero_iff.mp hlength]
  · obtain ⟨commands, h⟩ := exists_of_isOk hok.2
    exact ⟨commands, h, hnew.1 commands h⟩

end Datapack.Lowering
