import Datapack.Proofs.Language.Renaming
import Datapack.Proofs.Lowering.Emission

/-!
# One lowering that follows another

A relation between sessions that each kind of step keeps is kept by whole
lowerings, a program on one side and the same program under new names on the
other: both give the same commands, or fail with the same error up to names. The
rules of lowering are gone through once, for all such relations.
-/

namespace Datapack

/--
Sessions of which one goes on as the other does, every name of the program being
replaced. The name of the scratch store is none of them.
-/
structure Simulation (ren : Renaming) (Rel : Session → Session → Prop) : Prop where
  store_scratch : ren.store scratchStore = scratchStore
  storeName?_eq : ∀ {s t}, Rel s t → ∀ name, t.storeName? (ren.store name) = s.storeName? name
  nameEntry : ∀ {s t}, Rel s t → ∀ e : Entry,
    (t.nameEntry (e.rename ren)).1 = (s.nameEntry e).1 ∧
      Rel (s.nameEntry e).2 (t.nameEntry (e.rename ren)).2
  createStore : ∀ {s t}, Rel s t → ∀ name,
    (t.createStore (ren.store name)).1 = (s.createStore name).1 ∧
      Rel (s.createStore name).2 (t.createStore (ren.store name)).2
  acquire : ∀ {s t}, Rel s t → t.acquire.1 = s.acquire.1 ∧ Rel s.acquire.2 t.acquire.2
  release : ∀ {s t}, Rel s t → ∀ register, Rel (s.release register) (t.release register)

namespace Lowering

/-- On related sessions the second lowering has the result of the first, up to names in errors, and
the sessions are related again. -/
def Follows {α : Type} (ren : Renaming) (Rel : Session → Session → Prop) (f g : Lowering α) :
    Prop :=
  ∀ ⦃s t : Session⦄, Rel s t →
    (g t).1 = (f s).1.mapError (LowerError.rename ren) ∧ Rel (f s).2 (g t).2

section Combinators

variable {α β : Type} {ren : Renaming} {Rel : Session → Session → Prop} {f g : Lowering α}

private theorem follows_pure (a : α) : Follows ren Rel (pure a) (pure a) := fun _ _ h => ⟨rfl, h⟩

private theorem follows_fail {e e' : LowerError} (he : e' = e.rename ren) :
    Follows ren Rel (fail e : Lowering α) (fail e') := by
  subst he
  exact fun _ _ h => ⟨rfl, h⟩

/-- The second side goes on with the very result of the first, and need only follow for results
that the first can have. -/
theorem Follows.bind_of {f' g' : α → Lowering β} {result : α → Prop} (h : Follows ren Rel f g)
    (hresult : ∀ {s t a}, f s = (.ok a, t) → result a)
    (h' : ∀ a, result a → Follows ren Rel (f' a) (g' a)) :
    Follows ren Rel (f >>= f') (g >>= g') := by
  intro s t hrel
  obtain ⟨hanswer, hnext⟩ := h hrel
  cases hs : f s with
  | mk x s' =>
    cases ht : g t with
    | mk y t' =>
      rw [hs, ht] at hanswer hnext
      cases x with
      | ok a =>
        obtain rfl : y = .ok a := hanswer
        rw [bind_apply_ok hs, bind_apply_ok ht]
        exact h' a (hresult hs) hnext
      | error e =>
        obtain rfl : y = .error (e.rename ren) := hanswer
        rw [bind_apply_error hs, bind_apply_error ht]
        exact ⟨rfl, hnext⟩

private theorem Follows.bind {f' g' : α → Lowering β} (h : Follows ren Rel f g)
    (h' : ∀ a, Follows ren Rel (f' a) (g' a)) : Follows ren Rel (f >>= f') (g >>= g') :=
  h.bind_of (fun _ => trivial) fun a _ => h' a

/-- The same is made of the result on both sides. -/
theorem Follows.map (h : Follows ren Rel f g) (k : α → β) :
    Follows ren Rel (f >>= fun a => pure (k a)) (g >>= fun a => pure (k a)) :=
  h.bind fun a => follows_pure (k a)

private theorem follows_checkOperand (node : Node) :
    Follows ren Rel (checkOperand node) (checkOperand (node.rename ren)) := by
  unfold checkOperand
  rw [isOperand_rename, Node.kind_rename]
  split
  · exact follows_pure ()
  · exact follows_fail rfl

end Combinators

/-- The result of a calculation stands in a register. -/
theorem exists_scratch_of_calculate {o : Operator}
    {first second : Access → Lowering (List Command)} {s t : Session}
    {a : List Command × Access} (h : calculate o first second s = (.ok a, t)) :
    ∃ r, a.2 = scratch r := by
  simp only [calculate, bind_eq_ok, withRegister_eq_ok, pure_eq_ok] at h
  obtain ⟨_, _, -, r, _, _, -, ⟨q, _, _, -, ⟨_, _, -, _, _, -, _, _, -, rfl, -⟩, -⟩, -⟩ := h
  exact ⟨r, rfl⟩

section Phrases

variable {α β : Type} {ren : Renaming} {Rel : Session → Session → Prop}
  (sim : Simulation ren Rel)

include sim

/-- Both sides take the same register. -/
theorem follows_withRegister {f g : String → Lowering α} (h : ∀ r, Follows ren Rel (f r) (g r)) :
    Follows ren Rel (withRegister f) (withRegister g) := by
  intro s t hrel
  obtain ⟨hregister, htaken⟩ := sim.acquire hrel
  obtain ⟨hanswer, hused⟩ := h s.acquire.1 htaken
  simp only [withRegister]
  rw [hregister]
  exact ⟨hanswer, sim.release hused _⟩

private theorem follows_storeName (name : String) :
    Follows ren Rel (storeName name) (storeName (ren.store name)) := by
  intro s t hrel
  unfold storeName
  rw [sim.storeName?_eq hrel name]
  cases s.storeName? name with
  | some short => exact ⟨rfl, hrel⟩
  | none => exact ⟨rfl, hrel⟩

private theorem follows_scoreOf (a : Access) :
    Follows ren Rel (scoreOf a) (scoreOf (a.rename ren)) := by
  refine (follows_storeName sim a.store).bind fun store => Follows.map ?_ _
  intro s t hrel
  obtain ⟨hentry, hnext⟩ := sim.nameEntry hrel a.entry
  exact ⟨congrArg Except.ok hentry, hnext⟩

private theorem follows_createStore (name : String) :
    Follows ren Rel (createStore name) (createStore (ren.store name)) := by
  intro s t hrel
  obtain ⟨hcommands, hnext⟩ := sim.createStore hrel name
  exact ⟨congrArg Except.ok hcommands, hnext⟩

private theorem follows_createScratch :
    Follows ren Rel (createStore scratchStore) (createStore scratchStore) := by
  have h := follows_createStore sim scratchStore
  rwa [sim.store_scratch] at h

/-- Registers have no names of the program. -/
theorem rename_scratch (r : String) : (scratch r).rename ren = scratch r := by
  rw [Access.rename, scratch, sim.store_scratch]
  rfl

private theorem follows_register (r : String) :
    Follows ren Rel (scoreOf (scratch r)) (scoreOf (scratch r)) := by
  have h := follows_scoreOf sim (scratch r)
  rwa [rename_scratch sim] at h

private theorem follows_combine (target : Access) (o : Operator) (source : Access) :
    Follows ren Rel (combine target o source)
      (combine (target.rename ren) o (source.rename ren)) :=
  (follows_scoreOf sim target).bind fun _ => (follows_scoreOf sim source).map _

/-- A score is combined with the same register on both sides. -/
theorem follows_combine_register (target : Access) (o : Operator) (r : String) :
    Follows ren Rel (combine target o (scratch r)) (combine (target.rename ren) o (scratch r)) :=
  (follows_scoreOf sim target).bind fun _ => (follows_register sim r).map _

private theorem follows_capture (target : Access) (line : String) :
    Follows ren Rel (capture target line) (capture (target.rename ren) line) :=
  (follows_scoreOf sim target).map _

private theorem follows_captureAndCombine (target : Access) (o : Operator) (line : String) :
    Follows ren Rel (captureAndCombine target o line)
      (captureAndCombine (target.rename ren) o line) := by
  refine (follows_storeName sim target.store).bind fun _ => (follows_createScratch sim).bind
    fun _ => Follows.map (follows_withRegister sim fun r => ?_) _
  have hcaptured : Follows ren Rel (capture (scratch r) line) (capture (scratch r) line) :=
    (follows_register sim r).map _
  exact hcaptured.bind fun _ => (follows_combine_register sim target o r).map _

/-- Calculations follow one another if loading their operands does. -/
theorem follows_calculate (o : Operator)
    {first second first' second' : Access → Lowering (List Command)}
    (hfirst : ∀ r, Follows ren Rel (first (scratch r)) (first' (scratch r)))
    (hsecond : ∀ r, Follows ren Rel (second (scratch r)) (second' (scratch r))) :
    Follows ren Rel (calculate o first second) (calculate o first' second') := by
  refine (follows_createScratch sim).bind fun _ => follows_withRegister sim fun r =>
    follows_withRegister sim fun q => (hfirst r).bind fun _ => (hsecond q).bind fun _ => ?_
  have hcombined : Follows ren Rel (combine (scratch r) o (scratch q))
      (combine (scratch r) o (scratch q)) :=
    (follows_register sim r).bind fun _ => (follows_register sim q).map _
  exact hcombined.map _

/-- Assigning a renamed phrase follows assigning the phrase. -/
theorem follows_assign (target : Access) (o : Operator) : (node : Node) →
    Follows ren Rel (assign target o node) (assign (target.rename ren) o (node.rename ren))
  | .int amount => by
    rw [Node.rename, assign, assign, assignInt, assignInt]
    cases EditVerb.ofOperator? o with
    | none => exact follows_fail rfl
    | some verb => exact (follows_scoreOf sim target).map _
  | .access source => by
    rw [Node.rename, assign, assign]
    exact follows_combine sim target o source
  | .calc first p second => by
    have hfirst (r : String) := follows_assign (scratch r) .set first
    have hsecond (r : String) := follows_assign (scratch r) .set second
    simp only [rename_scratch sim] at hfirst hsecond
    rw [Node.rename, assign, assign]
    refine (follows_storeName sim target.store).bind fun _ => (follows_checkOperand first).bind
      fun _ => (follows_checkOperand second).bind fun _ => ?_
    refine (follows_calculate sim p hfirst hsecond).bind_of exists_scratch_of_calculate ?_
    rintro ⟨commands, _⟩ ⟨r, rfl⟩
    exact (follows_combine_register sim target o r).map _
  | .text line => by
    rw [Node.rename, assign, assign]
    split
    · exact follows_capture sim target line
    · exact follows_captureAndCombine sim target o line
  | .block _ | .float _ | .assign .. | .branch .. | .runAs .. | .create _ | .call .. => by
    rw [Node.rename, assign, assign]
    · exact follows_fail rfl
    all_goals simp

/-- Both sides load a phrase into the same register. -/
theorem follows_load (node : Node) (r : String) :
    Follows ren Rel (assign (scratch r) .set node) (assign (scratch r) .set (node.rename ren)) := by
  have h := follows_assign sim (scratch r) .set node
  rwa [rename_scratch sim] at h

private theorem follows_calculation (first : Node) (o : Operator) (second : Node) :
    Follows ren Rel (calculation first o second)
      (calculation (first.rename ren) o (second.rename ren)) :=
  (follows_checkOperand first).bind fun _ => (follows_checkOperand second).bind fun _ =>
    follows_calculate sim o (follows_load sim first) (follows_load sim second)

private theorem follows_compareDirectly (negate : Bool) (first : Access) (c : Comparator)
    (second : Access) {body body' : Lowering (List Command)} (hbody : Follows ren Rel body body') :
    Follows ren Rel (compareDirectly negate first c second body)
      (compareDirectly negate (first.rename ren) c (second.rename ren) body') :=
  (follows_scoreOf sim first).bind fun _ => (follows_scoreOf sim second).bind fun _ => hbody.map _

private theorem follows_compareCopies (negate : Bool) (first : Node) (c : Comparator)
    (second : Node)
    {body body' : Lowering (List Command)} (hbody : Follows ren Rel body body') :
    Follows ren Rel (compareCopies negate first c second body)
      (compareCopies negate (first.rename ren) c (second.rename ren) body') := by
  refine (follows_createScratch sim).bind fun _ => Follows.map (follows_withRegister sim fun r =>
    follows_withRegister sim fun q => ?_) _
  refine (follows_load sim first r).bind fun _ => (follows_load sim second q).bind fun _ => ?_
  exact (follows_register sim r).bind fun _ => (follows_register sim q).bind fun _ => hbody.map _

end Phrases

section Statements

variable {ren : Renaming} {Rel : Session → Session → Prop}

mutual

/-- Lowering a renamed statement follows lowering the statement. -/
theorem follows_lower (sim : Simulation ren Rel) : (node : Node) →
    Follows ren Rel (lower node) (lower (node.rename ren))
  | .block body => by
    rw [Node.rename, lower, lower]
    exact follows_lowerAll sim body
  | .create store => by
    rw [Node.rename, lower, lower]
    exact follows_createStore sim store
  | .assign target o value => by
    rw [Node.rename, lower, lower]
    exact follows_assign sim target o value
  | .calc first o second => by
    rw [Node.rename, lower, lower]
    exact (follows_calculation sim first o second).map _
  | .branch negate first c second body => by
    rw [Node.rename, lower, lower, directOperands_rename]
    cases directOperands first second body with
    | some operands =>
      exact follows_compareDirectly sim negate operands.1 c operands.2 (follows_lowerAll sim body)
    | none => exact follows_compareCopies sim negate first c second (follows_lowerAll sim body)
  | .runAs selector body => by
    rw [Node.rename, lower, lower]
    exact (follows_lowerAll sim body).map _
  | .text line => by
    rw [Node.rename, lower]
    exact follows_pure _
  | .int _ | .float _ => by
    rw [Node.rename, lower]
    exact follows_fail rfl
  | .access _ | .call .. => by
    rw [Node.rename, lower, lower]
    exact follows_fail rfl

/-- Lowering renamed statements in order follows lowering the statements. -/
theorem follows_lowerAll (sim : Simulation ren Rel) : (body : List Node) →
    Follows ren Rel (lowerAll body) (lowerAll (Node.renameAll ren body))
  | [] => by
    rw [Node.renameAll, lowerAll]
    exact follows_pure _
  | node :: rest => by
    rw [Node.renameAll, lowerAll, lowerAll]
    exact (follows_lower sim node).bind fun _ => (follows_lowerAll sim rest).map _

end

end Statements

end Lowering

end Datapack
