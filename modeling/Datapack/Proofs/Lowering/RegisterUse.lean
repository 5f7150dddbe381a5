import Datapack.Proofs.Lowering.Declaration
import Datapack.Proofs.Semantics.Agreement

/-!
# Registers in use

Where a session has put the scores of a program, and which of them a task may
write. All scratch work is done in registers taken for it, so no command of a
task writes a register that is in use around the task. That is why the copies
compared by an outer condition survive whatever its body does.
-/

namespace Datapack

namespace Session

/-- Target name of the scratch store, if it was ever created. -/
def scratch? (s : Session) : Option String := s.storeNames.lookup scratchStore

/-- Target name of an entry; it is empty for a variable that was never used. -/
def entryName (s : Session) : Entry → String
  | .named name => (s.variableNames.lookup name).getD ""
  | .verbatim text => text

/-- Where a session has put the scores of a program; the name of a store never created is empty. -/
def address (s : Session) : Meaning.Address := fun a =>
  ⟨s.entryName a.entry, (s.storeNames.lookup a.store).getD ""⟩

end Session

namespace Moment

/-- No name that is handed out is empty. -/
theorem Reachable.ne_empty {m : Moment} (h : m.Reachable) {name short : String}
    (hlookup : m.session.storeNames.lookup name = some short) : short ≠ "" :=
  (h.isWord_store hlookup).1

/-- Programs find their scores outside the scratch store. -/
theorem Reachable.address_avoids {m : Moment} (h : m.Reachable) :
    m.session.address.Avoids m.session.scratch? := by
  intro a hne hscratch
  cases hlookup : m.session.storeNames.lookup a.store with
  | none =>
    simp only [Session.address, hlookup, Option.getD_none] at hscratch
    exact h.ne_empty hscratch rfl
  | some short =>
    simp only [Session.address, hlookup, Option.getD_some] at hscratch
    exact hne (h.storeNames_injective hlookup hscratch)

/-- A register that is taken was not in use. -/
theorem Reachable.not_mem_held {held : List String} {r : String} {s : Session}
    (h : Reachable ⟨r :: held, s⟩) : r ∉ held :=
  (List.nodup_cons.mp h.nodup.of_append_right).1

/-- Two registers taken in a row were not in use, and differ. -/
theorem Reachable.registers_fresh {held : List String} {r q : String} {s : Session}
    (h : Reachable ⟨q :: r :: held, s⟩) : r ∉ held ∧ q ∉ held ∧ r ≠ q := by
  have hnodup : (q :: r :: held).Nodup := h.nodup.of_append_right
  simp only [List.nodup_cons, List.mem_cons, not_or] at hnodup
  exact ⟨hnodup.2.1, hnodup.1.2, Ne.symm hnodup.1.1⟩

end Moment

namespace Lowering

open Session Moment

section Address

variable {s t u : Session} {a : Access} {x : Score}

/-- Finding a score takes no name back. -/
theorem keepsNames_of_scoreOf (h : scoreOf a s = (.ok x, t)) : s.KeepsNames t :=
  (stepwise_scoreOf a).keepsNames h

/-- A score that was found stays at its address. -/
theorem address_of_scoreOf (h : scoreOf a s = (.ok x, t)) (hu : t.KeepsNames u) :
    u.address a = x := by
  obtain ⟨hstore, hentry⟩ := scoreOf_eq_ok.mp h
  have hkeep : s.KeepsNames u := (keepsNames_of_scoreOf h).trans hu
  have hstore' := hkeep.storeNames (lookup_of_storeName? hstore)
  have hentry' : u.entryName a.entry = x.entry := by
    cases he : a.entry with
    | verbatim text =>
      rw [he] at hentry
      exact congrArg Prod.fst hentry
    | named name =>
      rw [he] at hentry
      obtain ⟨hshort, ht⟩ := Prod.mk.inj hentry
      have hnew : t.variableNames.lookup name = some x.entry := by
        rw [← hshort, ← ht]
        exact NameTable.lookup_resolve s.variableNames name s.supply
      simp only [entryName, hu.variableNames hnew, Option.getD_some]
  simp only [address, hstore', hentry', Option.getD_some]

/-- Two scores that were found one after the other stay at their addresses. -/
theorem addresses_of_scoreOf {v : Session} {b : Access} {y : Score}
    (hx : scoreOf a s = (.ok x, t)) (hy : scoreOf b t = (.ok y, v)) (hu : v.KeepsNames u) :
    u.address a = x ∧ u.address b = y :=
  ⟨address_of_scoreOf hx ((keepsNames_of_scoreOf hy).trans hu), address_of_scoreOf hy hu⟩

/-- Once a register was found, all registers are known to lie in the scratch store. -/
theorem scratch?_of_scoreOf {q : String} (h : scoreOf (scratch q) s = (.ok x, t))
    (hu : t.KeepsNames u) (r : String) : u.scratch? = some (u.address (scratch r)).store := by
  have hkeep : s.KeepsNames u := (keepsNames_of_scoreOf h).trans hu
  have hlookup : u.scratch? = some x.store :=
    hkeep.storeNames (lookup_of_storeName? (scoreOf_eq_ok.mp h).1)
  have haddress : (u.address (scratch r)).store = u.scratch?.getD "" := rfl
  rw [haddress, hlookup, Option.getD_some]

end Address

/-- Source stores that a task mentions, the target of an assignment left aside. -/
def Task.mentions : Task → List String
  | .assign _ _ value => value.stores
  | .operands _ first _ second => first.stores ++ second.stores
  | .calculation _ first _ second => first.stores ++ second.stores
  | .statement node => node.stores
  | .statements body => Node.storesAll body

/-- Scores that a task writes although they may be registers in use. -/
def Task.targets : Task → List Access
  | .assign target _ _ => [target]
  | .operands r _ q _ => [scratch r, scratch q]
  | .calculation .. | .statement _ | .statements _ => []

/-- The only registers in use that a task may write are its targets. -/
def Task.MayWrite (task : Task) (u : Session) (held : List String) (x : Score) : Prop :=
  u.scratch? = some x.store → x.entry ∈ held → ∃ a ∈ task.targets, u.address a = x

/-- A task may write what its parts may, whose own targets are not in use around the task. -/
theorem Task.MayWrite.of_part {part task : Task} {u : Session} {held held' : List String}
    {x : Score} (hsub : held ⊆ held')
    (htargets : ∀ a ∈ part.targets, a ∈ task.targets ∨ (u.address a).entry ∉ held)
    (h : part.MayWrite u held' x) : task.MayWrite u held x := by
  intro hscratch hmem
  obtain ⟨a, ha, rfl⟩ := h hscratch (hsub hmem)
  exact ⟨a, (htargets a ha).resolve_right (not_not_intro hmem), rfl⟩

/-- The registers of a calculation or a comparison are not in use around it. -/
theorem Task.MayWrite.of_registers {part task : Task} {s u : Session} {held : List String}
    {r q : String} {x : Score} (hs : Reachable ⟨q :: r :: held, s⟩)
    (htargets : part.targets ⊆ [scratch r, scratch q])
    (h : part.MayWrite u (q :: r :: held) x) : task.MayWrite u held x := by
  obtain ⟨hr, hq, -⟩ := hs.registers_fresh
  refine h.of_part (List.subset_cons_of_subset q (List.subset_cons_self r held)) ?_
  intro a ha
  rcases List.mem_pair.mp (htargets ha) with rfl | rfl
  · exact Or.inr hr
  · exact Or.inr hq

/-- Creating a store writes no score. -/
theorem writesIn_createStore {s t : Session} {name : String} {commands : List Command}
    (h : s.createStore name = (commands, t)) (allowed : Score → Prop) :
    WritesIn allowed commands := by
  obtain rfl : (s.createStore name).1 = commands := by rw [h]
  unfold Session.createStore
  split
  · exact fun c hc => absurd hc List.not_mem_nil
  · intro c hc x hx
    rw [List.mem_singleton.mp hc] at hx
    exact absurd hx List.not_mem_nil

/-- Combining a score with another one writes the first. -/
theorem writesIn_access {held : List String} {target source : Access} {o : Operator}
    {s t u : Session} {commands : List Command} {allowed : Score → Prop}
    (h : Emits held (.assign target o (.access source)) s commands t) (hu : t.KeepsNames u)
    (htarget : allowed (u.address target)) : WritesIn allowed commands := by
  cases h with
  | access hx hy =>
    rw [(addresses_of_scoreOf hx hy hu).1] at htarget
    exact .singleton (List.Subset.refl _) htarget

/-- A task may write its targets. -/
theorem Task.mayWrite_of_mem {task : Task} {a : Access} (ha : a ∈ task.targets) (u : Session)
    (held : List String) : task.MayWrite u held (u.address a) :=
  fun _ _ => ⟨a, ha, rfl⟩

section Cases

variable {held : List String} {r q : String} {s s' s₁ t u : Session}
  {declaration loaded commands combined : List Command}

/-- A result that is captured first is captured in a register that was not in use. -/
theorem writesIn_capturedFirst {target : Access} {o : Operator} {line : String}
    (hdecl : s.createStore scratchStore = (declaration, s')) (hr : r ∉ held)
    (hcaptured : WritesIn ((Task.assign (scratch r) .set (.text line)).MayWrite u (r :: held))
      commands)
    (hcomb : Emits (r :: held) (.assign target o (.access (scratch r))) s₁ combined t)
    (hu : t.KeepsNames u) :
    WritesIn ((Task.assign target o (.text line)).MayWrite u held)
      (declaration ++ (commands ++ combined)) := by
  refine (writesIn_createStore hdecl _).append (WritesIn.append ?_ ?_)
  · refine hcaptured.mono fun x => .of_part (List.subset_cons_self _ _) fun a ha => Or.inr ?_
    rw [List.mem_singleton.mp ha]
    exact hr
  · exact writesIn_access hcomb hu (Task.mayWrite_of_mem (List.mem_singleton_self _) u held)

/-- Two operands are loaded into the registers given for them. -/
theorem writesIn_operands {first second : Node}
    (hloaded : WritesIn ((Task.assign (scratch r) .set first).MayWrite u held) loaded)
    (hloaded' : WritesIn ((Task.assign (scratch q) .set second).MayWrite u held) commands) :
    WritesIn ((Task.operands r first q second).MayWrite u held) (loaded ++ commands) := by
  refine WritesIn.append ?_ ?_
  · refine hloaded.mono fun x => .of_part (List.Subset.refl _) fun a ha => Or.inl ?_
    exact List.mem_cons.mpr (Or.inl (List.mem_singleton.mp ha))
  · refine hloaded'.mono fun x => .of_part (List.Subset.refl _) fun a ha => Or.inl ?_
    exact List.mem_cons_of_mem _ ha

/-- A calculation works in registers that were not in use. -/
theorem writesIn_calculation {first second : Node} {o : Operator}
    (hdecl : s.createStore scratchStore = (declaration, s'))
    (hs : Reachable ⟨q :: r :: held, s₁⟩)
    (hloaded : WritesIn ((Task.operands r first q second).MayWrite u (q :: r :: held)) loaded)
    (hcomb : Emits (q :: r :: held) (.assign (scratch r) o (.access (scratch q))) s₁ combined t)
    (hu : t.KeepsNames u) :
    WritesIn ((Task.calculation r first o second).MayWrite u held)
      (declaration ++ (loaded ++ combined)) := by
  refine (writesIn_createStore hdecl _).append (WritesIn.append ?_ ?_)
  · exact hloaded.mono fun x => .of_registers hs (List.Subset.refl _)
  · exact writesIn_access hcomb hu fun _ hmem => absurd hmem hs.registers_fresh.1

/-- Copies are made in registers that were not in use, and the body writes none in use. -/
theorem writesIn_copies {negate : Bool} {first second : Node} {c : Comparator} {body : List Node}
    {x y : Score} (hdecl : s.createStore scratchStore = (declaration, s'))
    (hs : Reachable ⟨q :: r :: held, s₁⟩)
    (hloaded : WritesIn ((Task.operands r first q second).MayWrite u (q :: r :: held)) loaded)
    (hran : WritesIn ((Task.statements body).MayWrite u (q :: r :: held)) commands) :
    WritesIn ((Task.statement (.branch negate first c second body)).MayWrite u held)
      (declaration ++ (loaded ++ commands.map (Command.under (.compare negate x c y)))) := by
  refine (writesIn_createStore hdecl _).append (WritesIn.append ?_ ?_)
  · exact hloaded.mono fun x => .of_registers hs (List.Subset.refl _)
  · exact (hran.mono fun x => .of_registers hs (List.nil_subset _)).under rfl

end Cases

/-- The commands of a task write no register in use, but for the targets of the task. -/
theorem Emits.writesIn {held : List String} {task : Task} {s t u : Session}
    {commands : List Command} (h : Emits held task s commands t) (hs : Reachable ⟨held, s⟩)
    (hmentions : scratchStore ∉ task.mentions) (hu : t.KeepsNames u)
    (havoids : u.address.Avoids u.scratch?) : WritesIn (task.MayWrite u held) commands := by
  induction h with
  | int _ hx =>
    rw [← address_of_scoreOf hx hu]
    exact .edit (Task.mayWrite_of_mem (List.mem_singleton_self _) _ _)
  | access hx hy =>
    rw [← (addresses_of_scoreOf hx hy hu).1]
    exact .singleton (List.Subset.refl _)
      (Task.mayWrite_of_mem (List.mem_singleton_self _) _ _)
  | captured hx =>
    rw [← address_of_scoreOf hx hu]
    exact .singleton (List.Subset.refl _)
      (Task.mayWrite_of_mem (List.mem_singleton_self _) _ _)
  | capturedFirst hdecl hr hcap hcomb ihcap =>
    have hr' := hs.reaches ((reaches_createStore hdecl).trans (reaches_acquire hr))
    have hkeep := hcomb.reaches.keepsNames.trans hu.of_release
    exact writesIn_capturedFirst hdecl hr'.not_mem_held (ihcap hr' hmentions hkeep) hcomb
      hu.of_release
  | calculated hcalc hcomb ihcalc =>
    have hkeep := hcomb.reaches.keepsNames.trans hu
    have hcalculated := ihcalc hs hmentions hkeep
    refine (hcalculated.mono fun x => .of_part (List.Subset.refl _) nofun).append ?_
    exact writesIn_access hcomb hu (Task.mayWrite_of_mem (List.mem_singleton_self _) _ _)
  | operands hload hload' ihload ihload' =>
    rw [Task.mentions, List.mem_append, not_or] at hmentions
    exact writesIn_operands (ihload hs hmentions.1 (hload'.reaches.keepsNames.trans hu))
      (ihload' (hs.reaches hload.reaches) hmentions.2 hu)
  | calculation _ _ hdecl hr hq hload hcomb ihload ihcomb =>
    have hq' := hs.reaches (reaches_registers hdecl hr hq)
    have hkeep := hu.of_release.of_release
    exact writesIn_calculation hdecl (hq'.reaches hload.reaches)
      (ihload hq' hmentions (hcomb.reaches.keepsNames.trans hkeep)) hcomb hkeep
  | block _ ih => exact ih hs hmentions hu
  | create h => exact writesIn_createStore h _
  | assign _ ih =>
    rw [Task.mentions, Node.stores, List.mem_cons, not_or] at hmentions
    refine (ih hs hmentions.2 hu).mono fun x hx hscratch hmem => ?_
    obtain ⟨a, ha, rfl⟩ := hx hscratch hmem
    rw [List.mem_singleton.mp ha] at hscratch
    exact absurd hscratch (havoids _ (Ne.symm hmentions.1))
  | discarded _ ih =>
    refine (ih hs hmentions hu).mono fun x => .of_part (List.Subset.refl _) nofun
  | direct hx hy _ _ ih =>
    have hbody := hs.reaches ((reaches_scoreOf hx).trans (reaches_scoreOf hy))
    rw [Task.mentions, Node.stores, List.mem_append, List.mem_append, not_or, not_or] at hmentions
    exact (ih hbody hmentions.2.2 hu).under rfl
  | copies hdecl hr hq hload hx hy hbody ihload ihbody =>
    have hq' := hs.reaches (reaches_registers hdecl hr hq)
    have hcompared := hload.reaches.trans ((reaches_scoreOf hx).trans (reaches_scoreOf hy))
    rw [Task.mentions, Node.stores, ← List.append_assoc, List.mem_append, not_or] at hmentions
    have hkeep := hu.of_release.of_release
    have hkeep' := (keepsNames_of_scoreOf hy).trans (hbody.reaches.keepsNames.trans hkeep)
    have hloaded := ihload hq' hmentions.1 ((keepsNames_of_scoreOf hx).trans hkeep')
    have hran := ihbody (hq'.reaches hcompared) hmentions.2 hkeep
    exact writesIn_copies hdecl hq' hloaded hran
  | runAs _ ih => exact (ih hs hmentions hu).under rfl
  | text =>
    intro c hc x hx
    rw [List.mem_singleton.mp hc] at hx
    exact absurd hx List.not_mem_nil
  | nil => exact fun _ h => absurd h List.not_mem_nil
  | cons h h' ih ih' =>
    rw [Task.mentions, Node.storesAll, List.mem_append, not_or] at hmentions
    have hfirst := ih hs hmentions.1 (h'.reaches.keepsNames.trans hu)
    exact hfirst.append (ih' (hs.reaches h.reaches) hmentions.2 hu)

end Lowering

end Datapack
