import Datapack.Proofs.Lowering.RegisterUse
import Datapack.Proofs.Session.LineByLine
import Datapack.Proofs.Target.Parts

/-!
# What the commands of a program speak of

A command speaks of scores that the program mentions, at the addresses where the
session has put them, of scratch registers, of stores under their short names, and
of texts of the program. Every score that the program mentions has been found, so
its variable has a name.
-/

namespace Datapack.Lowering

open Session Moment

/-- Scores that a task mentions, in source names. -/
def Task.accesses : Task → List Access
  | .assign target _ value => target :: value.accesses
  | .operands r first q second => scratch r :: scratch q :: (first.accesses ++ second.accesses)
  | .calculation _ first _ second => first.accesses ++ second.accesses
  | .statement node => node.accesses
  | .statements body => Node.accessesAll body

/-- Texts that a task passes through; the text of an entry is part of a score. -/
def Task.texts : Task → List String
  | .assign _ _ (.access _) => []
  | .assign _ _ value => value.texts
  | .operands _ first _ second | .calculation _ first _ second => first.texts ++ second.texts
  | .statement node => node.texts
  | .statements body => Node.textsAll body

/-- The score is a scratch register, or one that the accesses mention. -/
def Refers (u : Session) (accesses : List Access) (x : Score) : Prop :=
  (∃ a ∈ accesses, u.address a = x) ∨ ∃ r, Letters.IsWord r ∧ u.address (scratch r) = x

/-- Parts that the commands of a task may have. -/
def Task.Allows (task : Task) (u : Session) : Part → Prop
  | .score x => Refers u task.accesses x
  | .store name => Letters.IsWord name
  | .text content => content ∈ task.texts

private theorem Task.texts_assign_subset (target : Access) (o : Operator) (value : Node) :
    (Task.assign target o value).texts ⊆ value.texts := by
  cases value with
  | access source => exact List.nil_subset _
  | _ => exact List.Subset.refl _

section Allows

variable {u : Session} {part whole : Task}

/-- A task allows what its parts allow, whose own registers are words. -/
theorem Task.Allows.of_part
    (haccesses : ∀ a ∈ part.accesses, a ∈ whole.accesses ∨ ∃ r, Letters.IsWord r ∧ a = scratch r)
    (htexts : part.texts ⊆ whole.texts) {p : Part} (h : part.Allows u p) : whole.Allows u p := by
  cases p with
  | store name => exact h
  | text content => exact htexts h
  | score x =>
    rcases h with ⟨a, ha, rfl⟩ | hregister
    · rcases haccesses a ha with hmem | ⟨r, hr, rfl⟩
      · exact .inl ⟨a, hmem, rfl⟩
      · exact .inr ⟨r, hr, rfl⟩
    · exact .inr hregister

private theorem madeOf_of_part {commands : List Command} (h : MadeOf (part.Allows u) commands)
    (haccesses : ∀ a ∈ part.accesses, a ∈ whole.accesses ∨ ∃ r, Letters.IsWord r ∧ a = scratch r)
    (htexts : part.texts ⊆ whole.texts) : MadeOf (whole.Allows u) commands :=
  h.mono fun _ => Task.Allows.of_part haccesses htexts

private theorem refers_of_scoreOf {a : Access} {x : Score} {s t : Session} {accesses : List Access}
    (h : scoreOf a s = (.ok x, t)) (hu : t.KeepsNames u) (ha : a ∈ accesses) :
    Refers u accesses x :=
  .inl ⟨a, ha, address_of_scoreOf h hu⟩

/-- Creating a store speaks of it under its short name. -/
theorem madeOf_createStore {held : List String} {s t : Session} {name : String}
    {commands : List Command} (hs : Reachable ⟨held, s⟩)
    (h : s.createStore name = (commands, t)) (task : Task) :
    MadeOf (task.Allows u) commands := by
  have ht : Reachable ⟨held, t⟩ := hs.reaches (reaches_createStore h)
  cases hd : s.isDeclared name with
  | true =>
    rw [createStore_of_declared hd] at h
    cases h
    exact .nil
  | false =>
    rw [createStore_of_undeclared hd] at h
    obtain ⟨rfl, rfl⟩ := Prod.mk.inj h
    have hlookup := NameTable.lookup_resolve s.storeNames name s.supply
    exact .singleton (List.forall_mem_singleton.mpr (ht.isWord_store hlookup))

/-- Registers taken for two operands are words. -/
theorem mem_accesses_operands {held : List String} {r q : String} {s : Session}
    (hs : Reachable ⟨q :: r :: held, s⟩) {first second : Node} {a : Access}
    (ha : a ∈ (Task.operands r first q second).accesses) :
    a ∈ first.accesses ++ second.accesses ∨ ∃ r, Letters.IsWord r ∧ a = scratch r := by
  rcases List.mem_cons.mp ha with rfl | ha
  · exact .inr ⟨r, hs.isWord_held (List.mem_cons_of_mem _ List.mem_cons_self), rfl⟩
  · rcases List.mem_cons.mp ha with rfl | ha
    · exact .inr ⟨q, hs.isWord_held List.mem_cons_self, rfl⟩
    · exact .inl ha

end Allows

private theorem Emits.isWord {held : List String} {r : String} {first second : Node} {o : Operator}
    {s t : Session} {commands : List Command} (hs : Reachable ⟨held, s⟩)
    (h : Emits held (.calculation r first o second) s commands t) : Letters.IsWord r := by
  cases h with
  | calculation _ _ hdecl hr hq _ _ =>
    have hr' := hs.reaches ((reaches_createStore hdecl).trans (reaches_acquire hr))
    exact hr'.isWord_held List.mem_cons_self

section Cases

variable {held : List String} {r q : String} {s s' s₁ s₂ s₃ t u : Session}
  {declaration loaded commands combined : List Command}

/-- A register that is read into a target adds nothing to what the target's task allows. -/
theorem madeOf_of_register {whole : Task} {target : Access} {o : Operator} (hr : Letters.IsWord r)
    (h : MadeOf ((Task.assign target o (.access (scratch r))).Allows u) combined)
    (htarget : target ∈ whole.accesses) : MadeOf (whole.Allows u) combined :=
  madeOf_of_part h (List.forall_mem_cons.mpr ⟨.inl htarget,
    List.forall_mem_singleton.mpr (.inr ⟨r, hr, rfl⟩)⟩) (List.nil_subset _)

/-- A result that is captured first goes through a register. -/
theorem madeOf_capturedFirst {target : Access} {o : Operator} {line : String}
    (hs : Reachable ⟨held, s⟩) (hdecl : s.createStore scratchStore = (declaration, s'))
    (hr : Letters.IsWord r)
    (hcaptured : MadeOf ((Task.assign (scratch r) .set (.text line)).Allows u) commands)
    (hcombined : MadeOf ((Task.assign target o (.access (scratch r))).Allows u) combined) :
    MadeOf ((Task.assign target o (.text line)).Allows u)
      (declaration ++ (commands ++ combined)) := by
  refine (madeOf_createStore hs hdecl _).append (MadeOf.append ?_ ?_)
  · exact madeOf_of_part hcaptured (List.forall_mem_singleton.mpr (.inr ⟨r, hr, rfl⟩)) fun _ h => h
  · exact madeOf_of_register hr hcombined List.mem_cons_self

/-- Each of two operands is loaded into a register of its own. -/
theorem madeOf_operands {first second : Node}
    (hloaded : MadeOf ((Task.assign (scratch r) .set first).Allows u) loaded)
    (hloaded' : MadeOf ((Task.assign (scratch q) .set second).Allows u) commands) :
    MadeOf ((Task.operands r first q second).Allows u) (loaded ++ commands) := by
  refine MadeOf.append ?_ ?_
  · refine madeOf_of_part hloaded ?_
      (List.subset_append_of_subset_left _ (Task.texts_assign_subset _ _ _))
    simp only [Task.accesses, List.mem_cons, List.mem_append]
    grind
  · refine madeOf_of_part hloaded' ?_
      (List.subset_append_of_subset_right _ (Task.texts_assign_subset _ _ _))
    simp only [Task.accesses, List.mem_cons, List.mem_append]
    grind

/-- A calculation combines its operands in registers. -/
theorem madeOf_calculation {first second : Node} {o : Operator} (hs : Reachable ⟨held, s⟩)
    (hdecl : s.createStore scratchStore = (declaration, s'))
    (hregisters : Reachable ⟨q :: r :: held, s₁⟩)
    (hloaded : MadeOf ((Task.operands r first q second).Allows u) loaded)
    (hcombined : MadeOf ((Task.assign (scratch r) o (.access (scratch q))).Allows u) combined) :
    MadeOf ((Task.calculation r first o second).Allows u)
      (declaration ++ (loaded ++ combined)) := by
  refine (madeOf_createStore hs hdecl _).append (MadeOf.append ?_ ?_)
  · exact madeOf_of_part hloaded (fun _ => mem_accesses_operands hregisters) fun _ h => h
  · refine madeOf_of_part hcombined (fun a ha => ?_) (List.nil_subset _)
    exact mem_accesses_operands hregisters (List.mem_append_left _ ha)

/-- The body of a condition may speak of what the condition may speak of. -/
theorem madeOf_of_body {negate : Bool} {first second : Node} {c : Comparator} {body : List Node}
    (h : MadeOf ((Task.statements body).Allows u) commands) :
    MadeOf ((Task.statement (.branch negate first c second body)).Allows u) commands :=
  madeOf_of_part h (fun _ ha => .inl (List.mem_append_right _ (List.mem_append_right _ ha)))
    (List.subset_append_of_subset_right _ (List.subset_append_right _ _))

/-- Scores that are compared in place are mentioned by the condition. -/
theorem madeOf_direct {negate : Bool} {first second : Access} {c : Comparator} {body : List Node}
    {x y : Score} (hx : scoreOf first s = (.ok x, s₁)) (hy : scoreOf second s₁ = (.ok y, s₂))
    (hu : s₂.KeepsNames u) (hran : MadeOf ((Task.statements body).Allows u) commands) :
    MadeOf ((Task.statement (.branch negate (.access first) c (.access second) body)).Allows u)
      (commands.map (Command.under (.compare negate x c y))) := by
  refine MadeOf.under (List.forall_mem_cons.mpr ⟨?_, List.forall_mem_singleton.mpr ?_⟩)
    (madeOf_of_body hran)
  · exact refers_of_scoreOf hx ((keepsNames_of_scoreOf hy).trans hu)
      (List.mem_append_left _ List.mem_cons_self)
  · exact refers_of_scoreOf hy hu
      (List.mem_append_right _ (List.mem_append_left _ List.mem_cons_self))

/-- Copies are compared in registers. -/
theorem madeOf_copies {negate : Bool} {first second : Node} {c : Comparator} {body : List Node}
    {x y : Score} (hs : Reachable ⟨held, s⟩)
    (hdecl : s.createStore scratchStore = (declaration, s'))
    (hregisters : Reachable ⟨q :: r :: held, s₁⟩)
    (hloaded : MadeOf ((Task.operands r first q second).Allows u) loaded)
    (hx : scoreOf (scratch r) s₁ = (.ok x, s₂)) (hy : scoreOf (scratch q) s₂ = (.ok y, s₃))
    (hu : s₃.KeepsNames u) (hran : MadeOf ((Task.statements body).Allows u) commands) :
    MadeOf ((Task.statement (.branch negate first c second body)).Allows u)
      (declaration ++ (loaded ++ commands.map (Command.under (.compare negate x c y)))) := by
  refine (madeOf_createStore hs hdecl _).append
    (MadeOf.append ?_ (MadeOf.under ?_ (madeOf_of_body hran)))
  · refine madeOf_of_part hloaded (fun a ha => ?_) ?_
    · rw [Task.accesses, Node.accesses, ← List.append_assoc]
      exact (mem_accesses_operands hregisters ha).imp_left (List.mem_append_left _)
    · rw [Task.texts, Task.texts, Node.texts, ← List.append_assoc]
      exact List.subset_append_left _ _
  · obtain ⟨hrx, hqy⟩ := addresses_of_scoreOf hx hy hu
    refine List.forall_mem_cons.mpr ⟨.inr ⟨r, ?_, hrx⟩, List.forall_mem_singleton.mpr
      (.inr ⟨q, ?_, hqy⟩)⟩
    · exact hregisters.isWord_held (List.mem_cons_of_mem _ List.mem_cons_self)
    · exact hregisters.isWord_held List.mem_cons_self

end Cases

/-- The commands of a task are made of what it allows. -/
theorem Emits.madeOf {held : List String} {task : Task} {s t u : Session}
    {commands : List Command} (h : Emits held task s commands t) (hs : Reachable ⟨held, s⟩)
    (hu : t.KeepsNames u) : MadeOf (task.Allows u) commands := by
  induction h with
  | int _ hx => exact .edit (refers_of_scoreOf hx hu List.mem_cons_self)
  | access hx hy =>
    refine .singleton (List.forall_mem_cons.mpr ⟨?_, List.forall_mem_singleton.mpr ?_⟩)
    · exact refers_of_scoreOf hx ((keepsNames_of_scoreOf hy).trans hu) List.mem_cons_self
    · exact refers_of_scoreOf hy hu (List.mem_cons_of_mem _ List.mem_cons_self)
  | captured hx =>
    refine .singleton (List.forall_mem_cons.mpr ⟨?_, List.forall_mem_singleton.mpr ?_⟩)
    · exact refers_of_scoreOf hx hu List.mem_cons_self
    · exact List.mem_cons_self
  | capturedFirst hdecl hr hcap hcomb ihcap ihcomb =>
    have hr' := hs.reaches ((reaches_createStore hdecl).trans (reaches_acquire hr))
    have hkeep := hu.of_release
    exact madeOf_capturedFirst hs hdecl (hr'.isWord_held List.mem_cons_self)
      (ihcap hr' (hcomb.reaches.keepsNames.trans hkeep)) (ihcomb (hr'.reaches hcap.reaches) hkeep)
  | calculated hcalc hcomb ihcalc ihcomb =>
    have hcalculated := ihcalc hs (hcomb.reaches.keepsNames.trans hu)
    have hcombined := ihcomb (hs.reaches hcalc.reaches) hu
    refine MadeOf.append ?_ (madeOf_of_register (hcalc.isWord hs) hcombined List.mem_cons_self)
    exact madeOf_of_part hcalculated (fun a ha => .inl (List.mem_cons_of_mem _ ha)) fun _ h => h
  | operands hload hload' ihload ihload' =>
    exact madeOf_operands (ihload hs (hload'.reaches.keepsNames.trans hu))
      (ihload' (hs.reaches hload.reaches) hu)
  | calculation _ _ hdecl hr hq hload hcomb ihload ihcomb =>
    have hq' := hs.reaches (reaches_registers hdecl hr hq)
    have hkeep := hu.of_release.of_release
    exact madeOf_calculation hs hdecl hq' (ihload hq' (hcomb.reaches.keepsNames.trans hkeep))
      (ihcomb (hq'.reaches hload.reaches) hkeep)
  | block _ ih => exact ih hs hu
  | create h => exact madeOf_createStore hs h _
  | assign _ ih =>
    refine madeOf_of_part (ih hs hu) (fun a ha => .inl ha) ?_
    exact List.subset_append_of_subset_right _ (Task.texts_assign_subset _ _ _)
  | discarded _ ih => exact ih hs hu
  | direct hx hy hbody _ ih =>
    have hs' := hs.reaches ((reaches_scoreOf hx).trans (reaches_scoreOf hy))
    exact madeOf_direct hx hy (hbody.reaches.keepsNames.trans hu) (ih hs' hu)
  | copies hdecl hr hq hload hx hy hbody ihload ihbody =>
    have hq' := hs.reaches (reaches_registers hdecl hr hq)
    have hloads := hq'.reaches hload.reaches
    have hkeep := hu.of_release.of_release
    have hkeep' := hbody.reaches.keepsNames.trans hkeep
    have hkeep'' := (keepsNames_of_scoreOf hx).trans ((keepsNames_of_scoreOf hy).trans hkeep')
    have hran := ihbody (hloads.reaches ((reaches_scoreOf hx).trans (reaches_scoreOf hy))) hkeep
    exact madeOf_copies hs hdecl hloads (ihload hq' hkeep'') hx hy hkeep' hran
  | runAs _ ih =>
    have hran := ih hs hu
    refine MadeOf.under (List.forall_mem_singleton.mpr List.mem_cons_self) ?_
    exact madeOf_of_part hran (fun a ha => .inl ha) (List.subset_cons_self _ _)
  | text => exact .singleton (List.forall_mem_singleton.mpr List.mem_cons_self)
  | nil => exact .nil
  | cons h h' ih ih' =>
    have hfirst := ih hs (h'.reaches.keepsNames.trans hu)
    have hrest := ih' (hs.reaches h.reaches) hu
    refine MadeOf.append ?_ ?_
    · exact madeOf_of_part hfirst (fun a ha => .inl (List.mem_append_left _ ha))
        (List.subset_append_left _ _)
    · exact madeOf_of_part hrest (fun a ha => .inl (List.mem_append_right _ ha))
        (List.subset_append_right _ _)

/-- A lowering whose names the session has kept found this score for the reference. -/
def Found (u : Session) (a : Access) (x : Score) : Prop :=
  ∃ s t, scoreOf a s = (.ok x, t) ∧ t.KeepsNames u

section Found

variable {a : Access} {x : Score} {u : Session}

/-- A reference is found at its address only. -/
theorem Found.address_eq (h : Found u a x) : u.address a = x := by
  obtain ⟨s, t, hx, hu⟩ := h
  exact address_of_scoreOf hx hu

/-- A variable that was found has a name. -/
theorem Found.exists_lookup (h : Found u a x) {name : String} (hname : a.entry = .named name) :
    ∃ short, u.variableNames.lookup name = some short := by
  obtain ⟨s, t, hx, hu⟩ := h
  obtain ⟨-, hentry⟩ := scoreOf_eq_ok.mp hx
  rw [hname] at hentry
  obtain ⟨-, rfl⟩ := Prod.mk.inj hentry
  exact ⟨_, hu.variableNames (NameTable.lookup_resolve s.variableNames name s.supply)⟩

end Found

/-- All references of a task have been found. -/
theorem Emits.found {held : List String} {task : Task} {s t u : Session}
    {commands : List Command} (h : Emits held task s commands t) (hu : t.KeepsNames u) :
    ∀ a ∈ task.accesses, ∃ x, Found u a x := by
  induction h with
  | int _ hx | captured hx => exact List.forall_mem_singleton.mpr ⟨_, _, _, hx, hu⟩
  | access hx hy =>
    refine List.forall_mem_cons.mpr ⟨?_, List.forall_mem_singleton.mpr ⟨_, _, _, hy, hu⟩⟩
    exact ⟨_, _, _, hx, (keepsNames_of_scoreOf hy).trans hu⟩
  | capturedFirst _ _ _ _ _ ihcomb =>
    exact List.forall_mem_singleton.mpr (ihcomb hu.of_release _ List.mem_cons_self)
  | calculated _ hcomb ihcalc ihcomb =>
    refine List.forall_mem_cons.mpr ⟨ihcomb hu _ List.mem_cons_self, ?_⟩
    exact ihcalc (hcomb.reaches.keepsNames.trans hu)
  | operands _ hload' ihload ihload' =>
    have hfirst := List.forall_mem_cons.mp (ihload (hload'.reaches.keepsNames.trans hu))
    have hsecond := List.forall_mem_cons.mp (ihload' hu)
    refine List.forall_mem_cons.mpr ⟨hfirst.1, List.forall_mem_cons.mpr ⟨hsecond.1, ?_⟩⟩
    exact List.forall_mem_append.mpr ⟨hfirst.2, hsecond.2⟩
  | calculation _ _ _ _ _ _ hcomb ihload _ =>
    have hloaded := ihload (hcomb.reaches.keepsNames.trans hu.of_release.of_release)
    exact (List.forall_mem_cons.mp (List.forall_mem_cons.mp hloaded).2).2
  | block _ ih | assign _ ih | discarded _ ih | runAs _ ih => exact ih hu
  | create | text | nil => nofun
  | direct hx hy hbody _ ih =>
    have hkeep := hbody.reaches.keepsNames.trans hu
    refine List.forall_mem_cons.mpr ⟨?_, List.forall_mem_cons.mpr ⟨?_, ih hu⟩⟩
    · exact ⟨_, _, _, hx, (keepsNames_of_scoreOf hy).trans hkeep⟩
    · exact ⟨_, _, _, hy, hkeep⟩
  | copies _ _ _ _ hx hy hbody ihload ihbody =>
    have hkeep := hbody.reaches.keepsNames.trans hu.of_release.of_release
    have hkeep' := (keepsNames_of_scoreOf hx).trans ((keepsNames_of_scoreOf hy).trans hkeep)
    have hloaded := (List.forall_mem_cons.mp (List.forall_mem_cons.mp (ihload hkeep')).2).2
    obtain ⟨hfirst, hsecond⟩ := List.forall_mem_append.mp hloaded
    refine List.forall_mem_append.mpr ⟨hfirst, List.forall_mem_append.mpr ⟨hsecond, ?_⟩⟩
    exact ihbody hu.of_release.of_release
  | cons _ h' ih ih' =>
    exact List.forall_mem_append.mpr ⟨ih (h'.reaches.keepsNames.trans hu), ih' hu⟩

end Datapack.Lowering

namespace Datapack.Session

/-- A program that is lowered from a fresh session has a derivation, and leads to a reachable
session. -/
theorem exists_emits_of_lowerAll {body : List Node} {commands : List Command} {t : Session}
    (h : fresh.lowerAll body = (.ok commands, t)) :
    ∃ u, Lowering.Emits [] (.statements body) fresh commands u ∧ Moment.Reachable ⟨[], u⟩ ∧
      u.commit = t := by
  obtain ⟨u, hu, hcommit⟩ := run_eq_ok.mp h
  have hemits : Lowering.Emits [] (.statements body) fresh commands u := Lowering.emits_lowerAll hu
  exact ⟨u, hemits, Moment.Reachable.fresh.reaches hemits.reaches, hcommit⟩

end Datapack.Session
