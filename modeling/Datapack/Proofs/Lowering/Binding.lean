import Datapack.Proofs.Language.Binding
import Datapack.Proofs.Lowering.Preservation

/-!
# Lowering for one entity

No name that is handed out is `@s`, so the commands of a statement in which an
entity stands for `@s` are the commands of the statement with the entity in them.
They therefore do what the statement means for that entity.
-/

namespace Datapack

/-- No short name is the entry that stands for the entity in force. -/
theorem Letters.name_ne_selfEntry (n : Nat) : name n ≠ selfEntry := by
  intro h
  have hword : word n = ['@', 's'] := String.ofList_injective h
  have hn : n = number ['@', 's'] := by rw [← hword, number_word]
  rw [hn] at hword
  exact absurd hword (by decide +kernel)

namespace Moment

/-- No name that is handed out stands for the entity in force. -/
theorem Reachable.ne_selfEntry {m : Moment} (h : m.Reachable) {short : String}
    (hmem : short ∈ m.session.names ++ m.held) : short ≠ selfEntry := by
  obtain ⟨n, -, -, rfl⟩ := (Supply.mem_names_iff _ _).mp (h.accounted.perm.mem_iff.mp hmem)
  exact Letters.name_ne_selfEntry n

/-- No register is the entry that stands for the entity in force. -/
theorem Reachable.register_ne_selfEntry {m : Moment} (h : m.Reachable) {r : String}
    (hr : r ∈ m.held) : r ≠ selfEntry :=
  h.ne_selfEntry (List.mem_append_right _ hr)

private theorem Reachable.registers_ne_selfEntry {held : List String} {s : Session} {r q : String}
    (h : Reachable ⟨q :: r :: held, s⟩) : r ≠ selfEntry ∧ q ≠ selfEntry :=
  ⟨h.register_ne_selfEntry (List.mem_cons_of_mem q List.mem_cons_self),
    h.register_ne_selfEntry List.mem_cons_self⟩

end Moment

namespace Lowering

open Session Moment

section Scores

variable {held : List String} {s t : Session} {a : Access} {x : Score}

private theorem boundTo_scratch {r : String} (hr : r ≠ selfEntry) (entity : String) :
    (scratch r).boundTo entity = scratch r := by
  refine if_neg fun h => hr ?_
  cases h
  rfl

/-- A score is found for an entity where it was found before, with the entity in its place. -/
theorem scoreOf_boundTo (hs : Reachable ⟨held, s⟩) (h : scoreOf a s = (.ok x, t))
    (entity : String) : scoreOf (a.boundTo entity) s = (.ok (x.boundTo entity), t) := by
  obtain ⟨hstore, hentry⟩ := scoreOf_eq_ok.mp h
  by_cases hself : a.entry = .verbatim selfEntry
  · rw [hself] at hentry
    obtain ⟨hx, rfl⟩ := Prod.mk.inj hentry
    rw [Access.boundTo, if_pos hself, Score.boundTo, if_pos hx.symm]
    exact scoreOf_eq_ok.mpr ⟨hstore, rfl⟩
  · have hx : x.entry ≠ selfEntry := by
      cases he : a.entry with
      | verbatim text =>
        rw [he] at hentry hself
        obtain ⟨rfl, -⟩ := Prod.mk.inj hentry
        exact fun h => hself (congrArg Entry.verbatim h)
      | named name =>
        have ht : Reachable ⟨held, t⟩ := hs.reaches (reaches_scoreOf h)
        rw [he] at hentry
        obtain ⟨hshort, hsession⟩ := Prod.mk.inj hentry
        have hlookup : t.variableNames.lookup name = some x.entry := by
          rw [← hshort, ← hsession]
          exact NameTable.lookup_resolve s.variableNames name s.supply
        have hshorts : x.entry ∈ t.variableNames.shorts :=
          List.mem_map_of_mem (f := Prod.snd) (NameTable.mem_of_lookup hlookup)
        apply ht.ne_selfEntry
        simp only [Session.names, List.mem_append, hshorts, true_or]
    rw [Access.boundTo, if_neg hself, Score.boundTo, if_neg hx]
    exact h

private theorem map_boundTo_createStore {name : String} {commands : List Command}
    (h : s.createStore name = (commands, t)) (entity : String) :
    commands.map (Command.boundTo entity) = commands := by
  obtain rfl : (s.createStore name).1 = commands := by rw [h]
  unfold Session.createStore
  split <;> rfl

end Scores

/-- The task on the scores that an entity means. -/
def Task.boundTo (entity : String) : Task → Task
  | .assign target o value => .assign (target.boundTo entity) o (value.boundTo entity)
  | .operands r first q second => .operands r (first.boundTo entity) q (second.boundTo entity)
  | .calculation r first o second =>
    .calculation r (first.boundTo entity) o (second.boundTo entity)
  | .statement node => .statement (node.boundTo entity)
  | .statements body => .statements (Node.allBoundTo entity body)

/-- The registers that a task is given are not the entry of the entity in force. -/
def Task.SparesSelf : Task → Prop
  | .operands r _ q _ => r ≠ selfEntry ∧ q ≠ selfEntry
  | .assign .. | .calculation .. | .statement _ | .statements _ => True

/-- The register of a calculation is not the entry of the entity in force. -/
theorem Emits.register_ne_selfEntry {held : List String} {r : String} {first second : Node}
    {o : Operator} {s t : Session} {commands : List Command}
    (h : Emits held (.calculation r first o second) s commands t) (hs : Reachable ⟨held, s⟩) :
    r ≠ selfEntry := by
  cases h with
  | calculation _ _ hdecl hr hq _ _ =>
    exact (hs.reaches (reaches_registers hdecl hr hq)).registers_ne_selfEntry.1

section Cases

variable {held : List String} {r q entity : String} {s s₁ s₂ s₃ s₄ s₅ t : Session}
  {declaration loaded commands combined : List Command}

/-- A register that is read into a target stays, whatever entity the target is for. -/
theorem Emits.boundTo_register {target : Access} {o : Operator} (hr : r ≠ selfEntry)
    (h : Emits held ((Task.assign target o (.access (scratch r))).boundTo entity) s commands t) :
    Emits held (.assign (target.boundTo entity) o (.access (scratch r))) s commands t := by
  rwa [Task.boundTo, Node.boundTo, boundTo_scratch hr] at h

/-- A register that a value is loaded into stays, whatever entity the value is for. -/
theorem Emits.boundTo_load {o : Operator} {value : Node} (hr : r ≠ selfEntry)
    (h : Emits held ((Task.assign (scratch r) o value).boundTo entity) s commands t) :
    Emits held (.assign (scratch r) o (value.boundTo entity)) s commands t := by
  rwa [Task.boundTo, boundTo_scratch hr] at h

/-- A result that is captured first is captured in the same register for an entity. -/
theorem Emits.boundTo_capturedFirst {target : Access} {o : Operator} {line : String}
    (hr : s₁.acquire = (r, s₂)) (hspared : r ≠ selfEntry)
    (hdecl : s.createStore scratchStore = (declaration, s₁))
    (hcap : Emits (r :: held) ((Task.assign (scratch r) .set (.text line)).boundTo entity) s₂
      (commands.map (Command.boundTo entity)) s₃)
    (hcomb : Emits (r :: held) ((Task.assign target o (.access (scratch r))).boundTo entity) s₃
      (combined.map (Command.boundTo entity)) t) :
    Emits held ((Task.assign target o (.text line)).boundTo entity) s
      ((declaration ++ (commands ++ combined)).map (Command.boundTo entity)) (t.release r) := by
  rw [List.map_append, List.map_append, map_boundTo_createStore hdecl]
  exact .capturedFirst hdecl hr (hcap.boundTo_load hspared) (hcomb.boundTo_register hspared)

/-- A calculation works in the same registers for an entity. -/
theorem Emits.boundTo_calculation {first second : Node} {o : Operator}
    (hop : isOperand first = true) (hop' : isOperand second = true)
    (hdecl : s.createStore scratchStore = (declaration, s₁)) (hr : s₁.acquire = (r, s₂))
    (hq : s₂.acquire = (q, s₃)) (hspared : r ≠ selfEntry ∧ q ≠ selfEntry)
    (hload : Emits (q :: r :: held) ((Task.operands r first q second).boundTo entity) s₃
      (loaded.map (Command.boundTo entity)) s₄)
    (hcomb : Emits (q :: r :: held) ((Task.assign (scratch r) o (.access (scratch q))).boundTo
      entity) s₄ (combined.map (Command.boundTo entity)) s₅) :
    Emits held ((Task.calculation r first o second).boundTo entity) s
      ((declaration ++ (loaded ++ combined)).map (Command.boundTo entity))
      ((s₅.release q).release r) := by
  have hcomb' := hcomb.boundTo_register hspared.2
  rw [boundTo_scratch hspared.1] at hcomb'
  rw [← Node.isOperand_boundTo entity] at hop hop'
  rw [List.map_append, List.map_append, map_boundTo_createStore hdecl]
  exact .calculation hop hop' hdecl hr hq hload hcomb'

/-- Scores are compared in place for an entity where they were before. -/
theorem Emits.boundTo_direct {negate : Bool} {first second : Access} {c : Comparator}
    {body : List Node} {x y : Score} (hs : Reachable ⟨held, s⟩)
    (hx : scoreOf first s = (.ok x, s₁)) (hy : scoreOf second s₁ = (.ok y, s₂))
    (hsole : commands.length ≤ 1)
    (hbody : Emits held ((Task.statements body).boundTo entity) s₂
      (commands.map (Command.boundTo entity)) t) :
    Emits held
      ((Task.statement (.branch negate (.access first) c (.access second) body)).boundTo entity) s
      ((commands.map (Command.under (.compare negate x c y))).map (Command.boundTo entity)) t := by
  have hs₁ := hs.reaches (reaches_scoreOf hx)
  rw [← List.length_map (f := Command.boundTo entity)] at hsole
  rw [Command.boundTo, Command.map_mapScores_under, Task.boundTo, Node.boundTo, Node.boundTo,
    Node.boundTo]
  exact .direct (scoreOf_boundTo hs hx entity) (scoreOf_boundTo hs₁ hy entity) hbody hsole

/-- Copies are compared in the same registers for an entity. -/
theorem Emits.boundTo_copies {negate : Bool} {first second : Node} {c : Comparator}
    {body : List Node} {x y : Score} {s₆ : Session}
    (hdecl : s.createStore scratchStore = (declaration, s₁)) (hr : s₁.acquire = (r, s₂))
    (hq : s₂.acquire = (q, s₃)) (hs : Reachable ⟨q :: r :: held, s₄⟩)
    (hload : Emits (q :: r :: held) ((Task.operands r first q second).boundTo entity) s₃
      (loaded.map (Command.boundTo entity)) s₄)
    (hx : scoreOf (scratch r) s₄ = (.ok x, s₅)) (hy : scoreOf (scratch q) s₅ = (.ok y, s₆))
    (hbody : Emits (q :: r :: held) ((Task.statements body).boundTo entity) s₆
      (commands.map (Command.boundTo entity)) t) :
    Emits held ((Task.statement (.branch negate first c second body)).boundTo entity) s
      ((declaration ++ (loaded ++ commands.map (Command.under (.compare negate x c y)))).map
        (Command.boundTo entity)) ((t.release q).release r) := by
  have hspared := hs.registers_ne_selfEntry
  have hxbound := scoreOf_boundTo hs hx entity
  have hybound := scoreOf_boundTo (hs.reaches (reaches_scoreOf hx)) hy entity
  rw [boundTo_scratch hspared.1] at hxbound
  rw [boundTo_scratch hspared.2] at hybound
  rw [List.map_append, List.map_append, map_boundTo_createStore hdecl, Command.boundTo,
    Command.map_mapScores_under, Task.boundTo, Node.boundTo]
  exact .copies hdecl hr hq hload hxbound hybound hbody

end Cases

/-- A task on the scores that an entity means becomes the commands on those scores. -/
theorem Emits.boundTo {held : List String} {task : Task} {s t : Session} {commands : List Command}
    (h : Emits held task s commands t) (hs : Reachable ⟨held, s⟩)
    (hregisters : task.SparesSelf) (entity : String) :
    Emits held (task.boundTo entity) s (commands.map (Command.boundTo entity)) t := by
  induction h with
  | int hverb hx =>
    rw [Command.boundTo, Command.map_mapScores_edit]
    exact .int hverb (scoreOf_boundTo hs hx entity)
  | access hx hy =>
    have hy' := scoreOf_boundTo (hs.reaches (reaches_scoreOf hx)) hy entity
    exact .access (scoreOf_boundTo hs hx entity) hy'
  | captured hx => exact .captured (scoreOf_boundTo hs hx entity)
  | capturedFirst hdecl hr hcap hcomb ihcap ihcomb =>
    have hr' := hs.reaches ((reaches_createStore hdecl).trans (reaches_acquire hr))
    exact boundTo_capturedFirst hr (hr'.register_ne_selfEntry List.mem_cons_self) hdecl
      (ihcap hr' trivial) (ihcomb (hr'.reaches hcap.reaches) trivial)
  | calculated hcalc hcomb ihcalc ihcomb =>
    have hcomb' := ihcomb (hs.reaches hcalc.reaches) trivial
    rw [List.map_append, Task.boundTo, Node.boundTo]
    exact .calculated (ihcalc hs trivial)
      (hcomb'.boundTo_register (hcalc.register_ne_selfEntry hs))
  | operands hload hload' ihload ihload' =>
    have hfirst := ihload hs trivial
    have hsecond := ihload' (hs.reaches hload.reaches) trivial
    rw [List.map_append]
    exact .operands (hfirst.boundTo_load hregisters.1) (hsecond.boundTo_load hregisters.2)
  | calculation hop hop' hdecl hr hq hload hcomb ihload ihcomb =>
    have hq' := hs.reaches (reaches_registers hdecl hr hq)
    have hspared := hq'.registers_ne_selfEntry
    exact boundTo_calculation hop hop' hdecl hr hq hspared (ihload hq' hspared)
      (ihcomb (hq'.reaches hload.reaches) trivial)
  | block _ ih =>
    rw [Task.boundTo, Node.boundTo]
    exact .block (ih hs trivial)
  | create h =>
    rw [map_boundTo_createStore h, Task.boundTo, Node.boundTo]
    exact .create h
  | assign _ ih =>
    rw [Task.boundTo, Node.boundTo]
    exact .assign (ih hs trivial)
  | discarded _ ih =>
    rw [Task.boundTo, Node.boundTo]
    exact .discarded (ih hs trivial)
  | direct hx hy _ hsole ih =>
    have hs' := hs.reaches ((reaches_scoreOf hx).trans (reaches_scoreOf hy))
    exact boundTo_direct hs hx hy hsole (ih hs' trivial)
  | copies hdecl hr hq hload hx hy _ ihload ihbody =>
    have hq' := hs.reaches (reaches_registers hdecl hr hq)
    have hloads := hq'.reaches hload.reaches
    have hbody := hloads.reaches ((reaches_scoreOf hx).trans (reaches_scoreOf hy))
    exact boundTo_copies hdecl hr hq hloads (ihload hq' hq'.registers_ne_selfEntry) hx hy
      (ihbody hbody trivial)
  | runAs _ ih =>
    rw [Command.boundTo, Command.map_mapScores_under, Task.boundTo, Node.boundTo]
    exact .runAs (ih hs trivial)
  | text =>
    rw [Task.boundTo, Node.boundTo]
    exact .text
  | nil =>
    rw [Task.boundTo, Node.allBoundTo]
    exact .nil
  | cons h _ ih ih' =>
    rw [Task.boundTo, Node.allBoundTo, List.map_append]
    exact .cons (ih hs trivial) (ih' (hs.reaches h.reaches) trivial)

end Lowering

/-- A session puts the scores that an entity means where the entity stands. -/
theorem Session.address_isBound (s : Session) (entity : String) : s.address.IsBound entity := by
  intro a
  unfold Access.boundTo Meaning.Address.boundTo
  split <;> rfl

end Datapack
