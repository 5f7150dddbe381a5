import Datapack.Proofs.Lowering.Binding

/-!
# Scopes and entities

A scope is put around every command of its body, so each command is run for all
entities before the next one. The registers that a body works in are shared by the
entities. A body therefore does for one entity after the other what it means if
there is at most one entity, or if it needs no register.
-/

namespace Datapack

namespace Lowering

open Session Moment

section Silence

/-- Tasks on numbers, scores and calculations. -/
def Task.isArithmetic : Task → Bool
  | .assign _ _ value => value.isNumeric
  | .operands _ first _ second | .calculation _ first _ second =>
    first.isNumeric && second.isNumeric
  | .statement node => node.isArithmetic
  | .statements body => Node.areArithmetic body

private theorem isSilent_of_mem_createStore {s t : Session} {name : String}
    {commands : List Command}
    (h : s.createStore name = (commands, t)) : ∀ c ∈ commands, c.isSilent = true := by
  obtain rfl : (s.createStore name).1 = commands := by rw [h]
  unfold Session.createStore
  split
  · exact nofun
  · exact List.forall_mem_singleton.mpr rfl

/-- Without command lines and scopes of its own a task becomes silent commands. -/
theorem Emits.isSilent_of_mem {held : List String} {task : Task} {s t : Session}
    {commands : List Command} (h : Emits held task s commands t)
    (harithmetic : task.isArithmetic = true) : ∀ c ∈ commands, c.isSilent = true := by
  induction h with
  | int => exact fun c hc => Command.isSilent_of_mem_edit hc
  | access => exact List.forall_mem_singleton.mpr rfl
  | captured | capturedFirst | block | create | discarded | runAs | text => cases harithmetic
  | calculated _ _ ihcalc ihcomb =>
    exact List.forall_mem_append.mpr ⟨ihcalc harithmetic, ihcomb rfl⟩
  | operands _ _ ih ih' =>
    obtain ⟨hfirst, hsecond⟩ := Bool.and_eq_true_iff.mp harithmetic
    exact List.forall_mem_append.mpr ⟨ih hfirst, ih' hsecond⟩
  | calculation _ _ hdecl _ _ _ _ ihload ihcomb =>
    have hwork := List.forall_mem_append.mpr ⟨ihload harithmetic, ihcomb rfl⟩
    exact List.forall_mem_append.mpr ⟨isSilent_of_mem_createStore hdecl, hwork⟩
  | assign _ ih =>
    rw [Task.isArithmetic, Node.isArithmetic] at harithmetic
    exact ih harithmetic
  | direct _ _ _ _ ih =>
    simp only [Task.isArithmetic, Node.isArithmetic, Bool.and_eq_true] at harithmetic
    refine List.forall_mem_map.mpr fun c hc => ?_
    exact Command.isSilent_under_compare (ih harithmetic.2 c hc)
  | copies hdecl _ _ _ _ _ _ ihload ihbody =>
    simp only [Task.isArithmetic, Node.isArithmetic, Bool.and_eq_true] at harithmetic ihload
    refine List.forall_mem_append.mpr ⟨isSilent_of_mem_createStore hdecl, ?_⟩
    refine List.forall_mem_append.mpr ⟨ihload harithmetic.1, ?_⟩
    refine List.forall_mem_map.mpr fun c hc => ?_
    exact Command.isSilent_under_compare (ihbody harithmetic.2 c hc)
  | nil => exact nofun
  | cons _ _ ih ih' =>
    simp only [Task.isArithmetic, Node.areArithmetic, Bool.and_eq_true] at harithmetic
    exact List.forall_mem_append.mpr ⟨ih harithmetic.1, ih' harithmetic.2⟩

end Silence

section WithoutRegisters

variable {held : List String} {s t u : Session} {commands : List Command}

/-- Commands that touch no score of the scratch store. -/
def SparesScratch (u : Session) (commands : List Command) : Prop :=
  ∀ c ∈ commands, ∀ store ∈ c.stores, u.scratch? ≠ some store

instance (u : Session) (commands : List Command) : Decidable (SparesScratch u commands) :=
  inferInstanceAs (Decidable (∀ c ∈ commands, ∀ store ∈ c.stores, u.scratch? ≠ some store))

/-- Combining two scores takes a command on the stores of both. -/
theorem Emits.exists_mem_stores_access {target source : Access} {o : Operator}
    (h : Emits held (.assign target o (.access source)) s commands t) (hu : t.KeepsNames u) :
    ∃ c ∈ commands, (u.address target).store ∈ c.stores ∧ (u.address source).store ∈ c.stores := by
  cases h with
  | access hx hy =>
    obtain ⟨rfl, rfl⟩ := addresses_of_scoreOf hx hy hu
    refine ⟨_, List.mem_singleton_self _, List.mem_cons_self, ?_⟩
    exact List.mem_cons_of_mem _ (List.mem_singleton_self _)

private theorem edit_ne_nil (verb : EditVerb) (x : Score) (amount : Int32) :
    Command.edit verb x amount ≠ [] := by
  unfold Command.edit
  split
  · exact List.cons_ne_nil _ _
  · split_ifs <;> exact List.cons_ne_nil _ _

/-- An assignment has a command on the store of its target. -/
theorem Emits.exists_mem_stores {target : Access} {o : Operator} {value : Node}
    (h : Emits held (.assign target o value) s commands t) (hu : t.KeepsNames u) :
    ∃ c ∈ commands, (u.address target).store ∈ c.stores := by
  cases h with
  | int hverb hx =>
    obtain ⟨c, hc⟩ := List.exists_mem_of_ne_nil _ (edit_ne_nil _ _ _)
    refine ⟨c, hc, ?_⟩
    rw [(Command.mem_edit hc).1, address_of_scoreOf hx hu]
    exact List.mem_singleton_self _
  | access hx hy =>
    rw [(addresses_of_scoreOf hx hy hu).1]
    exact ⟨_, List.mem_singleton_self _, List.mem_cons_self⟩
  | captured hx =>
    rw [address_of_scoreOf hx hu]
    exact ⟨_, List.mem_singleton_self _, List.mem_cons_self⟩
  | capturedFirst _ _ _ hcomb =>
    obtain ⟨c, hc, hstore, -⟩ := hcomb.exists_mem_stores_access hu.of_release
    exact ⟨c, List.mem_append_right _ (List.mem_append_right _ hc), hstore⟩
  | calculated _ hcomb =>
    obtain ⟨c, hc, hstore, -⟩ := hcomb.exists_mem_stores_access hu
    exact ⟨c, List.mem_append_right _ hc, hstore⟩

/-- Loading values into registers touches the scratch store. -/
theorem Emits.not_sparesScratch_operands {r q : String} {first second : Node}
    (h : Emits held (.operands r first q second) s commands t) (hu : t.KeepsNames u)
    (hscratch : u.scratch? = some (u.address (scratch r)).store) : ¬ SparesScratch u commands := by
  intro hspares
  cases h with
  | operands hload hload' =>
    obtain ⟨c, hc, hstore⟩ := hload.exists_mem_stores (hload'.reaches.keepsNames.trans hu)
    exact hspares c (List.mem_append_left _ hc) _ hstore hscratch

/-- A statement that needs no register is a single command, or edits one score. -/
theorem Emits.sole_or_edit {node : Node} (h : Emits held (.statement node) s commands t)
    (harithmetic : node.isArithmetic = true) (hu : t.KeepsNames u)
    (hspares : SparesScratch u commands) :
    commands.length ≤ 1 ∨ ∃ verb x amount, commands = Command.edit verb x amount := by
  cases h with
  | assign h =>
    cases h with
    | int => exact .inr ⟨_, _, _, rfl⟩
    | access => exact .inl (Nat.le_refl 1)
    | captured | capturedFirst =>
      rw [Node.isArithmetic] at harithmetic
      cases harithmetic
    | calculated _ hcomb =>
      obtain ⟨c, hc, -, hstore⟩ := hcomb.exists_mem_stores_access hu
      have hscratch := scratch?_of_access hcomb hu
      exact absurd (hscratch _) (hspares c (List.mem_append_right _ hc) _ hstore)
  | direct _ _ _ hsole =>
    rw [List.length_map]
    exact .inl hsole
  | copies _ _ _ hload hx hy hbody =>
    have hkeep := (keepsNames_of_scoreOf hy).trans
      (hbody.reaches.keepsNames.trans hu.of_release.of_release)
    refine absurd ?_ (hload.not_sparesScratch_operands ((keepsNames_of_scoreOf hx).trans hkeep)
      (scratch?_of_scoreOf hx hkeep _))
    intro c hc
    exact hspares c (List.mem_append_right _ (List.mem_append_left _ hc))
  | block | create | discarded | runAs | text => cases harithmetic

end WithoutRegisters

section Entities

variable {held : List String} {s t u : Session} {commands : List Command} {p : Platform}
  {node : Node}

/-- The commands of a statement, run for one entity after the other, do what it means. -/
theorem Emits.agree_byEntity (h : Emits held (.statement node) s commands t)
    (hs : Reachable ⟨held, s⟩) (hmentions : scratchStore ∉ node.stores) (hu : t.KeepsNames u)
    (havoids : u.address.Avoids u.scratch?) (hp : p.Respects u.scratch?) (entities : List String)
    {b c : Board} (hb : b.Agree u.scratch? held c) :
    (Machine.byEntity p entities b commands).Agree u.scratch? held
      (Meaning.runEach p u.address node entities c) := by
  induction entities generalizing b c with
  | nil => exact hb
  | cons entity entities ih =>
    have hstores : scratchStore ∉ (node.boundTo entity).stores := by
      rwa [Node.stores_boundTo]
    have hran := (h.boundTo hs trivial entity).means hs hstores hu havoids hp [.runAs entity] b
    have hagree := Meaning.run_agree hp havoids [.runAs entity] (node.boundTo entity) hstores hb
    have hstep := Board.Agree.trans hran hagree
    rw [Meaning.run_boundTo (u.address_isBound entity)] at hstep
    exact ih hstep

/-- With shared registers untouched, or a single entity, commands need not be taken entity by
entity. -/
theorem Emits.byCommand_eq_byEntity (h : Emits held (.statement node) s commands t)
    (harithmetic : node.isArithmetic = true) (hu : t.KeepsNames u) {entities : List String}
    (hapart : entities.length ≤ 1 ∨ SparesScratch u commands) (b : Board) :
    Machine.byCommand p entities b commands = Machine.byEntity p entities b commands := by
  rcases hapart with hone | hspares
  · exact Machine.byCommand_of_length_le_one hone
  · obtain hsole | ⟨verb, x, amount, rfl⟩ := h.sole_or_edit harithmetic hu hspares
    · exact Machine.byCommand_sole hsole
    · exact Machine.byCommand_edit verb x amount

/-- What stands in a scope touches the same stores as before. -/
theorem SparesScratch.of_under_runAs {selector : String}
    (h : SparesScratch u (commands.map (Command.under (.runAs selector)))) :
    SparesScratch u commands := by
  intro c hc store hstore
  refine h _ (List.mem_map_of_mem hc) store ?_
  rw [Command.stores, Command.clauses_under, Command.action_under]
  split
  · exact hstore
  · exact hstore

/-- Run for all entities, the commands of a scope do what its statement means for one entity after
the other. -/
theorem Emits.agree_runEach {selector : String}
    (h : Emits held (.statement (.runAs selector [node])) s commands t)
    (hs : Reachable ⟨held, s⟩) (harithmetic : node.isArithmetic = true)
    (hmentions : scratchStore ∉ node.stores) (hu : t.KeepsNames u)
    (havoids : u.address.Avoids u.scratch?) {select : String → List String}
    (hapart : (select selector).length ≤ 1 ∨ SparesScratch u commands) (p : Platform)
    (b : Board) :
    (Machine.runEach p select b commands).Agree u.scratch? held
      (Meaning.runEach p u.address node (select selector) b) := by
  cases h with
  | runAs hbody =>
    cases hbody with
    | cons h hnil =>
      cases hnil
      rw [List.append_nil] at hapart ⊢
      have hsilent := h.isSilent_of_mem harithmetic
      have hagree := h.agree_byEntity hs hmentions hu havoids (p.silenced_respects u.scratch?)
        (select selector) (.refl b)
      rw [Machine.runEach_under_runAs p select selector hsilent (h.declares hs).bare,
        h.byCommand_eq_byEntity harithmetic hu (hapart.imp_right SparesScratch.of_under_runAs),
        Meaning.runEach_silenced harithmetic]
      exact hagree

end Entities

end Lowering

namespace Session

open Moment

/--
After any calls, take a scope around one statement of assignments and conditions
over numbers, scores and calculations that does not mention the scratch store, and
commands that it is lowered to. For a single entity, or where no command touches
the scratch store, running the commands for all entities that the selector picks
ends with the same scores outside the scratch store as doing the statement for one
entity after the other.
-/
theorem runEach_lower_runAs (calls : List Call) (selector : String) (node : Node)
    (commands : List Command) (p : Platform) (select : String → List String) (b : Board) :
    let s := Session.fresh.after calls
    let t := (s.lower (.runAs selector [node])).2
    node.isArithmetic = true → scratchStore ∉ node.stores →
      (s.lower (.runAs selector [node])).1 = .ok commands →
      (select selector).length ≤ 1 ∨ Lowering.SparesScratch t commands →
      ∀ x : Score, t.scratch? ≠ some x.store →
        (Machine.runEach p select b commands).scores x =
          (Meaning.runEach p t.address node (select selector) b).scores x := by
  intro s t harithmetic hmentions hok hapart x hx
  have hs : Reachable ⟨[], s⟩ := Reachable.fresh.after calls
  have ht : Reachable ⟨[], t⟩ := hs.call (.phrase (.runAs selector [node]))
  obtain ⟨u, -, ⟨commands', hlower, hcall⟩ | ⟨e, -, hcall⟩⟩ :=
    s.call_cases (.phrase (.runAs selector [node]))
  · obtain rfl : commands' = commands := Except.ok.inj ((congrArg Prod.fst hcall).symm.trans hok)
    have hcommit : t = u.commit := congrArg Prod.snd hcall
    have hkeep : u.KeepsNames t := by
      rw [hcommit]
      exact ⟨id, id⟩
    have hagree := (Lowering.emits_lower hlower).agree_runEach hs harithmetic hmentions hkeep
      ht.address_avoids hapart p b
    exact hagree.scores_eq x (Score.visible_of_ne hx [])
  · cases (congrArg Prod.fst hcall).symm.trans hok

/-- One entity may use registers, and several ones may count up where no register is needed. -/
theorem runEach_lower_runAs_counters :
    let own : Access := ⟨.verbatim selfEntry, "m"⟩
    let s := Session.fresh.after [.phrase (.create "m")]
    let lowered (node : Node) := (s.lower (.runAs "@a" [node])).1.toOption.getD []
    let doubled : Node := .assign own .add (.calc (.access own) .mul (.int 1))
    let counted : Node := .branch true (.access own) .eq (.access ⟨.verbatim "limit", "m"⟩)
      [.assign own .add (.int 1)]
    let b : Board := ⟨fun x => if x.entry = "alice" then 3 else 0, []⟩
    (Machine.runEach .quiet (fun _ => ["alice"]) b (lowered doubled)).scores ⟨"alice", "a"⟩ = 6 ∧
      (Machine.runEach .quiet (fun _ => ["alice", "bob"]) b (lowered counted)).scores
        ⟨"alice", "a"⟩ = 4 := by
  intro own s lowered doubled counted b
  have hone := runEach_lower_runAs [.phrase (.create "m")] "@a" doubled (lowered doubled) .quiet
    (fun _ => ["alice"]) b (by decide +kernel) (by decide +kernel) (by decide +kernel)
    (.inl (Nat.le_refl 1)) ⟨"alice", "a"⟩ (by decide +kernel)
  have hboth := runEach_lower_runAs [.phrase (.create "m")] "@a" counted (lowered counted) .quiet
    (fun _ => ["alice", "bob"]) b (by decide +kernel) (by decide +kernel) (by decide +kernel)
    (.inr (by decide +kernel)) ⟨"alice", "a"⟩ (by decide +kernel)
  constructor
  · rw [hone]
    decide +kernel
  · rw [hboth]
    decide +kernel

/--
Entities share the registers. With two of them a calculation adds up what both of
them loaded, and a condition is decided by what the last one loaded; and even for a
single entity a statement that mentions the scratch store reads the register it works
in. Each pair shows what the commands make of a score, and what is meant.
-/
theorem entities_share_registers :
    let own : Access := ⟨.verbatim selfEntry, "m"⟩
    let s := Session.fresh.after [.phrase (.create "m")]
    let b : Board := ⟨fun x => if x.entry = "alice" then 1 else 0, []⟩
    let outcome (node : Node) (entities : List String) (x : Score) : Option (Int32 × Int32) :=
      match s.lower (.runAs "@a" [node]) with
      | (.ok commands, t) =>
        some ((Machine.runEach .quiet (fun _ => entities) b commands).scores x,
          (Meaning.runEach .quiet t.address node entities b).scores x)
      | (.error _, _) => none
    let sum : Node := .assign own .set (.calc (.access own) .add (.int 1))
    let reset : Node := .branch false (.access own) .eq (.int 1) [.assign own .set (.int 0)]
    let peek : Node := .assign own .set (.calc (.int 1) .add (.access (Lowering.scratch "c")))
    (∀ node ∈ [sum, reset, peek], node.isArithmetic = true ∧
        (s.lower (.runAs "@a" [node])).2.scratch? = some "b") ∧
      outcome sum ["alice", "bob"] ⟨"bob", "a"⟩ = some (2, 1) ∧
      outcome reset ["alice", "bob"] ⟨"alice", "a"⟩ = some (1, 0) ∧
      outcome peek ["alice"] ⟨"alice", "a"⟩ = some (2, 1) := by
  decide +kernel

end Session

end Datapack
