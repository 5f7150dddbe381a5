import Datapack.Proofs.Lowering.RegisterNeed
import Datapack.Proofs.Lowering.WellFormed
import Datapack.Proofs.Session.History

/-!
# What a failed call leaves behind

A call that fails undoes what it declared and nothing else. Every store is known
or unknown as before the call, and every name is kept. The stores that it had
declared are unknown again, to every use, until some later call creates them; the
first one that does so and succeeds declares them under the names that the failed
call had given them, whatever failed in between.
-/

namespace Datapack

/-- Whether lowering the statements of a call creates the store. The scratch store is created where
registers are needed. -/
def Call.Creates (name : String) (c : Call) : Prop :=
  .creates name ∈ Node.storeEventsAll c.body ∨ name = scratchStore ∧ 0 < c.need

namespace Lowering

open Session

/-- Where the lowering succeeds, these stores are declared on top of those before. -/
def Adds {α : Type} (adds : String → Prop) (m : Lowering α) : Prop :=
  ∀ ⦃s : Session⦄ ⦃a : α⦄ ⦃t : Session⦄, m s = (.ok a, t) →
    ∀ name, t.isDeclared name = true ↔ s.isDeclared name = true ∨ adds name

section Adds

variable {α β : Type} {adds adds' : String → Prop} {m : Lowering α}

private theorem Adds.congr (h : Adds adds m) (hadds : ∀ name, adds name ↔ adds' name) :
    Adds adds' m :=
  fun _ _ _ hok name => (h hok name).trans (or_congr_right (hadds name))

private theorem adds_pure (a : α) : Adds (fun _ => False) (pure a : Lowering α) := by
  intro s b t h name
  rw [(pure_eq_ok.mp h).2, or_false]

private theorem adds_fail (adds : String → Prop) (e : LowerError) :
    Adds adds (fail e : Lowering α) :=
  nofun

private theorem Adds.bind {f : α → Lowering β} (hm : Adds adds m) (hf : ∀ a, Adds adds' (f a)) :
    Adds (fun name => adds name ∨ adds' name) (m >>= f) := by
  intro s b u h name
  obtain ⟨a, t, hfirst, hsecond⟩ := bind_eq_ok.mp h
  rw [hf a hsecond, hm hfirst, or_assoc]

/-- A step that declares nothing in front of another one. -/
theorem Adds.seq {f : α → Lowering β} (hm : Adds (fun _ => False) m) (hf : ∀ a, Adds adds (f a)) :
    Adds adds (m >>= f) :=
  (hm.bind hf).congr fun _ => .of_eq (false_or _)

/-- A step that declares nothing behind another one. -/
theorem Adds.append {f : α → Lowering β} (hm : Adds adds m)
    (hf : ∀ a, Adds (fun _ => False) (f a)) : Adds adds (m >>= f) :=
  (hm.bind hf).congr fun _ => .of_eq (or_false _)

private theorem Adds.map (hm : Adds adds m) (f : α → β) : Adds adds (m >>= fun a => pure (f a)) :=
  hm.append fun a => adds_pure (f a)

/-- Registers have nothing to do with declarations. -/
theorem Adds.withRegister {use : String → Lowering α} (h : ∀ r, Adds adds (use r)) :
    Adds adds (withRegister use) := by
  intro s a t hok name
  obtain ⟨r, s₁, u, hr, huse, rfl⟩ := withRegister_eq_ok.mp hok
  obtain rfl : s.acquire.2 = s₁ := by rw [hr]
  exact h r huse name

end Adds

section Phrases

private theorem adds_storeName (name : String) : Adds (fun _ => False) (storeName name) := by
  intro s short t h other
  rw [(storeName_eq_ok.mp h).2, or_false]

private theorem adds_createStore (name : String) : Adds (· = name) (createStore name) := by
  intro s commands t h other
  obtain rfl : (s.createStore name).2 = t := by rw [createStore_eq_ok.mp h]
  rw [isDeclared_createStore, Bool.or_eq_true, beq_iff_eq]

private theorem adds_scoreOf (a : Access) : Adds (fun _ => False) (scoreOf a) := by
  intro s x t h name
  obtain rfl : (s.nameEntry a.entry).2 = t := by rw [(scoreOf_eq_ok.mp h).2]
  rw [isDeclared_nameEntry, or_false]

private theorem adds_checkOperand (node : Node) : Adds (fun _ => False) (checkOperand node) := by
  intro s u t h name
  rw [(checkOperand_eq_ok.mp h).2, or_false]

private theorem adds_combine (target : Access) (o : Operator) (source : Access) :
    Adds (fun _ => False) (combine target o source) :=
  (adds_scoreOf target).seq fun _ => (adds_scoreOf source).map _

private theorem adds_capture (target : Access) (line : String) :
    Adds (fun _ => False) (capture target line) :=
  (adds_scoreOf target).map _

private theorem adds_captureAndCombine (target : Access) (o : Operator) (line : String) :
    Adds (· = scratchStore) (captureAndCombine target o line) := by
  refine (adds_storeName _).seq fun _ => (adds_createStore _).append fun _ => ?_
  refine (Adds.withRegister fun r => ?_).map _
  exact (adds_capture _ _).seq fun _ => (adds_combine _ _ _).map _

/-- Working out a calculation declares the scratch store, and loading its operands declares no
other. -/
theorem adds_calculate (o : Operator) {first second : Access → Lowering (List Command)}
    {n k : Nat} (hfirst : ∀ a, Adds (fun name => name = scratchStore ∧ 0 < n) (first a))
    (hsecond : ∀ a, Adds (fun name => name = scratchStore ∧ 0 < k) (second a)) :
    Adds (· = scratchStore) (calculate o first second) := by
  refine ((adds_createStore _).bind fun _ => Adds.withRegister fun r => Adds.withRegister fun q =>
    (hfirst _).bind fun _ => (hsecond _).append fun _ => (adds_combine _ _ _).map _).congr ?_
  tauto

/-- Assigning declares the scratch store if it needs registers, and nothing else. -/
theorem adds_assign (target : Access) (o : Operator) : (node : Node) →
    Adds (fun name => name = scratchStore ∧ 0 < node.assignNeed o) (assign target o node)
  | .int amount => by
    rw [assign, assignInt]
    split
    · exact adds_fail _ _
    · exact ((adds_scoreOf target).map _).congr (by simp [Node.assignNeed, Node.valueNeed])
  | .access source => by
    rw [assign]
    exact (adds_combine target o source).congr (by simp [Node.assignNeed, Node.valueNeed])
  | .calc first p second => by
    have hneed : 0 < (Node.calc first p second).assignNeed o :=
      Nat.add_pos_left Nat.zero_lt_two _
    rw [assign]
    refine ((adds_storeName _).seq fun _ => (adds_checkOperand _).seq fun _ =>
      (adds_checkOperand _).seq fun _ => (adds_calculate p (fun a => adds_assign a .set first)
        fun a => adds_assign a .set second).append fun _ => (adds_combine _ _ _).map _).congr ?_
    exact fun name => (and_iff_left hneed).symm
  | .text line => by
    rw [assign, Node.assignNeed]
    split
    · exact (adds_capture target line).congr (by simp)
    · exact (adds_captureAndCombine target o line).congr (by simp)
  | .block _ | .float _ | .assign .. | .branch .. | .runAs .. | .create _ | .call .. => by
    rw [assign]
    · exact adds_fail _ _
    all_goals simp

private theorem adds_calculation (first : Node) (o : Operator) (second : Node) :
    Adds (· = scratchStore) (calculation first o second) := by
  refine (adds_checkOperand _).seq fun _ => (adds_checkOperand _).seq fun _ => ?_
  exact adds_calculate o (fun a => adds_assign a .set first) fun a => adds_assign a .set second

/-- Comparing in place declares what the body declares. -/
theorem adds_compareDirectly {adds : String → Prop} (negate : Bool) (first : Access)
    (c : Comparator) (second : Access) {body : Lowering (List Command)} (hbody : Adds adds body) :
    Adds adds (compareDirectly negate first c second body) :=
  (adds_scoreOf first).seq fun _ => (adds_scoreOf second).seq fun _ => hbody.map _

/-- Comparing copies declares the scratch store, and what the body declares. -/
theorem adds_compareCopies {adds : String → Prop} (negate : Bool) (first : Node) (c : Comparator)
    (second : Node) {body : Lowering (List Command)} (hbody : Adds adds body) :
    Adds (fun name => name = scratchStore ∨ adds name)
      (compareCopies negate first c second body) := by
  refine ((adds_createStore _).bind fun _ => (Adds.withRegister fun r => Adds.withRegister fun q =>
    (adds_assign (scratch r) .set first).bind fun _ => (adds_assign (scratch q) .set second).bind
      fun _ => (adds_scoreOf _).seq fun _ => (adds_scoreOf _).seq fun _ => hbody.map _).map _).congr
        ?_
  tauto

end Phrases

section Statements

mutual

/-- A statement that is lowered declares the stores that it creates at any depth, and the scratch
store if it needs registers. -/
theorem adds_lower : (node : Node) →
    Adds (fun name => .creates name ∈ node.storeEvents ∨ name = scratchStore ∧ 0 < node.need)
      (lower node)
  | .block body => by
    rw [lower, Node.need]
    exact adds_lowerAll body
  | .create store => by
    rw [lower, Node.need]
    exact (adds_createStore store).congr (by simp [Node.storeEvents])
  | .assign target o value => by
    rw [lower, Node.need]
    exact (adds_assign target o value).congr (by simp [Node.storeEvents])
  | .calc first o second => by
    have hneed : 0 < (Node.calc first o second).valueNeed := Nat.add_pos_left Nat.zero_lt_two _
    rw [lower, Node.need]
    exact ((adds_calculation first o second).map _).congr (by simp [Node.storeEvents, hneed])
  | .branch negate first c second body => by
    rw [lower, Node.need]
    cases hdirect : directOperands first second body with
    | some operands =>
      obtain ⟨-, -, node, rfl, hsole⟩ := directOperands_eq_some hdirect
      have hneed : Node.needAll [node] = 0 := by
        rw [Node.needAll, Node.needAll, hsole.need_eq_zero, Nat.max_zero]
      exact (adds_compareDirectly negate _ c _ (adds_lowerAll [node])).congr
        (by simp [Node.storeEvents, hneed])
    | none =>
      refine (adds_compareCopies negate first c second (adds_lowerAll body)).congr fun name => ?_
      simp only [Node.storeEvents, List.mem_append, List.mem_map, reduceCtorEq, and_false,
        exists_false, false_or, Option.isSome_none, Bool.false_eq_true, if_false]
      have hneed : 0 < 2 + max (max first.valueNeed second.valueNeed) (Node.needAll body) :=
        Nat.add_pos_left Nat.zero_lt_two _
      tauto
  | .runAs selector body => by
    rw [lower, Node.need]
    exact (adds_lowerAll body).map _
  | .text line => by
    rw [lower, Node.need]
    exact (adds_pure _).congr (by simp [Node.storeEvents])
  | .int _ | .float _ | .access _ | .call .. => by
    rw [lower]
    exact adds_fail _ _

private theorem adds_lowerAll : (body : List Node) →
    Adds (fun name => .creates name ∈ Node.storeEventsAll body ∨
      name = scratchStore ∧ 0 < Node.needAll body) (lowerAll body)
  | [] => by
    rw [lowerAll]
    exact (adds_pure _).congr (by simp [Node.storeEventsAll, Node.needAll])
  | node :: rest => by
    rw [lowerAll]
    refine ((adds_lower node).bind fun _ => (adds_lowerAll rest).map _).congr fun name => ?_
    have hneed : 0 < max node.need (Node.needAll rest) ↔
        0 < node.need ∨ 0 < Node.needAll rest := by omega
    rw [Node.storeEventsAll, List.mem_append, Node.needAll, hneed]
    tauto

end

/-- A call that is lowered declares the stores that it creates. -/
theorem adds_call (c : Call) : Adds (fun name => c.Creates name) c.lowering := by
  cases c with
  | phrase node =>
    refine (adds_lower node).congr fun name => ?_
    rw [Call.Creates, Call.need, Call.body, Node.storeEventsAll, Node.storeEventsAll,
      List.append_nil, Node.needAll, Node.needAll, Nat.max_zero]
  | program body => exact adds_lowerAll body

end Statements

end Lowering

namespace Moment

/-- One change that a lowering makes, other than creating the store. -/
def StepWithout (name : String) (m n : Moment) : Prop :=
  Step m n ∧ n.session ≠ (m.session.createStore name).2

/-- Only creating a store declares it. -/
theorem isDeclared_of_stepWithout {name : String} {m n : Moment}
    (h : Relation.ReflTransGen (StepWithout name) m n) (hm : m.session.isDeclared name = false) :
    n.session.isDeclared name = false := by
  induction h with
  | refl => exact hm
  | tail _ hstep ih =>
    obtain ⟨hstep, hne⟩ := hstep
    cases hstep with
    | nameEntry held s e => rwa [Session.isDeclared_nameEntry]
    | createStore held s other =>
      have hother : name ≠ other := by
        rintro rfl
        exact hne rfl
      simp [Session.isDeclared_createStore, ih, hother]
    | acquire held s => exact ih
    | release held s register => exact ih

/-- What a lowering declares was not handed over before. -/
theorem Reaches.not_mem_declared {m n : Moment} (h : m.Reaches n)
    (hm : ∀ name ∈ m.session.pending, name ∉ m.session.declared) :
    ∀ name ∈ n.session.pending, name ∉ n.session.declared := by
  induction h with
  | refl => exact hm
  | tail _ hstep ih =>
    cases hstep with
    | nameEntry held s e => simpa using ih
    | createStore held s name =>
      cases hd : s.isDeclared name with
      | true => rwa [Session.createStore_of_declared hd]
      | false =>
        rw [Session.createStore_of_undeclared hd]
        refine List.forall_mem_append.mpr ⟨ih, List.forall_mem_singleton.mpr fun hmem => ?_⟩
        simp [Session.isDeclared, hmem] at hd
    | acquire held s => exact ih
    | release held s register => exact ih

end Moment

namespace Session

open Moment

/-- A call that succeeds declares what it creates, and nothing else. -/
theorem isDeclared_call_of_ok {s : Session} {c : Call} {commands : List Command}
    (h : (s.call c).1 = .ok commands) (name : String) :
    (s.call c).2.isDeclared name = true ↔ s.isDeclared name = true ∨ c.Creates name := by
  obtain ⟨t, -, hok, hcall⟩ := exists_commit_of_call h
  rw [hcall, isDeclared_commit]
  exact Lowering.adds_call c hok name

/-- A store stays undeclared until a call that creates it succeeds. -/
theorem isDeclared_after_of_not_creates {s : Session} {name : String} (hpending : s.pending = [])
    (hname : s.isDeclared name = false) {later : List Call}
    (hlater : ∀ before c rest, later = before ++ c :: rest →
      (∃ commands, ((s.after before).call c).1 = .ok commands) → ¬ c.Creates name) :
    (s.after later).isDeclared name = false := by
  induction later generalizing s with
  | nil => exact hname
  | cons c later ih =>
    refine ih (s.pending_call c) ?_ fun before d rest hsplit => ?_
    · cases hcall : (s.call c).1 with
      | ok commands =>
        have hnot := hlater [] c later rfl ⟨commands, hcall⟩
        rw [← Bool.not_eq_true, isDeclared_call_of_ok hcall, not_or]
        exact ⟨Bool.eq_false_iff.mp hname, hnot⟩
      | error e => rw [isDeclared_call_of_error hpending hcall, hname]
    · exact hlater (c :: before) d rest (by rw [hsplit]; rfl)

/-- A store that has a short name is declared under it by the call that creates it. -/
theorem declare_mem_of_creates {s : Session} {c : Call} {commands : List Command}
    {name short : String} (hs : Reachable ⟨[], s⟩) (hshort : s.storeNames.lookup name = some short)
    (hname : s.isDeclared name = false) (h : (s.call c).1 = .ok commands)
    (hcreates : c.Creates name) : Command.declare short ∈ commands := by
  obtain ⟨t, hsteps, hok, -⟩ := exists_commit_of_call h
  have hdeclares : Declares s commands t := (Lowering.emits_call hok).declares hs
  have hdeclared : t.isDeclared name = true := (Lowering.adds_call c hok name).mpr (.inr hcreates)
  have hknown : t.Knows short := by
    refine ⟨name, ?_⟩
    rw [storeName?, if_pos hdeclared]
    exact hsteps.keepsNames.storeNames hshort
  rcases (hdeclares.knows_iff short).mp hknown with ⟨other, hother⟩ | hmem
  · -- no other store has the short name, and this one is not declared
    obtain rfl := hs.storeNames_injective (lookup_of_storeName? hother) hshort
    simp [storeName?, hname] at hother
  · obtain ⟨d, hd, hdstore⟩ := List.mem_filterMap.mp hmem
    have hbare := hdeclares.bare d hd (Command.isDeclaration_iff.mpr ⟨short, hdstore⟩)
    rwa [Command.eq_declare hbare hdstore] at hd

/--
After any calls, one that fails leaves every store known under the name it was
known by, or unknown as it was; it keeps the names of variables, leaves nothing
pending and no further register in use. A store that it had declared when it broke
off is unknown again to every use, at every moment of later calls up to which no
call that succeeded created the store and no step of the call in progress did. The
first call that creates it and succeeds declares it under the name that it had
when the failed call broke off.
-/
theorem call_error_rollback (calls : List Call) (c : Call) (e : LowerError) :
    let s := Session.fresh.after calls
    let broken := (c.lowering s).2
    let t := (s.call c).2
    (s.call c).1 = .error e →
      (∀ name, t.storeName? name = s.storeName? name) ∧
      (∀ name short, s.variableName? name = some short → t.variableName? name = some short) ∧
      t.pending = [] ∧ t.registers.outstanding = s.registers.outstanding ∧
      ∀ name ∈ broken.pending, ∃ short, broken.storeName? name = some short ∧
        ∀ later : List Call,
          (∀ before d rest, later = before ++ d :: rest →
            (∃ commands, ((t.after before).call d).1 = .ok commands) → ¬ d.Creates name) →
          (∀ m, Relation.ReflTransGen (StepWithout name) ⟨[], t.after later⟩ m →
            Lowering.storeName name m.session = (.error (.unknownStore name), m.session)) ∧
          ∀ d commands, ((t.after later).call d).1 = .ok commands → d.Creates name →
            Command.declare short ∈ commands := by
  intro s broken t herror
  have hs : Reachable ⟨[], s⟩ := Reachable.fresh.after calls
  have ht : Reachable ⟨[], t⟩ := hs.call c
  have hpending : s.pending = [] := pending_after calls
  obtain ⟨u, hsteps, hbroken, hcall⟩ := exists_rollback_of_call herror
  have hu : broken = u := congrArg Prod.snd hbroken
  have htu : t = u.rollback := hcall
  refine ⟨fun name => ?_, fun name short => (s.keepsNames_call c).variableNames,
    s.pending_call c, ?_, fun name hname => ?_⟩
  · rw [htu]
    exact storeName?_rollback hs hpending hsteps name
  · rw [ht.accounted.outstanding_eq, hs.accounted.outstanding_eq]
  · rw [hu] at hname
    have hdeclared : u.isDeclared name = true := by simp [isDeclared, hname]
    obtain ⟨short, hshort⟩ := (hs.reaches hsteps).accounted.named hdeclared
    have hunknown : t.isDeclared name = false := by
      have hnew := hsteps.not_mem_declared (by simp [hpending]) name hname
      simp [htu, isDeclared, rollback, hnew]
    refine ⟨short, ?_, fun later hlater => ?_⟩
    · rw [hu, storeName?, if_pos hdeclared]
      exact hshort
    · have hundeclared := isDeclared_after_of_not_creates (s.pending_call c) hunknown hlater
      constructor
      · intro m hm
        have hm' := isDeclared_of_stepWithout hm hundeclared
        simp [Lowering.storeName, storeName?, hm']
      · intro d commands hok hcreates
        refine declare_mem_of_creates (ht.after later) ?_ hundeclared hok hcreates
        refine (t.keepsNames_after later).storeNames ?_
        rw [htu]
        exact hshort

/-- A block fails behind two declarations. One of the stores is created again by a call that fails
too, and then by one that succeeds. -/
theorem call_error_rollback_redeclared :
    let s := Session.fresh.after [.phrase (.create "a")]
    let t := (s.call (.program [.create "b", .assign ⟨.named "x", "b"⟩ .set (.int 1), .create "d",
      .int 3])).2
    let again := Call.program [.create "d", .int 3]
    (∀ name, t.storeName? name = s.storeName? name) ∧
      Lowering.storeName "d" (t.after [again]) = (.error (.unknownStore "d"), t.after [again]) ∧
      ∃ commands, ((t.after [again]).call (.program [.create "d"])).1 = .ok commands ∧
        Command.declare "d" ∈ commands := by
  intro s t again
  have hfails : (t.call again).1 = .error (.notStatement .int) := by decide +kernel
  obtain ⟨hstores, -, -, -, hlater⟩ := call_error_rollback [.phrase (.create "a")]
    (.program [.create "b", .assign ⟨.named "x", "b"⟩ .set (.int 1), .create "d", .int 3])
    (.notStatement .int) (by decide +kernel)
  obtain ⟨short, hshort, hlater⟩ := hlater "d" (by decide +kernel)
  obtain rfl : "d" = short := Option.some.inj (Eq.trans (by decide +kernel) hshort)
  obtain ⟨hunknown, hdeclares⟩ := hlater [again] fun before d rest hsplit hok => by
    obtain ⟨rfl, rfl, rfl⟩ : before = [] ∧ d = again ∧ rest = [] := by
      cases before <;> simp_all
    obtain ⟨commands, hok⟩ := hok
    cases hok.symm.trans hfails
  have hcall : ((t.after [again]).call (.program [.create "d"])).1 = .ok [.declare "d"] := by
    decide +kernel
  refine ⟨hstores, hunknown _ .refl, _, hcall, hdeclares _ _ hcall (.inl ?_)⟩
  simp [Call.body, Node.storeEventsAll, Node.storeEvents]

end Session

end Datapack
