import Datapack.Proofs.Lowering.Emission

/-!
# How many registers a lowering needs

Registers are taken and given back in nested order, also where a lowering fails.
So the stack of free registers only ever grows at its far end: afterwards it holds
all registers that were free before, in the same order, and behind them the
registers that had to be made, in the order in which they were made. A lowering
that succeeds makes just as many as the registers it needs at once exceed those
that were free.
-/

namespace Datapack

namespace Node

/-- Registers that working out a value takes at once. -/
def valueNeed : Node → Nat
  | .calc first _ second => 2 + max first.valueNeed second.valueNeed
  | _ => 0

/-- Registers that combining a score with a value takes at once. -/
def assignNeed (o : Operator) : Node → Nat
  | .text _ => if o = .set then 0 else 1
  | value => value.valueNeed

mutual

/-- Registers that a statement takes at once. -/
def need : Node → Nat
  | .calc first o second => (Node.calc first o second).valueNeed
  | .assign _ o value => value.assignNeed o
  | .branch _ first _ second body =>
    if (Lowering.directOperands first second body).isSome then 0
    else 2 + max (max first.valueNeed second.valueNeed) (needAll body)
  | .block body | .runAs _ body => needAll body
  | .create _ | .text _ | .int _ | .float _ | .access _ | .call .. => 0

/-- Registers that statements in order take at once. -/
def needAll : List Node → Nat
  | [] => 0
  | node :: rest => max node.need (needAll rest)

end

end Node

namespace Session

/-- The second session has the registers of the first one and those with the given numbers, which
were handed out in between, at the far end of the stack. -/
structure Restocked (s t : Session) (made : List Nat) : Prop where
  free_eq : t.registers.free = s.registers.free ++ made.map Letters.name
  outstanding_eq : t.registers.outstanding = s.registers.outstanding
  sorted : made.Pairwise (· < ·)
  lt_of_mem : ∀ n ∈ made, s.supply.issued < n
  le_of_mem : ∀ n ∈ made, n ≤ t.supply.issued
  issued_le : s.supply.issued ≤ t.supply.issued

namespace Restocked

variable {s t u : Session} {made made' : List Nat}

/-- Sessions with the same registers, the first of which has handed out no more names. -/
theorem of_eq (hregisters : t.registers = s.registers)
    (hissued : s.supply.issued ≤ t.supply.issued) : Restocked s t [] where
  free_eq := by simp [hregisters]
  outstanding_eq := by rw [hregisters]
  sorted := .nil
  lt_of_mem := nofun
  le_of_mem := nofun
  issued_le := hissued

private theorem refl (s : Session) : Restocked s s [] := of_eq rfl (Nat.le_refl _)

/-- What is made later has higher numbers. -/
theorem trans (h : Restocked s t made) (h' : Restocked t u made') :
    Restocked s u (made ++ made') where
  free_eq := by rw [h'.free_eq, h.free_eq, List.map_append, List.append_assoc]
  outstanding_eq := h'.outstanding_eq.trans h.outstanding_eq
  sorted := by
    refine List.pairwise_append.mpr ⟨h.sorted, h'.sorted, fun m hm n hn => ?_⟩
    have hle := h.le_of_mem m hm
    have hlt := h'.lt_of_mem n hn
    omega
  lt_of_mem n hn := by
    have hmono := h.issued_le
    rcases List.mem_append.mp hn with hn | hn
    · exact h.lt_of_mem n hn
    · have hlt := h'.lt_of_mem n hn
      omega
  le_of_mem n hn := by
    have hmono := h'.issued_le
    rcases List.mem_append.mp hn with hn | hn
    · have hle := h.le_of_mem n hn
      omega
    · exact h'.le_of_mem n hn
  issued_le := Nat.le_trans h.issued_le h'.issued_le

private theorem available_eq (h : Restocked s t made) :
    t.registers.available = s.registers.available + made.length := by
  simp only [Registers.available, h.free_eq, List.length_append, List.length_map]

/-- A register that is taken and given back comes from the top of the stack, or is the first one to
be made; either way it is on top afterwards. -/
theorem release (h : Restocked s.acquire.2 t made) :
    ∃ first, Restocked s (t.release s.acquire.1) (first ++ made) ∧
      first.length = 1 - s.registers.available := by
  cases hfree : s.registers.free with
  | cons r free =>
    have hacquire : s.acquire =
        (r, { s with registers := ⟨free, s.registers.outstanding + 1⟩ }) := by
      simp only [acquire, Registers.acquire, hfree]
    rw [hacquire] at h ⊢
    refine ⟨[], ⟨?_, ?_, h.sorted, h.lt_of_mem, h.le_of_mem, h.issued_le⟩, ?_⟩
    · simp only [Session.release, Registers.release, h.free_eq, hfree, List.cons_append,
        List.nil_append]
    · simp only [Session.release, Registers.release, h.outstanding_eq, Nat.add_sub_cancel]
    · simp only [Registers.available, hfree, List.length_nil, List.length_cons]
      omega
  | nil =>
    have hacquire : s.acquire = (Letters.name (s.supply.issued + 1),
        { s with
          registers := ⟨[], s.registers.outstanding + 1⟩
          supply := ⟨s.supply.issued + 1⟩ }) := by
      simp only [acquire, Registers.acquire, hfree, Supply.next]
    rw [hacquire] at h ⊢
    have hissued : s.supply.issued + 1 ≤ t.supply.issued := h.issued_le
    refine ⟨[s.supply.issued + 1], ⟨?_, ?_, ?_, ?_, ?_, Nat.le_of_succ_le hissued⟩, ?_⟩
    · simp only [Session.release, Registers.release, h.free_eq, hfree, List.nil_append,
        List.singleton_append, List.map_cons]
    · simp only [Session.release, Registers.release, h.outstanding_eq, Nat.add_sub_cancel]
    · exact List.pairwise_cons.mpr ⟨h.lt_of_mem, h.sorted⟩
    · refine List.forall_mem_cons.mpr ⟨Nat.lt_succ_self _, fun n hn => ?_⟩
      exact Nat.lt_of_succ_lt (h.lt_of_mem n hn)
    · exact List.forall_mem_cons.mpr ⟨hissued, h.le_of_mem⟩
    · simp only [Registers.available, hfree, List.length_nil, List.length_singleton, Nat.sub_zero]

end Restocked

private theorem available_acquire (s : Session) :
    s.acquire.2.registers.available = s.registers.available - 1 := by
  unfold acquire Registers.acquire Registers.available
  cases s.registers.free <;> rfl

end Session

namespace Lowering

open Session

/-- The lowering keeps the stack of free registers and makes new ones for its far end. If it
succeeds, it makes those that it needs and that were not free. -/
def Needs {α : Type} (need : Nat) (m : Lowering α) : Prop :=
  ∀ s, ∃ made, Restocked s (m s).2 made ∧
    ∀ a, (m s).1 = .ok a → made.length = need - s.registers.available

section Needs

variable {α β : Type} {n k : Nat} {m : Lowering α}

/-- A step that leaves the registers alone. -/
theorem Needs.of_registers (h : ∀ s, (m s).2.registers = s.registers)
    (hissued : ∀ s, s.supply.issued ≤ (m s).2.supply.issued) : Needs 0 m :=
  fun s => ⟨[], .of_eq (h s) (hissued s), fun _ _ => (Nat.zero_sub _).symm⟩

private theorem needs_pure (a : α) : Needs 0 (pure a : Lowering α) :=
  .of_registers (fun _ => rfl) fun _ => Nat.le_refl _

/-- A step that fails makes nothing, whatever would have been needed. -/
theorem needs_fail (n : Nat) (e : LowerError) : Needs n (fail e : Lowering α) :=
  fun s => ⟨[], .refl s, nofun⟩

/-- Two steps in a row need what the more demanding one does, since the second one finds the
registers of the first one free again. -/
theorem Needs.bind {f : α → Lowering β} (hm : Needs n m) (hf : ∀ a, Needs k (f a)) :
    Needs (max n k) (m >>= f) := by
  intro s
  obtain ⟨made, hmade, hcount⟩ := hm s
  cases h : m s with
  | mk result t =>
    rw [h] at hmade hcount
    cases result with
    | error e =>
      rw [bind_apply_error h]
      exact ⟨made, hmade, nofun⟩
    | ok a =>
      rw [bind_apply_ok h]
      obtain ⟨made', hmade', hcount'⟩ := hf a t
      refine ⟨made ++ made', hmade.trans hmade', fun b hb => ?_⟩
      have hfirst := hcount a rfl
      have hsecond := hcount' b hb
      have havailable : t.registers.available = _ := hmade.available_eq
      rw [List.length_append]
      omega

/-- A step without registers behind another one. -/
theorem Needs.append {f : α → Lowering β} (hm : Needs n m) (hf : ∀ a, Needs 0 (f a)) :
    Needs n (m >>= f) := by
  have hbind := hm.bind hf
  rwa [Nat.max_zero] at hbind

/-- What is made of the result needs no register. -/
theorem Needs.map (hm : Needs n m) (f : α → β) : Needs n (m >>= fun a => pure (f a)) :=
  hm.append fun a => needs_pure (f a)

/-- A step without registers in front of another one. -/
theorem Needs.seq {f : α → Lowering β} (hm : Needs 0 m) (hf : ∀ a, Needs k (f a)) :
    Needs k (m >>= f) := by
  have hbind := hm.bind hf
  rwa [Nat.zero_max] at hbind

/-- One register more than the work with the register needs. -/
theorem Needs.withRegister {use : String → Lowering α} (h : ∀ r, Needs n (use r)) :
    Needs (n + 1) (withRegister use) := by
  intro s
  obtain ⟨made, hmade, hcount⟩ := h s.acquire.1 s.acquire.2
  obtain ⟨first, hback, hfirst⟩ := hmade.release
  refine ⟨first ++ made, hback, fun a ha => ?_⟩
  have hlength := hcount a ha
  rw [available_acquire] at hlength
  rw [List.length_append]
  omega

end Needs

section Steps

private theorem issued_le_resolve (table : NameTable) (name : String) (supply : Supply) :
    supply.issued ≤ (table.resolve name supply).supply.issued := by
  unfold NameTable.resolve
  split
  · exact Nat.le_refl _
  · exact Nat.le_succ _

private theorem needs_storeName (name : String) : Needs 0 (storeName name) := by
  refine .of_registers (fun s => ?_) fun s => ?_
  all_goals
    unfold storeName
    cases s.storeName? name
  · rfl
  · rfl
  · exact Nat.le_refl _
  · exact Nat.le_refl _

private theorem needs_createStore (name : String) : Needs 0 (createStore name) := by
  refine .of_registers (fun s => s.registers_createStore name) fun s => ?_
  simp only [createStore, ofSession, Session.createStore]
  split
  · exact Nat.le_refl _
  · exact issued_le_resolve s.storeNames name s.supply

private theorem needs_scoreOf (a : Access) : Needs 0 (scoreOf a) := by
  refine (needs_storeName a.store).seq fun store => Needs.map ?_ _
  refine .of_registers (fun s => s.registers_nameEntry a.entry) fun s => ?_
  cases a.entry with
  | named name => exact issued_le_resolve s.variableNames name s.supply
  | verbatim text => exact Nat.le_refl _

private theorem needs_checkOperand (node : Node) : Needs 0 (checkOperand node) := by
  unfold checkOperand
  split
  · exact needs_pure _
  · exact needs_fail _ _

private theorem needs_combine (target : Access) (o : Operator) (source : Access) :
    Needs 0 (combine target o source) :=
  (needs_scoreOf target).seq fun _ => (needs_scoreOf source).map _

private theorem needs_capture (target : Access) (line : String) : Needs 0 (capture target line) :=
  (needs_scoreOf target).map _

private theorem needs_captureAndCombine (target : Access) (o : Operator) (line : String) :
    Needs 1 (captureAndCombine target o line) := by
  refine (needs_storeName _).seq fun _ => (needs_createStore _).seq fun _ => ?_
  refine (Needs.withRegister fun r => ?_).map _
  exact (needs_capture _ _).seq fun _ => (needs_combine _ _ _).map _

/-- A calculation needs two registers on top of what loading one of its operands needs. -/
theorem needs_calculate (o : Operator) {first second : Access → Lowering (List Command)}
    {n k : Nat} (hfirst : ∀ a, Needs n (first a)) (hsecond : ∀ a, Needs k (second a)) :
    Needs (2 + max n k) (calculate o first second) := by
  rw [Nat.add_comm 2]
  refine (needs_createStore _).seq fun _ => Needs.withRegister fun r =>
    Needs.withRegister fun q => ?_
  exact (hfirst _).bind fun _ => (hsecond _).append fun _ => (needs_combine _ _ _).map _

end Steps

section Phrases

/-- Loading a value into a register takes what working it out takes. -/
theorem assignNeed_set (node : Node) : node.assignNeed .set = node.valueNeed := by
  cases node <;> rfl

private theorem needs_assign (target : Access) (o : Operator) :
    (node : Node) → Needs (node.assignNeed o) (assign target o node)
  | .int amount => by
    rw [assign, assignInt]
    split
    · exact needs_fail _ _
    · exact (needs_scoreOf target).map _
  | .access source => by
    rw [assign]
    exact needs_combine target o source
  | .calc first p second => by
    have hfirst (a : Access) := needs_assign a .set first
    have hsecond (a : Access) := needs_assign a .set second
    simp only [assignNeed_set] at hfirst hsecond
    rw [assign]
    refine (needs_storeName _).seq fun _ => (needs_checkOperand _).seq fun _ =>
      (needs_checkOperand _).seq fun _ => ?_
    exact (needs_calculate p hfirst hsecond).append fun _ => (needs_combine _ _ _).map _
  | .text line => by
    rw [assign, Node.assignNeed]
    split
    · exact needs_capture target line
    · exact needs_captureAndCombine target o line
  | .block _ | .float _ | .assign .. | .branch .. | .runAs .. | .create _ | .call .. => by
    rw [assign]
    · exact needs_fail _ _
    all_goals simp

private theorem needs_load (target : Access) (node : Node) :
    Needs node.valueNeed (assign target .set node) := by
  rw [← assignNeed_set]
  exact needs_assign target .set node

private theorem needs_calculation (first : Node) (o : Operator) (second : Node) :
    Needs (Node.calc first o second).valueNeed (calculation first o second) := by
  refine (needs_checkOperand _).seq fun _ => (needs_checkOperand _).seq fun _ => ?_
  exact needs_calculate o (fun a => needs_load a first) fun a => needs_load a second

/-- Comparing in place needs what the body needs. -/
theorem needs_compareDirectly (negate : Bool) (first : Access) (c : Comparator) (second : Access)
    {body : Lowering (List Command)} {n : Nat} (hbody : Needs n body) :
    Needs n (compareDirectly negate first c second body) :=
  (needs_scoreOf first).seq fun _ => (needs_scoreOf second).seq fun _ => hbody.map _

/-- Comparing copies needs two registers for as long as the values are loaded and the body runs. -/
theorem needs_compareCopies (negate : Bool) (first : Node) (c : Comparator) (second : Node)
    {body : Lowering (List Command)} {n : Nat} (hbody : Needs n body) :
    Needs (2 + max (max first.valueNeed second.valueNeed) n)
      (compareCopies negate first c second body) := by
  rw [Nat.add_comm 2, Nat.max_assoc]
  refine (needs_createStore _).seq fun _ => (Needs.withRegister fun r =>
    Needs.withRegister fun q => ?_).map _
  refine (needs_load _ first).bind fun _ => (needs_load _ second).bind fun _ => ?_
  exact (needs_scoreOf _).seq fun _ => (needs_scoreOf _).seq fun _ => hbody.map _

end Phrases

section Statements

private theorem assignNeed_of_assignsInOne {o : Operator} {node : Node}
    (h : assignsInOne o node = true) :
    node.assignNeed o = 0 := by
  cases node with
  | text line => exact if_pos (beq_iff_eq.mp h)
  | int | access => rfl
  | _ => cases h

/-- A statement of one command needs no register. -/
theorem Sole.need_eq_zero {node : Node} (h : Sole node) : node.need = 0 := by
  induction h with
  | text | create => rw [Node.need]
  | assign h =>
    rw [Node.need]
    exact assignNeed_of_assignsInOne h
  | block _ ih | runAs _ ih => rw [Node.need, Node.needAll, Node.needAll, ih, Nat.max_zero]
  | branch h _ =>
    rw [Node.need, directOperands, soleLowersToOne, if_pos h.lowersToOne_eq]
    rfl

mutual

/-- Lowering a statement takes the registers it needs. -/
theorem needs_lower : (node : Node) → Needs node.need (lower node)
  | .block body => by
    rw [lower, Node.need]
    exact needs_lowerAll body
  | .create store => by
    rw [lower, Node.need]
    exact needs_createStore store
  | .assign target o value => by
    rw [lower, Node.need]
    exact needs_assign target o value
  | .calc first o second => by
    rw [lower, Node.need]
    exact (needs_calculation first o second).map _
  | .branch negate first c second body => by
    rw [lower, Node.need]
    cases hdirect : directOperands first second body with
    | some operands =>
      obtain ⟨-, -, node, rfl, hsole⟩ := directOperands_eq_some hdirect
      have hbody := needs_lowerAll [node]
      rw [Node.needAll, Node.needAll, hsole.need_eq_zero, Nat.max_zero] at hbody
      exact needs_compareDirectly negate _ c _ hbody
    | none => exact needs_compareCopies negate first c second (needs_lowerAll body)
  | .runAs selector body => by
    rw [lower, Node.need]
    exact (needs_lowerAll body).map _
  | .text line => by
    rw [lower, Node.need]
    exact needs_pure _
  | .int _ | .float _ | .access _ | .call .. => by
    rw [lower]
    exact needs_fail _ _

private theorem needs_lowerAll : (body : List Node) → Needs (Node.needAll body) (lowerAll body)
  | [] => by
    rw [lowerAll, Node.needAll]
    exact needs_pure _
  | node :: rest => by
    rw [lowerAll, Node.needAll]
    exact (needs_lower node).bind fun _ => (needs_lowerAll rest).map _

end

end Statements

end Lowering

/-- Registers that the statements of a call take at once. -/
def Call.need (c : Call) : Nat := Node.needAll c.body

namespace Session

/-- A call that succeeds leaves as many registers as it needs, or as there were. -/
theorem available_call {s : Session} {c : Call} {commands : List Command}
    (h : (s.call c).1 = .ok commands) :
    (s.call c).2.registers.available = max c.need s.registers.available := by
  obtain ⟨t, -, hok, hcall⟩ := exists_commit_of_call h
  have hneeds : Lowering.Needs c.need c.lowering := by
    cases c with
    | phrase node =>
      rw [Call.need, Call.body, Node.needAll, Node.needAll, Nat.max_zero]
      exact Lowering.needs_lower node
    | program body => exact Lowering.needs_lowerAll body
  obtain ⟨made, hmade, hcount⟩ := hneeds s
  rw [hok] at hmade hcount
  have hlength := hcount commands rfl
  have havailable : t.registers.available = _ := hmade.available_eq
  rw [hcall]
  change t.registers.available = _
  omega

/-- Calls that all succeed leave as many registers as the most demanding one needs, or as there
were. -/
theorem available_after {s : Session} {calls : List Call}
    (h : ∀ before c later, calls = before ++ c :: later →
      ∃ commands, ((s.after before).call c).1 = .ok commands) :
    (s.after calls).registers.available =
      (calls.map Call.need).foldr max s.registers.available := by
  induction calls generalizing s with
  | nil => rfl
  | cons c calls ih =>
    obtain ⟨commands, hcommands⟩ := h [] c calls rfl
    have hrest := ih (s := (s.call c).2) fun before d later hsplit =>
      h (c :: before) d later (by rw [hsplit]; rfl)
    rw [after_nil] at hcommands
    rw [after_cons, hrest, available_call hcommands, List.map_cons, List.foldr_cons,
      Nat.max_comm c.need, List.foldr_assoc, Nat.max_comm c.need]

/--
Whatever phrase is lowered, in whatever session, and whether or not that succeeds:
as many registers are in use afterwards as before, and the stack of free registers,
from the bottom up, is made of registers that were made on the way, the latest first,
and of the stack before. If it succeeds, as many are made as the phrase needs and
were not free. So calls that all succeed leave as many registers as the most
demanding one needs.
-/
theorem registers_lower :
    (∀ (s : Session) (node : Node),
      let t := (Lowering.lower node s).2
      ∃ made : List Nat,
        t.registers.free.reverse =
          (made.map Letters.name).reverse ++ s.registers.free.reverse ∧
        made.Pairwise (· < ·) ∧
        (∀ n ∈ made, s.supply.issued < n ∧ n ≤ t.supply.issued) ∧
        t.registers.outstanding = s.registers.outstanding ∧
        ∀ commands, (Lowering.lower node s).1 = .ok commands →
          made.length = node.need - s.registers.available) ∧
    ∀ calls : List Call,
      (∀ before c later, calls = before ++ c :: later →
        ∃ commands, ((Session.fresh.after before).call c).1 = .ok commands) →
      (Session.fresh.after calls).registers.available = (calls.map Call.need).foldr max 0 := by
  constructor
  · intro s node t
    obtain ⟨made, hmade, hcount⟩ := Lowering.needs_lower node s
    refine ⟨made, ?_, hmade.sorted, fun n hn => ⟨hmade.lt_of_mem n hn, hmade.le_of_mem n hn⟩,
      hmade.outstanding_eq, hcount⟩
    rw [hmade.free_eq, List.reverse_append]
  · intro calls hcalls
    exact available_after hcalls

/-- A captured result, a product of two calculations and a condition on values follow one another:
the product takes the register of the capture and makes three more, the condition makes none. -/
theorem registers_lower_successive :
    let i : Access := ⟨.named "i", "m"⟩
    let capture : Call := .program [.create "m", .assign i .add (.text "seed")]
    let product : Node := .assign i .set
      (.calc (.calc (.access i) .add (.int 2)) .mul (.calc (.access i) .sub (.int 1)))
    let condition : Node := .branch false (.access i) .gt (.int 9) [.assign i .set (.int 0)]
    let s := Session.fresh.after [capture]
    s.registers.free = ["c"] ∧
      (∃ made : List Nat, made.length = 3 ∧ (Lowering.lower product s).2.registers.free.reverse =
        (made.map Letters.name).reverse ++ ["c"]) ∧
      (Session.fresh.after [capture, .phrase product, .phrase condition]).registers.available =
        4 := by
  intro i capture product condition s
  have hfree : s.registers.free = ["c"] := by decide +kernel
  have hok : (Session.fresh.call capture).1.isOk = true ∧
      (s.call (.phrase product)).1.isOk = true ∧
      ((Session.fresh.after [capture, .phrase product]).call (.phrase condition)).1.isOk = true ∧
      (Lowering.lower product s).1.isOk = true := by decide +kernel
  refine ⟨hfree, ?_, ?_⟩
  · obtain ⟨made, hstack, -, -, -, hcount⟩ := registers_lower.1 s product
    obtain ⟨commands, hcommands⟩ := Lowering.exists_of_isOk hok.2.2.2
    rw [hfree] at hstack
    refine ⟨made, (hcount commands hcommands).trans ?_, hstack⟩
    decide +kernel
  · have hcalls : ∀ before c later,
        [capture, .phrase product, .phrase condition] = before ++ c :: later →
          ∃ commands, ((Session.fresh.after before).call c).1 = .ok commands := by
      intro before c later hsplit
      match before with
      | [] =>
        cases hsplit
        exact Lowering.exists_of_isOk hok.1
      | [_] =>
        cases hsplit
        exact Lowering.exists_of_isOk hok.2.1
      | [_, _] =>
        cases hsplit
        exact Lowering.exists_of_isOk hok.2.2.1
      | _ :: _ :: _ :: before => cases before <;> cases hsplit
    exact (registers_lower.2 _ hcalls).trans (by decide +kernel)

end Session

end Datapack
