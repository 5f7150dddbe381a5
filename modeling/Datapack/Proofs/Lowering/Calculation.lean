import Datapack.Proofs.Lowering.EntityByEntity

/-!
# Calculations

A calculation over numbers and declared stores is always worked out. Its commands
leave the value of the tree in the register that is returned, and change nothing
else that counts: no score outside the scratch store, and no register that is in
use around the calculation. The registers of inner calculations are free again
before their values are copied, and are taken anew for the second operand; the
result itself lies in the register that will be handed out next.
-/

namespace Datapack

namespace Machine

variable {p : Platform} {scopes : List Clause}

/-- A silent command asks the platform for no command line. -/
theorem govern_silenced {clauses : List Clause} {action : Action}
    (h : Command.isSilent ⟨clauses, action⟩ = true) (b : Board) :
    govern p scopes clauses action b = govern p.silenced scopes clauses action b := by
  induction clauses with
  | nil =>
    cases action with
    | raw line => cases h
    | operate target o source => cases o <;> rfl
    | declare | edit => rfl
  | cons clause rest ih =>
    cases clause with
    | compare negate x k y =>
      simp only [govern]
      rw [ih h]
    | keepResult | runAs | verbatim => cases h

/-- Silent commands ask the platform for no command line. -/
theorem runIn_silenced {commands : List Command} (h : ∀ c ∈ commands, c.isSilent = true)
    (b : Board) : runIn p scopes b commands = runIn p.silenced scopes b commands := by
  induction commands generalizing b with
  | nil => rfl
  | cons c commands ih =>
    obtain ⟨hc, hrest⟩ := List.forall_mem_cons.mp h
    rw [runIn_cons, runIn_cons, govern_silenced hc, ih hrest]

end Machine

namespace Lowering

open Session Moment

variable {held : List String} {s t : Session} {commands : List Command} {r : String}
  {first second : Node} {o : Operator}

/-- A calculation that succeeds has a derivation, and returns a register. -/
theorem emits_calculation (held : List String) {result : Access}
    (h : calculation first o second s = (.ok (commands, result), t)) :
    ∃ r, result = scratch r ∧ Emits held (.calculation r first o second) s commands t := by
  simp only [calculation, bind_eq_ok, checkOperand_eq_ok] at h
  obtain ⟨_, _, ⟨hop, rfl⟩, _, _, ⟨hop', rfl⟩, hcalc⟩ := h
  exact emits_calculate held hop hop' emits_assign emits_assign hcalc

/-- The register returned is not in use, and is the next one to be handed out. -/
theorem Emits.result_register (h : Emits held (.calculation r first o second) s commands t)
    (hs : Reachable ⟨held, s⟩) : r ∉ held ∧ t.registers.free.head? = some r := by
  cases h with
  | calculation _ _ hdecl hr hq _ _ =>
    have hq' := hs.reaches (reaches_registers hdecl hr hq)
    exact ⟨hq'.registers_fresh.1, rfl⟩

/-- Once a register was found, the scratch store is declared and all registers lie in it. -/
theorem scratch_declared_of_scoreOf {q : String} {y : Score}
    (h : scoreOf (scratch q) s = (.ok y, t)) :
    ∃ store, t.storeName? scratchStore = some store ∧ ∀ q, t.address (scratch q) = ⟨q, store⟩ := by
  have hstore : t.storeName? scratchStore = some y.store :=
    (storeName?_of_scoreOf h scratchStore).trans (scoreOf_eq_ok.mp h).1
  have hlookup : t.storeNames.lookup scratchStore = some y.store := lookup_of_storeName? hstore
  refine ⟨y.store, hstore, fun q => ?_⟩
  simp only [address, entryName, scratch, hlookup, Option.getD_some]

/-- A calculation ends with the scratch store declared. -/
theorem Emits.scratch_declared (h : Emits held (.calculation r first o second) s commands t) :
    ∃ store, t.storeName? scratchStore = some store ∧ ∀ q, t.address (scratch q) = ⟨q, store⟩ := by
  cases h with
  | calculation _ _ _ _ _ _ hcomb =>
    cases hcomb with
    | access _ hy =>
      -- giving the two registers back touches no name
      obtain ⟨store, hstore, haddress⟩ := scratch_declared_of_scoreOf hy
      exact ⟨store, hstore, haddress⟩

/-- What the commands of a calculation over numbers and scores do to a board. -/
theorem Emits.run_calculation (h : Emits held (.calculation r first o second) s commands t)
    (hs : Reachable ⟨held, s⟩) (hnumeric : (Node.calc first o second).isNumeric = true)
    (hmentions : scratchStore ∉ (Node.calc first o second).stores) (p : Platform) (b : Board) :
    (Machine.run p b commands).Agree t.scratch? held b ∧
      (Machine.run p b commands).scores (t.address (scratch r)) =
        (Meaning.value p t.address [] (.calc first o second) b).1 := by
  have ht : Reachable ⟨held, t⟩ := hs.reaches h.reaches
  have hsilent : ∀ c ∈ commands, c.isSilent = true := h.isSilent_of_mem hnumeric
  obtain ⟨hboard, hvalue⟩ := h.means hs hmentions (.refl t) ht.address_avoids
    (p.silenced_respects t.scratch?) [] b
  rw [h.silent p.silenced t.address [] b] at hboard
  rw [Machine.run_eq_runIn, Machine.runIn_silenced hsilent,
    Meaning.value_silenced [] (.calc first o second) hnumeric]
  exact ⟨hboard, hvalue⟩

/--
At any moment of a lowering, with any registers in use, a calculation over
numbers, scores of declared stores and calculations of these is worked out. On
every board its commands leave the value of the tree in the register returned,
which is not in use and is the next one to be handed out. They log nothing and
change neither a score outside the scratch store nor a register in use.
-/
theorem calculation_computes (hs : Reachable ⟨held, s⟩) (first : Node) (o : Operator)
    (second : Node) (hnumeric : (Node.calc first o second).isNumeric = true)
    (hstores : ∀ store ∈ (Node.calc first o second).stores,
      store ≠ scratchStore ∧ s.isDeclared store = true) :
    ∃ commands r t store, calculation first o second s = (.ok (commands, scratch r), t) ∧
      t.storeName? scratchStore = some store ∧ r ∉ held ∧ t.registers.free.head? = some r ∧
      ∀ (p : Platform) (b : Board),
        let ran := Machine.run p b commands
        ran.scores ⟨r, store⟩ = (Meaning.value p t.address [] (.calc first o second) b).1 ∧
          (∀ x : Score, x.store ≠ store → ran.scores x = b.scores x) ∧
          (∀ q ∈ held, ran.scores ⟨q, store⟩ = b.scores ⟨q, store⟩) ∧ ran.log = b.log := by
  have hmentions : scratchStore ∉ (Node.calc first o second).stores :=
    fun hmem => (hstores scratchStore hmem).1 rfl
  obtain ⟨commands, result, t, hcalc⟩ :
      ∃ commands result t, calculation first o second s = (.ok (commands, result), t) := by
    have hsides : scratchStore ∉ first.stores ∧ scratchStore ∉ second.stores := by
      rwa [Node.stores, List.mem_append, not_or] at hmentions
    have hdecides : Decides false _ _ (calculation first o second) :=
      decides_calculation o hsides.1 hsides.2
    rcases hdecides hs Bool.false_ne_true.elim with
      ⟨⟨commands, result⟩, t, hok, -⟩ | ⟨e, t, -, hbad, -⟩
    · exact ⟨commands, result, t, hok⟩
    · refine absurd ⟨Bool.and_eq_true_iff.mp hnumeric, fun store hstore => ?_⟩ hbad
      rw [← readStores_calc first second o] at hstore
      exact hstores store (Node.readStores_subset _ hstore)
  obtain ⟨r, rfl, h⟩ := emits_calculation held hcalc
  obtain ⟨store, hstore, haddress⟩ := h.scratch_declared
  obtain ⟨hfresh, hnext⟩ := h.result_register hs
  refine ⟨commands, r, t, store, hcalc, hstore, hfresh, hnext, fun p b => ?_⟩
  obtain ⟨hboard, hvalue⟩ := h.run_calculation hs hnumeric hmentions p b
  have hscratch : t.scratch? = some store := lookup_of_storeName? hstore
  rw [haddress] at hvalue
  refine ⟨hvalue, fun x hx => ?_, fun q hq => ?_, hboard.log_eq⟩
  · refine hboard.scores_eq x (Score.visible_of_ne ?_ held)
    rw [hscratch]
    exact fun heq => hx (Option.some.inj heq).symm
  · exact hboard.scores_eq ⟨q, store⟩ fun _ => hq

/-- Both operands are calculations, and a register is in use around them: the second operand
reuses the registers of the first one. -/
theorem calculation_computes_nested :
    let i : Node := .access ⟨.named "i", "m"⟩
    let taken := ((Session.fresh.after [.phrase (.create "m")]).createStore scratchStore).2.acquire
    taken.1 = "c" ∧ ∃ commands r t store,
      calculation (.calc i .add (.int 2)) .mul (.calc i .sub (.int 1)) taken.2 =
        (.ok (commands, scratch r), t) ∧ r ≠ "c" ∧
      (Machine.run .quiet ⟨fun _ => 5, []⟩ commands).scores ⟨r, store⟩ = 28 ∧
      (Machine.run .quiet ⟨fun _ => 5, []⟩ commands).scores ⟨"c", store⟩ = 5 := by
  intro i taken
  have hc : taken.1 = "c" := by decide +kernel
  have hs : Reachable ⟨["c"], taken.2⟩ := by
    rw [← hc]
    exact ((Reachable.fresh.after _).step (.createStore [] _ scratchStore)).step (.acquire [] _)
  obtain ⟨commands, r, t, store, hcalc, -, hfresh, -, hrun⟩ := calculation_computes hs
    (.calc i .add (.int 2)) .mul (.calc i .sub (.int 1)) rfl (by decide +kernel)
  obtain ⟨hvalue, -, hheld, -⟩ := hrun .quiet ⟨fun _ => 5, []⟩
  have hmeant : (Meaning.value .quiet t.address []
      (.calc (.calc i .add (.int 2)) .mul (.calc i .sub (.int 1))) ⟨fun _ => 5, []⟩).1 = 28 := by
    simp only [i, Meaning.value, Platform.combine]
    decide
  exact ⟨hc, commands, r, t, store, hcalc, List.ne_of_not_mem_cons hfresh, hvalue.trans hmeant,
    hheld "c" (List.mem_singleton_self _)⟩

end Lowering

end Datapack
