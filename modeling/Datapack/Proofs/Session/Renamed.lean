import Mathlib.Data.Set.Function
import Datapack.Proofs.Lowering.Simulation
import Datapack.Proofs.Lowering.WellFormed

/-!
# What a name is called does not matter

Names of variables and stores matter only in that they are the same or different:
a session that serves renamed calls goes through the renamed sessions, since it
draws the same short names in the same order. So it answers every call with the
same commands, or with the same error about the renamed store, and a failed call
makes no difference to that.
-/

namespace Datapack

namespace NameTable

/-- The table in which every source name has its new name. -/
def rename (f : String → String) (t : NameTable) : NameTable :=
  ⟨t.entries.map fun e => (f e.1, e.2)⟩

variable {f : String → String}

private theorem lookup_rename (hf : Function.Injective f) (t : NameTable) (name : String) :
    (t.rename f).lookup (f name) = t.lookup name := by
  obtain ⟨entries⟩ := t
  simp only [lookup, rename]
  induction entries with
  | nil => rfl
  | cons e entries ih =>
    have hbeq : (f name == f e.1) = (name == e.1) := by
      rw [Bool.eq_iff_iff, beq_iff_eq, beq_iff_eq, hf.eq_iff]
    rw [List.map_cons, List.lookup_cons, List.lookup_cons, hbeq, ih]

/-- A new name receives the short name that the old one would. -/
theorem resolve_rename (hf : Function.Injective f) (t : NameTable) (name : String)
    (supply : Supply) :
    (t.rename f).resolve (f name) supply =
      { t.resolve name supply with table := (t.resolve name supply).table.rename f } := by
  have hlookup := lookup_rename hf t name
  cases h : t.lookup name with
  | some short => rw [resolve_of_some h, resolve_of_some (hlookup.trans h)]
  | none =>
    rw [resolve_of_none h, resolve_of_none (hlookup.trans h)]
    simp [rename]

end NameTable

/-- Different names stay different, and the scratch store keeps its name. -/
structure Renaming.Faithful (ren : Renaming) : Prop where
  var_injective : Function.Injective ren.var
  store_injective : Function.Injective ren.store
  store_scratch : ren.store scratchStore = scratchStore

/-- No store but the scratch store has its name afterwards. -/
theorem Renaming.faithful_keepScratch {ren : Renaming} (hvar : Function.Injective ren.var)
    (hstore : Set.InjOn ren.store {name | name ≠ scratchStore})
    (hscratch : ∀ name, name ≠ scratchStore → ren.store name ≠ scratchStore) :
    ren.keepScratch.Faithful where
  var_injective := hvar
  store_injective := by
    intro x y hxy
    by_cases hx : x = scratchStore
    · by_cases hy : y = scratchStore
      · exact hx.trans hy.symm
      · rw [hx, store_keepScratch_scratch, store_keepScratch hy] at hxy
        exact absurd hxy.symm (hscratch y hy)
    · by_cases hy : y = scratchStore
      · rw [hy, store_keepScratch_scratch, store_keepScratch hx] at hxy
        exact absurd hxy (hscratch x hx)
      · rw [store_keepScratch hx, store_keepScratch hy] at hxy
        exact hstore hx hy hxy
  store_scratch := ren.store_keepScratch_scratch

namespace Session

/-- The session that has seen the renamed program. -/
def rename (ren : Renaming) (s : Session) : Session where
  supply := s.supply
  variableNames := s.variableNames.rename ren.var
  storeNames := s.storeNames.rename ren.store
  declared := s.declared.map ren.store
  pending := s.pending.map ren.store
  registers := s.registers

section Rename

variable {ren : Renaming}

private theorem isDeclared_rename (hren : ren.Faithful) (s : Session) (name : String) :
    (s.rename ren).isDeclared (ren.store name) = s.isDeclared name := by
  have hcontains (names : List String) :
      (names.map ren.store).contains (ren.store name) = names.contains name := by
    rw [Bool.eq_iff_iff, List.contains_iff_mem, List.contains_iff_mem,
      List.mem_map_of_injective hren.store_injective]
  simp only [isDeclared, rename, hcontains]

private theorem createStore_rename (hren : ren.Faithful) (s : Session) (name : String) :
    (s.rename ren).createStore (ren.store name) =
      ((s.createStore name).1, (s.createStore name).2.rename ren) := by
  have hdeclared := isDeclared_rename hren s name
  cases h : s.isDeclared name with
  | true => rw [createStore_of_declared h, createStore_of_declared (hdeclared.trans h)]
  | false =>
    rw [createStore_of_undeclared h, createStore_of_undeclared (hdeclared.trans h)]
    simp only [rename, NameTable.resolve_rename hren.store_injective, List.map_append,
      List.map_cons, List.map_nil]

/-- Every step on a renamed session leads to the renamed session. -/
theorem simulation_rename (hren : ren.Faithful) :
    Simulation ren fun s t => t = s.rename ren where
  store_scratch := hren.store_scratch
  storeName?_eq := by
    rintro s t rfl name
    rw [storeName?, storeName?, isDeclared_rename hren, rename,
      NameTable.lookup_rename hren.store_injective]
  nameEntry := by
    rintro s t rfl (name | text)
    · simp only [Entry.rename, nameEntry, rename, NameTable.resolve_rename hren.var_injective,
        and_self]
    · exact ⟨rfl, rfl⟩
  createStore := by
    rintro s t rfl name
    rw [createStore_rename hren]
    exact ⟨rfl, rfl⟩
  acquire := by
    rintro s t rfl
    exact ⟨rfl, rfl⟩
  release := by
    rintro s t rfl register
    rfl

end Rename

end Session

/-- The call under its new names. -/
def Call.rename (ren : Renaming) : Call → Call
  | .phrase node => .phrase (node.rename ren)
  | .program body => .program (Node.renameAll ren body)

private theorem Call.rename_keepScratch (ren : Renaming) {c : Call}
    (h : scratchStore ∉ Node.storesAll c.body) : c.rename ren.keepScratch = c.rename ren := by
  cases c with
  | phrase node =>
    rw [body, Node.storesAll, Node.storesAll, List.append_nil] at h
    rw [rename, rename, Node.rename_keepScratch ren node h]
  | program body => rw [rename, rename, Node.renameAll_keepScratch ren body h]

namespace Session

open Moment

private theorem call_rename {ren : Renaming} (hren : ren.Faithful) (s : Session) (c : Call) :
    (s.rename ren).call (c.rename ren) =
      ((s.call c).1.mapError (LowerError.rename ren), (s.call c).2.rename ren) := by
  have sim := simulation_rename hren
  have hfollows : Lowering.Follows ren (fun s t => t = s.rename ren) c.lowering
      (c.rename ren).lowering := by
    cases c with
    | phrase node => exact Lowering.follows_lower sim node
    | program body => exact Lowering.follows_lowerAll sim body
  obtain ⟨hanswer, hsession⟩ := hfollows rfl
  have hlowering : (c.rename ren).lowering (s.rename ren) =
      ((c.lowering s).1.mapError (LowerError.rename ren), (c.lowering s).2.rename ren) :=
    Prod.ext hanswer hsession
  rw [call_eq_run, call_eq_run, run, run, hlowering]
  cases h : c.lowering s with
  | mk result t =>
    cases result with
    | ok commands => simp [Except.mapError, rename, commit]
    | error e => simp [Except.mapError, rename, rollback]

/-- No call fails for want of the scratch store unless it mentions it. -/
theorem call_ne_unknownStore {s : Session} (hs : Reachable ⟨[], s⟩) {c : Call}
    (hc : scratchStore ∉ Node.storesAll c.body) :
    (s.call c).1 ≠ .error (.unknownStore scratchStore) := by
  have hdecides : ∃ good adds, Lowering.Decides false good adds c.lowering := by
    cases c with
    | phrase node =>
      rw [Call.body, Node.storesAll, Node.storesAll, List.append_nil] at hc
      exact ⟨_, _, Lowering.decides_lower node hc⟩
    | program body => exact ⟨_, _, Lowering.decides_lowerAll body hc⟩
  obtain ⟨good, adds, hdecides⟩ := hdecides
  rw [call_eq_run, run]
  rcases hdecides hs Bool.false_ne_true.elim with ⟨commands, t, hok, -⟩ | ⟨e, t, herror, -, he⟩
  · rw [hok]
    rintro ⟨⟩
  · rw [herror]
    exact fun h => he (Except.error.inj h)

/-- What a session answers to calls in order, whether or not each of them succeeds. -/
def answers (s : Session) : List Call → List (Except LowerError (List Command))
  | [] => []
  | c :: calls => (s.call c).1 :: (s.call c).2.answers calls

/-- An error names no store that the renaming treats in its own way. -/
theorem mapError_keepScratch (ren : Renaming) {answer : Except LowerError (List Command)}
    (h : answer ≠ .error (.unknownStore scratchStore)) :
    answer.mapError (LowerError.rename ren.keepScratch) =
      answer.mapError (LowerError.rename ren) := by
  cases answer with
  | ok commands => rfl
  | error e =>
    cases e with
    | unknownStore name =>
      have hname : name ≠ scratchStore := fun he => h (he ▸ rfl)
      simp only [Except.mapError, LowerError.rename, Renaming.store_keepScratch hname]
    | notImmediate | unassignable | notStatement => rfl

/-- Renamed calls are answered alike in the renamed session. -/
theorem answers_renamed {ren : Renaming} (hren : ren.keepScratch.Faithful) {s : Session}
    (hs : Reachable ⟨[], s⟩) (calls : List Call)
    (hcalls : ∀ c ∈ calls, scratchStore ∉ Node.storesAll c.body) :
    (s.rename ren.keepScratch).answers (calls.map (Call.rename ren)) =
      (s.answers calls).map (Except.mapError (LowerError.rename ren)) := by
  induction calls generalizing s with
  | nil => rfl
  | cons c calls ih =>
    obtain ⟨hc, hcalls⟩ := List.forall_mem_cons.mp hcalls
    rw [List.map_cons, answers, answers, List.map_cons, ← Call.rename_keepScratch ren hc,
      call_rename hren, ih (hs.call c) hcalls,
      mapError_keepScratch ren (call_ne_unknownStore hs hc)]

/--
What a session answers depends on the names of variables and stores only through
which of them are the same. Let the variables be renamed injectively, and apart
from them the stores, none of them to the name of the scratch store. Then calls
that do not mention the scratch store are answered one by one with the very
commands of the calls before renaming, or with the same errors, in which the
unknown store is renamed; failed calls among them make no difference.
-/
theorem answers_rename (ren : Renaming) (hvar : Function.Injective ren.var)
    (hstore : Set.InjOn ren.store {name | name ≠ scratchStore})
    (hscratch : ∀ name, name ≠ scratchStore → ren.store name ≠ scratchStore)
    (calls : List Call) (hcalls : ∀ c ∈ calls, scratchStore ∉ Node.storesAll c.body) :
    Session.fresh.answers (calls.map (Call.rename ren)) =
      (Session.fresh.answers calls).map (Except.mapError (LowerError.rename ren)) :=
  answers_renamed (Renaming.faithful_keepScratch hvar hstore hscratch) .fresh calls hcalls

/-- A variable and a store that share a name are renamed apart, and a call that fails for want of
a store comes between two that succeed. -/
theorem answers_rename_shared :
    let ren : Renaming := ⟨fun name => name ++ "1", fun name => "s_" ++ name⟩
    let x : Access := ⟨.named "x", "x"⟩
    let y : Access := ⟨.named "y", "y"⟩
    let calls := [.program [.create "x", .assign x .set (.calc (.access x) .add (.int 1))],
      .phrase (.assign x .set (.access y)), .phrase (.assign x .add (.int 2))]
    Session.fresh.answers (calls.map (Call.rename ren)) =
        (Session.fresh.answers calls).map (Except.mapError (LowerError.rename ren)) ∧
      (Session.fresh.answers (calls.map (Call.rename ren)))[1]? =
        some (.error (.unknownStore "s_y")) := by
  intro ren x y calls
  have hvar : Function.Injective ren.var := fun a b h => String.append_left_inj _ |>.mp h
  have hstore : Set.InjOn ren.store {name | name ≠ scratchStore} :=
    fun a _ b _ h => String.append_right_inj _ |>.mp h
  have hscratch : ∀ name, name ≠ scratchStore → ren.store name ≠ scratchStore := by
    intro name _ h
    have hhead := congrArg (fun s => s.toList.head?) h
    simp [ren, scratchStore] at hhead
  have hcalls : ∀ c ∈ calls, scratchStore ∉ Node.storesAll c.body := by
    decide +kernel
  have hrenamed := answers_rename ren hvar hstore hscratch calls hcalls
  refine ⟨hrenamed, ?_⟩
  decide +kernel

end Session

end Datapack
