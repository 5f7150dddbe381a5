import Mathlib.Data.List.Basic
import Mathlib.Data.List.Nodup
import Mathlib.Data.List.Perm.Basic
import Datapack.Proofs.Session.Steps

/-!
# Who owns a short name

All short names come from one counter, for variables, stores and registers
alike, and a lowering may end with an error at any place. Still every name
handed out has exactly one owner at every moment: a variable, a store (declared
or not), a free register, or a register in use. Nothing is lost and nothing is
shared.
-/

namespace Datapack

/-- Short names of variables, of stores and of free registers. -/
def Session.names (s : Session) : List String :=
  s.variableNames.shorts ++ s.storeNames.shorts ++ s.registers.free

/-- Every name handed out has one owner, and the registers in use are counted. -/
structure Moment.Accounted (m : Moment) : Prop where
  perm : (m.session.names ++ m.held).Perm m.session.supply.names
  outstanding_eq : m.session.registers.outstanding = m.held.length
  /-- Declared stores have a short name. -/
  named : ∀ {name : String}, m.session.isDeclared name = true →
    ∃ short, m.session.storeNames.lookup name = some short

namespace Moment

private theorem accounted_fresh : Accounted ⟨[], .fresh⟩ where
  perm := .refl _
  outstanding_eq := rfl
  named h := by simp [Session.isDeclared, Session.fresh] at h

/-- One step keeps the account: a new name has the owner that asked for it. -/
theorem Accounted.step {m n : Moment} (hm : m.Accounted) (h : Step m n) : n.Accounted := by
  obtain ⟨hperm, hout, hnamed⟩ := hm
  cases h with
  | nameEntry held s e =>
    refine ⟨?_, by simpa using hout, fun h => by simpa using hnamed (by simpa using h)⟩
    cases e with
    | verbatim text => exact hperm
    | named name =>
      obtain ⟨new, hshorts, hsupply⟩ := s.variableNames.shorts_resolve name s.supply
      rw [List.perm_iff_count] at hperm ⊢
      intro x
      have hx := hperm x
      simp only [Session.nameEntry, Session.names, hshorts, hsupply, List.count_append] at hx ⊢
      omega
  | createStore held s name =>
    cases hd : s.isDeclared name with
    | true =>
      rw [Session.createStore_of_declared hd]
      exact ⟨hperm, hout, hnamed⟩
    | false =>
      obtain ⟨new, hshorts, hsupply⟩ := s.storeNames.shorts_resolve name s.supply
      refine ⟨?_, by simpa using hout, ?_⟩
      · rw [Session.createStore_of_undeclared hd]
        rw [List.perm_iff_count] at hperm ⊢
        intro x
        have hx := hperm x
        simp only [Session.names, hshorts, hsupply, List.count_append] at hx ⊢
        omega
      · intro other hother
        by_cases he : other = name
        · subst he
          rw [Session.createStore_of_undeclared hd]
          exact ⟨_, NameTable.lookup_resolve _ _ _⟩
        · rw [Session.isDeclared_createStore] at hother
          obtain ⟨short, hshort⟩ := hnamed (by simpa [he] using hother)
          exact ⟨short, (Step.createStore held s name).keepsNames.storeNames hshort⟩
  | acquire held s =>
    obtain ⟨new, hfree, hsupply⟩ := s.registers.perm_acquire s.supply
    have hcount := s.registers.outstanding_acquire s.supply
    have hout : s.registers.outstanding = held.length := hout
    rcases hacquire : s.registers.acquire s.supply with ⟨register, registers, supply⟩
    rw [hacquire] at hfree hsupply hcount
    refine ⟨?_, ?_, hnamed⟩
    · rw [List.perm_iff_count] at hperm hfree ⊢
      intro x
      have hx := hperm x
      have hfree := hfree x
      simp only [Session.acquire, Session.names, hacquire, hsupply, List.count_append,
        List.count_cons] at hx hfree ⊢
      omega
    · simp only [Session.acquire, hacquire, List.length_cons] at hcount ⊢
      omega
  | release held s register =>
    refine ⟨?_, ?_, hnamed⟩
    · rw [List.perm_iff_count] at hperm ⊢
      intro x
      have hx := hperm x
      simp only [Session.release, Registers.release, Session.names, List.count_append,
        List.count_cons] at hx ⊢
      omega
    · simp only [Session.release, Registers.release]
      simp only [List.length_cons] at hout
      omega

/-- The account is kept at every reachable moment. -/
theorem Reachable.accounted {m : Moment} (h : m.Reachable) : m.Accounted := by
  induction h with
  | fresh => exact accounted_fresh
  | step _ hstep ih => exact ih.step hstep
  | commit _ ih => exact ⟨ih.perm, ih.outstanding_eq, fun h => ih.named (by simpa using h)⟩
  | rollback _ ih =>
    refine ⟨ih.perm, ih.outstanding_eq, fun h => ih.named ?_⟩
    simp only [Session.isDeclared, Session.rollback, List.contains_nil, Bool.or_false] at h
    simp only [Session.isDeclared, h, Bool.true_or]

/-- No name has two owners, registers in use included. -/
theorem Reachable.nodup {m : Moment} (h : m.Reachable) : (m.session.names ++ m.held).Nodup :=
  h.accounted.perm.nodup_iff.mpr (Supply.nodup_names _)

/-- Every name that has an owner is a word. -/
theorem Reachable.isWord {m : Moment} (h : m.Reachable) {short : String}
    (hmem : short ∈ m.session.names ++ m.held) : Letters.IsWord short := by
  obtain ⟨n, hpos, -, rfl⟩ := (Supply.mem_names_iff _ _).mp (h.accounted.perm.mem_iff.mp hmem)
  exact Letters.isWord_name hpos

/-- Variables are named by words. -/
theorem Reachable.isWord_variable {m : Moment} (h : m.Reachable) {name short : String}
    (hlookup : m.session.variableNames.lookup name = some short) : Letters.IsWord short := by
  have hshort : short ∈ m.session.variableNames.shorts :=
    List.mem_map_of_mem (f := Prod.snd) (NameTable.mem_of_lookup hlookup)
  exact h.isWord (by simp only [Session.names, List.mem_append, hshort, true_or])

/-- Stores are named by words. -/
theorem Reachable.isWord_store {m : Moment} (h : m.Reachable) {name short : String}
    (hlookup : m.session.storeNames.lookup name = some short) : Letters.IsWord short := by
  have hshort : short ∈ m.session.storeNames.shorts :=
    List.mem_map_of_mem (f := Prod.snd) (NameTable.mem_of_lookup hlookup)
  exact h.isWord (by simp only [Session.names, List.mem_append, hshort, or_true, true_or])

/-- Registers in use are words. -/
theorem Reachable.isWord_held {m : Moment} (h : m.Reachable) {r : String} (hr : r ∈ m.held) :
    Letters.IsWord r :=
  h.isWord (List.mem_append_right _ hr)

/-- No two variables share a short name. -/
theorem Reachable.variableNames_injective {m : Moment} (h : m.Reachable)
    {name other short : String} (hname : m.session.variableNames.lookup name = some short)
    (hother : m.session.variableNames.lookup other = some short) : name = other := by
  have hnodup := h.nodup.of_append_left.of_append_left.of_append_left
  exact NameTable.lookup_injective hnodup hname hother

/-- No two source stores share a target store. -/
theorem Reachable.storeNames_injective {m : Moment} (h : m.Reachable) {name other short : String}
    (hname : m.session.storeNames.lookup name = some short)
    (hother : m.session.storeNames.lookup other = some short) : name = other := by
  have hnodup := h.nodup.of_append_left.of_append_left.of_append_right
  exact NameTable.lookup_injective hnodup hname hother

/-- No two declared stores share a target store. -/
theorem Reachable.storeName?_injective {m : Moment} (h : m.Reachable) {name other short : String}
    (hname : m.session.storeName? name = some short)
    (hother : m.session.storeName? other = some short) : name = other :=
  h.storeNames_injective (Session.lookup_of_storeName? hname) (Session.lookup_of_storeName? hother)

end Moment

/--
After any calls, failed ones among them: variables, stores (declared or not) and
free registers have pairwise different short names, which are exactly the names
handed out so far; no register is in use; and no step of any later call, failed or
not, takes a name back.
-/
theorem Session.names_after (calls : List Call) :
    let s := Session.fresh.after calls
    s.names.Nodup ∧
      (∀ short, short ∈ s.names ↔ ∃ n, 1 ≤ n ∧ n ≤ s.supply.issued ∧ short = Letters.name n) ∧
      s.registers.outstanding = 0 ∧
      ∀ (more : List Call) (m : Moment), Moment.Reaches ⟨[], s.after more⟩ m →
        s.KeepsNames m.session := by
  intro s
  have hs : Moment.Reachable ⟨[], s⟩ := Moment.Reachable.fresh.after calls
  have hperm := hs.accounted.perm
  rw [List.append_nil] at hperm
  refine ⟨?_, ?_, hs.accounted.outstanding_eq, ?_⟩
  · simpa using hs.nodup
  · intro short
    rw [hperm.mem_iff, Supply.mem_names_iff]
  · intro more m hsteps
    exact (s.keepsNames_after more).trans hsteps.keepsNames

end Datapack
