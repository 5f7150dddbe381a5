import Mathlib.Data.List.Dedup
import Mathlib.Logic.Equiv.Basic
import Datapack.Proofs.Session.Ownership
import Datapack.Proofs.Target.Outline

/-!
# What generated names stand for

At every moment each generated name stands for one variable, one store or one
register. Registers are counted along one row, those in use first and the free
ones behind them, next one first: taking and giving back moves the border between
the two parts of the row, and a new register goes to its end. So a name never
comes to stand for something else, and two sessions differ by a renaming in what
both of them have named.
-/

namespace Datapack

namespace Moment

/-- All registers: those in use, first taken first, and then the free ones. -/
def registerRow (m : Moment) : List String := m.held.reverse ++ m.session.registers.free

/-- The name that stands for a label, if there is one yet. -/
def label? (m : Moment) : Label → Option String
  | .var name => m.session.variableNames.lookup name
  | .store name => m.session.storeNames.lookup name
  | .register depth => m.registerRow[depth]?

/-- The name that stands for a label. -/
def nameOf (m : Moment) (label : Label) : String := (m.label? label).getD ""

/-- A label that stands for a name is spelled as it. -/
theorem nameOf_of_label? {m : Moment} {label : Label} {short : String}
    (h : m.label? label = some short) : m.nameOf label = short := by
  rw [nameOf, h, Option.getD_some]

/-- The row of registers grows at its end only. -/
theorem Step.exists_registerRow {m n : Moment} (h : Step m n) :
    ∃ new, n.registerRow = m.registerRow ++ new := by
  cases h with
  | nameEntry held s e => exact ⟨[], by simp [registerRow]⟩
  | createStore held s name => exact ⟨[], by simp [registerRow]⟩
  | acquire held s =>
    cases hfree : s.registers.free with
    | nil =>
      refine ⟨[s.supply.next.1], ?_⟩
      simp [registerRow, Session.acquire, Registers.acquire, hfree]
    | cons register free =>
      refine ⟨[], ?_⟩
      simp [registerRow, Session.acquire, Registers.acquire, hfree]
  | release held s register =>
    exact ⟨[], by simp [registerRow, Session.release, Registers.release]⟩

/-- Whatever a name stands for at the first moment, it stands for at the second. -/
structure KeepsLabels (m n : Moment) : Prop where
  label?_eq : ∀ {label short}, m.label? label = some short → n.label? label = some short

private theorem KeepsLabels.refl (m : Moment) : m.KeepsLabels m := ⟨id⟩

private theorem KeepsLabels.trans {m n k : Moment} (h : m.KeepsLabels n) (h' : n.KeepsLabels k) :
    m.KeepsLabels k :=
  ⟨fun hlabel => h'.label?_eq (h.label?_eq hlabel)⟩

/-- A label that stands for a name still does later. -/
theorem KeepsLabels.isSome {m n : Moment} (h : m.KeepsLabels n) {label : Label}
    (hlabel : (m.label? label).isSome = true) : (n.label? label).isSome = true := by
  obtain ⟨short, hshort⟩ := Option.isSome_iff_exists.mp hlabel
  rw [h.label?_eq hshort, Option.isSome_some]

/-- A label that stands for a name stands for the same one later. -/
theorem KeepsLabels.nameOf_eq {m n : Moment} (h : m.KeepsLabels n) {label : Label}
    (hlabel : (m.label? label).isSome = true) : m.nameOf label = n.nameOf label := by
  obtain ⟨short, hshort⟩ := Option.isSome_iff_exists.mp hlabel
  rw [nameOf_of_label? hshort, nameOf_of_label? (h.label?_eq hshort)]

/-- A name stands for the same thing from then on. -/
theorem Reaches.keepsLabels {m n : Moment} (h : m.Reaches n) : m.KeepsLabels n := by
  refine ⟨fun {label short} hlabel => ?_⟩
  cases label with
  | var name => exact h.keepsNames.variableNames hlabel
  | store name => exact h.keepsNames.storeNames hlabel
  | register depth =>
    induction h with
    | refl => exact hlabel
    | tail _ hstep ih =>
      obtain ⟨new, hrow⟩ := hstep.exists_registerRow
      obtain ⟨hdepth, -⟩ := List.getElem?_eq_some_iff.mp ih
      rw [label?, hrow, List.getElem?_append_left hdepth]
      exact ih

/-- The register taken last stands at the border of the row. -/
theorem label?_acquire (held : List String) (s : Session) :
    label? ⟨s.acquire.1 :: held, s.acquire.2⟩ (.register held.length) = some s.acquire.1 := by
  simp [label?, registerRow]

/-- No name stands for two things. -/
theorem Reachable.label?_injective {m : Moment} (hm : m.Reachable) {label label' : Label}
    {short : String} (h : m.label? label = some short) (h' : m.label? label' = some short) :
    label = label' := by
  have hnodup : (m.session.variableNames.shorts ++
      (m.session.storeNames.shorts ++ m.registerRow)).Nodup := by
    refine (List.Perm.nodup_iff ?_).mpr hm.nodup
    rw [List.perm_iff_count]
    intro x
    simp only [Session.names, registerRow, List.count_append, List.count_reverse]
    omega
  obtain ⟨hvars, hothers, hdisjoint⟩ := List.nodup_append'.mp hnodup
  obtain ⟨hstores, hrow, hdisjoint'⟩ := List.nodup_append'.mp hothers
  have mem_vars {name} (h : m.label? (.var name) = some short) :
      short ∈ m.session.variableNames.shorts :=
    List.mem_map_of_mem (NameTable.mem_of_lookup h)
  have mem_stores {name} (h : m.label? (.store name) = some short) :
      short ∈ m.session.storeNames.shorts :=
    List.mem_map_of_mem (NameTable.mem_of_lookup h)
  have mem_row {depth} (h : m.label? (.register depth) = some short) : short ∈ m.registerRow :=
    List.mem_of_getElem? h
  cases label with
  | var name =>
    cases label' with
    | var name' => rw [NameTable.lookup_injective hvars h h']
    | store name' => exact (hdisjoint (mem_vars h) (List.mem_append_left _ (mem_stores h'))).elim
    | register depth' => exact (hdisjoint (mem_vars h) (List.mem_append_right _ (mem_row h'))).elim
  | store name =>
    cases label' with
    | var name' => exact (hdisjoint (mem_vars h') (List.mem_append_left _ (mem_stores h))).elim
    | store name' => rw [NameTable.lookup_injective hstores h h']
    | register depth' => exact (hdisjoint' (mem_stores h) (mem_row h')).elim
  | register depth =>
    cases label' with
    | var name' => exact (hdisjoint (mem_vars h') (List.mem_append_right _ (mem_row h))).elim
    | store name' => exact (hdisjoint' (mem_stores h') (mem_row h)).elim
    | register depth' =>
      obtain ⟨hdepth, -⟩ := List.getElem?_eq_some_iff.mp h
      rw [(List.getElem?_inj hdepth hrow).mp (h.trans h'.symm)]

end Moment

/-- Names that are pairwise different on both sides are renamed into each other. -/
theorem exists_perm_of_nodup {α β : Type} [DecidableEq β] {f g : α → β} {xs : List α}
    (hf : (xs.map f).Nodup) (hg : (xs.map g).Nodup) :
    ∃ rename : Equiv.Perm β, ∀ x ∈ xs, rename (f x) = g x := by
  induction xs with
  | nil => exact ⟨.refl β, fun _ h => absurd h List.not_mem_nil⟩
  | cons x xs ih =>
    rw [List.map_cons, List.nodup_cons] at hf hg
    obtain ⟨rename, hxs⟩ := ih hf.2 hg.2
    -- The swap repairs the new pair, and no other name is one of the two it exchanges.
    refine ⟨rename.trans (Equiv.swap (rename (f x)) (g x)), ?_⟩
    intro y hy
    rcases List.mem_cons.mp hy with rfl | hy
    · exact Equiv.swap_apply_left _ _
    · have hleft : rename (f y) ≠ rename (f x) := by
        intro he
        exact hf.1 (rename.injective he ▸ List.mem_map_of_mem hy)
      have hright : rename (f y) ≠ g x := by
        intro he
        rw [hxs y hy] at he
        exact hg.1 (he ▸ List.mem_map_of_mem hy)
      rw [Equiv.trans_apply, Equiv.swap_apply_of_ne_of_ne hleft hright, hxs y hy]

namespace Moment

/-- Whatever has a name at a moment is among these. -/
def labels (m : Moment) : List Label :=
  m.session.variableNames.entries.map (fun e => .var e.1) ++
    (m.session.storeNames.entries.map (fun e => .store e.1) ++
      (List.range m.registerRow.length).map .register)

private theorem mem_labels {m : Moment} {label : Label} (h : (m.label? label).isSome = true) :
    label ∈ m.labels := by
  obtain ⟨short, hshort⟩ := Option.isSome_iff_exists.mp h
  cases label with
  | var name =>
    refine List.mem_append_left _ ?_
    exact List.mem_map.mpr ⟨(name, short), NameTable.mem_of_lookup hshort, rfl⟩
  | store name =>
    refine List.mem_append_right _ (List.mem_append_left _ ?_)
    exact List.mem_map.mpr ⟨(name, short), NameTable.mem_of_lookup hshort, rfl⟩
  | register depth =>
    obtain ⟨hdepth, -⟩ := List.getElem?_eq_some_iff.mp hshort
    refine List.mem_append_right _ (List.mem_append_right _ ?_)
    exact List.mem_map_of_mem (List.mem_range.mpr hdepth)

/-- What two sessions have both named differs by one renaming. -/
theorem exists_renaming {m n : Moment} (hm : m.Reachable) (hn : n.Reachable) :
    ∃ rename : Equiv.Perm String, ∀ label, (m.label? label).isSome = true →
      (n.label? label).isSome = true → n.nameOf label = rename (m.nameOf label) := by
  let common := m.labels.dedup.filter fun label =>
    (m.label? label).isSome && (n.label? label).isSome
  have hcommon {label} : label ∈ common ↔ label ∈ m.labels.dedup ∧
      (m.label? label).isSome = true ∧ (n.label? label).isSome = true := by
    rw [List.mem_filter, Bool.and_eq_true]
  have nodup_map {k : Moment} (hk : k.Reachable)
      (hsome : ∀ label ∈ common, (k.label? label).isSome = true) :
      (common.map k.nameOf).Nodup := by
    refine List.Nodup.map_on ?_ ((List.nodup_dedup m.labels).filter _)
    intro x hx y hy hxy
    obtain ⟨short, hshort⟩ := Option.isSome_iff_exists.mp (hsome x hx)
    obtain ⟨short', hshort'⟩ := Option.isSome_iff_exists.mp (hsome y hy)
    rw [nameOf_of_label? hshort, nameOf_of_label? hshort'] at hxy
    exact hk.label?_injective hshort (hxy ▸ hshort')
  have hfirst := nodup_map hm fun label h => (hcommon.mp h).2.1
  have hsecond := nodup_map hn fun label h => (hcommon.mp h).2.2
  obtain ⟨rename, hrename⟩ := exists_perm_of_nodup hfirst hsecond
  refine ⟨rename, fun label hleft hright => ?_⟩
  have hmem := List.mem_dedup.mpr (mem_labels hleft)
  exact (hrename label (hcommon.mpr ⟨hmem, hleft, hright⟩)).symm

end Moment

namespace Session

/-- The name that stands for a label between calls. -/
def nameOf (s : Session) (label : Label) : String := Moment.nameOf ⟨[], s⟩ label

/-- The end of a call changes no name. -/
theorem keepsLabels_commit (s : Session) : Moment.KeepsLabels ⟨[], s⟩ ⟨[], s.commit⟩ := by
  refine ⟨fun {label short} hlabel => ?_⟩
  cases label <;> exact hlabel

/-- A failed call takes no name back. -/
theorem keepsLabels_rollback (s : Session) : Moment.KeepsLabels ⟨[], s⟩ ⟨[], s.rollback⟩ := by
  refine ⟨fun {label short} hlabel => ?_⟩
  cases label <;> exact hlabel

/-- A call leaves all names as they are, succeeding or not. -/
theorem keepsLabels_call (s : Session) (c : Call) :
    Moment.KeepsLabels ⟨[], s⟩ ⟨[], (s.call c).2⟩ := by
  obtain ⟨t, hsteps, ⟨commands, -, h⟩ | ⟨e, -, h⟩⟩ := s.call_cases c
  · rw [h]
    exact hsteps.keepsLabels.trans t.keepsLabels_commit
  · rw [h]
    exact hsteps.keepsLabels.trans t.keepsLabels_rollback

/-- Calls leave all names as they are, succeeding or not. -/
theorem keepsLabels_after (s : Session) (calls : List Call) :
    Moment.KeepsLabels ⟨[], s⟩ ⟨[], s.after calls⟩ := by
  induction calls generalizing s with
  | nil => exact .refl _
  | cons c calls ih => exact (s.keepsLabels_call c).trans (ih _)

end Session

end Datapack
