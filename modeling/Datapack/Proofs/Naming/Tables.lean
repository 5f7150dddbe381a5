import Mathlib.Data.List.Nodup
import Datapack.Naming.ShortNames
import Datapack.Proofs.Naming.Numbering

/-!
# What supplies, tables and registers hand out

A supply never hands out a name twice. A table gains a short name only where the
supply hands one out, and a name that stands in a table keeps its short name. A
register that is handed out was free before, or the supply hands it out.
-/

namespace Datapack

/-- The names that a supply has handed out, oldest first. -/
def Supply.names (s : Supply) : List String :=
  (List.range s.issued).map fun n => Letters.name (n + 1)

/-- The short names of a table, oldest first. -/
def NameTable.shorts (t : NameTable) : List String := t.entries.map Prod.snd

namespace Supply

/-- The next name is added to the names handed out. -/
theorem names_next (s : Supply) : s.next.2.names = s.names ++ [s.next.1] := by
  simp only [names, next, List.range_succ, List.map_append, List.map_cons, List.map_nil]

/-- No name is handed out twice. -/
theorem nodup_names (s : Supply) : s.names.Nodup := by
  apply List.Nodup.map _ List.nodup_range
  intro m n h
  have := Letters.name_injective h
  omega

/-- The names handed out are those with the numbers up to the counter. -/
theorem mem_names_iff (s : Supply) (short : String) :
    short ∈ s.names ↔ ∃ n, 1 ≤ n ∧ n ≤ s.issued ∧ short = Letters.name n := by
  simp only [names, List.mem_map, List.mem_range]
  constructor
  · rintro ⟨n, hn, rfl⟩
    exact ⟨n + 1, by omega, by omega, rfl⟩
  · rintro ⟨n, hpos, hn, rfl⟩
    exact ⟨n - 1, by omega, by rw [Nat.sub_add_cancel hpos]⟩

end Supply

namespace NameTable

variable {t : NameTable} {name other short : String}

/-- A name that the table has is resolved without the supply. -/
theorem resolve_of_some (h : t.lookup name = some short) (supply : Supply) :
    t.resolve name supply = ⟨short, true, t, supply⟩ := by
  rw [resolve, h]

/-- A new name is entered under the next name of the supply. -/
theorem resolve_of_none (h : t.lookup name = none) (supply : Supply) :
    t.resolve name supply =
      ⟨supply.next.1, false, ⟨t.entries ++ [(name, supply.next.1)]⟩, supply.next.2⟩ := by
  rw [resolve, h]

/-- Naming one name says nothing about the others. -/
theorem lookup_resolve_of_ne (h : other ≠ name) (t : NameTable) (supply : Supply) :
    (t.resolve name supply).table.lookup other = t.lookup other := by
  cases hname : t.lookup name with
  | some short => rw [resolve_of_some hname]
  | none =>
    rw [resolve_of_none hname]
    simp [lookup, List.lookup_append, h]

/-- A name keeps its short name whatever is named next. -/
theorem lookup_resolve_of_some (h : t.lookup other = some short) (name : String)
    (supply : Supply) : (t.resolve name supply).table.lookup other = some short := by
  by_cases he : other = name
  · subst he
    rw [resolve_of_some h]
    exact h
  · rw [lookup_resolve_of_ne he]
    exact h

/-- What is looked up was entered. -/
theorem mem_of_lookup {t : NameTable} {name short : String} (h : t.lookup name = some short) :
    (name, short) ∈ t.entries := by
  obtain ⟨before, after, hsplit, -⟩ := List.lookup_eq_some_iff.mp h
  rw [hsplit]
  exact List.mem_append_right before List.mem_cons_self

/-- Where no short name stands twice, it tells which name it was given to. -/
theorem lookup_injective {t : NameTable} (ht : t.shorts.Nodup) {name other short : String}
    (h : t.lookup name = some short) (h' : t.lookup other = some short) : name = other := by
  have heq := List.inj_on_of_nodup_map ht (mem_of_lookup h) (mem_of_lookup h') rfl
  exact congrArg Prod.fst heq

/-- What a table gains is what the supply hands out: one name, or none. -/
theorem shorts_resolve (t : NameTable) (name : String) (supply : Supply) :
    ∃ new, (t.resolve name supply).table.shorts = t.shorts ++ new ∧
      (t.resolve name supply).supply.names = supply.names ++ new := by
  cases h : t.lookup name with
  | some short =>
    rw [resolve_of_some h]
    exact ⟨[], (List.append_nil _).symm, (List.append_nil _).symm⟩
  | none =>
    rw [resolve_of_none h]
    refine ⟨[supply.next.1], ?_, supply.names_next⟩
    simp only [shorts, List.map_append, List.map_cons, List.map_nil]

end NameTable

namespace Registers

/-- A register that is handed out was free, or it is new. -/
theorem perm_acquire (r : Registers) (supply : Supply) :
    ∃ new, ((r.acquire supply).1 :: (r.acquire supply).2.1.free).Perm (r.free ++ new) ∧
      (r.acquire supply).2.2.names = supply.names ++ new := by
  unfold acquire
  cases r.free with
  | nil => exact ⟨[supply.next.1], .refl _, supply.names_next⟩
  | cons name free =>
    refine ⟨[], ?_, (List.append_nil _).symm⟩
    rw [List.append_nil]

/-- A register that is handed out is counted. -/
theorem outstanding_acquire (r : Registers) (supply : Supply) :
    (r.acquire supply).2.1.outstanding = r.outstanding + 1 := by
  unfold acquire
  cases r.free <;> rfl

end Registers

end Datapack
