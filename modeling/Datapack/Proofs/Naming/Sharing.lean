import Mathlib.Data.List.Nodup
import Mathlib.Data.List.Perm.Basic
import Datapack.Naming.Pool
import Datapack.Proofs.Naming.Tables

/-!
# Who owns a name of a pool

The users of a pool keep an account of what they asked for. Whatever the order of
requests, and in whatever order registers are given back, each name that the supply
has handed out has exactly one owner: a direct request, a table, a register in use
or a free register. So no register is handed out under a name that is in use.
-/

namespace Datapack

/-- The next `count` names of a supply, in order. -/
def Supply.upcoming (count : Nat) (s : Supply) : List String :=
  (List.range count).map fun n => Letters.name (s.issued + n + 1)

namespace Pool

/-- A source name with the short name that a table gave it. -/
structure Naming where
  table : TableChoice
  name : String
  short : String
  deriving DecidableEq, Repr

/-- What the users of a pool have received from it. -/
structure Account where
  /-- The names handed out on direct requests. -/
  direct : List String
  /-- What was resolved or created in a table. -/
  named : List Naming
  /-- The registers handed out and not given back. -/
  held : List String
  deriving DecidableEq, Repr

/-- The account of users who have asked for nothing. -/
def Account.empty : Account := ⟨[], [], []⟩

/-- The account after one more request to the pool. -/
def Account.after (a : Account) (p : Pool) (request : PoolRequest) : Account :=
  match request, (p.step request).1 with
  | .next, .name short => { a with direct := a.direct ++ [short] }
  | .skip count, _ => { a with direct := a.direct ++ p.supply.upcoming count }
  | .resolve table name, .name short => { a with named := a.named ++ [⟨table, name, short⟩] }
  | .create table name, .created short _ => { a with named := a.named ++ [⟨table, name, short⟩] }
  | .acquire, .name short => { a with held := a.held ++ [short] }
  | .release short, _ => { a with held := a.held.erase short }
  | _, _ => a

/-- Whether the request gives back nothing but a register in use. -/
def Account.permits (a : Account) : PoolRequest → Bool
  | .release short => a.held.contains short
  | _ => true

/-- The pool and the account after requests, answered in order. -/
def serve (p : Pool) (a : Account) : List PoolRequest → Pool × Account
  | [] => (p, a)
  | request :: rest => (p.step request).2.serve (a.after p request) rest

/-- Whether each of the requests gives back nothing but a register then in use. -/
def permits (p : Pool) (a : Account) : List PoolRequest → Bool
  | [] => true
  | request :: rest => a.permits request && (p.step request).2.permits (a.after p request) rest

/-- The names of a pool by their owners: direct requests, the two tables, registers in use and
free registers. -/
def owned (p : Pool) (a : Account) : List (List String) :=
  [a.direct, p.first.shorts, p.second.shorts, a.held, p.registers.free]

/-- Every name handed out has one owner, and the tables know what was named. -/
structure Balanced (p : Pool) (a : Account) : Prop where
  perm : (p.owned a).flatten.Perm p.supply.names
  outstanding_eq : p.registers.outstanding = a.held.length
  lookup_iff : ∀ table name short,
    (p.table table).lookup name = some short ↔ ⟨table, name, short⟩ ∈ a.named

end Pool

namespace Supply

private theorem issued_skip (count : Nat) (s : Supply) :
    (s.skip count).2.issued = s.issued + count := by
  induction count with
  | zero => rfl
  | succ count ih =>
    have hstep : (s.skip (count + 1)).2 = (s.skip count).2.next.2 := rfl
    rw [hstep, issued_next, ih]
    omega

private theorem names_skip (count : Nat) (s : Supply) :
    (s.skip count).2.names = s.names ++ s.upcoming count := by
  rw [names, issued_skip, List.range_add, List.map_append, List.map_map]
  rfl

end Supply

namespace Pool

section Tables

variable (p : Pool) (t : NameTable) (supply : Supply) (table : TableChoice)

private theorem table_setTable_self :
    ({ p.setTable t table with supply := supply } : Pool).table table = t := by
  cases table <;> rfl

private theorem table_setTable_of_ne {other : TableChoice} (h : other ≠ table) :
    ({ p.setTable t table with supply := supply } : Pool).table other = p.table other := by
  cases table <;> cases other <;> first | rfl | exact absurd rfl h

end Tables

/-- A table that gains names gains them for the pool. -/
theorem perm_owned_setTable (p : Pool) (a : Account) {t : NameTable} {table : TableChoice}
    {new : List String} (h : t.shorts = (p.table table).shorts ++ new) :
    ((p.setTable t table).owned a).flatten.Perm ((p.owned a).flatten ++ new) := by
  rw [List.perm_iff_count]
  intro x
  cases table with
  | first =>
    have hfirst : t.shorts = p.first.shorts ++ new := h
    simp only [owned, setTable, hfirst, List.flatten_cons, List.flatten_nil, List.count_append,
      List.count_nil]
    omega
  | second =>
    have hsecond : t.shorts = p.second.shorts ++ new := h
    simp only [owned, setTable, hsecond, List.flatten_cons, List.flatten_nil, List.count_append,
      List.count_nil]
    omega

namespace Balanced

variable {p : Pool} {a : Account}

private theorem fresh : Balanced .fresh .empty where
  perm := .refl _
  outstanding_eq := rfl
  lookup_iff table name short := by
    have hlookup : (Pool.fresh.table table).lookup name = none := by cases table <;> rfl
    simp [hlookup, Account.empty]

/-- Naming a source name keeps the account: what is new has the table as its owner. -/
theorem resolve (h : p.Balanced a) (table : TableChoice) (name : String) :
    let r := (p.table table).resolve name p.supply
    Balanced { p.setTable r.table table with supply := r.supply }
      { a with named := a.named ++ [⟨table, name, r.short⟩] } := by
  intro r
  have hself : r.table.lookup name = some r.short := NameTable.lookup_resolve _ _ _
  refine ⟨?_, ?_, ?_⟩
  · obtain ⟨new, hshorts, hsupply⟩ := (p.table table).shorts_resolve name p.supply
    have hnew : r.supply.names = p.supply.names ++ new := hsupply
    change ((p.setTable r.table table).owned a).flatten.Perm r.supply.names
    rw [hnew]
    exact (p.perm_owned_setTable a hshorts).trans (h.perm.append_right new)
  · cases table <;> exact h.outstanding_eq
  · intro other x short
    rw [List.mem_append, List.mem_singleton, ← h.lookup_iff]
    by_cases htable : other = table
    · subst htable
      rw [table_setTable_self]
      by_cases hx : x = name
      · -- what was known under this name before is what it is called now
        subst hx
        rw [hself, Option.some.injEq, Naming.mk.injEq]
        constructor
        · rintro rfl
          exact .inr ⟨rfl, rfl, rfl⟩
        · rintro (hknown | ⟨-, -, rfl⟩)
          · exact Option.some.inj (hself.symm.trans (NameTable.lookup_resolve_of_some hknown x _))
          · rfl
      · rw [NameTable.lookup_resolve_of_ne hx]
        simp [hx]
    · rw [table_setTable_of_ne _ _ _ _ htable]
      simp [htable]

/-- Handing out a register keeps the account: the register was free, or it is new. -/
theorem acquire (h : p.Balanced a) :
    let r := p.registers.acquire p.supply
    Balanced { p with registers := r.2.1, supply := r.2.2 } { a with held := a.held ++ [r.1] } := by
  intro r
  refine ⟨?_, ?_, h.lookup_iff⟩
  · obtain ⟨new, hfree, hsupply⟩ := p.registers.perm_acquire p.supply
    have hperm := h.perm
    rw [List.perm_iff_count] at hperm hfree ⊢
    intro x
    have hx := hperm x
    have hfree := hfree x
    simp only [owned, List.flatten_cons, List.flatten_nil, List.count_append, List.count_cons,
      List.count_nil, r, hsupply] at hx hfree ⊢
    omega
  · have hout := h.outstanding_eq
    simp only [r, Registers.outstanding_acquire, List.length_append, List.length_singleton]
    omega

/-- Giving back a register in use keeps the account: the register is free afterwards. -/
theorem release (h : p.Balanced a) {short : String} (hshort : short ∈ a.held) :
    Balanced { p with registers := p.registers.release short }
      { a with held := a.held.erase short } := by
  refine ⟨?_, ?_, h.lookup_iff⟩
  · have hperm := h.perm
    have hheld := List.perm_cons_erase hshort
    rw [List.perm_iff_count] at hperm hheld ⊢
    intro x
    have hx := hperm x
    have hheld := hheld x
    simp only [owned, Registers.release, List.flatten_cons, List.flatten_nil, List.count_append,
      List.count_cons, List.count_nil] at hx hheld ⊢
    omega
  · have hout := h.outstanding_eq
    simp only [Registers.release, List.length_erase_of_mem hshort]
    omega

/-- Names handed out directly are owned by those who asked for them. -/
theorem direct (h : p.Balanced a) {supply : Supply} {new : List String}
    (hnew : supply.names = p.supply.names ++ new) :
    Balanced { p with supply := supply } { a with direct := a.direct ++ new } := by
  refine ⟨?_, h.outstanding_eq, h.lookup_iff⟩
  have hperm := h.perm
  rw [List.perm_iff_count] at hperm ⊢
  intro x
  have hx := hperm x
  simp only [owned, List.flatten_cons, List.flatten_nil, List.count_append, List.count_nil,
    hnew] at hx ⊢
  omega

/-- One request keeps the account. -/
theorem step (h : p.Balanced a) {request : PoolRequest} (hpermits : a.permits request = true) :
    (p.step request).2.Balanced (a.after p request) := by
  cases request with
  | next => exact h.direct p.supply.names_next
  | skip count => exact h.direct (p.supply.names_skip count)
  | resolve table name => exact h.resolve table name
  | create table name => exact h.resolve table name
  | lookup table name => exact h
  | acquire => exact h.acquire
  | release short => exact h.release (List.contains_iff_mem.mp hpermits)

/-- Any requests keep the account. -/
theorem serve (h : p.Balanced a) {requests : List PoolRequest}
    (hpermits : p.permits a requests = true) :
    (p.serve a requests).1.Balanced (p.serve a requests).2 := by
  induction requests generalizing p a with
  | nil => exact h
  | cons request rest ih =>
    rw [Pool.permits, Bool.and_eq_true] at hpermits
    exact ih (h.step hpermits.1) hpermits.2

/-- No name has two owners. -/
theorem nodup (h : p.Balanced a) : (p.owned a).flatten.Nodup :=
  h.perm.nodup_iff.mpr (Supply.nodup_names _)

private theorem shorts_mem_owned (p : Pool) (a : Account) (table : TableChoice) :
    (p.table table).shorts ∈ p.owned a := by
  cases table <;> simp [owned, Pool.table]

/-- The next register is new, or it is free: nobody else has it. -/
theorem not_mem_of_acquire (h : p.Balanced a) {short : String}
    (hshort : (p.registers.acquire p.supply).1 = short) :
    short ∉ a.held ∧ short ∉ a.direct ∧ ∀ table, short ∉ (p.table table).shorts := by
  subst hshort
  have hnodup := h.acquire.nodup
  rw [List.nodup_flatten] at hnodup
  obtain ⟨heach, hapart⟩ := hnodup
  simp only [owned, List.pairwise_cons, List.forall_mem_cons] at heach hapart
  obtain ⟨⟨-, -, hdirect, -⟩, ⟨-, hfirst, -⟩, ⟨hsecond, -⟩, -⟩ := hapart
  have hlast : (p.registers.acquire p.supply).1 ∈ a.held ++ [(p.registers.acquire p.supply).1] :=
    List.mem_append_right _ (List.mem_singleton_self _)
  refine ⟨?_, fun hmem => hdirect hmem hlast, ?_⟩
  · intro hmem
    have hheld := heach.2.2.2.1
    exact (List.nodup_append.mp hheld).2.2 _ hmem _ (List.mem_singleton_self _) rfl
  · intro table hmem
    cases table with
    | first => exact hfirst hmem hlast
    | second => exact hsecond hmem hlast

/-- The names handed out are as many as their owners have. -/
theorem issued_eq (h : p.Balanced a) : p.supply.issued =
    a.direct.length + p.first.size + p.second.size + a.held.length + p.registers.available := by
  have hlength := h.perm.length_eq
  simp only [owned, List.flatten_cons, List.flatten_nil, List.length_append, List.length_nil,
    Supply.names, NameTable.shorts, List.length_map, List.length_range] at hlength
  simp only [NameTable.size, Registers.available]
  omega

/-- Within a table, a source name and its short name determine one another. -/
theorem short_eq_iff (h : p.Balanced a) {n m : Naming} (hn : n ∈ a.named) (hm : m ∈ a.named)
    (htable : n.table = m.table) : n.short = m.short ↔ n.name = m.name := by
  have hlookup : (p.table n.table).lookup n.name = some n.short := (h.lookup_iff ..).mpr hn
  have hother : (p.table n.table).lookup m.name = some m.short := by
    rw [htable]
    exact (h.lookup_iff ..).mpr hm
  constructor
  · intro heq
    rw [heq] at hlookup
    have hnodup := (List.nodup_flatten.mp h.nodup).1 _ (shorts_mem_owned p a n.table)
    exact NameTable.lookup_injective hnodup hlookup hother
  · intro heq
    rw [heq, hother] at hlookup
    exact Option.some.inj hlookup.symm

end Balanced

/--
Whatever is asked of a fresh pool, and in whatever order registers in use are given
back: no name has two owners, and all names handed out are accounted for. A register
that is handed out next is neither in use, nor a name of a table, nor one handed out
directly. Within a table, source names and short names determine one another; creating
tells whether the source name was resolved or created there before, and looking it up
finds the short name that it got then.
-/
theorem names_apart {requests : List PoolRequest} {p : Pool} {a : Account}
    (hpermits : Pool.fresh.permits .empty requests = true)
    (hserve : Pool.fresh.serve .empty requests = (p, a)) :
    ((∀ names ∈ p.owned a, names.Nodup) ∧ (p.owned a).Pairwise List.Disjoint) ∧
      p.supply.issued = a.direct.length + p.first.size + p.second.size + a.held.length +
        p.registers.available ∧
      p.registers.outstanding = a.held.length ∧
      (∃ short, (p.step .acquire).1 = .name short ∧
        short ∉ a.held ∧ short ∉ a.direct ∧ ∀ table, short ∉ (p.table table).shorts) ∧
      (∀ n ∈ a.named, ∀ m ∈ a.named, n.table = m.table → (n.short = m.short ↔ n.name = m.name)) ∧
      (∀ table name, ∃ short existed, (p.step (.create table name)).1 = .created short existed ∧
        (p.step (.resolve table name)).1 = .name short ∧
        (existed = true ↔ ∃ n ∈ a.named, n.table = table ∧ n.name = name)) ∧
      ∀ table name, ∃ found, (p.step (.lookup table name)).1 = .maybe found ∧
        ∀ short, found = some short ↔ ⟨table, name, short⟩ ∈ a.named := by
  have h : p.Balanced a := by
    have hserved := Balanced.fresh.serve hpermits
    rwa [hserve] at hserved
  refine ⟨List.nodup_flatten.mp h.nodup, h.issued_eq, h.outstanding_eq,
    ⟨_, rfl, h.not_mem_of_acquire rfl⟩, fun n hn m hm => h.short_eq_iff hn hm, ?_, ?_⟩
  · intro table name
    refine ⟨_, _, rfl, rfl, ?_⟩
    rw [NameTable.existed_resolve, Option.isSome_iff_exists]
    simp only [h.lookup_iff]
    constructor
    · rintro ⟨short, hmem⟩
      exact ⟨_, hmem, rfl, rfl⟩
    · rintro ⟨n, hmem, rfl, rfl⟩
      exact ⟨n.short, hmem⟩
  · intro table name
    exact ⟨_, rfl, h.lookup_iff table name⟩

/-- Two registers of which the older one is given back first, beside a direct name and two tables
that name the same word. -/
theorem names_apart_interleaved : ∃ p a,
    Pool.fresh.serve .empty [.next, .resolve .first "x", .acquire, .acquire, .release "c",
      .create .second "x"] = (p, a) ∧
      a = ⟨["a"], [⟨.first, "x", "b"⟩, ⟨.second, "x", "e"⟩], ["d"]⟩ ∧ p.registers.free = ["c"] ∧
      (p.owned a).Pairwise List.Disjoint ∧ p.supply.issued = 5 ∧
      ∃ short, (p.step .acquire).1 = .name short ∧ short ∉ a.held := by
  have hpermits : Pool.fresh.permits .empty [.next, .resolve .first "x", .acquire, .acquire,
      .release "c", .create .second "x"] = true := by decide +kernel
  obtain ⟨⟨-, hapart⟩, -, -, ⟨short, hshort, hheld, -⟩, -⟩ := names_apart hpermits rfl
  exact ⟨_, _, rfl, by decide +kernel, by decide +kernel, hapart, by decide +kernel,
    short, hshort, hheld⟩

end Pool

end Datapack
