import Datapack.Naming.ShortNames

/-!
# Name pools

A pool joins one supply with everything that draws on it: direct requests, two
tables and the registers. Its requests may come in any order.
-/

namespace Datapack

/-- Which of the two tables of a pool is meant. -/
inductive TableChoice where
  | first
  | second
  deriving DecidableEq, Repr

/-- One supply, two tables and the registers sharing it. -/
structure Pool where
  supply : Supply
  first : NameTable
  second : NameTable
  registers : Registers
  deriving DecidableEq, Repr

/-- One request to a pool. -/
inductive PoolRequest where
  /-- The next name, for whoever asks. -/
  | next
  /-- The last of `count` next names. -/
  | skip (count : Nat)
  /-- The short name of a source name, given on first sight. -/
  | resolve (table : TableChoice) (name : String)
  /-- The same, telling whether the name was there before. -/
  | create (table : TableChoice) (name : String)
  /-- The short name of a source name, if it has one. -/
  | lookup (table : TableChoice) (name : String)
  /-- A register. -/
  | acquire
  /-- Gives a register back. -/
  | release (name : String)
  deriving DecidableEq, Repr

/-- What a pool answers to a request. -/
inductive PoolAnswer where
  | name (short : String)
  | created (short : String) (existed : Bool)
  | maybe (short : Option String)
  | done
  deriving DecidableEq, Repr

namespace Pool

/-- A pool that has named nothing. -/
def fresh : Pool := ⟨.fresh, .empty, .empty, .empty⟩

/-- The chosen table. -/
def table (p : Pool) : TableChoice → NameTable
  | .first => p.first
  | .second => p.second

/-- The pool with the chosen table replaced. -/
def setTable (p : Pool) (t : NameTable) : TableChoice → Pool
  | .first => { p with first := t }
  | .second => { p with second := t }

/-- Answers one request. -/
def step (p : Pool) : PoolRequest → PoolAnswer × Pool
  | .next =>
    let (name, supply) := p.supply.next
    (.name name, { p with supply })
  | .skip count =>
    let (last, supply) := p.supply.skip count
    (.maybe last, { p with supply })
  | .resolve choice name =>
    let r := (p.table choice).resolve name p.supply
    (.name r.short, { p.setTable r.table choice with supply := r.supply })
  | .create choice name =>
    let r := (p.table choice).resolve name p.supply
    (.created r.short r.existed, { p.setTable r.table choice with supply := r.supply })
  | .lookup choice name => (.maybe ((p.table choice).lookup name), p)
  | .acquire =>
    let (name, registers, supply) := p.registers.acquire p.supply
    (.name name, { p with registers, supply })
  | .release name => (.done, { p with registers := p.registers.release name })

/-- Answers requests in order, with the pool after each. -/
def run (p : Pool) : List PoolRequest → List (PoolAnswer × Pool)
  | [] => []
  | request :: rest =>
    let (answer, p) := p.step request
    (answer, p) :: p.run rest

end Pool

end Datapack
