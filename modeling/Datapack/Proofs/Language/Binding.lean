import Datapack.Proofs.Lowering.WellFormed
import Datapack.Proofs.Semantics.PerEntity

/-!
# Programs for one entity

The statement that an entity sees has the entity in place of `@s`. It mentions the
same stores, and at the old addresses it does what the old statement does at the
addresses of the entity.
-/

namespace Datapack

/-- The score that is meant while an entity is in force. -/
def Access.boundTo (entity : String) (a : Access) : Access :=
  if a.entry = .verbatim selfEntry then ⟨.verbatim entity, a.store⟩ else a

@[simp] theorem Access.store_boundTo (entity : String) (a : Access) :
    (a.boundTo entity).store = a.store := by
  unfold boundTo
  split <;> rfl

namespace Node

mutual

/-- The phrase on the scores that an entity means. -/
def boundTo (entity : String) : Node → Node
  | .block body => .block (allBoundTo entity body)
  | .access source => .access (source.boundTo entity)
  | .assign target o value => .assign (target.boundTo entity) o (boundTo entity value)
  | .calc first o second => .calc (boundTo entity first) o (boundTo entity second)
  | .branch negate first c second body =>
    .branch negate (boundTo entity first) c (boundTo entity second) (allBoundTo entity body)
  | .runAs selector body => .runAs selector (allBoundTo entity body)
  | .call name arguments => .call name (allBoundTo entity arguments)
  | .int value => .int value
  | .float value => .float value
  | .text line => .text line
  | .create store => .create store

/-- The phrases on the scores that an entity means. -/
def allBoundTo (entity : String) : List Node → List Node
  | [] => []
  | node :: rest => boundTo entity node :: allBoundTo entity rest

end

mutual

/-- Binding a phrase to an entity keeps its stores. -/
theorem stores_boundTo (entity : String) : (node : Node) →
    (node.boundTo entity).stores = node.stores
  | .block body | .runAs _ body | .call _ body => by
    rw [boundTo, stores, stores, storesAll_allBoundTo entity body]
  | .access source => by rw [boundTo, stores, stores, Access.store_boundTo]
  | .assign target o value => by
    rw [boundTo, stores, stores, Access.store_boundTo, stores_boundTo entity value]
  | .calc first o second => by
    rw [boundTo, stores, stores, stores_boundTo entity first, stores_boundTo entity second]
  | .branch negate first c second body => by
    rw [boundTo, stores, stores, stores_boundTo entity first, stores_boundTo entity second,
      storesAll_allBoundTo entity body]
  | .int _ | .float _ | .text _ | .create _ => by rw [boundTo]

private theorem storesAll_allBoundTo (entity : String) : (body : List Node) →
    storesAll (allBoundTo entity body) = storesAll body
  | [] => by rw [allBoundTo]
  | node :: rest => by
    rw [allBoundTo, storesAll, storesAll, stores_boundTo entity node,
      storesAll_allBoundTo entity rest]

end

/-- Binding a phrase to an entity keeps whether it is an operand. -/
theorem isOperand_boundTo (entity : String) (node : Node) :
    Lowering.isOperand (node.boundTo entity) = Lowering.isOperand node := by
  cases node <;> rw [boundTo] <;> rfl

mutual

/-- Statements built from assignments and conditions over numbers, scores and calculations. -/
def isArithmetic : Node → Bool
  | .assign _ _ value => value.isNumeric
  | .branch _ first _ second body => first.isNumeric && second.isNumeric && areArithmetic body
  | _ => false

/-- Whether all statements are built from assignments and conditions. -/
def areArithmetic : List Node → Bool
  | [] => true
  | node :: rest => node.isArithmetic && areArithmetic rest

end

end Node

namespace Meaning

variable {p : Platform} {address : Address} {entity : String}

section Binding

/-- The entity stands at its own entry, and everything else where it stood. -/
def Address.IsBound (entity : String) (address : Address) : Prop :=
  ∀ a, address (a.boundTo entity) = address.boundTo entity a

private theorem value_boundTo (h : address.IsBound entity) (scopes : List Clause) : (node : Node) →
    (b : Board) → value p address scopes (node.boundTo entity) b =
      value p (address.boundTo entity) scopes node b
  | .access a, b => by
    rw [Node.boundTo, value, value, h]
  | .calc first o second, b => by
    rw [Node.boundTo]
    simp only [value]
    rw [value_boundTo h scopes first, value_boundTo h scopes second]
  | .int _, _ | .text _, _ | .block _, _ | .float _, _ | .assign .., _ | .branch .., _
  | .runAs .., _ | .create _, _ | .call .., _ => by
    rw [Node.boundTo]
    rfl

mutual

/-- For one entity a statement does what the statement with the entity in it does. -/
theorem run_boundTo (h : address.IsBound entity) (scopes : List Clause) : (node : Node) →
    (b : Board) → run p address scopes (node.boundTo entity) b =
      run p (address.boundTo entity) scopes node b
  | .block body, b => by
    rw [Node.boundTo, run, run, runAll_allBoundTo h scopes body]
  | .assign target o node, b => by
    rw [Node.boundTo, run, run]
    simp only [assign]
    rw [h, value_boundTo h scopes node]
  | .branch negate first k second body, b => by
    rw [Node.boundTo, run_branch, run_branch]
    simp only
    rw [value_boundTo h scopes first, value_boundTo h scopes second,
      runAll_allBoundTo h scopes body]
  | .runAs selector body, b => by
    rw [Node.boundTo, run, run, runAll_allBoundTo h _ body]
  | .text _, _ | .int _, _ | .float _, _ | .access _, _ | .calc .., _ | .create _, _
  | .call .., _ => by
    rw [Node.boundTo]
    rfl

private theorem runAll_allBoundTo (h : address.IsBound entity) (scopes : List Clause) :
    (body : List Node) → (b : Board) → runAll p address scopes (Node.allBoundTo entity body) b =
      runAll p (address.boundTo entity) scopes body b
  | [], _ => by
    rw [Node.allBoundTo]
    rfl
  | node :: rest, b => by
    rw [Node.allBoundTo, runAll, runAll, run_boundTo h scopes node, runAll_allBoundTo h scopes rest]

end

end Binding

section Silence

/-- Numbers, scores and calculations ask the platform for no command line. -/
theorem value_silenced (scopes : List Clause) : (node : Node) → node.isNumeric = true →
    (b : Board) → value p address scopes node b = value p.silenced address scopes node b
  | .int _, _, _ | .access _, _, _ => rfl
  | .calc first o second, h, b => by
    obtain ⟨hfirst, hsecond⟩ := Bool.and_eq_true_iff.mp h
    simp only [value]
    rw [value_silenced scopes first hfirst, value_silenced scopes second hsecond]
    cases o <;> rfl

mutual

private theorem run_silenced (scopes : List Clause) : (node : Node) → node.isArithmetic = true →
    (b : Board) → run p address scopes node b = run p.silenced address scopes node b
  | .assign target o node, h, b => by
    rw [Node.isArithmetic] at h
    rw [run, run]
    simp only [assign]
    rw [value_silenced scopes node h]
    cases o <;> rfl
  | .branch negate first k second body, h, b => by
    simp only [Node.isArithmetic, Bool.and_eq_true] at h
    rw [run_branch, run_branch]
    simp only
    rw [value_silenced scopes first h.1.1, value_silenced scopes second h.1.2,
      runAll_silenced scopes body h.2]

private theorem runAll_silenced (scopes : List Clause) : (body : List Node) →
    Node.areArithmetic body = true → (b : Board) →
      runAll p address scopes body b = runAll p.silenced address scopes body b
  | [], _, _ => rfl
  | node :: rest, h, b => by
    simp only [Node.areArithmetic, Bool.and_eq_true] at h
    rw [runAll, runAll, run_silenced scopes node h.1, runAll_silenced scopes rest h.2]

end

/-- Statements over numbers and scores ask the platform for no command line. -/
theorem runEach_silenced {node : Node} (h : node.isArithmetic = true) (entities : List String)
    (b : Board) :
    runEach p address node entities b = runEach p.silenced address node entities b := by
  unfold runEach
  congr 1
  funext b entity
  exact run_silenced [.runAs entity] node h b

end Silence

end Meaning

end Datapack
