import Datapack.Lowering.Statement
import Datapack.Proofs.Language.Mentions

/-!
# Renaming programs

A renaming gives new names to the variables of a program and, apart from them, to
its stores. Entries that stand in commands as they are, command lines, selectors
and the names of calls are no names in this sense and stay. How a phrase is
lowered is decided by its form, which a renaming keeps.
-/

namespace Datapack

/-- New names for variables and for stores. -/
structure Renaming where
  var : String → String
  store : String → String

/-- The entry under its new name. -/
def Entry.rename (ren : Renaming) : Entry → Entry
  | .named name => .named (ren.var name)
  | .verbatim text => .verbatim text

/-- The score under its new names. -/
def Access.rename (ren : Renaming) (a : Access) : Access :=
  ⟨a.entry.rename ren, ren.store a.store⟩

/-- The error with the store it names under its new name. -/
def LowerError.rename (ren : Renaming) : LowerError → LowerError
  | .unknownStore name => .unknownStore (ren.store name)
  | e => e

namespace Node

mutual

/-- The phrase under its new names. -/
def rename (ren : Renaming) : Node → Node
  | .block body => .block (renameAll ren body)
  | .int value => .int value
  | .float value => .float value
  | .text line => .text line
  | .access source => .access (source.rename ren)
  | .assign target o value => .assign (target.rename ren) o (value.rename ren)
  | .calc first o second => .calc (first.rename ren) o (second.rename ren)
  | .branch negate first c second body =>
    .branch negate (first.rename ren) c (second.rename ren) (renameAll ren body)
  | .runAs selector body => .runAs selector (renameAll ren body)
  | .create store => .create (ren.store store)
  | .call name arguments => .call name (renameAll ren arguments)

/-- The phrases under their new names. -/
def renameAll (ren : Renaming) : List Node → List Node
  | [] => []
  | node :: rest => node.rename ren :: renameAll ren rest

end

/-- Renaming keeps the form of a phrase. -/
@[simp] theorem kind_rename (ren : Renaming) (node : Node) :
    (node.rename ren).kind = node.kind := by
  cases node <;> simp [rename, kind]

end Node

namespace Renaming

/-- The renaming under which every name stays. -/
protected def id : Renaming := ⟨fun name => name, fun name => name⟩

/-- The same renaming, but for the scratch store, which keeps its name. -/
def keepScratch (ren : Renaming) : Renaming :=
  { ren with store := fun name => if name = scratchStore then scratchStore else ren.store name }

/-- The scratch store keeps its name. -/
@[simp] theorem store_keepScratch_scratch (ren : Renaming) :
    ren.keepScratch.store scratchStore = scratchStore := by
  simp [keepScratch]

/-- All other stores are renamed as before. -/
theorem store_keepScratch {name : String} (h : name ≠ scratchStore) (ren : Renaming) :
    ren.keepScratch.store name = ren.store name := if_neg h

private theorem access_keepScratch {a : Access} (h : a.store ≠ scratchStore) (ren : Renaming) :
    a.rename ren.keepScratch = a.rename ren := by
  have hentry : a.entry.rename ren.keepScratch = a.entry.rename ren := by
    cases a.entry <;> rfl
  rw [Access.rename, Access.rename, hentry, store_keepScratch h]

end Renaming

@[simp] theorem Entry.rename_id (e : Entry) : e.rename .id = e := by cases e <;> rfl

@[simp] theorem Access.rename_id (a : Access) : a.rename .id = a := by
  rw [Access.rename, Entry.rename_id]
  rfl

namespace Node

mutual

private theorem rename_id : (node : Node) → node.rename .id = node
  | .block body | .runAs _ body | .call _ body => by
    rw [rename, renameAll_id body]
  | .assign _ _ value => by
    rw [rename, Access.rename_id, rename_id value]
  | .calc first _ second => by
    rw [rename, rename_id first, rename_id second]
  | .branch _ first _ second body => by
    rw [rename, rename_id first, rename_id second, renameAll_id body]
  | .access _ => by rw [rename, Access.rename_id]
  | .create _ => by rw [rename, Renaming.id]
  | .int _ | .float _ | .text _ => by rw [rename]

/-- Renaming nothing leaves phrases as they are. -/
theorem renameAll_id : (body : List Node) → renameAll .id body = body
  | [] => by rw [renameAll]
  | node :: rest => by rw [renameAll, rename_id node, renameAll_id rest]

end

mutual

/-- Where the scratch store is not mentioned, it does not matter what becomes of its name. -/
theorem rename_keepScratch (ren : Renaming) : (node : Node) → scratchStore ∉ node.stores →
    node.rename ren.keepScratch = node.rename ren
  | .block body, h | .runAs _ body, h | .call _ body, h => by
    rw [rename, rename, renameAll_keepScratch ren body h]
  | .assign target _ value, h => by
    rw [stores, List.mem_cons, not_or] at h
    rw [rename, rename, Renaming.access_keepScratch (Ne.symm h.1), rename_keepScratch ren value h.2]
  | .calc first _ second, h => by
    rw [stores, List.mem_append, not_or] at h
    rw [rename, rename, rename_keepScratch ren first h.1, rename_keepScratch ren second h.2]
  | .branch _ first _ second body, h => by
    simp only [stores, List.mem_append, not_or] at h
    rw [rename, rename, rename_keepScratch ren first h.1, rename_keepScratch ren second h.2.1,
      renameAll_keepScratch ren body h.2.2]
  | .access source, h => by
    rw [stores, List.mem_singleton] at h
    rw [rename, rename, Renaming.access_keepScratch (Ne.symm h)]
  | .create store, h => by
    rw [stores, List.mem_singleton] at h
    rw [rename, rename, Renaming.store_keepScratch (Ne.symm h)]
  | .int _, _ | .float _, _ | .text _, _ => by rw [rename, rename]

/-- Phrases that do not mention the scratch store cannot tell whether it keeps its name. -/
theorem renameAll_keepScratch (ren : Renaming) : (body : List Node) →
    scratchStore ∉ storesAll body → renameAll ren.keepScratch body = renameAll ren body
  | [], _ => by rw [renameAll, renameAll]
  | node :: rest, h => by
    rw [storesAll, List.mem_append, not_or] at h
    rw [renameAll, renameAll, rename_keepScratch ren node h.1, renameAll_keepScratch ren rest h.2]

end

end Node

namespace Lowering

/-- Renaming keeps whether a phrase is an operand. -/
theorem isOperand_rename (ren : Renaming) (node : Node) :
    isOperand (node.rename ren) = isOperand node := by
  cases node <;> simp [Node.rename, isOperand]

private theorem isAccess_rename (ren : Renaming) (node : Node) :
    isAccess (node.rename ren) = isAccess node := by
  cases node <;> simp [Node.rename, isAccess]

private theorem assignsInOne_rename (ren : Renaming) (o : Operator) (node : Node) :
    assignsInOne o (node.rename ren) = assignsInOne o node := by
  cases node <;> simp [Node.rename, assignsInOne]

mutual

/-- How many commands a statement needs does not depend on names. -/
theorem lowersToOne_rename (ren : Renaming) : (node : Node) →
    lowersToOne (node.rename ren) = lowersToOne node
  | .block body | .runAs _ body => by
    rw [Node.rename, lowersToOne, lowersToOne, soleLowersToOne_rename ren body]
  | .assign _ o value => by
    rw [Node.rename, lowersToOne, lowersToOne, assignsInOne_rename]
  | .branch _ first _ second body => by
    rw [Node.rename, lowersToOne, lowersToOne, isAccess_rename, isAccess_rename,
      soleLowersToOne_rename ren body]
  | .int _ | .float _ | .text _ | .access _ | .calc .. | .create _ | .call .. => by
    simp [Node.rename, lowersToOne]

private theorem soleLowersToOne_rename (ren : Renaming) : (body : List Node) →
    soleLowersToOne (Node.renameAll ren body) = soleLowersToOne body
  | [] => rfl
  | [node] => by
    rw [Node.renameAll, Node.renameAll, soleLowersToOne, soleLowersToOne,
      lowersToOne_rename ren node]
  | _ :: _ :: _ => by simp [Node.renameAll, soleLowersToOne]

end

/-- The same scores are compared in place, under their new names. -/
theorem directOperands_rename (ren : Renaming) (first second : Node) (body : List Node) :
    directOperands (first.rename ren) (second.rename ren) (Node.renameAll ren body) =
      (directOperands first second body).map fun operands =>
        (operands.1.rename ren, operands.2.rename ren) := by
  cases first with
  | access x =>
    cases second with
    | access y =>
      simp only [Node.rename, directOperands, soleLowersToOne_rename]
      split <;> rfl
    | _ => simp [Node.rename, directOperands]
  | _ => simp [Node.rename, directOperands]

end Lowering

end Datapack
