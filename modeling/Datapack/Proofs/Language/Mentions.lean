import Datapack.Language.Node

/-!
# What a phrase mentions

The stores, scores, variables, texts and whole numbers that stand anywhere in a
phrase, in the order of reading.
-/

namespace Datapack

/-- The name of the variable that an entry is. -/
def Entry.variableNames : Entry → List String
  | .named name => [name]
  | .verbatim _ => []

/-- What stands in a command as it is. -/
def Entry.literals : Entry → List String
  | .named _ => []
  | .verbatim text => [text]

namespace Node

mutual

/-- Source stores that a phrase mentions. -/
def stores : Node → List String
  | .int _ | .float _ | .text _ => []
  | .access source => [source.store]
  | .create store => [store]
  | .assign target _ value => target.store :: value.stores
  | .calc first _ second => first.stores ++ second.stores
  | .branch _ first _ second body => first.stores ++ (second.stores ++ storesAll body)
  | .block body | .runAs _ body | .call _ body => storesAll body

/-- Source stores that phrases mention. -/
def storesAll : List Node → List String
  | [] => []
  | node :: rest => node.stores ++ storesAll rest

end

mutual

/-- Scores that a phrase mentions, in source names. -/
def accesses : Node → List Access
  | .int _ | .float _ | .text _ | .create _ => []
  | .access source => [source]
  | .assign target _ value => target :: value.accesses
  | .calc first _ second => first.accesses ++ second.accesses
  | .branch _ first _ second body => first.accesses ++ (second.accesses ++ accessesAll body)
  | .block body | .runAs _ body | .call _ body => accessesAll body

/-- Scores that phrases mention, in source names. -/
def accessesAll : List Node → List Access
  | [] => []
  | node :: rest => node.accesses ++ accessesAll rest

end

mutual

/-- Texts that a phrase mentions: command lines, selectors and target names. -/
def texts : Node → List String
  | .int _ | .float _ | .create _ => []
  | .text line => [line]
  | .access source => source.entry.literals
  | .assign target _ value => target.entry.literals ++ value.texts
  | .calc first _ second => first.texts ++ second.texts
  | .branch _ first _ second body => first.texts ++ (second.texts ++ textsAll body)
  | .runAs selector body => selector :: textsAll body
  | .block body | .call _ body => textsAll body

/-- Texts that phrases mention. -/
def textsAll : List Node → List String
  | [] => []
  | node :: rest => node.texts ++ textsAll rest

end

mutual

/-- Whole numbers that a phrase mentions. -/
def integers : Node → List Int32
  | .int value => [value]
  | .float _ | .text _ | .access _ | .create _ => []
  | .assign _ _ value => value.integers
  | .calc first _ second => first.integers ++ second.integers
  | .branch _ first _ second body => first.integers ++ (second.integers ++ integersAll body)
  | .block body | .runAs _ body | .call _ body => integersAll body

/-- Whole numbers that phrases mention. -/
def integersAll : List Node → List Int32
  | [] => []
  | node :: rest => node.integers ++ integersAll rest

end

mutual

/-- The text of a score that a phrase mentions is a text of the phrase. -/
theorem literals_entry_subset : {node : Node} → {a : Access} → a ∈ node.accesses →
    a.entry.literals ⊆ node.texts
  | .access _, _, h => by
    rw [accesses, List.mem_singleton] at h
    rw [h, texts]
    exact List.Subset.refl _
  | .assign .., _, h => by
    rw [accesses, List.mem_cons] at h
    rw [texts]
    rcases h with rfl | h
    · exact List.subset_append_left _ _
    · exact List.subset_append_of_subset_right _ (literals_entry_subset h)
  | .calc .., _, h => by
    rw [accesses, List.mem_append] at h
    rw [texts]
    rcases h with h | h
    · exact List.subset_append_of_subset_left _ (literals_entry_subset h)
    · exact List.subset_append_of_subset_right _ (literals_entry_subset h)
  | .branch .., _, h => by
    rw [accesses, List.mem_append, List.mem_append] at h
    rw [texts]
    rcases h with h | h | h
    · exact List.subset_append_of_subset_left _ (literals_entry_subset h)
    · exact List.subset_append_of_subset_right _
        (List.subset_append_of_subset_left _ (literals_entry_subset h))
    · exact List.subset_append_of_subset_right _
        (List.subset_append_of_subset_right _ (literals_entry_subset_all h))
  | .runAs .., _, h => by
    rw [accesses] at h
    rw [texts]
    exact List.subset_cons_of_subset _ (literals_entry_subset_all h)
  | .block _, _, h | .call .., _, h => by
    rw [accesses] at h
    rw [texts]
    exact literals_entry_subset_all h

/-- The texts of the entries that phrases access are among their texts. -/
theorem literals_entry_subset_all : {body : List Node} → {a : Access} → a ∈ accessesAll body →
    a.entry.literals ⊆ textsAll body
  | _ :: _, _, h => by
    rw [accessesAll, List.mem_append] at h
    rw [textsAll]
    rcases h with h | h
    · exact List.subset_append_of_subset_left _ (literals_entry_subset h)
    · exact List.subset_append_of_subset_right _ (literals_entry_subset_all h)

end

/-- Names of the variables that a phrase mentions. -/
def variableNames (node : Node) : List String :=
  node.accesses.flatMap fun a => a.entry.variableNames

/-- The stores of two rows of phrases are those of the first and those of the second. -/
theorem storesAll_append (first second : List Node) :
    storesAll (first ++ second) = storesAll first ++ storesAll second := by
  induction first with
  | nil => rfl
  | cons node rest ih => rw [List.cons_append, storesAll, storesAll, ih, List.append_assoc]

end Node

end Datapack
