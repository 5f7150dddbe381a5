import Datapack.Target.Command

/-!
# Commands without their generated names

An outline is a command in which every name position says what its name stands
for: a variable, a store or a register, or else a text that stands there as it
is. Spelling the outline gives the command, and two outlines are spelled alike
by all namings that agree on what they mention.
-/

namespace Datapack

/-- What a generated name stands for. -/
inductive Label where
  | var (name : String)
  | store (name : String)
  /-- Registers are told apart by how many others were in use when they were first taken. -/
  | register (depth : Nat)
  deriving DecidableEq, Repr

/-- What stands at a name position. -/
inductive NameOutline where
  | literal (text : String)
  | generated (label : Label)
  deriving DecidableEq, Repr

/-- Entry and store of a score. -/
structure ScoreOutline where
  entry : NameOutline
  store : NameOutline
  deriving DecidableEq, Repr

/-- A clause in front of a command. -/
inductive ClauseOutline where
  | compare (negate : Bool) (first : ScoreOutline) (comparator : Comparator)
      (second : ScoreOutline)
  | runAs (selector : String)
  | keepResult (target : ScoreOutline)
  deriving DecidableEq, Repr

/-- What a command does. -/
inductive ActionOutline where
  | declare (store : NameOutline)
  | edit (verb : EditVerb) (target : ScoreOutline) (amount : Int32)
  | operate (target : ScoreOutline) (operator : Operator) (source : ScoreOutline)
  | raw (line : String)
  deriving DecidableEq, Repr

/-- A command whose generated names are left open. -/
structure CommandOutline where
  clauses : List ClauseOutline
  action : ActionOutline
  deriving DecidableEq, Repr

namespace NameOutline

/-- The name that the outline stands for. -/
def spell (names : Label → String) : NameOutline → String
  | .literal text => text
  | .generated label => names label

private theorem spell_congr {names names' : Label → String} {x : NameOutline}
    (h : ∀ label, x = .generated label → names label = names' label) :
    x.spell names = x.spell names' := by
  cases x with
  | literal text => rfl
  | generated label => exact h label rfl

end NameOutline

namespace ScoreOutline

/-- The score that the outline stands for. -/
def spell (names : Label → String) (x : ScoreOutline) : Score :=
  ⟨x.entry.spell names, x.store.spell names⟩

/-- What stands at the name positions. -/
def names (x : ScoreOutline) : List NameOutline := [x.entry, x.store]

/-- The spelling of a score depends on the labels in it only. -/
theorem spell_congr {names names' : Label → String} {x : ScoreOutline}
    (h : ∀ label, .generated label ∈ x.names → names label = names' label) :
    x.spell names = x.spell names' := by
  have hentry : x.entry.spell names = x.entry.spell names' :=
    NameOutline.spell_congr fun label he => h label (he ▸ List.mem_cons_self)
  have hstore : x.store.spell names = x.store.spell names' :=
    NameOutline.spell_congr fun label he => h label (by simp [ScoreOutline.names, he])
  rw [spell, spell, hentry, hstore]

end ScoreOutline

namespace ClauseOutline

/-- The clause that the outline stands for. -/
def spell (names : Label → String) : ClauseOutline → Clause
  | .compare negate first c second => .compare negate (first.spell names) c (second.spell names)
  | .runAs selector => .runAs selector
  | .keepResult target => .keepResult (target.spell names)

/-- What stands at the name positions. -/
def names : ClauseOutline → List NameOutline
  | .compare _ first _ second => first.names ++ second.names
  | .runAs _ => []
  | .keepResult target => target.names

private theorem spell_congr {names names' : Label → String} {x : ClauseOutline}
    (h : ∀ label, .generated label ∈ x.names → names label = names' label) :
    x.spell names = x.spell names' := by
  cases x with
  | compare negate first c second =>
    have hfirst : first.spell names = first.spell names' :=
      ScoreOutline.spell_congr fun label hl => h label (List.mem_append_left _ hl)
    have hsecond : second.spell names = second.spell names' :=
      ScoreOutline.spell_congr fun label hl => h label (List.mem_append_right _ hl)
    rw [spell, spell, hfirst, hsecond]
  | runAs selector => rfl
  | keepResult target => rw [spell, spell, ScoreOutline.spell_congr h]

end ClauseOutline

namespace ActionOutline

/-- The action that the outline stands for. -/
def spell (names : Label → String) : ActionOutline → Action
  | .declare store => .declare (store.spell names)
  | .edit verb target amount => .edit verb (target.spell names) amount
  | .operate target o source => .operate (target.spell names) o (source.spell names)
  | .raw line => .raw line

/-- What stands at the name positions. -/
def names : ActionOutline → List NameOutline
  | .declare store => [store]
  | .edit _ target _ => target.names
  | .operate target _ source => target.names ++ source.names
  | .raw _ => []

private theorem spell_congr {names names' : Label → String} {x : ActionOutline}
    (h : ∀ label, .generated label ∈ x.names → names label = names' label) :
    x.spell names = x.spell names' := by
  cases x with
  | declare store =>
    have hstore : store.spell names = store.spell names' :=
      NameOutline.spell_congr fun label he => h label (he ▸ List.mem_singleton_self _)
    rw [spell, spell, hstore]
  | edit verb target amount => rw [spell, spell, ScoreOutline.spell_congr h]
  | operate target o source =>
    have htarget : target.spell names = target.spell names' :=
      ScoreOutline.spell_congr fun label hl => h label (List.mem_append_left _ hl)
    have hsource : source.spell names = source.spell names' :=
      ScoreOutline.spell_congr fun label hl => h label (List.mem_append_right _ hl)
    rw [spell, spell, htarget, hsource]
  | raw line => rfl

end ActionOutline

namespace CommandOutline

/-- The command that the outline stands for. -/
def spell (names : Label → String) (x : CommandOutline) : Command :=
  ⟨x.clauses.map (ClauseOutline.spell names), x.action.spell names⟩

/-- What stands at the name positions. -/
def names (x : CommandOutline) : List NameOutline :=
  x.clauses.flatMap ClauseOutline.names ++ x.action.names

/-- Namings that agree on the labels of an outline spell it alike. -/
theorem spell_congr {names names' : Label → String} {x : CommandOutline}
    (h : ∀ label, .generated label ∈ x.names → names label = names' label) :
    x.spell names = x.spell names' := by
  have hclauses : x.clauses.map (ClauseOutline.spell names) =
      x.clauses.map (ClauseOutline.spell names') := by
    refine List.map_congr_left fun clause hclause => ClauseOutline.spell_congr fun label hl => ?_
    exact h label (List.mem_append_left _ (List.mem_flatMap.mpr ⟨clause, hclause, hl⟩))
  have haction : x.action.spell names = x.action.spell names' :=
    ActionOutline.spell_congr fun label hl => h label (List.mem_append_right _ hl)
  rw [spell, spell, hclauses, haction]

/-- Puts the outline under one more clause; a declaration stays as it is. -/
def under (clause : ClauseOutline) (x : CommandOutline) : CommandOutline :=
  match x.action with
  | .declare _ => x
  | _ => ⟨clause :: x.clauses, x.action⟩

/-- A clause can be spelled before or after it is put in front. -/
theorem spell_under (names : Label → String) (clause : ClauseOutline) (x : CommandOutline) :
    (x.under clause).spell names = (x.spell names).under (clause.spell names) := by
  obtain ⟨clauses, action⟩ := x
  cases action <;> rfl

/-- A clause in front of a command adds its own names at most. -/
theorem names_under {clause : ClauseOutline} {x : CommandOutline} {name : NameOutline}
    (h : name ∈ (x.under clause).names) : name ∈ clause.names ∨ name ∈ x.names := by
  obtain ⟨clauses, action⟩ := x
  cases action with
  | declare store => exact .inr h
  | edit | operate | raw =>
    simp only [under, names, List.flatMap_cons, List.append_assoc] at h
    exact List.mem_append.mp h

end CommandOutline

/-- What an edit by a fixed number does to a score does not depend on the score. -/
theorem Command.exists_edit_eq (verb : EditVerb) (amount : Int32) :
    ∃ edits : List (EditVerb × Int32), ∀ target, Command.edit verb target amount =
      edits.map fun e => .bare (.edit e.1 target e.2) := by
  unfold Command.edit
  split
  · exact ⟨[(verb, amount)], fun _ => rfl⟩
  case _ opposite _ =>
    split
    · exact ⟨[(verb, amount)], fun _ => rfl⟩
    · split
      · exact ⟨[(opposite, Int32.maxValue), (opposite, 1)], fun _ => rfl⟩
      · exact ⟨[(opposite, -amount)], fun _ => rfl⟩

end Datapack
