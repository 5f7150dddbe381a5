import Datapack.Target.Command

/-!
# Parts of a command

The text of a command is made of fixed words, numbers and parts: scores, target
stores and texts that are passed through. So a command speaks of nothing but its
parts, and each line of its text comes from the parts.
-/

namespace Datapack

/-- What the text of a command is made of, besides fixed words and numbers. -/
inductive Part where
  | score (x : Score)
  | store (name : String)
  /-- A command line, a selector or a clause that is passed through. -/
  | text (content : String)

/-- Text of the part. -/
def Part.render : Part → String
  | .score x => x.render
  | .store name => name
  | .text content => content

/-- Parts of a clause. -/
def Clause.parts : Clause → List Part
  | .compare _ first _ second => [.score first, .score second]
  | .runAs selector => [.text selector]
  | .keepResult target => [.score target]
  | .verbatim text => [.text text]

/-- Parts of an action. -/
def Action.parts : Action → List Part
  | .declare store => [.store store]
  | .edit _ target _ => [.score target]
  | .operate target _ source => [.score target, .score source]
  | .raw line => [.text line]

/-- Parts of a command. -/
def Command.parts (c : Command) : List Part := c.clauses.flatMap Clause.parts ++ c.action.parts

/-- Commands all of whose parts are allowed. -/
def MadeOf (allowed : Part → Prop) (commands : List Command) : Prop :=
  ∀ c ∈ commands, ∀ part ∈ c.parts, allowed part

namespace MadeOf

variable {allowed allowed' : Part → Prop} {commands commands' : List Command}

/-- Commands are made of whatever allows more. -/
theorem mono (h : MadeOf allowed commands) (himp : ∀ part, allowed part → allowed' part) :
    MadeOf allowed' commands :=
  fun c hc part hpart => himp part (h c hc part hpart)

/-- No commands are made of anything. -/
theorem nil : MadeOf allowed [] := nofun

/-- Commands in a row are made of what both parts are. -/
theorem append (h : MadeOf allowed commands) (h' : MadeOf allowed commands') :
    MadeOf allowed (commands ++ commands') :=
  fun c hc => (List.mem_append.mp hc).elim (h c) (h' c)

/-- A command is made of its parts. -/
theorem singleton {c : Command} (h : ∀ part ∈ c.parts, allowed part) : MadeOf allowed [c] := by
  intro d hd
  rw [List.mem_singleton.mp hd]
  exact h

/-- A clause adds its own parts. -/
theorem under {clause : Clause} (hclause : ∀ part ∈ clause.parts, allowed part)
    (h : MadeOf allowed commands) : MadeOf allowed (commands.map (Command.under clause)) := by
  intro c hc part hpart
  obtain ⟨d, hd, rfl⟩ := List.mem_map.mp hc
  rw [Command.parts, Command.clauses_under, Command.action_under] at hpart
  split at hpart
  · exact h d hd part hpart
  · rw [List.flatMap_cons, List.append_assoc, List.mem_append] at hpart
    exact hpart.elim (hclause part) (h d hd part)

/-- An edit speaks of its target only. -/
theorem edit {verb : EditVerb} {x : Score} {amount : Int32} (hx : allowed (.score x)) :
    MadeOf allowed (Command.edit verb x amount) := by
  have hbare : ∀ verb n, MadeOf allowed [.bare (.edit verb x n)] :=
    fun _ _ => singleton (List.forall_mem_singleton.mpr hx)
  unfold Command.edit
  split
  · exact hbare _ _
  · split
    · exact hbare _ _
    · split
      · exact (hbare _ _).append (hbare _ _)
      · exact hbare _ _

end MadeOf

end Datapack
