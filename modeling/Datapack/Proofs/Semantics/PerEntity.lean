import Mathlib.Data.List.Basic
import Datapack.Proofs.Semantics.Agreement
import Datapack.Semantics.Entities

/-!
# Commands run for entities

A scope around a row of commands runs the first command for all entities, then the
second one for all of them, and so on. That is the same as running the whole row
for one entity after the other if there is at most one entity, if there is at most
one command, or if the commands are the edits of one score by fixed numbers.
-/

namespace Datapack

/-- The clause on other scores. -/
def Clause.mapScores (f : Score → Score) : Clause → Clause
  | .compare negate first c second => .compare negate (f first) c (f second)
  | .keepResult target => .keepResult (f target)
  | .runAs selector => .runAs selector
  | .verbatim text => .verbatim text

namespace Command

/-- The command on other scores. -/
def mapScores (f : Score → Score) (c : Command) : Command :=
  ⟨c.clauses.map (Clause.mapScores f), c.action.mapScores f⟩

/-- The command while an entity is in force. -/
def boundTo (entity : String) : Command → Command := mapScores (Score.boundTo entity)

/-- Commands that compare and change scores, but neither open a scope nor run a command line. -/
def isSilent (c : Command) : Bool :=
  (c.clauses.all fun clause => clause matches .compare ..) && !(c.action matches .raw _)

variable (f : Score → Score)

@[simp] theorem isDeclaration_mapScores (c : Command) :
    (c.mapScores f).isDeclaration = c.isDeclaration := by
  obtain ⟨clauses, action⟩ := c
  cases action <;> rfl

private theorem mapScores_under (clause : Clause) (c : Command) :
    (c.under clause).mapScores f = (c.mapScores f).under (clause.mapScores f) := by
  unfold under
  rw [isDeclaration_mapScores]
  split <;> rfl

/-- Scores can be replaced before or after a clause is put in front. -/
theorem map_mapScores_under (clause : Clause) (commands : List Command) :
    (commands.map (under clause)).map (mapScores f) =
      (commands.map (mapScores f)).map (under (clause.mapScores f)) := by
  rw [List.map_map, List.map_map]
  exact List.map_congr_left fun c _ => mapScores_under f clause c

/-- Replacing scores in an edit is an edit of the other score. -/
theorem map_mapScores_edit (verb : EditVerb) (x : Score) (amount : Int32) :
    (edit verb x amount).map (mapScores f) = edit verb (f x) amount := by
  unfold edit
  split
  · rfl
  · split_ifs <;> rfl

/-- A condition in front of a silent command leaves it silent. -/
theorem isSilent_under_compare {negate : Bool} {x y : Score} {k : Comparator} {c : Command}
    (h : c.isSilent = true) : (c.under (.compare negate x k y)).isSilent = true := by
  unfold under
  split
  · exact h
  · exact h

/-- Edits are silent. -/
theorem isSilent_of_mem_edit {verb : EditVerb} {x : Score} {amount : Int32} {c : Command}
    (h : c ∈ edit verb x amount) : c.isSilent = true := by
  unfold edit at h
  split at h
  · rw [List.mem_singleton.mp h]
    rfl
  · split_ifs at h
    · rw [List.mem_singleton.mp h]
      rfl
    · rcases List.mem_pair.mp h with rfl | rfl <;> rfl
    · rw [List.mem_singleton.mp h]
      rfl

end Command

/-- The platform with command lines that do nothing. -/
def Platform.silenced (p : Platform) : Platform := { p with perform := Platform.quiet.perform }

/-- A silenced platform leaves the scratch store alone. -/
theorem Platform.silenced_respects (p : Platform) (scratch : Option String) :
    p.silenced.Respects scratch :=
  fun _ _ => ⟨fun _ _ _ _ _ => rfl, fun _ _ _ _ h => h, fun _ _ _ _ _ => rfl⟩

namespace Machine

variable {p : Platform} {select : String → List String} {scopes : List Clause}

/-- Without scopes of its own a silent command is run on the scores that are meant, and asks the
platform for no command line. -/
theorem governEach_of_silent {clauses : List Clause} {action : Action} (f : Score → Score)
    (h : Command.isSilent ⟨clauses, action⟩ = true) (b : Board) :
    governEach p select f scopes clauses action b =
      govern p.silenced scopes (clauses.map (Clause.mapScores f)) (action.mapScores f) b := by
  induction clauses with
  | nil =>
    cases action with
    | raw line => cases h
    | declare | edit | operate => rfl
  | cons clause rest ih =>
    cases clause with
    | compare negate x k y =>
      simp only [governEach, List.map_cons, Clause.mapScores, govern]
      rw [ih h]
    | keepResult | runAs | verbatim => cases h

/-- Runs each command for all entities before the next one. -/
def byCommand (p : Platform) (entities : List String) (b : Board) (commands : List Command) :
    Board :=
  commands.foldl (fun b c => entities.foldl (fun b e => runIn p [.runAs e] b [c.boundTo e]) b) b

/-- Runs all commands for each entity before the next one. -/
def byEntity (p : Platform) (entities : List String) (b : Board) (commands : List Command) :
    Board :=
  entities.foldl (fun b e => runIn p [.runAs e] b (commands.map (Command.boundTo e))) b

/-- One silent command in a scope is run for each entity. -/
theorem governEach_under_runAs (p : Platform) (select : String → List String) (selector : String)
    {c : Command} (hsilent : c.isSilent = true) (hplain : c.isDeclaration = true → c.clauses = [])
    (b : Board) :
    (governEach p select id [] (c.under (.runAs selector)).clauses
      (c.under (.runAs selector)).action b).2 =
      (select selector).foldl (fun b e => runIn p.silenced [.runAs e] b [c.boundTo e]) b := by
  obtain ⟨clauses, action⟩ := c
  cases hdecl : Command.isDeclaration ⟨clauses, action⟩ with
  | true =>
    obtain rfl : clauses = [] := hplain hdecl
    cases action with
    | declare store => exact (List.foldl_fixed (select selector)).symm
    | edit | operate | raw => cases hdecl
  | false =>
    rw [Command.under, hdecl, if_neg Bool.false_ne_true, governEach]
    symm
    change List.foldl _ ((none, b) : Option Int32 × Board).2 _ = _
    refine List.foldl_hom Prod.snd fun state e => ?_
    rw [governEach_of_silent (Score.boundTo e) hsilent]
    rfl

/-- A scope around a row of silent commands runs each of them for all entities. -/
theorem runEach_under_runAs (p : Platform) (select : String → List String) (selector : String)
    {commands : List Command} (hsilent : ∀ c ∈ commands, c.isSilent = true)
    (hplain : Plain commands) (b : Board) :
    runEach p select b (commands.map (Command.under (.runAs selector))) =
      byCommand p.silenced (select selector) b commands := by
  induction commands generalizing b with
  | nil => rfl
  | cons c rest ih =>
    obtain ⟨hc, hrest⟩ := List.forall_mem_cons.mp hsilent
    obtain ⟨hc', hrest'⟩ := List.forall_mem_cons.mp hplain
    rw [List.map_cons, runEach, List.foldl_cons, governEach_under_runAs p select selector hc hc']
    exact ih hrest hrest' _

section Order

variable {entities : List String} {b : Board}

/-- For a single entity, or none, there is nothing to take apart. -/
theorem byCommand_of_length_le_one {commands : List Command} (h : entities.length ≤ 1) :
    byCommand p entities b commands = byEntity p entities b commands := by
  match entities with
  | [] => exact List.foldl_fixed commands
  | [e] =>
    rw [byCommand, byEntity, List.foldl_cons, List.foldl_nil]
    induction commands generalizing b with
    | nil => rfl
    | cons c rest ih => exact ih
  | _ :: _ :: _ => simp at h

/-- A single command is run for one entity after the other. -/
theorem byCommand_sole {commands : List Command} (h : commands.length ≤ 1) :
    byCommand p entities b commands = byEntity p entities b commands := by
  match commands with
  | [] => exact (List.foldl_fixed entities).symm
  | [c] => rfl
  | _ :: _ :: _ => simp at h

/-- Loops over steps that commute may be joined into one. -/
theorem foldl_foldl_of_commute {β ε : Type} {f g : β → ε → β}
    (h : ∀ b e e', g (f b e) e' = f (g b e') e) (entities : List ε) (b : β) :
    entities.foldl g (entities.foldl f b) = entities.foldl (fun b e => g (f b e) e) b := by
  have hthrough : ∀ (es : List ε) (b : β) (e : ε), g (es.foldl f b) e = es.foldl f (g b e) := by
    intro es
    induction es with
    | nil => exact fun _ _ => rfl
    | cons e' es ih =>
      intro b e
      rw [List.foldl_cons, List.foldl_cons, ih, h]
  induction entities generalizing b with
  | nil => rfl
  | cons e entities ih =>
    rw [List.foldl_cons, List.foldl_cons, List.foldl_cons, hthrough, ih]

/-- Two edits that add or remove may change places, be they of the same score or not. -/
theorem put_apply_comm {verb opposite : EditVerb} (h : verb.opposite? = some opposite) (x y : Score)
    (m n : Int32) (b : Board) :
    let edit (b : Board) (x : Score) (n : Int32) := b.put x (opposite.apply (b.scores x) n)
    edit (edit b x m) y n = edit (edit b y n) x m := by
  intro edit
  by_cases hxy : x = y
  · subst hxy
    have hcomm : ∀ z, opposite.apply (opposite.apply z m) n =
        opposite.apply (opposite.apply z n) m := by
      intro z
      cases verb <;> cases h <;> simp only [EditVerb.apply] <;> grind
    simp only [edit, Board.put_put, Board.scores_put, Scores.put_same, hcomm]
  · have hcomm : ∀ m n, (b.put x m).put y n = (b.put y n).put x m := by
      intro m n
      simp only [Board.put]
      congr 1
      funext z
      unfold Scores.put
      split_ifs <;> simp_all
    simp only [edit, Board.scores_put, Scores.put_of_ne _ (Ne.symm hxy), Scores.put_of_ne _ hxy,
      hcomm]

/-- Edits by fixed numbers may be taken apart, since they only add up. -/
theorem byCommand_edit (verb : EditVerb) (x : Score) (amount : Int32) :
    byCommand p entities b (Command.edit verb x amount) =
      byEntity p entities b (Command.edit verb x amount) := by
  unfold Command.edit
  split
  · exact byCommand_sole (Nat.le_refl 1)
  next opposite hopposite =>
    split_ifs
    · exact byCommand_sole (Nat.le_refl 1)
    · exact foldl_foldl_of_commute
        (fun b e e' => put_apply_comm hopposite (x.boundTo e) (x.boundTo e') _ _ b) entities b
    · exact byCommand_sole (Nat.le_refl 1)

end Order

end Machine

end Datapack
