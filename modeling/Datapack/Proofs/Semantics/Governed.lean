import Mathlib.Tactic.SplitIfs
import Datapack.Semantics.Machine

/-!
# Commands under clauses

What a clause around a row of commands does to the whole row. A scope is handed
on to every command. A comparison lets the whole row run or none of it, provided
that no command of the row changes the two scores compared; a single command
needs no such proviso. Declarations stand outside all clauses and do nothing.
-/

namespace Datapack

namespace Board

variable (b : Board) (x : Score)

@[simp] theorem scores_put (n : Int32) : (b.put x n).scores = b.scores.put x n := rfl

/-- Only the last of two numbers put at a score counts. -/
theorem put_put (m n : Int32) : (b.put x m).put x n = b.put x n := by
  simp only [put]
  congr 1
  funext y
  unfold Scores.put
  split_ifs <;> rfl

end Board

/-- Scores that a clause may write. -/
def Clause.writes : Clause → List Score
  | .keepResult target => [target]
  | .compare .. | .runAs _ | .verbatim _ => []

/-- Scores that an action may write, what a command line does left aside. -/
def Action.writes : Action → List Score
  | .edit _ target _ => [target]
  | .operate target _ _ => [target]
  | .declare _ | .raw _ => []

/-- Scores that a command may write, what a command line does left aside. -/
def Command.writes (c : Command) : List Score := c.clauses.flatMap Clause.writes ++ c.action.writes

/-- Commands that write allowed scores only, what command lines do left aside. -/
def WritesIn (allowed : Score → Prop) (commands : List Command) : Prop :=
  ∀ c ∈ commands, ∀ x ∈ c.writes, allowed x

namespace WritesIn

variable {allowed allowed' : Score → Prop} {commands commands' : List Command}

/-- Commands write in any larger set of scores. -/
theorem mono (h : WritesIn allowed commands) (himp : ∀ x, allowed x → allowed' x) :
    WritesIn allowed' commands :=
  fun c hc x hx => himp x (h c hc x hx)

/-- Commands in a row write where both parts do. -/
theorem append (h : WritesIn allowed commands) (h' : WritesIn allowed commands') :
    WritesIn allowed (commands ++ commands') :=
  fun c hc => (List.mem_append.mp hc).elim (h c) (h' c)

/-- A clause that writes nothing may be put around commands. -/
theorem under {clause : Clause} (hclause : clause.writes = []) (h : WritesIn allowed commands) :
    WritesIn allowed (commands.map (Command.under clause)) := by
  intro c hc x hx
  obtain ⟨d, hd, rfl⟩ := List.mem_map.mp hc
  rw [Command.writes, Command.clauses_under, Command.action_under] at hx
  split at hx
  · exact h d hd x hx
  · rw [List.flatMap_cons, hclause, List.nil_append] at hx
    exact h d hd x hx

/-- A command that writes one score at most. -/
theorem singleton {c : Command} {y : Score} (hc : c.writes ⊆ [y]) (hy : allowed y) :
    WritesIn allowed [c] := by
  intro d hd x hx
  rw [List.mem_singleton.mp hd] at hx
  rwa [List.mem_singleton.mp (hc hx)]

/-- An edit writes its target. -/
theorem edit {verb : EditVerb} {y : Score} {amount : Int32} (hy : allowed y) :
    WritesIn allowed (Command.edit verb y amount) := by
  have hbare : ∀ verb n, (Command.bare (.edit verb y n)).writes ⊆ [y] :=
    fun _ _ => List.Subset.refl _
  unfold Command.edit
  split
  · exact singleton (hbare _ _) hy
  · split_ifs
    · exact singleton (hbare _ _) hy
    · exact (singleton (hbare _ _) hy).append (singleton (hbare _ _) hy)
    · exact singleton (hbare _ _) hy

end WritesIn

namespace EditVerb

variable {verb opposite : EditVerb}

/-- The opposite verb undoes a sign. -/
theorem opposite_apply_neg (h : verb.opposite? = some opposite) (x n : Int32) :
    opposite.apply x (-n) = verb.apply x n := by
  cases verb <;> cases h <;> simp only [apply] <;> grind

/-- The least number has no opposite, so the opposite verb takes two steps for it. -/
theorem opposite_apply_twice (h : verb.opposite? = some opposite) (x : Int32) :
    opposite.apply (opposite.apply x Int32.maxValue) 1 = verb.apply x Int32.minValue := by
  have hleast : Int32.minValue = -(Int32.maxValue + 1) := by decide
  cases verb <;> cases h <;> simp only [apply] <;> grind

/-- An edit by a fixed number does the work of its operator. -/
theorem apply_eq_combine {o : Operator} (h : ofOperator? o = some verb) (p : Platform)
    (x n : Int32) :
    verb.apply x n = p.combine o x n := by
  cases o <;> cases h <;> rfl

end EditVerb

namespace Machine

variable (p : Platform) (scopes : List Clause)

/-- Runs commands in order within scopes. -/
def runIn (b : Board) (commands : List Command) : Board :=
  commands.foldl (fun b c => (govern p scopes c.clauses c.action b).2) b

/-- At the top level there are no scopes. -/
theorem run_eq_runIn (b : Board) (commands : List Command) :
    run p b commands = runIn p [] b commands := rfl

@[simp] theorem runIn_nil (b : Board) : runIn p scopes b [] = b := rfl

/-- The first command is run before the others. -/
theorem runIn_cons (b : Board) (c : Command) (commands : List Command) :
    runIn p scopes b (c :: commands) =
      runIn p scopes (govern p scopes c.clauses c.action b).2 commands := rfl

/-- Commands in a row are run one part after the other. -/
theorem runIn_append (b : Board) (first second : List Command) :
    runIn p scopes b (first ++ second) = runIn p scopes (runIn p scopes b first) second :=
  List.foldl_append

/-- An operation combines two scores into the first. -/
theorem runIn_operate (b : Board) (x : Score) (o : Operator) (y : Score) :
    runIn p scopes b [.operate x o y] = b.put x (p.combine o (b.scores x) (b.scores y)) := rfl

/-- The answer of a command line is put into the score. -/
theorem runIn_keepResult (b : Board) (x : Score) (line : String) :
    runIn p scopes b [.keepResult x line] =
      (b.perform p scopes line).2.put x (b.perform p scopes line).1 := rfl

/-- A command line is performed in the scopes around it. -/
theorem runIn_raw (b : Board) (line : String) :
    runIn p scopes b [.raw line] = (b.perform p scopes line).2 := rfl

private theorem runIn_edit_cons (b : Board) (verb : EditVerb) (x : Score) (n : Int32)
    (commands : List Command) :
    runIn p scopes b (.bare (.edit verb x n) :: commands) =
      runIn p scopes (b.put x (verb.apply (b.scores x) n)) commands := rfl

/-- An edit by any fixed number does what its verb says, also where the number is negative. -/
theorem runIn_edit (b : Board) (verb : EditVerb) (x : Score) (amount : Int32) :
    runIn p scopes b (Command.edit verb x amount) =
      b.put x (verb.apply (b.scores x) amount) := by
  unfold Command.edit
  split
  · rfl
  next opposite hopposite =>
    split_ifs with hpos hmin
    · rfl
    · rw [runIn_edit_cons, runIn_edit_cons, runIn_nil, Board.put_put, Board.scores_put,
        Scores.put_same, EditVerb.opposite_apply_twice hopposite, hmin]
    · rw [runIn_edit_cons, runIn_nil, EditVerb.opposite_apply_neg hopposite]

/-- Declarations stand outside all clauses. -/
def Plain (commands : List Command) : Prop :=
  ∀ c ∈ commands, c.isDeclaration = true → c.clauses = []

section Clauses

variable {p scopes} {commands : List Command}

/-- A plain declaration does nothing. -/
theorem govern_declaration {c : Command} (hdecl : c.isDeclaration = true)
    (hplain : c.clauses = []) (b : Board) : (govern p scopes c.clauses c.action b).2 = b := by
  obtain ⟨clauses, action⟩ := c
  cases hplain
  cases action <;> first | rfl | cases hdecl

/-- A command in a scope is the command run with that scope added. -/
theorem govern_under_runAs (selector : String) {c : Command}
    (hplain : c.isDeclaration = true → c.clauses = []) (b : Board) :
    (govern p scopes (c.under (.runAs selector)).clauses (c.under (.runAs selector)).action b).2 =
      (govern p (scopes ++ [.runAs selector]) c.clauses c.action b).2 := by
  rw [Command.clauses_under, Command.action_under]
  split
  next hdecl =>
    rw [govern_declaration hdecl (hplain hdecl), govern_declaration hdecl (hplain hdecl)]
  next => rfl

/-- A command under a comparison is the command itself where the comparison holds, and nothing
elsewhere. -/
theorem govern_under_compare (negate : Bool) (x : Score) (k : Comparator) (y : Score)
    {c : Command} (hplain : c.isDeclaration = true → c.clauses = []) (b : Board) :
    (govern p scopes (c.under (.compare negate x k y)).clauses
      (c.under (.compare negate x k y)).action b).2 =
      if k.holds (b.scores x).toInt (b.scores y).toInt != negate then
        (govern p scopes c.clauses c.action b).2
      else b := by
  rw [Command.clauses_under, Command.action_under]
  split
  next hdecl => rw [govern_declaration hdecl (hplain hdecl), ite_self]
  next =>
    simp only [govern]
    split <;> rfl

/-- A scope around a row of commands is handed on to each of them. -/
theorem runIn_under_runAs (selector : String) (hplain : Plain commands) (b : Board) :
    runIn p scopes b (commands.map (Command.under (.runAs selector))) =
      runIn p (scopes ++ [.runAs selector]) b commands := by
  induction commands generalizing b with
  | nil => rfl
  | cons c rest ih =>
    rw [List.map_cons, runIn_cons, runIn_cons,
      govern_under_runAs selector (hplain c List.mem_cons_self)]
    exact ih (fun d hd => hplain d (List.mem_cons_of_mem c hd)) _

/-- Whether a score stays as it is whatever board the commands start from. -/
def Keeps (p : Platform) (scopes : List Clause) (commands : List Command) (x : Score) : Prop :=
  ∀ c ∈ commands, ∀ b : Board, (govern p scopes c.clauses c.action b).2.scores x = b.scores x

/-- Commands under a comparison run all or not at all, if they keep the scores compared. -/
theorem runIn_under_compare {negate : Bool} {x y : Score} {k : Comparator}
    (hplain : Plain commands) (hx : Keeps p scopes commands x) (hy : Keeps p scopes commands y)
    (b : Board) :
    runIn p scopes b (commands.map (Command.under (.compare negate x k y))) =
      if k.holds (b.scores x).toInt (b.scores y).toInt != negate then runIn p scopes b commands
      else b := by
  induction commands generalizing b with
  | nil => exact (ite_self b).symm
  | cons c rest ih =>
    have hrest := ih (fun d hd => hplain d (List.mem_cons_of_mem c hd))
      (fun d hd => hx d (List.mem_cons_of_mem c hd)) (fun d hd => hy d (List.mem_cons_of_mem c hd))
    rw [List.map_cons, runIn_cons, runIn_cons,
      govern_under_compare negate x k y (hplain c List.mem_cons_self), hrest]
    -- The comparison is decided afresh after the first command, from scores it has kept.
    split
    next hholds =>
      rw [hx c List.mem_cons_self, hy c List.mem_cons_self, if_pos hholds]
    next => rfl

/-- A single command under a comparison runs or not, whatever it does to the scores compared. -/
theorem runIn_under_compare_sole {negate : Bool} {x y : Score} {k : Comparator}
    (hplain : Plain commands) (hsole : commands.length ≤ 1) (b : Board) :
    runIn p scopes b (commands.map (Command.under (.compare negate x k y))) =
      if k.holds (b.scores x).toInt (b.scores y).toInt != negate then runIn p scopes b commands
      else b := by
  match commands with
  | [] => exact (ite_self b).symm
  | [c] => exact govern_under_compare negate x k y (hplain c List.mem_cons_self) b
  | _ :: _ :: _ => simp at hsole

/-- A score of a store that command lines leave alone changes only where it is written. -/
theorem govern_scores {clauses : List Clause} {action : Action} {x : Score}
    (hp : p.LeavesAlone x.store) (hclauses : x ∉ clauses.flatMap Clause.writes)
    (haction : x ∉ action.writes) (b : Board) :
    (govern p scopes clauses action b).2.scores x = b.scores x := by
  induction clauses generalizing scopes b with
  | nil =>
    cases action with
    | declare store => rfl
    | edit verb target amount => exact Scores.put_of_ne _ (List.ne_of_not_mem_cons haction) _
    | operate target o source => exact Scores.put_of_ne _ (List.ne_of_not_mem_cons haction) _
    | raw line => exact hp.unchanged scopes line b.scores x rfl
  | cons clause rest ih =>
    rw [List.flatMap_cons, List.mem_append, not_or] at hclauses
    cases clause with
    | compare negate first k second =>
      simp only [govern]
      split
      · exact ih hclauses.2 b
      · rfl
    | runAs selector => exact ih hclauses.2 b
    | verbatim text => exact ih hclauses.2 b
    | keepResult target =>
      have hrest : (govern p scopes rest action b).2.scores x = b.scores x := ih hclauses.2 b
      have hne : x ≠ target := List.ne_of_not_mem_cons hclauses.1
      simp only [govern]
      split
      next n c hc =>
        rw [hc] at hrest
        exact (Scores.put_of_ne _ hne _).trans hrest
      next c hc =>
        rw [hc] at hrest
        exact hrest

/-- Commands keep a score of a store left alone that none of them writes. -/
theorem keeps_of_not_mem_writes {x : Score} (hp : p.LeavesAlone x.store)
    (h : ∀ c ∈ commands, x ∉ c.writes) : Keeps p scopes commands x := by
  intro c hc b
  have hnot := h c hc
  rw [Command.writes, List.mem_append, not_or] at hnot
  exact govern_scores hp hnot.1 hnot.2 b

end Clauses

end Machine

end Datapack
