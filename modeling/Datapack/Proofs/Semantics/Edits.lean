import Mathlib.Algebra.Group.Int.Defs
import Mathlib.Algebra.Group.Nat.Defs
import Datapack.Proofs.Lowering.Emission
import Datapack.Proofs.Semantics.Governed

/-!
# Edits by fixed numbers

The target adds and removes amounts without a sign only, so an edit by a negative
number is turned round, and one by the least number is made in two steps. All the
same an edit by any number changes its score as the verb says, up to the limits
of 32 bits and round them, and no other score.
-/

namespace Datapack

namespace EditVerb

/-- The amounts that the target takes with a verb. -/
def Takes (verb : EditVerb) (amount : Int) : Prop :=
  match verb with
  | .add | .remove => 0 ≤ amount ∧ amount ≤ 2 ^ 31 - 1
  | .set => -2 ^ 31 ≤ amount ∧ amount ≤ 2 ^ 31 - 1

/-- The whole number that an edit is to leave, brought back into 32 bits. -/
def wrapped : EditVerb → Int → Int → Int
  | .add, x, n => (x + n).bmod (2 ^ 32)
  | .remove, x, n => (x - n).bmod (2 ^ 32)
  | .set, _, n => n

private theorem toInt_apply (verb : EditVerb) (x n : Int32) :
    (verb.apply x n).toInt = verb.wrapped x.toInt n.toInt := by
  cases verb with
  | add => exact Int32.toInt_add x n
  | remove => exact Int32.toInt_sub x n
  | set => rfl

/-- Every number that is not negative can be added, removed and set. -/
theorem takes_of_nonneg (verb : EditVerb) {n : Int32} (h : 0 ≤ n) : verb.Takes n.toInt := by
  have hnonneg : 0 ≤ n.toInt := Int32.le_iff_toInt_le.mp h
  have hlt := n.toInt_lt
  cases verb <;> simp only [Takes] <;> omega

private theorem set_takes (n : Int32) : EditVerb.set.Takes n.toInt :=
  ⟨n.le_toInt, Int.le_sub_one_of_lt n.toInt_lt⟩

/-- Only the least number has no opposite. -/
theorem nonneg_neg_of_ne_minValue {n : Int32} (h : ¬ 0 ≤ n) (hmin : n ≠ Int32.minValue) :
    0 ≤ -n := by
  rw [Int32.le_iff_toInt_le, Int32.toInt_zero] at h ⊢
  have hmin : n.toInt ≠ -2 ^ 31 := by
    rw [← Int32.toInt_minValue]
    exact fun hn => hmin (Int32.toInt_inj.mp hn)
  have hle := n.le_toInt
  rw [Int32.toInt_neg, Int.bmod_eq_of_le]
  all_goals omega

end EditVerb

namespace Command

/-- An edit is made of edits of its target by amounts that the target takes. -/
theorem exists_takes_of_mem_edit {verb : EditVerb} {target : Score} {amount : Int32} {c : Command}
    (h : c ∈ edit verb target amount) :
    ∃ w n, c = .bare (.edit w target n) ∧ EditVerb.Takes w n.toInt := by
  unfold edit at h
  split at h
  next hset =>
    obtain rfl : verb = .set := by cases verb <;> first | rfl | cases hset
    exact ⟨_, _, List.mem_singleton.mp h, EditVerb.set_takes amount⟩
  next opposite _ =>
    split_ifs at h with hnonneg hmin
    · exact ⟨_, _, List.mem_singleton.mp h, verb.takes_of_nonneg hnonneg⟩
    · have hmax := opposite.takes_of_nonneg (n := Int32.maxValue) (by decide)
      have hone := opposite.takes_of_nonneg (n := 1) (by decide)
      rcases List.mem_pair.mp h with rfl | rfl
      · exact ⟨_, _, rfl, hmax⟩
      · exact ⟨_, _, rfl, hone⟩
    · have hneg := EditVerb.nonneg_neg_of_ne_minValue hnonneg hmin
      exact ⟨_, _, List.mem_singleton.mp h, opposite.takes_of_nonneg hneg⟩

end Command

namespace Machine

/--
An edit by any number is exact. It is made of as many commands as foretold, each
of which edits the target score by an amount that the target takes. Run in order on
any board they leave at that score the sum, the difference or the number itself,
wrapped round to 32 bits, and they leave all other scores and the log alone.
-/
theorem run_edit_exact (p : Platform) (b : Board) (verb : EditVerb) (target : Score)
    (amount : Int32) :
    let commands := Command.edit verb target amount
    let after := run p b commands
    (∀ c ∈ commands, ∃ w n, c = .bare (.edit w target n) ∧ EditVerb.Takes w n.toInt) ∧
      commands.length = Command.editLength verb amount ∧
      (after.scores target).toInt = verb.wrapped (b.scores target).toInt amount.toInt ∧
      (∀ x, x ≠ target → after.scores x = b.scores x) ∧ after.log = b.log := by
  intro commands after
  have hafter : after = b.put target (verb.apply (b.scores target) amount) :=
    runIn_edit p [] b verb target amount
  refine ⟨fun c hc => Command.exists_takes_of_mem_edit hc, Lowering.length_edit verb target amount,
    ?_, fun x hx => ?_, ?_⟩
  · rw [hafter, Board.scores_put, Scores.put_same, EditVerb.toInt_apply]
  · rw [hafter, Board.scores_put, Scores.put_of_ne _ hx]
  · rw [hafter]
    rfl

-- the least number is taken off the greatest: what is left is -1, on the other side of the limits
example (p : Platform) :
    let x : Score := ⟨"a", "s"⟩
    Command.edit .remove x Int32.minValue = [.bare (.edit .add x Int32.maxValue),
        .bare (.edit .add x 1)] ∧
      (run p ⟨fun _ => Int32.maxValue, []⟩ (Command.edit .remove x Int32.minValue)).scores x = -1 :=
  ⟨rfl, rfl⟩

end Machine

end Datapack
