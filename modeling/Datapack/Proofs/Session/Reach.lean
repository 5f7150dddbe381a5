import Mathlib.Logic.Relation
import Datapack.Lowering.Statement

/-!
# What lowering does to a session

Every lowering changes the session by four kinds of steps only: an entry is
named, a store is created, a register is taken, the register taken last is given
back. Failing is no exception. So a law that each step keeps holds at every
moment of every lowering, with whatever registers outer phrases hold, and after
any calls to the session.
-/

namespace Datapack

/-- A session in the middle of its work, with the registers in use, last taken first. -/
structure Moment where
  held : List String
  session : Session

namespace Moment

/-- One change that a lowering makes. -/
inductive Step : Moment → Moment → Prop
  | nameEntry (held : List String) (s : Session) (e : Entry) :
      Step ⟨held, s⟩ ⟨held, (s.nameEntry e).2⟩
  | createStore (held : List String) (s : Session) (name : String) :
      Step ⟨held, s⟩ ⟨held, (s.createStore name).2⟩
  | acquire (held : List String) (s : Session) : Step ⟨held, s⟩ ⟨s.acquire.1 :: held, s.acquire.2⟩
  | release (held : List String) (s : Session) (register : String) :
      Step ⟨register :: held, s⟩ ⟨held, s.release register⟩

/-- Steps in a row, within one lowering. -/
abbrev Reaches : Moment → Moment → Prop := Relation.ReflTransGen Step

/-- Moments that a session can be in, between calls or in the middle of one. -/
inductive Reachable : Moment → Prop
  | fresh : Reachable ⟨[], .fresh⟩
  | step {m n : Moment} : Reachable m → Step m n → Reachable n
  | commit {s : Session} : Reachable ⟨[], s⟩ → Reachable ⟨[], s.commit⟩
  | rollback {s : Session} : Reachable ⟨[], s⟩ → Reachable ⟨[], s.rollback⟩

/-- What steps lead to from a reachable moment is reachable. -/
theorem Reachable.reaches {m n : Moment} (hm : m.Reachable) (h : m.Reaches n) : n.Reachable := by
  induction h with
  | refl => exact hm
  | tail _ hstep ih => exact ih.step hstep

end Moment

namespace Lowering

open Moment

/-- Changes the session by steps only, and gives back all registers it takes. -/
def Stepwise {α : Type} (m : Lowering α) : Prop :=
  ∀ (held : List String) (s : Session), Reaches ⟨held, s⟩ ⟨held, (m s).2⟩

/-- A lowering that was run has changed the session by steps. -/
theorem Stepwise.reaches {α : Type} {m : Lowering α} (hm : m.Stepwise) {held : List String}
    {s t : Session} {result : Except LowerError α} (h : m s = (result, t)) :
    Reaches ⟨held, s⟩ ⟨held, t⟩ := by
  have hsteps := hm held s
  rwa [h] at hsteps

private theorem stepwise_pure {α : Type} (a : α) : Stepwise (pure a) := fun _ _ => .refl

private theorem stepwise_fail {α : Type} (e : LowerError) : Stepwise (fail e : Lowering α) :=
  fun _ _ => .refl

/-- Steps of one lowering are followed by those of the next, unless the first fails. -/
theorem Stepwise.bind {α β : Type} {m : Lowering α} {f : α → Lowering β} (hm : m.Stepwise)
    (hf : ∀ a, (f a).Stepwise) : (m >>= f).Stepwise := by
  intro held s
  have hfirst := hm held s
  cases h : m s with
  | mk result t =>
    rw [h] at hfirst
    cases result with
    | ok a =>
      rw [bind_apply_ok h]
      exact hfirst.trans (hf a held t)
    | error e =>
      rw [bind_apply_error h]
      exact hfirst

private theorem stepwise_storeName (name : String) : (storeName name).Stepwise := by
  intro held s
  unfold storeName
  cases s.storeName? name <;> exact .refl

/-- Finding a score is stepwise. -/
theorem stepwise_scoreOf (a : Access) : (scoreOf a).Stepwise := by
  apply (stepwise_storeName a.store).bind
  intro store
  refine Stepwise.bind ?_ fun entry => stepwise_pure _
  intro held s
  exact .single (.nameEntry held s a.entry)

private theorem stepwise_createStore (name : String) : (createStore name).Stepwise :=
  fun held s => .single (.createStore held s name)

/-- A register taken for a lowering is given back last. -/
theorem Stepwise.withRegister {α : Type} {use : String → Lowering α}
    (huse : ∀ register, (use register).Stepwise) : (withRegister use).Stepwise := by
  intro held s
  have htake := Step.acquire held s
  have hwork := huse s.acquire.1 (s.acquire.1 :: held) s.acquire.2
  have hback := Step.release held (use s.acquire.1 s.acquire.2).2 s.acquire.1
  exact (hwork.head htake).tail hback

private theorem stepwise_combine (target : Access) (o : Operator) (source : Access) :
    (combine target o source).Stepwise :=
  (stepwise_scoreOf target).bind fun _ => (stepwise_scoreOf source).bind fun _ => stepwise_pure _

private theorem stepwise_capture (target : Access) (line : String) :
    (capture target line).Stepwise :=
  (stepwise_scoreOf target).bind fun _ => stepwise_pure _

private theorem stepwise_checkOperand (node : Node) : (checkOperand node).Stepwise := by
  unfold checkOperand
  split
  · exact stepwise_pure _
  · exact stepwise_fail _

private theorem stepwise_captureAndCombine (target : Access) (o : Operator) (line : String) :
    (captureAndCombine target o line).Stepwise := by
  refine (stepwise_storeName _).bind fun _ => (stepwise_createStore _).bind fun _ => ?_
  refine Stepwise.bind (Stepwise.withRegister fun register => ?_) fun _ => stepwise_pure _
  exact (stepwise_capture _ _).bind fun _ => (stepwise_combine _ _ _).bind fun _ => stepwise_pure _

/-- Working out a calculation is stepwise if loading both operands is. -/
theorem stepwise_calculate (o : Operator) {first second : Access → Lowering (List Command)}
    (hfirst : ∀ a, (first a).Stepwise) (hsecond : ∀ a, (second a).Stepwise) :
    (calculate o first second).Stepwise := by
  refine (stepwise_createStore _).bind fun _ => ?_
  refine Stepwise.withRegister fun r => Stepwise.withRegister fun q => ?_
  refine (hfirst _).bind fun _ => (hsecond _).bind fun _ => ?_
  exact (stepwise_combine _ _ _).bind fun _ => stepwise_pure _

/-- Assigning any phrase is stepwise, also where it is refused. -/
theorem stepwise_assign (target : Access) (o : Operator) :
    (node : Node) → (assign target o node).Stepwise
  | .int amount => by
    rw [assign, assignInt]
    split
    · exact stepwise_fail _
    · exact (stepwise_scoreOf target).bind fun _ => stepwise_pure _
  | .access source => by
    rw [assign]
    exact stepwise_combine target o source
  | .calc first p second => by
    rw [assign]
    refine (stepwise_storeName _).bind fun _ => ?_
    refine (stepwise_checkOperand _).bind fun _ => (stepwise_checkOperand _).bind fun _ => ?_
    refine (stepwise_calculate p (fun a => stepwise_assign a .set first)
      fun a => stepwise_assign a .set second).bind fun _ => ?_
    exact (stepwise_combine _ _ _).bind fun _ => stepwise_pure _
  | .text line => by
    rw [assign]
    split
    · exact stepwise_capture target line
    · exact stepwise_captureAndCombine target o line
  | .block _ | .float _ | .assign .. | .branch .. | .runAs .. | .create _ | .call .. => by
    rw [assign]
    · exact stepwise_fail _
    all_goals simp

private theorem stepwise_calculation (first : Node) (o : Operator) (second : Node) :
    (calculation first o second).Stepwise := by
  refine (stepwise_checkOperand _).bind fun _ => (stepwise_checkOperand _).bind fun _ => ?_
  exact stepwise_calculate o (fun a => stepwise_assign a .set first)
    fun a => stepwise_assign a .set second

/-- Comparing in place is stepwise if the body is. -/
theorem stepwise_compareDirectly (negate : Bool) (first : Access) (c : Comparator)
    (second : Access) {body : Lowering (List Command)} (hbody : body.Stepwise) :
    (compareDirectly negate first c second body).Stepwise :=
  (stepwise_scoreOf first).bind fun _ => (stepwise_scoreOf second).bind fun _ =>
    hbody.bind fun _ => stepwise_pure _

/-- Comparing copies is stepwise if the body is. -/
theorem stepwise_compareCopies (negate : Bool) (first : Node) (c : Comparator) (second : Node)
    {body : Lowering (List Command)} (hbody : body.Stepwise) :
    (compareCopies negate first c second body).Stepwise := by
  refine (stepwise_createStore _).bind fun _ => ?_
  refine Stepwise.bind (Stepwise.withRegister fun r => Stepwise.withRegister fun q => ?_)
    fun _ => stepwise_pure _
  refine (stepwise_assign _ _ _).bind fun _ => (stepwise_assign _ _ _).bind fun _ => ?_
  refine (stepwise_scoreOf _).bind fun _ => (stepwise_scoreOf _).bind fun _ => ?_
  exact hbody.bind fun _ => stepwise_pure _

mutual

/-- Lowering a statement is stepwise, also where it is refused. -/
theorem stepwise_lower : (node : Node) → (lower node).Stepwise
  | .block body => by
    rw [lower]
    exact stepwise_lowerAll body
  | .create store => by
    rw [lower]
    exact stepwise_createStore store
  | .assign target o value => by
    rw [lower]
    exact stepwise_assign target o value
  | .calc first o second => by
    rw [lower]
    exact (stepwise_calculation first o second).bind fun _ => stepwise_pure _
  | .branch negate first c second body => by
    rw [lower]
    split
    · exact stepwise_compareDirectly negate _ c _ (stepwise_lowerAll body)
    · exact stepwise_compareCopies negate first c second (stepwise_lowerAll body)
  | .runAs selector body => by
    rw [lower]
    exact (stepwise_lowerAll body).bind fun _ => stepwise_pure _
  | .text line => by
    rw [lower]
    exact stepwise_pure _
  | .int _ | .float _ | .access _ | .call .. => by
    rw [lower]
    exact stepwise_fail _

/-- Lowering statements in order is stepwise. -/
theorem stepwise_lowerAll : (body : List Node) → (lowerAll body).Stepwise
  | [] => by
    rw [lowerAll]
    exact stepwise_pure _
  | node :: rest => by
    rw [lowerAll]
    exact (stepwise_lower node).bind fun _ => (stepwise_lowerAll rest).bind fun _ =>
      stepwise_pure _

end

end Lowering

/-- One use of a session: a single phrase, or a program. -/
inductive Call where
  | phrase (node : Node)
  | program (body : List Node)

namespace Call

/-- The statements handed over. -/
def body : Call → List Node
  | .phrase node => [node]
  | .program body => body

/-- How the statements are lowered. -/
def lowering : Call → Lowering (List Command)
  | .phrase node => Lowering.lower node
  | .program body => Lowering.lowerAll body

private theorem stepwise_lowering (call : Call) : call.lowering.Stepwise := by
  cases call with
  | phrase node => exact Lowering.stepwise_lower node
  | program body => exact Lowering.stepwise_lowerAll body

end Call

namespace Session

open Moment

/-- Serves one call. -/
def call (s : Session) : Call → Except LowerError (List Command) × Session
  | .phrase node => s.lower node
  | .program body => s.lowerAll body

/-- The session after calls in order, whether or not each of them succeeds. -/
def after (s : Session) (calls : List Call) : Session :=
  calls.foldl (fun s c => (s.call c).2) s

/-- A call runs the lowering of its statements. -/
theorem call_eq_run (s : Session) (c : Call) : s.call c = s.run c.lowering := by
  cases c <;> rfl

@[simp] theorem after_nil (s : Session) : s.after [] = s := rfl

@[simp] theorem after_cons (s : Session) (c : Call) (calls : List Call) :
    s.after (c :: calls) = (s.call c).2.after calls := rfl

/-- A call is a row of steps and the end of the lowering. -/
theorem call_cases (s : Session) (c : Call) :
    ∃ t, Reaches ⟨[], s⟩ ⟨[], t⟩ ∧
      ((∃ commands, c.lowering s = (.ok commands, t) ∧ s.call c = (.ok commands, t.commit)) ∨
        ∃ e, c.lowering s = (.error e, t) ∧ s.call c = (.error e, t.rollback)) := by
  have hsteps := c.stepwise_lowering [] s
  rw [call_eq_run, run]
  cases h : c.lowering s with
  | mk result t =>
    rw [h] at hsteps
    refine ⟨t, hsteps, ?_⟩
    cases result with
    | ok commands => exact Or.inl ⟨commands, rfl, rfl⟩
    | error e => exact Or.inr ⟨e, rfl, rfl⟩

/-- A call that succeeds commits what its lowering did. -/
theorem exists_commit_of_call {s : Session} {c : Call} {commands : List Command}
    (h : (s.call c).1 = .ok commands) :
    ∃ t, Reaches ⟨[], s⟩ ⟨[], t⟩ ∧ c.lowering s = (.ok commands, t) ∧ (s.call c).2 = t.commit := by
  obtain ⟨t, hsteps, ⟨commands', hok, hcall⟩ | ⟨e, -, hcall⟩⟩ := s.call_cases c
  · rw [hcall] at h ⊢
    obtain rfl := Except.ok.inj h
    exact ⟨t, hsteps, hok, rfl⟩
  · rw [hcall] at h
    cases h

/-- A call that fails rolls back what its lowering did. -/
theorem exists_rollback_of_call {s : Session} {c : Call} {e : LowerError}
    (h : (s.call c).1 = .error e) :
    ∃ t, Reaches ⟨[], s⟩ ⟨[], t⟩ ∧ c.lowering s = (.error e, t) ∧ (s.call c).2 = t.rollback := by
  obtain ⟨t, hsteps, ⟨commands, -, hcall⟩ | ⟨e', hbroken, hcall⟩⟩ := s.call_cases c
  · rw [hcall] at h
    cases h
  · rw [hcall] at h ⊢
    obtain rfl := Except.error.inj h
    exact ⟨t, hsteps, hbroken, rfl⟩

end Session

namespace Moment

/-- A call leads from one reachable session to another, succeeding or not. -/
theorem Reachable.call {s : Session} (hs : Reachable ⟨[], s⟩) (c : Call) :
    Reachable ⟨[], (s.call c).2⟩ := by
  obtain ⟨t, hsteps, ⟨commands, -, h⟩ | ⟨e, -, h⟩⟩ := s.call_cases c
  · rw [h]
    exact (hs.reaches hsteps).commit
  · rw [h]
    exact (hs.reaches hsteps).rollback

/-- Calls in a row lead from one reachable session to another. -/
theorem Reachable.after {s : Session} (hs : Reachable ⟨[], s⟩) (calls : List Call) :
    Reachable ⟨[], s.after calls⟩ := by
  induction calls generalizing s with
  | nil => exact hs
  | cons c calls ih => exact ih (hs.call c)

end Moment

end Datapack
