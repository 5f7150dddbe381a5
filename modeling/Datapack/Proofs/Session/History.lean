import Datapack.Proofs.Lowering.Declaration
import Datapack.Proofs.Lowering.Mirror

/-!
# What a session remembers

Of all that was lowered before, a call sees only which stores are declared: two
sessions in which the same ones are refuse it with the same error, or give the
same commands up to one renaming of generated names. So a call that failed leaves
no trace in later commands, the names aside, and may be taken out of the session.
-/

namespace Datapack

open Moment

/-- Entries that stand in the commands of a call as they are. -/
def Call.literals (c : Call) : List String :=
  (Node.accessesAll c.body).flatMap fun a => a.entry.literals

/-- Twins serve every call alike. -/
theorem Lowering.mirrors_call {m n : Moment} (h : Twin m n) (c : Call) :
    Mirrors m n c.lowering c.lowering (SameCommands c.literals) := by
  cases c with
  | phrase node =>
    refine mirrors_lower node ?_ m n h
    rw [Call.literals, Call.body, Node.accessesAll, Node.accessesAll, List.append_nil]
    exact List.Subset.refl _
  | program body => exact mirrors_lowerAll body (List.Subset.refl _) m n h

namespace Session

/-- Two sessions between calls, in which the same stores are declared. -/
structure Peers (s t : Session) : Prop where
  left : Reachable ⟨[], s⟩
  right : Reachable ⟨[], t⟩
  pending_left : s.pending = []
  pending_right : t.pending = []
  isDeclared_eq : ∀ name, s.isDeclared name = t.isDeclared name

/-- Between calls no declaration is pending. -/
theorem pending_after (calls : List Call) : (Session.fresh.after calls).pending = [] := by
  rcases List.eq_nil_or_concat calls with rfl | ⟨before, c, rfl⟩
  · rfl
  · rw [after, List.concat_eq_append, List.foldl_append]
    exact pending_call _ c

/-- A call that fails declares nothing. -/
theorem isDeclared_call_of_error {s : Session} (hpending : s.pending = []) {c : Call}
    {e : LowerError} (h : (s.call c).1 = .error e) (name : String) :
    (s.call c).2.isDeclared name = s.isDeclared name := by
  obtain ⟨t, hsteps, -, hcall⟩ := exists_rollback_of_call h
  rw [hcall]
  exact isDeclared_rollback hpending hsteps name

private theorem call_of_ok {s t : Session} {c : Call} {commands : List Command}
    (h : c.lowering s = (.ok commands, t)) : s.call c = (.ok commands, t.commit) := by
  rw [call_eq_run, run, h]

private theorem call_fst_of_error {s : Session} {c : Call} {e : LowerError}
    (h : (c.lowering s).1 = .error e) : (s.call c).1 = .error e := by
  obtain ⟨t, -, ⟨commands, hok, -⟩ | ⟨e', herror, hcall⟩⟩ := s.call_cases c
  · rw [hok] at h
    cases h
  · rw [herror] at h
    rw [hcall]
    exact h

/-- Both sessions serve the call with the same commands, or refuse it with the same error. -/
def Alike (s t : Session) (c : Call) : Prop :=
  (∃ xs ys, (s.call c).1 = .ok xs ∧ (t.call c).1 = .ok ys ∧
    SameCommands c.literals ⟨[], (s.call c).2⟩ ⟨[], (t.call c).2⟩ xs ys) ∨
  ∃ e, (s.call c).1 = .error e ∧ (t.call c).1 = .error e

namespace Peers

variable {s t : Session}

private theorem twin (h : Peers s t) :
    Twin ⟨[], s⟩ ⟨[], t⟩ := ⟨h.left, h.right, h.isDeclared_eq, rfl⟩

/-- A call on both sides leads to peers if the same stores are declared afterwards. -/
theorem of_call (h : Peers s t) (c : Call)
    (hdeclared : ∀ name, (s.call c).2.isDeclared name = (t.call c).2.isDeclared name) :
    Peers (s.call c).2 (t.call c).2 :=
  ⟨h.left.call c, h.right.call c, s.pending_call c, t.pending_call c, hdeclared⟩

/-- Peers serve a call alike and are peers again. -/
theorem call (h : Peers s t) (c : Call) : Alike s t c ∧ Peers (s.call c).2 (t.call c).2 := by
  rcases Lowering.mirrors_call h.twin c with ⟨xs, ys, s', t', hs, ht, hon, hsame⟩ | ⟨e, hs, ht⟩
  · have hdeclared := hon.twin.isDeclared_eq
    refine ⟨.inl ⟨xs, ys, ?_⟩, h.of_call c fun name => ?_⟩
    · rw [call_of_ok hs, call_of_ok ht]
      exact ⟨rfl, rfl, hsame.keep s'.keepsLabels_commit t'.keepsLabels_commit⟩
    · rw [call_of_ok hs, call_of_ok ht, isDeclared_commit, isDeclared_commit]
      exact hdeclared name
  · have hs := call_fst_of_error hs
    have ht := call_fst_of_error ht
    refine ⟨.inr ⟨e, hs, ht⟩, h.of_call c fun name => ?_⟩
    rw [isDeclared_call_of_error h.pending_left hs, isDeclared_call_of_error h.pending_right ht]
    exact h.isDeclared_eq name

/-- A call that fails on one side leaves peers behind. -/
theorem call_left (h : Peers s t) {c : Call} {e : LowerError} (herror : (s.call c).1 = .error e) :
    Peers (s.call c).2 t where
  left := h.left.call c
  right := h.right
  pending_left := s.pending_call c
  pending_right := h.pending_right
  isDeclared_eq name :=
    (isDeclared_call_of_error h.pending_left herror name).trans (h.isDeclared_eq name)

end Peers

/-- The calls that succeed, each with its commands. -/
def successes (s : Session) : List Call → List (Call × List Command)
  | [] => []
  | c :: calls =>
    match s.call c with
    | (.ok commands, t) => (c, commands) :: t.successes calls
    | (.error _, t) => t.successes calls

section Successes

variable {s : Session} {c : Call}

private theorem successes_cons_of_ok {commands : List Command} (h : (s.call c).1 = .ok commands)
    (calls : List Call) :
    s.successes (c :: calls) = (c, commands) :: (s.call c).2.successes calls := by
  rw [successes]
  split
  next hcall =>
    rw [hcall] at h ⊢
    cases h
    rfl
  next hcall =>
    rw [hcall] at h
    cases h

private theorem successes_cons_of_error {e : LowerError} (h : (s.call c).1 = .error e)
    (calls : List Call) : s.successes (c :: calls) = (s.call c).2.successes calls := by
  rw [successes]
  split
  next hcall =>
    rw [hcall] at h
    cases h
  next hcall => rw [hcall]

end Successes

/-- The calls that succeed do so without the others. -/
theorem Peers.successes {s t : Session} (h : Peers s t) (calls : List Call) :
    let kept := (s.successes calls).map Prod.fst
    (t.successes kept).map Prod.fst = kept ∧
      List.Forall₂ (fun p q => SameCommands p.1.literals ⟨[], s.after calls⟩ ⟨[], t.after kept⟩
        p.2 q.2) (s.successes calls) (t.successes kept) := by
  induction calls generalizing s t with
  | nil => exact ⟨rfl, .nil⟩
  | cons c calls ih =>
    obtain ⟨⟨xs, ys, hs, ht, hsame⟩ | ⟨e, hs, -⟩, hpeers⟩ := h.call c
    · obtain ⟨hkept, hrest⟩ := ih hpeers
      simp only [successes_cons_of_ok hs, List.map_cons, successes_cons_of_ok ht, after_cons]
      refine ⟨congrArg (c :: ·) hkept, .cons ?_ hrest⟩
      exact hsame.keep (keepsLabels_after _ _) (keepsLabels_after _ _)
    · -- The call is left out on the right, so only the left session goes on.
      simp only [successes_cons_of_error hs, after_cons]
      exact ih (h.call_left hs)

/-- The second row of commands is the first one with its generated names renamed; all other texts
at name positions are among the literals. -/
def Renamed (s : Session) (literals : List String) (rename : Equiv.Perm String)
    (xs ys : List Command) : Prop :=
  ∃ outlines : List CommandOutline,
    xs = outlines.map (CommandOutline.spell s.nameOf) ∧
    ys = outlines.map (CommandOutline.spell fun label => rename (s.nameOf label)) ∧
    (∀ label, .generated label ∈ outlines.flatMap CommandOutline.names →
      (label? ⟨[], s⟩ label).isSome = true) ∧
    ∀ text, .literal text ∈ outlines.flatMap CommandOutline.names → text ∈ literals

private theorem renamed_of_sameCommands {s t : Session} {literals : List String}
    {rename : Equiv.Perm String} {xs ys : List Command}
    (hrename : ∀ label, (label? ⟨[], s⟩ label).isSome = true →
      (label? ⟨[], t⟩ label).isSome = true → t.nameOf label = rename (s.nameOf label))
    (h : SameCommands literals ⟨[], s⟩ ⟨[], t⟩ xs ys) : s.Renamed literals rename xs ys := by
  obtain ⟨outlines, hxs, hys, hknown⟩ := h
  refine ⟨outlines, hxs, hys.trans ?_, hknown.left, hknown.literal⟩
  refine List.map_congr_left fun outline ho => CommandOutline.spell_congr fun label hl => ?_
  have hmem := List.mem_flatMap.mpr ⟨outline, ho, hl⟩
  exact hrename label (hknown.left label hmem) (hknown.right label hmem)

/--
After any calls, failed ones among them, a call sees only which stores are
declared: two sessions in which the same ones are refuse it with the same error, or
serve it with commands that differ by one renaming of generated names, and the
same stores are declared again. So without the calls that fail, all other calls
of a session succeed, with commands that differ by one renaming for all of them.
-/
theorem call_history :
    (∀ (calls calls' : List Call) (c : Call),
      let s := Session.fresh.after calls
      let t := Session.fresh.after calls'
      (∀ name, s.isDeclared name = t.isDeclared name) →
        ((∃ e, (s.call c).1 = .error e ∧ (t.call c).1 = .error e) ∨
          ∃ (xs ys : List Command) (rename : Equiv.Perm String),
            (s.call c).1 = .ok xs ∧ (t.call c).1 = .ok ys ∧
              (s.call c).2.Renamed c.literals rename xs ys) ∧
        ∀ name, (s.call c).2.isDeclared name = (t.call c).2.isDeclared name) ∧
    ∀ calls : List Call,
      let kept := (Session.fresh.successes calls).map Prod.fst
      (Session.fresh.successes kept).map Prod.fst = kept ∧
        ∃ rename : Equiv.Perm String, List.Forall₂
          (fun p q => (Session.fresh.after calls).Renamed p.1.literals rename p.2 q.2)
          (Session.fresh.successes calls) (Session.fresh.successes kept) := by
  constructor
  · intro calls calls' c s t hdeclared
    have hpeers : Peers s t := ⟨.after .fresh calls, .after .fresh calls', pending_after calls,
      pending_after calls', hdeclared⟩
    obtain ⟨halike, hafter⟩ := hpeers.call c
    refine ⟨?_, hafter.isDeclared_eq⟩
    rcases halike with ⟨xs, ys, hs, ht, hsame⟩ | herror
    · obtain ⟨rename, hrename⟩ := exists_renaming hafter.left hafter.right
      exact .inr ⟨xs, ys, rename, hs, ht, renamed_of_sameCommands hrename hsame⟩
    · exact .inl herror
  · intro calls kept
    have hpeers : Peers .fresh .fresh := ⟨.fresh, .fresh, rfl, rfl, fun _ => rfl⟩
    obtain ⟨hkept, hsame⟩ := hpeers.successes calls
    obtain ⟨rename, hrename⟩ :=
      exists_renaming (Reachable.fresh.after calls) (Reachable.fresh.after kept)
    exact ⟨hkept, rename, hsame.imp fun _ _ h => renamed_of_sameCommands hrename h⟩

/-- The second session has seen a failed call and a variable that the first has not. -/
theorem call_history_after_failure :
    let s := Session.fresh.after [.program [.create "a"]]
    let t := Session.fresh.after [.phrase (.block [.create "b", .int 1]),
      .program [.create "a"], .phrase (.assign ⟨.named "x", "a"⟩ .set (.int 1))]
    let c := Call.phrase (.assign ⟨.named "y", "a"⟩ .set
      (.calc (.access ⟨.named "y", "a"⟩) .add (.int 1)))
    (∀ name, s.isDeclared name = t.isDeclared name) ∧
      ∃ (xs ys : List Command) (rename : Equiv.Perm String),
        (s.call c).1 = .ok xs ∧ (t.call c).1 = .ok ys ∧ xs ≠ ys ∧
          (s.call c).2.Renamed c.literals rename xs ys := by
  intro s t c
  have hdeclared : ∀ name, s.isDeclared name = t.isDeclared name := fun _ => rfl
  refine ⟨hdeclared, ?_⟩
  have hdiffer : (s.call c).1 ≠ (t.call c).1 := by decide +kernel
  rcases (call_history.1 _ _ c hdeclared).1 with ⟨e, hs, ht⟩ | ⟨xs, ys, rename, hs, ht, h⟩
  · exact (hdiffer (hs.trans ht.symm)).elim
  · refine ⟨xs, ys, rename, hs, ht, ?_, h⟩
    rintro rfl
    exact hdiffer (hs.trans ht.symm)

end Session

end Datapack
