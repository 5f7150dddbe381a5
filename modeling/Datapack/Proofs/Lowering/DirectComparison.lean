import Datapack.Proofs.Lowering.Preservation

/-!
# Comparing in place

Scores in front of a single command are compared in place, without copies. The
copies would make no difference: both ways succeed or fail alike, with the same
error, and declare the same stores apart from the scratch store; and their
commands do the same to every board.

The two ways run on different sessions, since only one of them creates the
scratch store and takes registers. So they are followed side by side, on
sessions that know the same stores.
-/

namespace Datapack

namespace Moment

/-- Two moments in which the same stores are declared, the scratch store aside. The second one has
the scratch store. -/
structure Alike (m n : Moment) : Prop where
  left : m.Reachable
  right : n.Reachable
  isDeclared_eq : ∀ name, name ≠ scratchStore →
    m.session.isDeclared name = n.session.isDeclared name
  scratch_declared : n.session.isDeclared scratchStore = true

/-- Declared stores have a target name at every moment. -/
theorem Reachable.exists_storeName? {m : Moment} (h : m.Reachable) {name : String}
    (hd : m.session.isDeclared name = true) : ∃ short, m.session.storeName? name = some short := by
  obtain ⟨short, hshort⟩ := h.accounted.named hd
  exact ⟨short, (if_pos hd).trans hshort⟩

end Moment

namespace Lowering

open Moment

/-- A score of a declared store is found, and its entry is named on the way. -/
theorem scoreOf_of_some {s : Session} {a : Access} {store : String}
    (h : s.storeName? a.store = some store) :
    scoreOf a s = (.ok ⟨(s.nameEntry a.entry).1, store⟩, (s.nameEntry a.entry).2) :=
  scoreOf_eq_ok.mpr ⟨h, rfl⟩

/-- A score of a store that is not declared is an error, and the session stays as it is. -/
theorem scoreOf_of_none {s : Session} {a : Access} (h : s.storeName? a.store = none) :
    scoreOf a s = (.error (.unknownStore a.store), s) := by
  have hstore : storeName a.store s = (.error (.unknownStore a.store), s) := by
    rw [storeName, h]
  exact bind_apply_error hstore

/-- Both results are successes, or both are the same error. -/
def SameVerdict {α β : Type} (x : Except LowerError α) (y : Except LowerError β) : Prop :=
  (∃ a b, x = .ok a ∧ y = .ok b) ∨ ∃ e, x = .error e ∧ y = .error e

/-- On moments that are alike, both lowerings end alike. -/
def Parallel {α β : Type} (m : Lowering α) (n : Lowering β) : Prop :=
  ∀ ⦃held held' : List String⦄ ⦃s t : Session⦄, Alike ⟨held, s⟩ ⟨held', t⟩ →
    SameVerdict (m s).1 (n t).1 ∧ Alike ⟨held, (m s).2⟩ ⟨held', (n t).2⟩

section Parallel

variable {α β γ δ : Type} {m : Lowering α} {n : Lowering β}

private theorem parallel_pure (a : α) (b : β) : Parallel (pure a) (pure b) :=
  fun _ _ _ _ h => ⟨Or.inl ⟨a, b, rfl, rfl⟩, h⟩

private theorem parallel_fail (e : LowerError) :
    Parallel (fail e : Lowering α) (fail e : Lowering β) :=
  fun _ _ _ _ h => ⟨Or.inr ⟨e, rfl, rfl⟩, h⟩

/-- Steps that end alike may be followed by steps that end alike. -/
theorem Parallel.bind {f : α → Lowering γ} {g : β → Lowering δ} (hm : Parallel m n)
    (hf : ∀ a b, Parallel (f a) (g b)) : Parallel (m >>= f) (n >>= g) := by
  intro held held' s t h
  obtain ⟨hverdict, halike⟩ := hm h
  cases hs : m s with
  | mk x s' =>
    cases ht : n t with
    | mk y t' =>
      rw [hs, ht] at hverdict halike
      rcases hverdict with ⟨a, b, rfl, rfl⟩ | ⟨e, rfl, rfl⟩
      · rw [bind_apply_ok hs, bind_apply_ok ht]
        exact hf a b halike
      · rw [bind_apply_error hs, bind_apply_error ht]
        exact ⟨Or.inr ⟨e, rfl, rfl⟩, halike⟩

/-- A score outside the scratch store is found on both sides or on none. -/
theorem parallel_scoreOf {a : Access} (hstore : a.store ≠ scratchStore) :
    Parallel (scoreOf a) (scoreOf a) := by
  intro held held' s t h
  have hdeclared := h.isDeclared_eq a.store hstore
  cases hd : s.isDeclared a.store with
  | true =>
    obtain ⟨short, hs⟩ := h.left.exists_storeName? hd
    obtain ⟨short', ht⟩ := h.right.exists_storeName? (hdeclared.symm.trans hd)
    have hleft := Step.nameEntry held s a.entry
    have hright := Step.nameEntry held' t a.entry
    rw [scoreOf_of_some hs, scoreOf_of_some ht]
    refine ⟨Or.inl ⟨_, _, rfl, rfl⟩, h.left.step hleft, h.right.step hright, ?_, ?_⟩
    · intro name hname
      simpa using h.isDeclared_eq name hname
    · simpa using h.scratch_declared
  | false =>
    have hs : s.storeName? a.store = none := by simp [Session.storeName?, hd]
    have ht : t.storeName? a.store = none := by simp [Session.storeName?, ← hdeclared, hd]
    rw [scoreOf_of_none hs, scoreOf_of_none ht]
    exact ⟨Or.inr ⟨_, rfl, rfl⟩, h⟩

/-- A store is declared on both sides, if it was not before. -/
theorem parallel_createStore (name : String) :
    Parallel (createStore name) (createStore name) := by
  intro held held' s t h
  have hleft := Step.createStore held s name
  have hright := Step.createStore held' t name
  refine ⟨Or.inl ⟨_, _, rfl, rfl⟩, h.left.step hleft, h.right.step hright, ?_, ?_⟩
  · intro other hother
    have hsame := h.isDeclared_eq other hother
    simp only [createStore, ofSession, Session.isDeclared_createStore] at hsame ⊢
    rw [hsame]
  · have hscratch := h.scratch_declared
    simp only [createStore, ofSession, Session.isDeclared_createStore] at hscratch ⊢
    rw [hscratch, Bool.true_or]

/-- A register of the second side is always found. -/
theorem Parallel.scratch_right {r : String} {g : Score → Lowering β}
    (h : ∀ x, Parallel m (g x)) : Parallel m (scoreOf (scratch r) >>= g) := by
  intro held held' s t halike
  obtain ⟨short, hscratch⟩ := halike.right.exists_storeName? halike.scratch_declared
  have hscore : scoreOf (scratch r) t = (.ok ⟨r, short⟩, t) := scoreOf_of_some hscratch
  rw [bind_apply_ok hscore]
  exact h _ halike

/-- The second side may take a register, and gives it back in any case. -/
theorem Parallel.withRegister_right {use : String → Lowering β}
    (h : ∀ r, Parallel m (use r)) : Parallel m (withRegister use) := by
  intro held held' s t halike
  have htaken : Alike ⟨held, s⟩ ⟨t.acquire.1 :: held', t.acquire.2⟩ :=
    ⟨halike.left, halike.right.step (.acquire held' t), halike.isDeclared_eq,
      halike.scratch_declared⟩
  obtain ⟨hverdict, hused⟩ := h t.acquire.1 htaken
  have hback := hused.right.step (.release _ _ _)
  exact ⟨hverdict, hused.left, hback, hused.isDeclared_eq, hused.scratch_declared⟩

/-- What the second side makes of its result does not matter. -/
theorem Parallel.map_right (h : Parallel m n) (f : β → γ) :
    Parallel m (n >>= fun b => pure (f b)) := by
  have hbind : Parallel (m >>= pure) (n >>= fun b => pure (f b)) :=
    h.bind fun a b => parallel_pure a (f b)
  rwa [bind_pure] at hbind

/-- The second side may start by creating the scratch store. -/
theorem Parallel.createScratch_right {g : List Command → Lowering β}
    (h : ∀ declaration, Parallel m (g declaration)) {held : List String} {s : Session}
    (hs : Reachable ⟨held, s⟩) :
    SameVerdict (m s).1 ((createStore scratchStore >>= g) s).1 ∧
      Alike ⟨held, (m s).2⟩ ⟨held, ((createStore scratchStore >>= g) s).2⟩ := by
  have hstart : Alike ⟨held, s⟩ ⟨held, (s.createStore scratchStore).2⟩ := by
    refine ⟨hs, hs.step (.createStore held s scratchStore), ?_, ?_⟩
    · intro name hname
      simp [Session.isDeclared_createStore, hname]
    · simp [Session.isDeclared_createStore]
  exact h _ hstart

/-- An assignment of one command ends alike on both sides. -/
theorem parallel_assign {target : Access} {o : Operator} {node : Node}
    (hone : assignsInOne o node = true) (htarget : target.store ≠ scratchStore)
    (hnode : scratchStore ∉ node.stores) :
    Parallel (assign target o node) (assign target o node) := by
  cases node with
  | int amount =>
    rw [assign, assignInt]
    cases EditVerb.ofOperator? o with
    | none => exact parallel_fail _
    | some verb => exact (parallel_scoreOf htarget).bind fun _ _ => parallel_pure _ _
  | access source =>
    have hsource : source.store ≠ scratchStore := fun he => hnode (by simp [Node.stores, he])
    rw [assign]
    exact (parallel_scoreOf htarget).bind fun _ _ =>
      (parallel_scoreOf hsource).bind fun _ _ => parallel_pure _ _
  | text line =>
    rw [assign, if_pos (beq_iff_eq.mp hone)]
    exact (parallel_scoreOf htarget).bind fun _ _ => parallel_pure _ _
  | _ => cases hone

/-- A statement of one command ends alike on both sides. -/
theorem parallel_lower {node : Node} (hsole : Sole node) (hnode : scratchStore ∉ node.stores) :
    Parallel (lower node) (lower node) := by
  induction hsole with
  | text line =>
    rw [lower]
    exact parallel_pure _ _
  | create store =>
    rw [lower]
    exact parallel_createStore store
  | assign hone =>
    rw [Node.stores, List.mem_cons, not_or] at hnode
    rw [lower]
    exact parallel_assign hone (Ne.symm hnode.1) hnode.2
  | block _ ih =>
    simp only [Node.stores, Node.storesAll, List.append_nil] at hnode
    rw [lower, lowerAll_singleton]
    exact ih hnode
  | runAs _ ih =>
    simp only [Node.stores, Node.storesAll, List.append_nil] at hnode
    rw [lower, lowerAll_singleton]
    exact (ih hnode).bind fun _ _ => parallel_pure _ _
  | branch hsole ih =>
    simp only [Node.stores, Node.storesAll, List.append_nil, List.mem_append, List.mem_singleton,
      not_or] at hnode
    obtain ⟨hx, hy, hbody⟩ := hnode
    rw [hsole.lower_branch]
    exact (parallel_scoreOf (Ne.symm hx)).bind fun _ _ => (parallel_scoreOf (Ne.symm hy)).bind
      fun _ _ => (ih hbody).bind fun _ _ => parallel_pure _ _

/-- Comparing in place ends as comparing copies does. -/
theorem parallel_compareCopies {negate : Bool} {x y : Access} {c : Comparator}
    {body : Lowering (List Command)} (hx : x.store ≠ scratchStore) (hy : y.store ≠ scratchStore)
    (hbody : Parallel body body) {held : List String} {s : Session} (hs : Reachable ⟨held, s⟩) :
    let fast := compareDirectly negate x c y body s
    let general := compareCopies negate (.access x) c (.access y) body s
    SameVerdict fast.1 general.1 ∧ Alike ⟨held, fast.2⟩ ⟨held, general.2⟩ := by
  refine Parallel.createScratch_right (fun declaration => ?_) hs
  refine Parallel.map_right (Parallel.withRegister_right fun r =>
    Parallel.withRegister_right fun q => ?_) _
  -- Copies add only lookups of registers, bound to succeed, between those made in place.
  simp only [assign, combine, bind_assoc, pure_bind]
  refine Parallel.scratch_right fun _ => (parallel_scoreOf hx).bind fun _ _ => ?_
  refine Parallel.scratch_right fun _ => (parallel_scoreOf hy).bind fun _ _ => ?_
  refine Parallel.scratch_right fun _ => Parallel.scratch_right fun _ => ?_
  exact hbody.bind fun _ _ => parallel_pure _ _

end Parallel

/-- What is known of a session before and after a statement of one command was lowered. -/
structure Settled (accesses : List Access) (stores : List String) (s t : Session) : Prop where
  /-- All scores lie in stores that were declared before. -/
  found : ∀ a ∈ accesses, ∃ short, s.storeName? a.store = some short
  /-- No store that was not mentioned has received a name. -/
  unmentioned : ∀ name, name ∉ stores → t.storeNames.lookup name = s.storeNames.lookup name

section Settled

variable {s t u : Session} {commands : List Command}

private theorem storeNames_of_scoreOf {a : Access} {x : Score} (h : scoreOf a s = (.ok x, t)) :
    t.storeNames = s.storeNames := by
  obtain ⟨-, hentry⟩ := scoreOf_eq_ok.mp h
  have hnames := s.storeNames_nameEntry a.entry
  rwa [hentry] at hnames

/-- Finding a score settles it, and leaves the rest to be settled. -/
theorem Settled.cons {a : Access} {x : Score} {accesses : List Access} {stores : List String}
    (ha : scoreOf a s = (.ok x, u)) (h : Settled accesses stores u t) :
    Settled (a :: accesses) stores s t := by
  refine ⟨?_, fun name hname => ?_⟩
  · intro c hc
    rcases List.mem_cons.mp hc with rfl | hc
    · exact ⟨x.store, (scoreOf_eq_ok.mp ha).1⟩
    · obtain ⟨short, hshort⟩ := h.found c hc
      exact ⟨short, (storeName?_of_scoreOf ha c.store).symm.trans hshort⟩
  · rw [h.unmentioned name hname, storeNames_of_scoreOf ha]

private theorem Settled.nil (stores : List String) (s : Session) : Settled [] stores s s :=
  ⟨fun _ h => absurd h List.not_mem_nil, fun _ _ => rfl⟩

private theorem Settled.mono {accesses : List Access} {stores stores' : List String}
    (hsub : stores ⊆ stores') (h : Settled accesses stores s t) : Settled accesses stores' s t :=
  ⟨h.found, fun name hname => h.unmentioned name fun hmem => hname (hsub hmem)⟩

private theorem settled_assign {target : Access} {o : Operator} {node : Node}
    (hone : assignsInOne o node = true) (h : assign target o node s = (.ok commands, t))
    (stores : List String) : Settled (target :: node.accesses) stores s t := by
  cases node with
  | int amount =>
    rw [assign, assignInt] at h
    cases hverb : EditVerb.ofOperator? o with
    | none =>
      rw [hverb] at h
      cases h
    | some verb =>
      rw [hverb] at h
      simp only [bind_eq_ok, pure_eq_ok] at h
      obtain ⟨x, u, hx, -, rfl⟩ := h
      exact .cons hx (.nil _ _)
  | access source =>
    simp only [assign, combine, bind_eq_ok, pure_eq_ok] at h
    obtain ⟨x, u, hx, y, v, hy, -, rfl⟩ := h
    exact .cons hx (.cons hy (.nil _ _))
  | text line =>
    rw [assign, if_pos (beq_iff_eq.mp hone)] at h
    simp only [capture, bind_eq_ok, pure_eq_ok] at h
    obtain ⟨x, u, hx, -, rfl⟩ := h
    exact .cons hx (.nil _ _)
  | _ => cases hone

/-- A statement of one command finds all its scores in stores that were there before. -/
theorem settled_lower {node : Node} (hsole : Sole node) (h : lower node s = (.ok commands, t)) :
    Settled node.accesses node.stores s t := by
  induction hsole generalizing s t commands with
  | text line =>
    rw [lower, pure_eq_ok] at h
    obtain ⟨-, rfl⟩ := h
    exact .nil _ _
  | create store =>
    rw [lower, createStore_eq_ok] at h
    obtain rfl : t = (s.createStore store).2 := by rw [h]
    refine ⟨fun _ ha => absurd ha List.not_mem_nil, fun name hname => ?_⟩
    exact s.lookup_createStore_of_ne store (List.ne_of_not_mem_cons hname)
  | assign hone =>
    rw [lower] at h
    exact settled_assign hone h _
  | block _ ih =>
    rw [lower, lowerAll_singleton] at h
    simp only [Node.accesses, Node.accessesAll, Node.stores, Node.storesAll, List.append_nil]
    exact ih h
  | runAs _ ih =>
    simp only [lower, lowerAll_singleton, bind_eq_ok, pure_eq_ok] at h
    obtain ⟨inner, u, hinner, -, rfl⟩ := h
    simp only [Node.accesses, Node.accessesAll, Node.stores, Node.storesAll, List.append_nil]
    exact ih hinner
  | branch hsole ih =>
    simp only [hsole.lower_branch, compareDirectly, bind_eq_ok, pure_eq_ok] at h
    obtain ⟨_, _, hx, _, _, hy, inner, u, hinner, -, rfl⟩ := h
    simp only [Node.accesses, Node.accessesAll, Node.stores, Node.storesAll, List.append_nil]
    refine .cons hx (.cons hy ((ih hinner).mono fun _ hmem => ?_))
    exact List.mem_append_right _ (List.mem_append_right _ hmem)

/-- Sessions that know the names of a settled statement have its scores at the same places. -/
theorem Settled.address_eq {accesses : List Access} {stores : List String} {v : Session}
    (h : Settled accesses stores s t) (hu : s.KeepsNames u) (hv : s.KeepsNames v)
    {a : Access} (ha : a ∈ accesses)
    (hentry : ∀ name ∈ a.entry.variableNames, ∃ short, s.variableName? name = some short) :
    u.address a = v.address a := by
  obtain ⟨store, hstore⟩ := h.found a ha
  have hlookup := Session.lookup_of_storeName? hstore
  have hname : u.entryName a.entry = v.entryName a.entry := by
    cases he : a.entry with
    | verbatim text => rfl
    | named name =>
      rw [he] at hentry
      obtain ⟨short, hshort⟩ := hentry name (List.mem_singleton_self name)
      simp only [Session.entryName, hu.variableNames hshort, hv.variableNames hshort]
  simp only [Session.address, hname, hu.storeNames hlookup, hv.storeNames hlookup]

end Settled

/-- A statement of one command means the same at the addresses of both ways of comparing, and both
do what it means. -/
theorem run_compare_eq {held : List String} {s t t' : Session} (hs : Reachable ⟨held, s⟩)
    {negate : Bool} {x y : Access} {c : Comparator} {node : Node} (hsole : Sole node)
    (hscratch : scratchStore ∉ (Node.branch negate (.access x) c (.access y) [node]).stores)
    {commands commands' : List Command}
    (hfast : compareDirectly negate x c y (lowerAll [node]) s = (.ok commands, t))
    (hgeneral :
      compareCopies negate (.access x) c (.access y) (lowerAll [node]) s = (.ok commands', t'))
    (hvariables : ∀ name ∈ (Node.branch negate (.access x) c (.access y) [node]).variableNames,
      ∃ short, s.variableName? name = some short)
    {p : Platform} (hp : p.Respects t'.scratch?) (b : Board) :
    (Machine.run p b commands).log = (Machine.run p b commands').log ∧
      ∀ z : Score, t'.scratch? ≠ some z.store →
        (Machine.run p b commands).scores z = (Machine.run p b commands').scores z := by
  let branch := Node.branch negate (.access x) c (.access y) [node]
  have hemits : Emits held (.statement branch) s commands t :=
    emits_compareDirectly hsole emits_lowerAll hfast
  have hemits' : Emits held (.statement branch) s commands' t' :=
    emits_compareCopies emits_lowerAll hgeneral
  rw [lowerAll_singleton, ← hsole.lower_branch] at hfast
  have hsettled := settled_lower (.branch hsole) hfast
  have hkeep := hemits.reaches.keepsNames
  have hkeep' := hemits'.reaches.keepsNames
  -- The fast way leaves the scratch store as it is, so it has no other name for it.
  have hname : ∀ {store}, t.scratch? = some store → t'.scratch? = some store := by
    intro store hstore
    have hsame : t.scratch? = s.scratch? := hsettled.unmentioned scratchStore hscratch
    exact hkeep'.storeNames (hsame.symm.trans hstore)
  have hp' : p.Respects t.scratch? := fun store hstore => hp store (hname hstore)
  have havoids := (hs.reaches hemits.reaches).address_avoids
  have havoids' := (hs.reaches hemits'.reaches).address_avoids
  have hmeans := hemits.means hs hscratch (.refl t) havoids hp' [] b
  have hmeans' := hemits'.means hs hscratch (.refl t') havoids' hp [] b
  have hcongr : ∀ a ∈ branch.accesses, t.address a = t'.address a := by
    intro a ha
    refine hsettled.address_eq hkeep hkeep' ha fun name hmem => hvariables name ?_
    exact List.mem_flatMap.mpr ⟨a, ha, hmem⟩
  simp only [Task.Means, Meaning.run_congr p [] _ hcongr, ← Machine.run_eq_runIn]
    at hmeans hmeans'
  refine ⟨hmeans.log_eq.trans hmeans'.log_eq.symm, fun z hz => ?_⟩
  have hz' : t.scratch? ≠ some z.store := fun hstore => hz (hname hstore)
  have hscore := hmeans.scores_eq z (Score.visible_of_ne hz' held)
  have hscore' := hmeans'.scores_eq z (Score.visible_of_ne hz held)
  exact hscore.trans hscore'.symm

/--
At every moment, also in the middle of a lowering with registers in use, comparing
two scores in place and comparing copies of them succeed or fail alike, with the
same error, and declare the same stores apart from the scratch store. Where they
succeed and all variables had their names before, the commands of both log the same
and leave the same scores outside the scratch store, on every board.
-/
theorem compareDirectly_agrees {held : List String} {s : Session}
    (hs : Reachable ⟨held, s⟩) {negate : Bool} {first second : Node} {c : Comparator}
    {body : List Node} {x y : Access} (hdirect : directOperands first second body = some (x, y))
    (hscratch : scratchStore ∉ (Node.branch negate first c second body).stores) :
    let fast := compareDirectly negate x c y (lowerAll body) s
    let general := compareCopies negate first c second (lowerAll body) s
    SameVerdict fast.1 general.1 ∧
      (∀ name, name ≠ scratchStore → fast.2.isDeclared name = general.2.isDeclared name) ∧
      ∀ commands commands', fast.1 = .ok commands → general.1 = .ok commands' →
        (∀ name ∈ (Node.branch negate first c second body).variableNames,
          ∃ short, s.variableName? name = some short) →
        ∀ p : Platform, p.Respects general.2.scratch? → ∀ b : Board,
          (Machine.run p b commands).log = (Machine.run p b commands').log ∧
            ∀ z : Score, general.2.scratch? ≠ some z.store →
              (Machine.run p b commands).scores z = (Machine.run p b commands').scores z := by
  intro fast general
  obtain ⟨rfl, rfl, node, rfl, hsole⟩ := directOperands_eq_some hdirect
  have hstores := hscratch
  simp only [Node.stores, Node.storesAll, List.append_nil, List.mem_append, List.mem_singleton,
    not_or] at hstores
  obtain ⟨hx, hy, hnode⟩ := hstores
  have hbody : Parallel (lowerAll [node]) (lowerAll [node]) := by
    rw [lowerAll_singleton]
    exact parallel_lower hsole hnode
  obtain ⟨hverdict, halike⟩ := parallel_compareCopies (Ne.symm hx) (Ne.symm hy) hbody hs
  refine ⟨hverdict, halike.isDeclared_eq, ?_⟩
  intro commands commands' hfast hgeneral hvariables p hp b
  exact run_compare_eq hs hsole hscratch (Prod.ext hfast rfl) (Prod.ext hgeneral rfl) hvariables
    hp b

/-- A scope and an assignment to one of the scores compared, while an outer phrase has a register
in use and before the scratch store was ever created. -/
theorem compareDirectly_agrees_scope :
    let i : Access := ⟨.named "i", "m"⟩
    let j : Access := ⟨.named "j", "m"⟩
    let calls := [.program [.create "m", .assign i .set (.int 1), .assign j .set (.access i)]]
    let s := (Session.fresh.after calls).acquire.2
    let body := [.runAs "@a" [.assign i .add (.access j)]]
    ∃ commands commands',
      (compareDirectly true i .lt j (lowerAll body) s).1 = .ok commands ∧
        (compareCopies true (.access i) .lt (.access j) (lowerAll body) s).1 = .ok commands' ∧
        (Machine.run .quiet ⟨fun _ => 7, []⟩ commands).scores ⟨"b", "a"⟩ =
          (Machine.run .quiet ⟨fun _ => 7, []⟩ commands').scores ⟨"b", "a"⟩ := by
  intro i j calls s body
  have hs : Reachable ⟨[(Session.fresh.after calls).acquire.1], s⟩ :=
    (Reachable.fresh.after calls).step (.acquire [] _)
  have hdirect : directOperands (.access i) (.access j) body = some (i, j) := by decide +kernel
  have hscratch : scratchStore ∉ (Node.branch true (.access i) .lt (.access j) body).stores := by
    decide +kernel
  have hvariables : ∀ name ∈ (Node.branch true (.access i) .lt (.access j) body).variableNames,
      (s.variableName? name).isSome = true := by decide +kernel
  have hok : (compareDirectly true i .lt j (lowerAll body) s).1.isOk = true := by decide +kernel
  have hvisible : (compareCopies true (.access i) .lt (.access j) (lowerAll body) s).2.scratch? ≠
      some "a" := by decide +kernel
  obtain ⟨hverdict, -, hrun⟩ := compareDirectly_agrees hs hdirect hscratch
  rcases hverdict with ⟨commands, commands', hfast, hgeneral⟩ | ⟨e, hfast, -⟩
  · refine ⟨commands, commands', hfast, hgeneral, ?_⟩
    exact (hrun commands commands' hfast hgeneral
      (fun name hname => Option.isSome_iff_exists.mp (hvariables name hname)) .quiet
      (Platform.quiet_respects _) _).2 ⟨"b", "a"⟩ hvisible
  · rw [hfast] at hok
    cases hok

end Lowering

end Datapack
