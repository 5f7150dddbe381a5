import Datapack.Proofs.Session.Steps

/-!
# What a successful lowering emits

A lowering that succeeds is broken up once, into a derivation that names every
session on the way, the registers in use and the commands of every part. Laws
about the commands of a program are then proved by induction on the derivation.
A comparison of two scores in front of a single command has two derivations, one
in place and one through copies, of which lowering takes the first.
-/

namespace Datapack

/-- The statement that bodies of one statement lead to. -/
def Node.innermost : Node → Node
  | .block [node] => node.innermost
  | .runAs _ [node] => node.innermost
  | .branch _ _ _ _ [node] => node.innermost
  | node => node

/-- Whether the statement creates a store that is declared already. -/
def Session.recreates (s : Session) : Node → Bool
  | .create store => s.isDeclared store
  | _ => false

namespace Lowering

/-- Steps may be grouped at will. -/
instance : LawfulMonad Lowering := by
  refine LawfulMonad.mk' Lowering ?_ (fun _ _ => rfl) ?_
  · intro α m
    funext s
    cases h : m s with
    | mk result t =>
      cases result with
      | ok a => exact bind_apply_ok h
      | error e => exact bind_apply_error h
  · intro α β γ m f g
    funext s
    cases h : m s with
    | mk result t =>
      cases result with
      | ok a =>
        rw [bind_apply_ok h]
        simp only [bind, h]
      | error e =>
        have hfirst : (m >>= f) s = (.error e, t) := bind_apply_error h
        rw [bind_apply_error h, bind_apply_error hfirst]

section Success

variable {α β : Type} {s t : Session}

/-- A result that is no error is the result of a success. -/
theorem exists_of_isOk {ε : Type} {r : Except ε α} (h : r.isOk = true) : ∃ a, r = .ok a := by
  cases r with
  | ok a => exact ⟨a, rfl⟩
  | error e => cases h

/-- A row of two steps succeeds when both do. -/
theorem bind_eq_ok {m : Lowering α} {f : α → Lowering β} {b : β} :
    (m >>= f) s = (.ok b, t) ↔ ∃ a u, m s = (.ok a, u) ∧ f a u = (.ok b, t) := by
  cases h : m s with
  | mk result u =>
    cases result with
    | ok a =>
      rw [bind_apply_ok h]
      constructor
      · intro hf
        exact ⟨a, u, rfl, hf⟩
      · rintro ⟨a', u', heq, hf⟩
        cases heq
        exact hf
    | error e =>
      rw [bind_apply_error h]
      constructor
      · intro hf
        cases hf
      · rintro ⟨a', u', heq, -⟩
        cases heq

/-- A step that does nothing returns its value and leaves the session as it is. -/
theorem pure_eq_ok {a b : α} : (pure a : Lowering α) s = (.ok b, t) ↔ a = b ∧ s = t := by
  rw [pure_apply, Prod.mk.injEq, Except.ok.injEq]

/-- The name of a store is found if the store is declared, and the session stays as it is. -/
theorem storeName_eq_ok {name short : String} :
    storeName name s = (.ok short, t) ↔ s.storeName? name = some short ∧ s = t := by
  unfold storeName
  cases s.storeName? name <;> simp

/-- Creating a store never fails. -/
theorem createStore_eq_ok {name : String} {commands : List Command} :
    createStore name s = (.ok commands, t) ↔ s.createStore name = (commands, t) := by
  simp only [createStore, ofSession, Except.ok.injEq, Prod.ext_iff]

/-- A score is found where its store is declared; its entry may be named on the way. -/
theorem scoreOf_eq_ok {a : Access} {x : Score} :
    scoreOf a s = (.ok x, t) ↔
      s.storeName? a.store = some x.store ∧ s.nameEntry a.entry = (x.entry, t) := by
  simp only [scoreOf, bind_eq_ok, pure_eq_ok, storeName_eq_ok, ofSession]
  constructor
  · rintro ⟨store, u, ⟨hstore, rfl⟩, entry, v, hentry, rfl, rfl⟩
    simp only [Prod.mk.injEq, Except.ok.injEq] at hentry
    exact ⟨hstore, Prod.ext hentry.1 hentry.2⟩
  · rintro ⟨hstore, hentry⟩
    refine ⟨x.store, s, ⟨hstore, rfl⟩, x.entry, t, ?_, rfl, rfl⟩
    rw [hentry]

/-- A lowering with a register succeeds when the work with the register does. -/
theorem withRegister_eq_ok {use : String → Lowering α} {a : α} :
    withRegister use s = (.ok a, t) ↔
      ∃ r s₁ u, s.acquire = (r, s₁) ∧ use r s₁ = (.ok a, u) ∧ u.release r = t := by
  simp only [withRegister]
  constructor
  · intro h
    simp only [Prod.mk.injEq] at h
    exact ⟨_, _, (use s.acquire.1 s.acquire.2).2, rfl, Prod.ext h.1 rfl, h.2⟩
  · rintro ⟨r, s₁, u, htake, huse, rfl⟩
    rw [htake]
    simp only [huse]

/-- The check passes operands and leaves the session as it is. -/
theorem checkOperand_eq_ok {node : Node} {u : Unit} :
    checkOperand node s = (.ok u, t) ↔ isOperand node = true ∧ s = t := by
  unfold checkOperand
  split
  next h => simp [pure_apply, h]
  next h => simp [fail, h]

end Success

private theorem isAccess_iff {node : Node} : isAccess node = true ↔ ∃ a, node = .access a := by
  cases node <;> simp [isAccess]

/-- Statements that lower to at most one command, without registers. -/
inductive Sole : Node → Prop
  | text (line : String) : Sole (.text line)
  | create (store : String) : Sole (.create store)
  | assign {target o value} : assignsInOne o value = true → Sole (.assign target o value)
  | block {node} : Sole node → Sole (.block [node])
  | runAs {selector node} : Sole node → Sole (.runAs selector [node])
  | branch {negate x c y node} :
      Sole node → Sole (.branch negate (.access x) c (.access y) [node])

mutual

/-- The test admits only statements that lower to at most one command. -/
theorem sole_of_lowersToOne : {node : Node} → lowersToOne node = true → Sole node
  | .text line, _ => .text line
  | .create store, _ => .create store
  | .assign .., h => by
    rw [lowersToOne] at h
    exact .assign h
  | .block body, h => by
    rw [lowersToOne] at h
    obtain ⟨node, rfl, hnode⟩ := sole_of_soleLowersToOne h
    exact .block hnode
  | .runAs selector body, h => by
    rw [lowersToOne] at h
    obtain ⟨node, rfl, hnode⟩ := sole_of_soleLowersToOne h
    exact .runAs hnode
  | .branch negate first c second body, h => by
    simp only [lowersToOne, Bool.and_eq_true] at h
    obtain ⟨⟨hfirst, hsecond⟩, hbody⟩ := h
    obtain ⟨x, rfl⟩ := isAccess_iff.mp hfirst
    obtain ⟨y, rfl⟩ := isAccess_iff.mp hsecond
    obtain ⟨node, rfl, hnode⟩ := sole_of_soleLowersToOne hbody
    exact .branch hnode

private theorem sole_of_soleLowersToOne : {body : List Node} → soleLowersToOne body = true →
    ∃ node, body = [node] ∧ Sole node
  | [node], h => by
    rw [soleLowersToOne] at h
    exact ⟨node, rfl, sole_of_lowersToOne h⟩

end

/-- The test admits all statements that lower to at most one command by their form. -/
theorem Sole.lowersToOne_eq {node : Node} (h : Sole node) : lowersToOne node = true := by
  induction h with
  | text | create => rw [lowersToOne]
  | assign h =>
    rw [lowersToOne]
    exact h
  | block _ ih | runAs _ ih =>
    rw [lowersToOne, soleLowersToOne]
    exact ih
  | branch _ ih => simp only [lowersToOne, soleLowersToOne, isAccess, ih, Bool.and_self]

/-- A row of one statement is lowered as the statement. -/
theorem lowerAll_singleton (node : Node) : lowerAll [node] = lower node := by
  simp only [lowerAll, pure_bind, List.append_nil, bind_pure]

/-- Scores are compared in place in front of a statement of one command. -/
theorem Sole.lower_branch {node : Node} (h : Sole node) (negate : Bool) (x : Access)
    (c : Comparator) (y : Access) :
    lower (.branch negate (.access x) c (.access y) [node]) =
      compareDirectly negate x c y (lower node) := by
  rw [lower, directOperands, soleLowersToOne, if_pos h.lowersToOne_eq, lowerAll_singleton]

/-- Scores are compared in place only in front of a statement of one command. -/
theorem directOperands_eq_some {first second : Node} {body : List Node} {x y : Access}
    (h : directOperands first second body = some (x, y)) :
    first = .access x ∧ second = .access y ∧ ∃ node, body = [node] ∧ Sole node := by
  unfold directOperands at h
  split at h
  · split at h
    next hsole =>
      cases h
      exact ⟨rfl, rfl, sole_of_soleLowersToOne hsole⟩
    next => cases h
  · cases h

section SingleCommand

variable {s t : Session} {commands : List Command}

private theorem length_createStore {name : String} (h : s.createStore name = (commands, t)) :
    commands.length = if s.isDeclared name then 0 else 1 := by
  obtain rfl : (s.createStore name).1 = commands := by rw [h]
  unfold Session.createStore
  split <;> rfl

/-- An edit has as many commands as foretold. -/
theorem length_edit (verb : EditVerb) (x : Score) (amount : Int32) :
    (Command.edit verb x amount).length = Command.editLength verb amount := by
  unfold Command.edit Command.editLength
  by_cases hmin : amount = Int32.minValue
  · subst hmin
    cases verb <;> rfl
  · cases verb <;> simp only [EditVerb.opposite?, hmin, and_false, if_false] <;>
      first | rfl | (split <;> rfl)

private theorem length_assign {target : Access} {o : Operator} {node : Node}
    (hone : assignsInOne o node = true) (h : assign target o node s = (.ok commands, t)) :
    commands.length = 1 := by
  cases node with
  | int amount =>
    rw [assign, assignInt] at h
    rw [assignsInOne] at hone
    cases hverb : EditVerb.ofOperator? o with
    | none =>
      rw [hverb] at h
      cases h
    | some verb =>
      rw [hverb] at h hone
      simp only [bind_eq_ok, pure_eq_ok] at h
      obtain ⟨x, u, -, rfl, -⟩ := h
      rw [length_edit]
      exact beq_iff_eq.mp hone
  | access source =>
    simp only [assign, combine, bind_eq_ok, pure_eq_ok] at h
    obtain ⟨x, u, -, y, v, -, rfl, -⟩ := h
    rfl
  | text line =>
    rw [assign, if_pos (beq_iff_eq.mp hone)] at h
    simp only [capture, bind_eq_ok, pure_eq_ok] at h
    obtain ⟨x, u, -, rfl, -⟩ := h
    rfl
  | _ => cases hone

/-- Finding a score creates no store. -/
theorem recreates_of_scoreOf {a : Access} {x : Score} (h : scoreOf a s = (.ok x, t)) (node : Node) :
    t.recreates node = s.recreates node := by
  obtain rfl : (s.nameEntry a.entry).2 = t := by rw [(scoreOf_eq_ok.mp h).2]
  cases node with
  | create store => exact s.isDeclared_nameEntry a.entry store
  | _ => rfl

/-- A statement of one command lowers to one, or to none if all it does is to create a store that
is declared already. -/
theorem Sole.length_eq {node : Node} (hnode : Sole node) (h : lower node s = (.ok commands, t)) :
    commands.length = if s.recreates node.innermost then 0 else 1 := by
  induction hnode generalizing s t commands with
  | text line =>
    rw [lower, pure_eq_ok] at h
    obtain ⟨rfl, -⟩ := h
    rfl
  | create store =>
    rw [lower, createStore_eq_ok] at h
    exact length_createStore h
  | assign hone =>
    rw [lower] at h
    exact length_assign hone h
  | block _ ih =>
    rw [lower, lowerAll_singleton] at h
    exact ih h
  | runAs _ ih =>
    simp only [lower, lowerAll_singleton, bind_eq_ok, pure_eq_ok] at h
    obtain ⟨inner, u, hinner, rfl, -⟩ := h
    rw [List.length_map]
    exact ih hinner
  | @branch _ _ _ _ node hnode ih =>
    simp only [hnode.lower_branch, compareDirectly, bind_eq_ok, pure_eq_ok] at h
    obtain ⟨_, _, hx, _, _, hy, inner, u, hinner, rfl, -⟩ := h
    have hbefore := (recreates_of_scoreOf hy node.innermost).trans (recreates_of_scoreOf hx _)
    rw [List.length_map, ih hinner, hbefore]
    rfl

private theorem Sole.length_le_one {node : Node} (hnode : Sole node)
    (h : lower node s = (.ok commands, t)) : commands.length ≤ 1 := by
  rw [hnode.length_eq h]
  split <;> decide

end SingleCommand

/-- What is to be turned into commands. -/
inductive Task where
  | assign (target : Access) (o : Operator) (value : Node)
  /-- Two values, each loaded into a register. -/
  | operands (r : String) (first : Node) (q : String) (second : Node)
  /-- A calculation that leaves its result in a register. -/
  | calculation (result : String) (first : Node) (o : Operator) (second : Node)
  | statement (node : Node)
  | statements (body : List Node)

/-- `Emits held task s commands t`: with the registers `held` in use, the task becomes the
commands and leads from session `s` to session `t`. -/
inductive Emits : List String → Task → Session → List Command → Session → Prop
  | int {held target o amount verb x s t} :
      EditVerb.ofOperator? o = some verb → scoreOf target s = (.ok x, t) →
      Emits held (.assign target o (.int amount)) s (Command.edit verb x amount) t
  | access {held target o source x y s u t} :
      scoreOf target s = (.ok x, u) → scoreOf source u = (.ok y, t) →
      Emits held (.assign target o (.access source)) s [.operate x o y] t
  | captured {held target line x s t} :
      scoreOf target s = (.ok x, t) →
      Emits held (.assign target .set (.text line)) s [.keepResult x line] t
  | capturedFirst {held target o line s declaration s₁ r s₂ captured s₃ combined s₄} :
      s.createStore scratchStore = (declaration, s₁) → s₁.acquire = (r, s₂) →
      Emits (r :: held) (.assign (scratch r) .set (.text line)) s₂ captured s₃ →
      Emits (r :: held) (.assign target o (.access (scratch r))) s₃ combined s₄ →
      Emits held (.assign target o (.text line)) s (declaration ++ (captured ++ combined))
        (s₄.release r)
  | calculated {held target o first p second r s commands u combined t} :
      Emits held (.calculation r first p second) s commands u →
      Emits held (.assign target o (.access (scratch r))) u combined t →
      Emits held (.assign target o (.calc first p second)) s (commands ++ combined) t
  | operands {held r first q second s loaded u loaded' t} :
      Emits held (.assign (scratch r) .set first) s loaded u →
      Emits held (.assign (scratch q) .set second) u loaded' t →
      Emits held (.operands r first q second) s (loaded ++ loaded') t
  | calculation {held first o second s declaration s₁ r s₂ q s₃ loaded s₄ combined s₅} :
      isOperand first = true → isOperand second = true →
      s.createStore scratchStore = (declaration, s₁) →
      s₁.acquire = (r, s₂) → s₂.acquire = (q, s₃) →
      Emits (q :: r :: held) (.operands r first q second) s₃ loaded s₄ →
      Emits (q :: r :: held) (.assign (scratch r) o (.access (scratch q))) s₄ combined s₅ →
      Emits held (.calculation r first o second) s (declaration ++ (loaded ++ combined))
        ((s₅.release q).release r)
  | block {held body s commands t} :
      Emits held (.statements body) s commands t →
      Emits held (.statement (.block body)) s commands t
  | create {held store s commands t} :
      s.createStore store = (commands, t) →
      Emits held (.statement (.create store)) s commands t
  | assign {held target o value s commands t} :
      Emits held (.assign target o value) s commands t →
      Emits held (.statement (.assign target o value)) s commands t
  | discarded {held first o second r s commands t} :
      Emits held (.calculation r first o second) s commands t →
      Emits held (.statement (.calc first o second)) s commands t
  | direct {held negate first c second body x y s u v commands t} :
      scoreOf first s = (.ok x, u) → scoreOf second u = (.ok y, v) →
      Emits held (.statements body) v commands t → commands.length ≤ 1 →
      Emits held (.statement (.branch negate (.access first) c (.access second) body)) s
        (commands.map (Command.under (.compare negate x c y))) t
  | copies {held negate first c second body s declaration s₁ r s₂ q s₃ loaded s₄ x s₅ y s₆
      commands s₇} :
      s.createStore scratchStore = (declaration, s₁) →
      s₁.acquire = (r, s₂) → s₂.acquire = (q, s₃) →
      Emits (q :: r :: held) (.operands r first q second) s₃ loaded s₄ →
      scoreOf (scratch r) s₄ = (.ok x, s₅) → scoreOf (scratch q) s₅ = (.ok y, s₆) →
      Emits (q :: r :: held) (.statements body) s₆ commands s₇ →
      Emits held (.statement (.branch negate first c second body)) s
        (declaration ++ (loaded ++ commands.map (Command.under (.compare negate x c y))))
        ((s₇.release q).release r)
  | runAs {held selector body s commands t} :
      Emits held (.statements body) s commands t →
      Emits held (.statement (.runAs selector body)) s
        (commands.map (Command.under (.runAs selector))) t
  | text {held line s} : Emits held (.statement (.text line)) s [.raw line] s
  | nil {held s} : Emits held (.statements []) s [] s
  | cons {held node rest s commands u commands' t} :
      Emits held (.statement node) s commands u →
      Emits held (.statements rest) u commands' t →
      Emits held (.statements (node :: rest)) s (commands ++ commands') t

section Derivation

variable {held : List String} {s t : Session} {commands : List Command}

private theorem emits_combine {target source : Access} {o : Operator}
    (h : combine target o source s = (.ok commands, t)) :
    Emits held (.assign target o (.access source)) s commands t := by
  simp only [combine, bind_eq_ok, pure_eq_ok] at h
  obtain ⟨x, u, hx, y, v, hy, rfl, rfl⟩ := h
  exact .access hx hy

private theorem emits_capture {target : Access} {line : String}
    (h : capture target line s = (.ok commands, t)) :
    Emits held (.assign target .set (.text line)) s commands t := by
  simp only [capture, bind_eq_ok, pure_eq_ok] at h
  obtain ⟨x, u, hx, rfl, rfl⟩ := h
  exact .captured hx

private theorem emits_captureAndCombine {target : Access} {o : Operator} {line : String}
    (h : captureAndCombine target o line s = (.ok commands, t)) :
    Emits held (.assign target o (.text line)) s commands t := by
  simp only [captureAndCombine, bind_eq_ok, pure_eq_ok, storeName_eq_ok, createStore_eq_ok,
    withRegister_eq_ok] at h
  obtain ⟨_, _, ⟨-, rfl⟩, declaration, s₁, hdecl, _, _,
    ⟨r, s₂, _, htake, ⟨captured, s₃, hcap, combined, s₄, hcomb, rfl, rfl⟩, rfl⟩, rfl, rfl⟩ := h
  exact .capturedFirst hdecl htake (emits_capture hcap) (emits_combine hcomb)

/-- A calculation emits what its parts do, given that loading its operands does. -/
theorem emits_calculate (held : List String) {first second : Node} {o : Operator} {result : Access}
    (hop : isOperand first = true) (hop' : isOperand second = true)
    (hfirst : ∀ {held a s commands t}, assign a .set first s = (.ok commands, t) →
      Emits held (.assign a .set first) s commands t)
    (hsecond : ∀ {held a s commands t}, assign a .set second s = (.ok commands, t) →
      Emits held (.assign a .set second) s commands t)
    (h : calculate o (assign · .set first) (assign · .set second) s =
      (.ok (commands, result), t)) :
    ∃ r, result = scratch r ∧ Emits held (.calculation r first o second) s commands t := by
  simp only [calculate, bind_eq_ok, pure_eq_ok, createStore_eq_ok, withRegister_eq_ok,
    Prod.mk.injEq] at h
  obtain ⟨declaration, s₁, hdecl, r, s₂, _, hr, ⟨q, s₃, _, hq, ⟨loaded, s₄, hload, loaded', s₅,
    hload', combined, s₆, hcomb, ⟨rfl, rfl⟩, rfl⟩, rfl⟩, rfl⟩ := h
  rw [List.append_assoc declaration, List.append_assoc declaration]
  refine ⟨r, rfl, .calculation hop hop' hdecl hr hq ?_ (emits_combine hcomb)⟩
  exact .operands (hfirst hload) (hsecond hload')

/-- Every assignment that succeeds has a derivation. -/
theorem emits_assign {held : List String} {s t : Session} {commands : List Command}
    {target : Access} {o : Operator} : {node : Node} →
    assign target o node s = (.ok commands, t) → Emits held (.assign target o node) s commands t
  | .int amount, h => by
    rw [assign, assignInt] at h
    cases hverb : EditVerb.ofOperator? o with
    | none =>
      rw [hverb] at h
      cases h
    | some verb =>
      rw [hverb] at h
      simp only [bind_eq_ok, pure_eq_ok] at h
      obtain ⟨x, u, hx, rfl, rfl⟩ := h
      exact .int hverb hx
  | .access source, h => by
    rw [assign] at h
    exact emits_combine h
  | .calc first p second, h => by
    rw [assign] at h
    simp only [bind_eq_ok, pure_eq_ok, storeName_eq_ok, checkOperand_eq_ok] at h
    obtain ⟨_, _, ⟨-, rfl⟩, _, _, ⟨hop, rfl⟩, _, _, ⟨hop', rfl⟩, ⟨loads, result⟩, u, hcalc,
      combined, v, hcomb, rfl, rfl⟩ := h
    obtain ⟨r, rfl, hemits⟩ := emits_calculate held hop hop' emits_assign emits_assign hcalc
    exact .calculated hemits (emits_combine hcomb)
  | .text line, h => by
    rw [assign] at h
    split at h
    next hset =>
      subst hset
      exact emits_capture h
    next => exact emits_captureAndCombine h
  | .block _, h | .float _, h | .assign .., h | .branch .., h | .runAs .., h | .create _, h
  | .call .., h => by
    rw [assign] at h
    · cases h
    all_goals simp

/-- A comparison in place has a derivation, given that its body has one. -/
theorem emits_compareDirectly {negate : Bool} {first second : Access} {c : Comparator}
    {node : Node} (hsole : Sole node)
    (hbody : ∀ {s commands t}, lowerAll [node] s = (.ok commands, t) →
      Emits held (.statements [node]) s commands t)
    (h : compareDirectly negate first c second (lowerAll [node]) s = (.ok commands, t)) :
    Emits held (.statement (.branch negate (.access first) c (.access second) [node])) s
      commands t := by
  simp only [compareDirectly, bind_eq_ok, pure_eq_ok] at h
  obtain ⟨x, u, hx, y, v, hy, inner, w, hinner, rfl, rfl⟩ := h
  have hlength : inner.length ≤ 1 := by
    rw [lowerAll_singleton] at hinner
    exact hsole.length_le_one hinner
  exact .direct hx hy (hbody hinner) hlength

/-- A comparison of copies has a derivation, given that its body has one. -/
theorem emits_compareCopies {negate : Bool} {first second : Node} {c : Comparator}
    {body : List Node}
    (hbody : ∀ {held s commands t}, lowerAll body s = (.ok commands, t) →
      Emits held (.statements body) s commands t)
    (h : compareCopies negate first c second (lowerAll body) s = (.ok commands, t)) :
    Emits held (.statement (.branch negate first c second body)) s commands t := by
  simp only [compareCopies, bind_eq_ok, pure_eq_ok, createStore_eq_ok, withRegister_eq_ok] at h
  obtain ⟨declaration, s₁, hdecl, _, _, ⟨r, s₂, _, hr, ⟨q, s₃, _, hq, ⟨loaded, s₄, hload, loaded',
    s₅, hload', x, s₆, hx, y, s₇, hy, inner, s₈, hinner, rfl, rfl⟩, rfl⟩, rfl⟩, rfl, rfl⟩ := h
  refine .copies hdecl hr hq ?_ hx hy (hbody hinner)
  exact .operands (emits_assign hload) (emits_assign hload')

mutual

/-- Every statement that is lowered has a derivation. -/
theorem emits_lower {held : List String} {s t : Session} {commands : List Command} :
    {node : Node} → lower node s = (.ok commands, t) →
      Emits held (.statement node) s commands t
  | .block body, h => by
    rw [lower] at h
    exact .block (emits_lowerAll h)
  | .create store, h => by
    rw [lower, createStore_eq_ok] at h
    exact .create h
  | .assign target o value, h => by
    rw [lower] at h
    exact .assign (emits_assign h)
  | .calc first o second, h => by
    rw [lower] at h
    simp only [calculation, bind_eq_ok, pure_eq_ok, checkOperand_eq_ok] at h
    obtain ⟨⟨loads, result⟩, u, ⟨_, _, ⟨hop, rfl⟩, _, _, ⟨hop', rfl⟩, hcalc⟩, rfl, rfl⟩ := h
    obtain ⟨r, rfl, hemits⟩ := emits_calculate held hop hop' emits_assign emits_assign hcalc
    exact .discarded hemits
  | .branch negate first c second body, h => by
    rw [lower] at h
    cases hdirect : directOperands first second body with
    | some operands =>
      rw [hdirect] at h
      obtain ⟨rfl, rfl, only, rfl, hsole⟩ := directOperands_eq_some hdirect
      exact emits_compareDirectly hsole emits_lowerAll h
    | none =>
      rw [hdirect] at h
      exact emits_compareCopies emits_lowerAll h
  | .runAs selector body, h => by
    rw [lower] at h
    simp only [bind_eq_ok, pure_eq_ok] at h
    obtain ⟨inner, u, hinner, rfl, rfl⟩ := h
    exact .runAs (emits_lowerAll hinner)
  | .text line, h => by
    rw [lower, pure_eq_ok] at h
    obtain ⟨rfl, rfl⟩ := h
    exact .text
  | .int _, h | .float _, h | .access _, h | .call .., h => by
    rw [lower] at h
    cases h

/-- Statements that are lowered in order have a derivation. -/
theorem emits_lowerAll {held : List String} {s t : Session} {commands : List Command} :
    {body : List Node} → lowerAll body s = (.ok commands, t) →
      Emits held (.statements body) s commands t
  | [], h => by
    rw [lowerAll, pure_eq_ok] at h
    obtain ⟨rfl, rfl⟩ := h
    exact .nil
  | node :: rest, h => by
    rw [lowerAll] at h
    simp only [bind_eq_ok, pure_eq_ok] at h
    obtain ⟨first, u, hfirst, others, v, hothers, rfl, rfl⟩ := h
    exact .cons (emits_lower hfirst) (emits_lowerAll hothers)

end

/-- A call that succeeds has a derivation for its statements. -/
theorem emits_call {s : Session} {c : Call} {commands : List Command} {t : Session}
    (h : c.lowering s = (.ok commands, t)) :
    Emits held (.statements c.body) s commands t := by
  cases c with
  | phrase node =>
    have hcons : Emits held (.statements [node]) s (commands ++ []) t := .cons (emits_lower h) .nil
    rwa [List.append_nil] at hcons
  | program body => exact emits_lowerAll h

end Derivation

section Reaching

open Moment

variable {held : List String} {s t : Session} {commands : List Command}

/-- Finding a score is a row of steps. -/
theorem reaches_scoreOf {a : Access} {x : Score} (h : scoreOf a s = (.ok x, t)) :
    Reaches ⟨held, s⟩ ⟨held, t⟩ :=
  (stepwise_scoreOf a).reaches h

/-- Creating a store is a step. -/
theorem reaches_createStore {name : String} (h : s.createStore name = (commands, t)) :
    Reaches ⟨held, s⟩ ⟨held, t⟩ := by
  have hstep := Step.createStore held s name
  rw [h] at hstep
  exact .single hstep

/-- Taking a register is a step, after which it is in use. -/
theorem reaches_acquire {r : String} (h : s.acquire = (r, t)) :
    Reaches ⟨held, s⟩ ⟨r :: held, t⟩ := by
  have hstep := Step.acquire held s
  rw [h] at hstep
  exact .single hstep

/-- Creating the scratch store and taking two registers, as every comparison of copies and
every calculation does first. -/
theorem reaches_registers {declaration : List Command} {s₁ s₂ s₃ : Session} {r q : String}
    (hdecl : s.createStore scratchStore = (declaration, s₁)) (hr : s₁.acquire = (r, s₂))
    (hq : s₂.acquire = (q, s₃)) : Reaches ⟨held, s⟩ ⟨q :: r :: held, s₃⟩ :=
  ((reaches_createStore hdecl).trans (reaches_acquire hr)).trans (reaches_acquire hq)

/-- A derivation goes by steps and gives back the registers it takes. -/
theorem Emits.reaches {task : Task} (h : Emits held task s commands t) :
    Reaches ⟨held, s⟩ ⟨held, t⟩ := by
  induction h with
  | int _ hx => exact reaches_scoreOf hx
  | access hx hy => exact (reaches_scoreOf hx).trans (reaches_scoreOf hy)
  | captured hx => exact reaches_scoreOf hx
  | capturedFirst hdecl hr _ _ ihcap ihcomb =>
    have hcap := ((reaches_createStore hdecl).trans (reaches_acquire hr)).trans ihcap
    exact (hcap.trans ihcomb).tail (.release _ _ _)
  | calculated _ _ ihcalc ihcomb => exact ihcalc.trans ihcomb
  | operands _ _ ih ih' => exact ih.trans ih'
  | calculation _ _ hdecl hr hq _ _ ihload ihcomb =>
    have hwork := ((reaches_registers hdecl hr hq).trans ihload).trans ihcomb
    exact (hwork.tail (.release _ _ _)).tail (.release _ _ _)
  | block _ ih => exact ih
  | create h => exact reaches_createStore h
  | assign _ ih => exact ih
  | discarded _ ih => exact ih
  | direct hx hy _ _ ih => exact ((reaches_scoreOf hx).trans (reaches_scoreOf hy)).trans ih
  | copies hdecl hr hq _ hx hy _ ihload ihbody =>
    have hloads := (reaches_registers hdecl hr hq).trans ihload
    have hwork := ((hloads.trans (reaches_scoreOf hx)).trans (reaches_scoreOf hy)).trans ihbody
    exact (hwork.tail (.release _ _ _)).tail (.release _ _ _)
  | runAs _ ih => exact ih
  | text => exact .refl
  | nil => exact .refl
  | cons _ _ ih ih' => exact ih.trans ih'

end Reaching

end Lowering

end Datapack
