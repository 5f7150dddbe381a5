import Datapack.Proofs.Lowering.RegisterUse

/-!
# Lowering keeps the meaning of programs

The commands of a program, run on the target, do what the program means: the
same command lines are logged, in the same order and with the same scopes around
them, and every score outside the scratch store ends with the same number.

The invariant is agreement at all visible scores, those of the registers in use
included. A condition is decided again before each command of its body, from
copies that the body leaves alone, so each time with the same outcome.
-/

namespace Datapack

namespace Lowering

open Session Moment

section Parts

variable {held held' : List String} {s t u : Session} {commands : List Command} {p : Platform}
  {b c : Board}

/-- Creating a store does nothing to the board. -/
theorem runIn_createStore {name : String} (h : s.createStore name = (commands, t))
    (p : Platform) (scopes : List Clause) (b : Board) :
    Machine.runIn p scopes b commands = b := by
  obtain rfl : (s.createStore name).1 = commands := by rw [h]
  unfold Session.createStore
  split <;> rfl

/-- Combining two scores does the same to boards that agree. -/
theorem runIn_access {target source : Access} {o : Operator} {known : Option String}
    (h : Emits held' (.assign target o (.access source)) s commands t) (hu : t.KeepsNames u)
    (p : Platform) (scopes : List Clause) (htarget : (u.address target).Visible known held)
    (hb : b.Agree known held c) :
    (Machine.runIn p scopes b commands).Agree known held
      (c.put (u.address target)
        (p.combine o (c.scores (u.address target)) (b.scores (u.address source)))) := by
  cases h with
  | access hx hy =>
    obtain ⟨rfl, rfl⟩ := addresses_of_scoreOf hx hy hu
    rw [Machine.runIn_operate, hb.scores_eq _ htarget]
    exact hb.put _ _

/-- A register that was read lies in the scratch store. -/
theorem scratch?_of_access {target : Access} {o : Operator} {q : String}
    (h : Emits held (.assign target o (.access (scratch q))) s commands t)
    (hu : t.KeepsNames u) (r : String) : u.scratch? = some (u.address (scratch r)).store := by
  cases h with
  | access _ hy => exact scratch?_of_scoreOf hy hu r

/-- A body leaves the registers in use around it alone. -/
theorem Emits.keeps {body : List Node} {r : String}
    (h : Emits held (.statements body) s commands t) (hs : Reachable ⟨held, s⟩)
    (hmentions : scratchStore ∉ Node.storesAll body) (hu : t.KeepsNames u)
    (havoids : u.address.Avoids u.scratch?) (hp : p.Respects u.scratch?) (scopes : List Clause)
    (hr : r ∈ held) (hscratch : u.scratch? = some (u.address (scratch r)).store) :
    Machine.Keeps p scopes commands (u.address (scratch r)) := by
  have hwrites := h.writesIn hs hmentions hu havoids
  refine Machine.keeps_of_not_mem_writes (hp _ hscratch) fun c hc hwritten => ?_
  obtain ⟨a, ha, -⟩ := hwrites c hc _ hwritten hscratch hr
  exact absurd ha List.not_mem_nil

end Parts

section Loading

variable {held : List String} {u : Session} {p : Platform} {scopes : List Clause}
  {r q : String} {first second : Node} {b c d : Board}

/-- The board after two values were worked out and loaded into registers. -/
def loadedBoard (p : Platform) (u : Session) (scopes : List Clause) (r : String) (first : Node)
    (q : String) (second : Node) (b : Board) : Board :=
  let m := Meaning.value p u.address scopes first b
  let n := Meaning.value p u.address scopes second m.2
  (n.2.put (u.address (scratch r)) m.1).put (u.address (scratch q)) n.1

/-- Loading the first value does not disturb the second, nor the second load the first. -/
theorem agree_loadedBoard (havoids : u.address.Avoids u.scratch?) (hp : p.Respects u.scratch?)
    (hsecond : scratchStore ∉ second.stores)
    (hscratch : u.scratch? = some (u.address (scratch r)).store)
    (hc : c.Agree u.scratch? held
      (Meaning.assign p u.address scopes (scratch r) .set first b))
    (hd : d.Agree u.scratch? held
      (Meaning.assign p u.address scopes (scratch q) .set second c)) :
    d.Agree u.scratch? held (loadedBoard p u scopes r first q second b) := by
  obtain ⟨hvalue, hboard⟩ := Meaning.value_put hp havoids scopes hsecond hscratch hc
  rw [Meaning.assign_set, hvalue] at hd
  exact hd.trans (hboard.put _ _)

private theorem loadedBoard_second :
    (loadedBoard p u scopes r first q second b).scores (u.address (scratch q)) =
      (Meaning.value p u.address scopes second
        (Meaning.value p u.address scopes first b).2).1 :=
  Scores.put_same _ _ _

/-- The second register is another one than the first. -/
theorem loadedBoard_first (hne : r ≠ q) :
    (loadedBoard p u scopes r first q second b).scores (u.address (scratch r)) =
      (Meaning.value p u.address scopes first b).1 := by
  have hscore : u.address (scratch r) ≠ u.address (scratch q) :=
    fun heq => hne (congrArg Score.entry heq)
  simp only [loadedBoard, Board.scores_put]
  rw [Scores.put_of_ne _ hscore, Scores.put_same]

/-- Once the registers are free again, only the working out of the values can be seen. -/
theorem agree_of_loadedBoard (hr : r ∉ held) (hq : q ∉ held)
    (hscratch : u.scratch? = some (u.address (scratch r)).store)
    (h : c.Agree u.scratch? held (loadedBoard p u scopes r first q second b)) :
    c.Agree u.scratch? held (Meaning.value p u.address scopes second
      (Meaning.value p u.address scopes first b).2).2 := by
  have hq' : ¬ (u.address (scratch q)).Visible u.scratch? held := fun hv => hq (hv hscratch)
  have hr' : ¬ (u.address (scratch r)).Visible u.scratch? held := fun hv => hr (hv hscratch)
  exact (h.of_put_hidden hq').of_put_hidden hr'

end Loading

/-- What commands have to do for a task, on boards compared at visible scores. -/
def Task.Means (p : Platform) (u : Session) (held : List String) (scopes : List Clause)
    (commands : List Command) (b : Board) : Task → Prop
  | .assign target o value => (u.address target).Visible u.scratch? held →
      (Machine.runIn p scopes b commands).Agree u.scratch? held
        (Meaning.assign p u.address scopes target o value b)
  | .operands r first q second => u.scratch? = some (u.address (scratch r)).store →
      r ∈ held → q ∈ held → (Machine.runIn p scopes b commands).Agree u.scratch? held
        (loadedBoard p u scopes r first q second b)
  | .calculation r first o second =>
      (Machine.runIn p scopes b commands).Agree u.scratch? held
          (Meaning.value p u.address scopes (.calc first o second) b).2 ∧
        (Machine.runIn p scopes b commands).scores (u.address (scratch r)) =
          (Meaning.value p u.address scopes (.calc first o second) b).1
  | .statement node => (Machine.runIn p scopes b commands).Agree u.scratch? held
      (Meaning.run p u.address scopes node b)
  | .statements body => (Machine.runIn p scopes b commands).Agree u.scratch? held
      (Meaning.runAll p u.address scopes body b)

section Means

variable {held : List String} {s s' s₁ t u : Session} {p : Platform} {scopes : List Clause}
  {r q : String} {declaration commands combined : List Command} {b : Board}

/-- A command line is combined with a score through a register, which is free again afterwards. -/
theorem means_capturedFirst {target : Access} {o : Operator} {line : String}
    (hdecl : s.createStore scratchStore = (declaration, s')) (hr : r ∉ held)
    (hcaptured :
      (Task.assign (scratch r) .set (.text line)).Means p u (r :: held) scopes commands b)
    (hcomb : Emits (r :: held) (.assign target o (.access (scratch r))) s₁ combined t)
    (hu : t.KeepsNames u) :
    (Task.assign target o (.text line)).Means p u held scopes
      (declaration ++ (commands ++ combined)) b := by
  intro htarget
  have hscratch := scratch?_of_access hcomb hu r
  have hhidden : ¬ (u.address (scratch r)).Visible u.scratch? held :=
    fun hvisible => hr (hvisible hscratch)
  have hboard := hcaptured fun _ => List.mem_cons_self
  rw [Meaning.assign_set] at hboard
  have hanswer := hboard.scores_eq (u.address (scratch r)) fun _ => List.mem_cons_self
  rw [Board.scores_put, Scores.put_same] at hanswer
  have hfree := (hboard.mono (List.subset_cons_self r held)).of_put_hidden hhidden
  have hcombined := runIn_access hcomb hu p scopes htarget hfree
  rw [hanswer] at hcombined
  rw [Machine.runIn_append, runIn_createStore hdecl, Machine.runIn_append, Meaning.assign_eq]
  exact hcombined

/-- A calculation combines its operands in a register, which keeps the result for a while. -/
theorem means_calculation {first second : Node} {o : Operator}
    (hdecl : s.createStore scratchStore = (declaration, s'))
    (hfresh : r ∉ held ∧ q ∉ held ∧ r ≠ q)
    (hloaded : (Task.operands r first q second).Means p u (q :: r :: held) scopes commands b)
    (hcomb : Emits (q :: r :: held) (.assign (scratch r) o (.access (scratch q))) s₁ combined t)
    (hu : t.KeepsNames u) :
    (Task.calculation r first o second).Means p u held scopes
      (declaration ++ (commands ++ combined)) b := by
  obtain ⟨hr, hq, hne⟩ := hfresh
  have hscratch := scratch?_of_access hcomb hu r
  have hrmem : r ∈ q :: r :: held := List.mem_cons_of_mem q List.mem_cons_self
  have hqmem : q ∈ q :: r :: held := List.mem_cons_self
  have hsub : held ⊆ q :: r :: held := List.subset_cons_of_subset q (List.subset_cons_self r held)
  have hhidden : ¬ (u.address (scratch r)).Visible u.scratch? held :=
    fun hvisible => hr (hvisible hscratch)
  have hboard := hloaded hscratch hrmem hqmem
  have hcombined := runIn_access hcomb hu p scopes (fun _ => hrmem) hboard
  rw [hboard.scores_eq _ fun _ => hqmem, loadedBoard_first hne, loadedBoard_second] at hcombined
  simp only [Task.Means, Meaning.value]
  rw [Machine.runIn_append, runIn_createStore hdecl, Machine.runIn_append]
  constructor
  · exact agree_of_loadedBoard hr hq hscratch ((hcombined.mono hsub).of_put_hidden hhidden)
  · rw [hcombined.scores_eq _ fun _ => hrmem, Board.scores_put, Scores.put_same]

/-- A body runs as a whole or not at all, although its condition is decided anew before each of
its commands. -/
theorem means_copies {negate : Bool} {first second : Node} {k : Comparator} {body : List Node}
    {loaded : List Command} {s₂ s₃ : Session} {x y : Score}
    (hdecl : s.createStore scratchStore = (declaration, s'))
    (hs : Reachable ⟨q :: r :: held, s₃⟩)
    (hloaded : (Task.operands r first q second).Means p u (q :: r :: held) scopes loaded b)
    (hx : scoreOf (scratch r) s₁ = (.ok x, s₂)) (hy : scoreOf (scratch q) s₂ = (.ok y, s₃))
    (hbody : Emits (q :: r :: held) (.statements body) s₃ commands t)
    (hmentions : scratchStore ∉ Node.storesAll body) (hu : t.KeepsNames u)
    (havoids : u.address.Avoids u.scratch?) (hp : p.Respects u.scratch?)
    (hran : ∀ b, (Task.statements body).Means p u (q :: r :: held) scopes commands b) :
    (Task.statement (.branch negate first k second body)).Means p u held scopes
      (declaration ++ (loaded ++ commands.map (Command.under (.compare negate x k y)))) b := by
  have hkeep := hbody.reaches.keepsNames.trans hu
  obtain ⟨rfl, rfl⟩ := addresses_of_scoreOf hx hy hkeep
  have hscratch := scratch?_of_scoreOf hy hkeep
  obtain ⟨hr, hq, hne⟩ := hs.registers_fresh
  have hrmem : r ∈ q :: r :: held := List.mem_cons_of_mem q List.mem_cons_self
  have hqmem : q ∈ q :: r :: held := List.mem_cons_self
  have hsub : held ⊆ q :: r :: held := List.subset_cons_of_subset q (List.subset_cons_self r held)
  have hboard := hloaded (hscratch r) hrmem hqmem
  have hfree := agree_of_loadedBoard hr hq (hscratch r) (hboard.mono hsub)
  have hkeeps := hbody.keeps hs hmentions hu havoids hp scopes hrmem (hscratch r)
  have hkeeps' := hbody.keeps hs hmentions hu havoids hp scopes hqmem (hscratch q)
  simp only [Task.Means]
  rw [Machine.runIn_append, runIn_createStore hdecl, Machine.runIn_append,
    Machine.runIn_under_compare (hbody.declares hs).bare hkeeps hkeeps',
    hboard.scores_eq _ fun _ => hrmem, hboard.scores_eq _ fun _ => hqmem,
    loadedBoard_first hne, loadedBoard_second, Meaning.run_branch]
  simp only
  split
  · have hbodies := Meaning.runAll_agree hp havoids scopes body hmentions hfree
    exact ((hran _).mono hsub).trans hbodies
  · exact hfree

/-- A single command may decide its condition itself, whatever it does to the scores compared. -/
theorem means_direct {negate : Bool} {first second : Access} {k : Comparator} {body : List Node}
    {s₂ s₃ : Session} {x y : Score} (hs : Reachable ⟨held, s₃⟩)
    (hx : scoreOf first s₁ = (.ok x, s₂)) (hy : scoreOf second s₂ = (.ok y, s₃))
    (hbody : Emits held (.statements body) s₃ commands t) (hsole : commands.length ≤ 1)
    (hu : t.KeepsNames u) (hran : (Task.statements body).Means p u held scopes commands b) :
    (Task.statement (.branch negate (.access first) k (.access second) body)).Means p u held scopes
      (commands.map (Command.under (.compare negate x k y))) b := by
  have hkeep := hbody.reaches.keepsNames.trans hu
  obtain ⟨rfl, rfl⟩ := addresses_of_scoreOf hx hy hkeep
  have hbranch : Meaning.run p u.address scopes
      (.branch negate (.access first) k (.access second) body) b =
      if k.holds (b.scores (u.address first)).toInt (b.scores (u.address second)).toInt != negate
      then Meaning.runAll p u.address scopes body b else b := Meaning.run_branch ..
  simp only [Task.Means]
  rw [Machine.runIn_under_compare_sole (hbody.declares hs).bare hsole, hbranch]
  split_ifs
  · exact hran
  · exact .refl b

end Means

/-- Working out the values of a task leaves the board as it is. -/
def Task.Silent (p : Platform) (address : Meaning.Address) (scopes : List Clause) : Task → Prop
  | .assign _ _ value => isOperand value = true →
      ∀ b, (Meaning.value p address scopes value b).2 = b
  | .operands _ first _ second => isOperand first = true → isOperand second = true →
      ∀ b o, (Meaning.value p address scopes (.calc first o second) b).2 = b
  | .calculation _ first o second =>
      ∀ b, (Meaning.value p address scopes (.calc first o second) b).2 = b
  | .statement _ | .statements _ => True

/-- No command line stands inside a calculation, because operands have to be numbers. -/
theorem Emits.silent {held : List String} {task : Task} {s t : Session} {commands : List Command}
    (h : Emits held task s commands t) (p : Platform) (address : Meaning.Address)
    (scopes : List Clause) : task.Silent p address scopes := by
  induction h with
  | int _ _ => exact fun _ _ => rfl
  | access _ _ => exact fun _ _ => rfl
  | captured _ => exact nofun
  | capturedFirst _ _ _ _ => exact nofun
  | calculated _ _ ihcalc => exact fun _ => ihcalc
  | operands _ _ ih ih' =>
    intro hfirst hsecond b o
    simp only [Meaning.value]
    rw [ih hfirst, ih' hsecond]
  | calculation hfirst hsecond _ _ _ _ _ ihload =>
    exact fun b => ihload hfirst hsecond b _
  | block | create | assign | discarded | direct | copies | runAs | text | nil | cons => trivial

/-- The commands of every task do what the task means. -/
theorem Emits.means {held : List String} {task : Task} {s t u : Session} {commands : List Command}
    {p : Platform} (h : Emits held task s commands t) (hs : Reachable ⟨held, s⟩)
    (hmentions : scratchStore ∉ task.mentions) (hu : t.KeepsNames u)
    (havoids : u.address.Avoids u.scratch?) (hp : p.Respects u.scratch?) (scopes : List Clause)
    (b : Board) : task.Means p u held scopes commands b := by
  induction h generalizing scopes b with
  | int hverb hx =>
    intro _
    rw [Machine.runIn_edit, EditVerb.apply_eq_combine hverb p, ← address_of_scoreOf hx hu]
    exact .refl _
  | access hx hy =>
    intro _
    obtain ⟨rfl, rfl⟩ := addresses_of_scoreOf hx hy hu
    rw [Machine.runIn_operate]
    exact .refl _
  | captured hx =>
    intro _
    rw [Machine.runIn_keepResult, ← address_of_scoreOf hx hu]
    exact .refl _
  | capturedFirst hdecl hr hcap hcomb ihcap =>
    have hr' := hs.reaches ((reaches_createStore hdecl).trans (reaches_acquire hr))
    have hkeep := hcomb.reaches.keepsNames.trans hu.of_release
    have hcaptured := ihcap hr' hmentions hkeep scopes b
    exact means_capturedFirst hdecl hr'.not_mem_held hcaptured hcomb hu.of_release
  | calculated hcalc hcomb ihcalc =>
    intro htarget
    have hkeep := hcomb.reaches.keepsNames.trans hu
    obtain ⟨hboard, hresult⟩ := ihcalc hs hmentions hkeep scopes b
    have hcombined := runIn_access hcomb hu p scopes htarget hboard
    rw [hresult] at hcombined
    rw [Machine.runIn_append, Meaning.assign_eq]
    exact hcombined
  | operands hload hload' ihload ihload' =>
    intro hscratch hr hq
    rw [Task.mentions, List.mem_append, not_or] at hmentions
    have hkeep := hload'.reaches.keepsNames.trans hu
    have hloaded := ihload hs hmentions.1 hkeep scopes b fun _ => hr
    have hloaded' := ihload' (hs.reaches hload.reaches) hmentions.2 hu scopes
    rw [Machine.runIn_append]
    exact agree_loadedBoard havoids hp hmentions.2 hscratch hloaded (hloaded' _ fun _ => hq)
  | calculation _ _ hdecl hr hq _ hcomb ihload =>
    have hq' := hs.reaches (reaches_registers hdecl hr hq)
    have hkeep := hu.of_release.of_release
    have hloaded := ihload hq' hmentions (hcomb.reaches.keepsNames.trans hkeep) scopes b
    exact means_calculation hdecl hq'.registers_fresh hloaded hcomb hkeep
  | block _ ih =>
    simp only [Task.Means, Meaning.run]
    exact ih hs hmentions hu scopes b
  | create h =>
    simp only [Task.Means, Meaning.run]
    rw [runIn_createStore h]
    exact .refl b
  | assign _ ih =>
    rw [Task.mentions, Node.stores, List.mem_cons, not_or] at hmentions
    have htarget := havoids _ (Ne.symm hmentions.1)
    exact ih hs hmentions.2 hu scopes b (Score.visible_of_ne htarget _)
  | discarded hcalc ih =>
    have hboard := (ih hs hmentions hu scopes b).1
    rw [hcalc.silent p u.address scopes b] at hboard
    exact hboard
  | direct hx hy hbody hsole ih =>
    rw [Task.mentions, Node.stores, ← List.append_assoc, List.mem_append, not_or] at hmentions
    have hbody' := hs.reaches ((reaches_scoreOf hx).trans (reaches_scoreOf hy))
    exact means_direct hbody' hx hy hbody hsole hu (ih hbody' hmentions.2 hu scopes b)
  | copies hdecl hr hq hload hx hy hbody ihload ihbody =>
    rw [Task.mentions, Node.stores, ← List.append_assoc, List.mem_append, not_or] at hmentions
    have hq' := hs.reaches (reaches_registers hdecl hr hq)
    have hbody' := hq'.reaches
      (hload.reaches.trans ((reaches_scoreOf hx).trans (reaches_scoreOf hy)))
    have hkeep := hu.of_release.of_release
    have hkeep' := (keepsNames_of_scoreOf hy).trans (hbody.reaches.keepsNames.trans hkeep)
    have hloaded := ihload hq' hmentions.1 ((keepsNames_of_scoreOf hx).trans hkeep') scopes b
    exact means_copies hdecl hbody' hloaded hx hy hbody hmentions.2 hkeep havoids hp
      (ihbody hbody' hmentions.2 hkeep scopes)
  | runAs hbody ih =>
    simp only [Task.Means, Meaning.run]
    rw [Machine.runIn_under_runAs _ (hbody.declares hs).bare]
    exact ih hs hmentions hu _ b
  | text =>
    simp only [Task.Means, Meaning.run, Machine.runIn_raw]
    exact .refl _
  | nil => exact .refl b
  | cons h h' ih ih' =>
    rw [Task.mentions, Node.storesAll, List.mem_append, not_or] at hmentions
    have hfirst := ih hs hmentions.1 (h'.reaches.keepsNames.trans hu) scopes b
    have hrest := ih' (hs.reaches h.reaches) hmentions.2 hu scopes
    simp only [Task.Means, Meaning.runAll]
    rw [Machine.runIn_append]
    exact (hrest _).trans (Meaning.runAll_agree hp havoids scopes _ hmentions.2 hfirst)

end Lowering

namespace Session

open Moment

/-- The statements of those calls that succeed, in order. -/
def succeeded (s : Session) : List Call → List Node
  | [] => []
  | c :: rest =>
    match s.call c with
    | (.ok _, t) => c.body ++ t.succeeded rest
    | (.error _, t) => t.succeeded rest

/-- The commands of calls do what the statements of those calls mean that succeed. -/
theorem agree_handedOver {s u : Session} {p : Platform} (hs : Reachable ⟨[], s⟩)
    (calls : List Call) (hbody : scratchStore ∉ Node.storesAll (s.succeeded calls))
    (hu : (s.after calls).KeepsNames u) (havoids : u.address.Avoids u.scratch?)
    (hp : p.Respects u.scratch?) (b : Board) :
    (Machine.run p b (s.handedOver calls)).Agree u.scratch? []
      (Meaning.runAll p u.address [] (s.succeeded calls) b) := by
  induction calls generalizing s b with
  | nil => exact .refl b
  | cons c calls ih =>
    have hcall := hs.call c
    rw [after_cons] at hu
    rw [succeeded] at hbody ⊢
    rw [handedOver]
    obtain ⟨t, -, ⟨commands, hok, h⟩ | ⟨e, -, h⟩⟩ := s.call_cases c
    · rw [h] at hcall hu hbody ⊢
      simp only [Node.storesAll_append, List.mem_append, not_or] at hbody
      have hkeep := (t.commit.keepsNames_after calls).trans hu
      have hkeep' : t.KeepsNames u := ⟨hkeep.variableNames, hkeep.storeNames⟩
      have hfirst := (Lowering.emits_call hok).means hs hbody.1 hkeep' havoids hp [] b
      rw [Lowering.Task.Means, ← Machine.run_eq_runIn] at hfirst
      have hrest := ih hcall hbody.2 hu (Machine.run p b commands)
      simp only [Meaning.runAll_append]
      rw [Machine.run_append]
      exact hrest.trans (Meaning.runAll_agree hp havoids [] _ hbody.2 hfirst)
    · rw [h] at hcall hu hbody ⊢
      exact ih hcall hbody hu b

/--
Whatever calls a session has served, the commands it then hands over for any
further calls do on every board what the statements mean, those of failed calls
left out: the log ends the same, and so does every score outside the scratch
store, provided that the statements do not mention the scratch store and that
command lines leave it alone.
-/
theorem run_handedOver (calls later : List Call) (p : Platform) (b : Board) :
    let s := Session.fresh.after calls
    let u := s.after later
    scratchStore ∉ Node.storesAll (s.succeeded later) → p.Respects u.scratch? →
      let ran := Machine.run p b (s.handedOver later)
      let meant := Meaning.runAll p u.address [] (s.succeeded later) b
      ran.log = meant.log ∧
        ∀ x : Score, u.scratch? ≠ some x.store → ran.scores x = meant.scores x := by
  intro s u hbody hp
  have hs : Reachable ⟨[], s⟩ := Reachable.fresh.after calls
  have hu : Reachable ⟨[], u⟩ := hs.after later
  have hagree := agree_handedOver hs later hbody (.refl u) hu.address_avoids hp b
  exact ⟨hagree.log_eq, fun x hx => hagree.scores_eq x (Score.visible_of_ne hx [])⟩

/-- A body that changes the score compared and keeps the answer of a command line, between a call
that creates the store and one that fails. -/
theorem run_handedOver_condition :
    let i : Access := ⟨.named "i", "m"⟩
    let later := [.phrase (.branch false (.access i) .lt (.calc (.access i) .add (.int 1))
      [.assign i .add (.text "list"), .runAs "@a" [.text "say hi"]]), .phrase (.int 3)]
    let s := Session.fresh.after [.phrase (.create "m")]
    let ran := Machine.run .quiet ⟨fun _ => 0, []⟩ (s.handedOver later)
    ran.log = [⟨[], "list"⟩, ⟨[.runAs "@a"], "say hi"⟩] ∧ ran.scores ⟨"e", "a"⟩ = 4 := by
  intro i later s ran
  have hbody : scratchStore ∉ Node.storesAll (s.succeeded later) := by decide +kernel
  have hvisible : (s.after later).scratch? ≠ some "a" := by decide +kernel
  obtain ⟨hlog, hscores⟩ := run_handedOver [.phrase (.create "m")] later .quiet ⟨fun _ => 0, []⟩
    hbody (Platform.quiet_respects _)
  constructor
  · rw [hlog]
    decide +kernel
  · rw [hscores ⟨"e", "a"⟩ hvisible]
    decide +kernel

end Session

end Datapack
