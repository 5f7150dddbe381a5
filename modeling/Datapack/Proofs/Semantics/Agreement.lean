import Datapack.Proofs.Language.Mentions
import Datapack.Proofs.Semantics.Governed
import Datapack.Lowering.Session
import Datapack.Semantics.Meaning

/-!
# Boards that agree

Lowered commands leave traces in the scratch store, which the meaning of a
program knows nothing of. So boards are compared at visible scores: all scores
outside the scratch store, and those registers in it that are in use. A program
that does not mention the scratch store takes boards that agree to boards that
agree, and changes no score of the scratch store.
-/

namespace Datapack

/-- All scores but the registers that are not in use; `scratch` is the target name of the
scratch store, if it has one. -/
def Score.Visible (scratch : Option String) (held : List String) (x : Score) : Prop :=
  scratch = some x.store → x.entry ∈ held

/-- Command lines leave the scratch store alone, if there is one. -/
def Platform.Respects (p : Platform) (scratch : Option String) : Prop :=
  ∀ store, scratch = some store → p.LeavesAlone store

/-- A platform whose command lines answer their length and change no score. -/
def Platform.quiet : Platform where
  product := (· * ·)
  quotient := (· / ·)
  remainder := (· % ·)
  perform _ line b := (Int32.ofNat line.length, b)

/-- A platform on which command lines do nothing leaves the scratch store alone. -/
theorem Platform.quiet_respects (scratch : Option String) : quiet.Respects scratch :=
  fun _ _ => ⟨fun _ _ _ _ _ => rfl, fun _ _ _ _ h => h, fun _ _ _ _ _ => rfl⟩

/-- Places every score of a program outside the scratch store. -/
def Meaning.Address.Avoids (address : Meaning.Address) (scratch : Option String) : Prop :=
  ∀ a : Access, a.store ≠ scratchStore → scratch ≠ some (address a).store

/-- The same log, and the same number at every visible score. -/
structure Board.Agree (scratch : Option String) (held : List String) (b c : Board) : Prop where
  log_eq : b.log = c.log
  scores_eq : ∀ x : Score, x.Visible scratch held → b.scores x = c.scores x

/-- Scores outside the scratch store are visible, whatever registers are in use. -/
theorem Score.visible_of_ne {scratch : Option String} {x : Score} (h : scratch ≠ some x.store)
    (held : List String) : x.Visible scratch held :=
  fun hstore => absurd hstore h

namespace Board

variable {scratch : Option String} {held held' : List String} {b c d : Board}

namespace Agree

/-- A board agrees with itself. -/
theorem refl (b : Board) : Agree scratch held b b := ⟨rfl, fun _ _ => rfl⟩

/-- Agreement can be chained. -/
theorem trans (h : Agree scratch held b c) (h' : Agree scratch held c d) :
    Agree scratch held b d :=
  ⟨h.log_eq.trans h'.log_eq, fun x hx => (h.scores_eq x hx).trans (h'.scores_eq x hx)⟩

/-- With fewer registers in use, less is compared. -/
theorem mono (hsub : held ⊆ held') (h : Agree scratch held' b c) : Agree scratch held b c :=
  ⟨h.log_eq, fun x hx => h.scores_eq x fun hstore => hsub (hx hstore)⟩

/-- The same number may be put at any score. -/
theorem put (h : Agree scratch held b c) (x : Score) (n : Int32) :
    Agree scratch held (b.put x n) (c.put x n) := by
  refine ⟨h.log_eq, fun y hy => ?_⟩
  simp only [scores_put, Scores.put]
  split
  · rfl
  · exact h.scores_eq y hy

/-- Any number may be put at a register that is not in use. -/
theorem put_hidden (h : Agree scratch held b c) {x : Score} (hx : ¬ x.Visible scratch held)
    (n : Int32) : Agree scratch held (b.put x n) c := by
  refine ⟨h.log_eq, fun y hy => ?_⟩
  have hne : y ≠ x := by
    rintro rfl
    exact hx hy
  exact (Scores.put_of_ne _ hne n).trans (h.scores_eq y hy)

/-- What stands at a register that is not in use does not matter. -/
theorem of_put_hidden {x : Score} {n : Int32} (h : Agree scratch held b (c.put x n))
    (hx : ¬ x.Visible scratch held) : Agree scratch held b c :=
  h.trans ((refl c).put_hidden hx n)

/-- A command line answers the same on boards that agree, which still agree afterwards. -/
theorem perform {p : Platform} (hp : p.Respects scratch) (h : Agree scratch held b c)
    (scopes : List Clause) (line : String) :
    (b.perform p scopes line).1 = (c.perform p scopes line).1 ∧
      Agree scratch held (b.perform p scopes line).2 (c.perform p scopes line).2 := by
  have hlog : (b.perform p scopes line).2.log = (c.perform p scopes line).2.log := by
    simp only [Board.perform, h.log_eq]
  cases scratch with
  | none =>
    have hscores : b.scores = c.scores := funext fun x => h.scores_eq x nofun
    refine ⟨?_, hlog, fun x _ => ?_⟩
    · simp only [Board.perform, hscores]
    · simp only [Board.perform, hscores]
  | some store =>
    have halone := hp store rfl
    have houtside : ∀ x : Score, x.store ≠ store → b.scores x = c.scores x := by
      intro x hne
      apply h.scores_eq
      intro hstore
      exact absurd (Option.some.inj hstore).symm hne
    refine ⟨halone.answer_eq scopes line _ _ houtside, hlog, fun x hx => ?_⟩
    by_cases hstore : x.store = store
    · calc
        (p.perform scopes line b.scores).2 x = b.scores x :=
          halone.unchanged scopes line b.scores x hstore
        _ = c.scores x := h.scores_eq x hx
        _ = (p.perform scopes line c.scores).2 x :=
          (halone.unchanged scopes line c.scores x hstore).symm
    · exact halone.scores_eq scopes line _ _ houtside x hstore

end Agree

end Board

namespace Meaning

section Equations

variable (p : Platform) (address : Address) (scopes : List Clause)

/-- An assignment works out its value first and then combines it with the target. -/
theorem assign_eq (target : Access) (o : Operator) (node : Node) (b : Board) :
    assign p address scopes target o node b =
      (value p address scopes node b).2.put (address target)
        (p.combine o ((value p address scopes node b).2.scores (address target))
          (value p address scopes node b).1) := rfl

/-- Setting a score forgets its old number. -/
theorem assign_set (target : Access) (node : Node) (b : Board) :
    assign p address scopes target .set node b =
      (value p address scopes node b).2.put (address target)
        (value p address scopes node b).1 := rfl

/-- A condition works out both sides once, and then runs its body or not. -/
theorem run_branch (negate : Bool) (first : Node) (k : Comparator) (second : Node)
    (body : List Node) (b : Board) :
    run p address scopes (.branch negate first k second body) b =
      let m := value p address scopes first b
      let n := value p address scopes second m.2
      if k.holds m.1.toInt n.1.toInt != negate then runAll p address scopes body n.2
      else n.2 := by
  rw [run]
  rfl

/-- Statements in a row are run one part after the other. -/
theorem runAll_append (first second : List Node) (b : Board) :
    runAll p address scopes (first ++ second) b =
      runAll p address scopes second (runAll p address scopes first b) := by
  induction first generalizing b with
  | nil => rfl
  | cons node rest ih => exact ih (run p address scopes node b)

end Equations

variable {p : Platform} {address : Address} {scratch : Option String} {held : List String}

/-- A value is the same on boards that agree, which still agree after working it out. -/
theorem value_agree (hp : p.Respects scratch) (haddress : address.Avoids scratch)
    (scopes : List Clause) : (node : Node) → scratchStore ∉ node.stores → {b c : Board} →
    b.Agree scratch held c →
      (value p address scopes node b).1 = (value p address scopes node c).1 ∧
        (value p address scopes node b).2.Agree scratch held (value p address scopes node c).2
  | .int n, _, b, c, h => ⟨rfl, h⟩
  | .access a, hnode, b, c, h => by
    have hstore : a.store ≠ scratchStore := fun he => hnode (by simp [Node.stores, he])
    exact ⟨h.scores_eq _ (Score.visible_of_ne (haddress a hstore) held), h⟩
  | .calc first o second, hnode, b, c, h => by
    rw [Node.stores, List.mem_append, not_or] at hnode
    obtain ⟨hfirst, hboard⟩ := value_agree hp haddress scopes first hnode.1 h
    obtain ⟨hsecond, hboard'⟩ := value_agree hp haddress scopes second hnode.2 hboard
    simp only [value]
    rw [hfirst, hsecond]
    exact ⟨rfl, hboard'⟩
  | .text line, _, b, c, h => by
    exact h.perform hp scopes line
  | .block _, _, b, c, h | .float _, _, b, c, h | .assign .., _, b, c, h
  | .branch .., _, b, c, h | .runAs .., _, b, c, h | .create _, _, b, c, h
  | .call .., _, b, c, h => ⟨rfl, h⟩

/-- Working out a value changes no score of the scratch store. -/
theorem value_scores (hp : p.Respects scratch) (address : Address) (scopes : List Clause)
    {x : Score} (hx : scratch = some x.store) : (node : Node) → (b : Board) →
    (value p address scopes node b).2.scores x = b.scores x
  | .calc first o second, b => by
    simp only [value]
    rw [value_scores hp address scopes hx second, value_scores hp address scopes hx first]
  | .text line, b => (hp x.store hx).unchanged scopes line b.scores x rfl
  | .int _, _ | .access _, _ | .block _, _ | .float _, _ | .assign .., _ | .branch .., _
  | .runAs .., _ | .create _, _ | .call .., _ => rfl

/-- A value does not depend on the numbers of registers, and leaves them as they are. -/
theorem value_put (hp : p.Respects scratch) (haddress : address.Avoids scratch)
    (scopes : List Clause) {node : Node} (hnode : scratchStore ∉ node.stores) {x : Score}
    (hx : scratch = some x.store) {n : Int32} {b c : Board}
    (h : b.Agree scratch held (c.put x n)) :
    (value p address scopes node b).1 = (value p address scopes node c).1 ∧
      (value p address scopes node b).2.Agree scratch held
        ((value p address scopes node c).2.put x n) := by
  have hhidden : ¬ x.Visible scratch [] := fun hvisible => List.not_mem_nil (hvisible hx)
  have hnone : b.Agree scratch [] c := (h.mono (List.nil_subset _)).of_put_hidden hhidden
  obtain ⟨hvalue, hboard⟩ := value_agree hp haddress scopes node hnode hnone
  refine ⟨hvalue, hboard.log_eq, fun y hy => ?_⟩
  by_cases hstore : scratch = some y.store
  · have hkept := value_scores hp address scopes hstore node c
    rw [value_scores hp address scopes hstore, h.scores_eq y hy]
    simp only [Board.scores_put, Scores.put, hkept]
  · have hne : y ≠ x := by
      rintro rfl
      exact hstore hx
    rw [hboard.scores_eq y (Score.visible_of_ne hstore []), Board.scores_put,
      Scores.put_of_ne _ hne]

/-- Assigning does the same to boards that agree. -/
theorem assign_agree (hp : p.Respects scratch) (haddress : address.Avoids scratch)
    (scopes : List Clause) {target : Access} (o : Operator) {node : Node}
    (htarget : (address target).Visible scratch held) (hnode : scratchStore ∉ node.stores)
    {b c : Board} (h : b.Agree scratch held c) :
    (assign p address scopes target o node b).Agree scratch held
      (assign p address scopes target o node c) := by
  obtain ⟨hvalue, hboard⟩ := value_agree hp haddress scopes node hnode h
  simp only [assign]
  rw [hvalue, hboard.scores_eq _ htarget]
  exact hboard.put _ _

/-- A condition is decided alike on boards that agree, which still agree afterwards. -/
theorem condition_agree (hp : p.Respects scratch) (haddress : address.Avoids scratch)
    (scopes : List Clause) (negate : Bool) (k : Comparator) {first second : Node}
    (hfirst : scratchStore ∉ first.stores) (hsecond : scratchStore ∉ second.stores)
    {b c : Board} (h : b.Agree scratch held c) :
    (condition p address scopes negate first k second b).1 =
        (condition p address scopes negate first k second c).1 ∧
      (condition p address scopes negate first k second b).2.Agree scratch held
        (condition p address scopes negate first k second c).2 := by
  obtain ⟨hvalue, hboard⟩ := value_agree hp haddress scopes first hfirst h
  obtain ⟨hvalue', hboard'⟩ := value_agree hp haddress scopes second hsecond hboard
  simp only [condition]
  rw [hvalue, hvalue']
  exact ⟨rfl, hboard'⟩

mutual

/-- A statement does the same to boards that agree. -/
theorem run_agree (hp : p.Respects scratch) (haddress : address.Avoids scratch)
    (scopes : List Clause) : (node : Node) → scratchStore ∉ node.stores → {b c : Board} →
    b.Agree scratch held c →
      (run p address scopes node b).Agree scratch held (run p address scopes node c)
  | .block body, hnode, b, c, h => by
    rw [Node.stores] at hnode
    simp only [run]
    exact runAll_agree hp haddress scopes body hnode h
  | .text line, _, b, c, h => (h.perform hp scopes line).2
  | .assign target o node, hnode, b, c, h => by
    rw [Node.stores, List.mem_cons, not_or] at hnode
    have htarget := Score.visible_of_ne (haddress target (Ne.symm hnode.1)) held
    exact assign_agree hp haddress scopes o htarget hnode.2 h
  | .branch negate first k second body, hnode, b, c, h => by
    rw [Node.stores, List.mem_append, List.mem_append, not_or, not_or] at hnode
    obtain ⟨hholds, hboard⟩ :=
      condition_agree hp haddress scopes negate k hnode.1 hnode.2.1 h
    simp only [run]
    rw [hholds]
    split
    · exact runAll_agree hp haddress scopes body hnode.2.2 hboard
    · exact hboard
  | .runAs selector body, hnode, b, c, h => by
    rw [Node.stores] at hnode
    simp only [run]
    exact runAll_agree hp haddress (scopes ++ [.runAs selector]) body hnode h
  | .int _, _, b, c, h | .float _, _, b, c, h | .access _, _, b, c, h | .calc .., _, b, c, h
  | .create _, _, b, c, h | .call .., _, b, c, h => h

/-- Statements in order do the same to boards that agree. -/
theorem runAll_agree (hp : p.Respects scratch) (haddress : address.Avoids scratch)
    (scopes : List Clause) : (body : List Node) → scratchStore ∉ Node.storesAll body →
    {b c : Board} → b.Agree scratch held c →
      (runAll p address scopes body b).Agree scratch held (runAll p address scopes body c)
  | [], _, b, c, h => h
  | node :: rest, hbody, b, c, h => by
    rw [Node.storesAll, List.mem_append, not_or] at hbody
    simp only [runAll]
    exact runAll_agree hp haddress scopes rest hbody.2 (run_agree hp haddress scopes node hbody.1 h)

end

section Addresses

variable {address' : Address}

/-- A value depends on the addresses of its own scores only. -/
theorem value_congr (p : Platform) (scopes : List Clause) : (node : Node) →
    (∀ a ∈ node.accesses, address a = address' a) → (b : Board) →
      value p address scopes node b = value p address' scopes node b
  | .access a, h, b => by
    simp only [value, h a List.mem_cons_self]
  | .calc first o second, h, b => by
    simp only [Node.accesses, List.mem_append] at h
    simp only [value]
    rw [value_congr p scopes first (fun a ha => h a (Or.inl ha)),
      value_congr p scopes second (fun a ha => h a (Or.inr ha))]
  | .int _, _, _ | .text _, _, _ | .block _, _, _ | .float _, _, _ | .assign .., _, _
  | .branch .., _, _ | .runAs .., _, _ | .create _, _, _ | .call .., _, _ => rfl

mutual

/-- A statement depends on the addresses of its own scores only. -/
theorem run_congr (p : Platform) (scopes : List Clause) : (node : Node) →
    (∀ a ∈ node.accesses, address a = address' a) → (b : Board) →
      run p address scopes node b = run p address' scopes node b
  | .block body, h, b => by
    simp only [run]
    exact runAll_congr p scopes body h b
  | .assign target o node, h, b => by
    simp only [Node.accesses, List.mem_cons] at h
    simp only [run, assign]
    rw [h target (Or.inl rfl), value_congr p scopes node fun a ha => h a (Or.inr ha)]
  | .branch negate first k second body, h, b => by
    simp only [Node.accesses, List.mem_append] at h
    have hcondition : condition p address scopes negate first k second b =
        condition p address' scopes negate first k second b := by
      simp only [condition]
      rw [value_congr p scopes first (fun a ha => h a (Or.inl ha)),
        value_congr p scopes second (fun a ha => h a (Or.inr (Or.inl ha)))]
    simp only [run]
    rw [hcondition, runAll_congr p scopes body fun a ha => h a (Or.inr (Or.inr ha))]
  | .runAs selector body, h, b => by
    simp only [run]
    exact runAll_congr p _ body h b
  | .text _, _, _ | .int _, _, _ | .float _, _, _ | .access _, _, _ | .calc .., _, _
  | .create _, _, _ | .call .., _, _ => rfl

/-- Statements in order depend on the addresses of their own scores only. -/
theorem runAll_congr (p : Platform) (scopes : List Clause) : (body : List Node) →
    (∀ a ∈ Node.accessesAll body, address a = address' a) → (b : Board) →
      runAll p address scopes body b = runAll p address' scopes body b
  | [], _, _ => rfl
  | node :: rest, h, b => by
    simp only [Node.accessesAll, List.mem_append] at h
    simp only [runAll]
    rw [run_congr p scopes node (fun a ha => h a (Or.inl ha)),
      runAll_congr p scopes rest fun a ha => h a (Or.inr ha)]

end

end Addresses

end Meaning

end Datapack
