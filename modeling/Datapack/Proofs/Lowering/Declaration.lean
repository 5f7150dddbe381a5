import Datapack.Proofs.Lowering.Emission
import Datapack.Proofs.Session.Ownership

/-!
# Declarations come first, and once

Commands touch a store only after it was declared, by an earlier command of the
same lowering or by an earlier lowering that succeeded. The declarations of a
lowering that fails are never seen, so they are made again, under the old name,
when they are next asked for. Clauses never stand in front of a declaration.
-/

namespace Datapack

/-- Target stores whose scores a clause reads or writes. -/
def Clause.stores : Clause → List String
  | .compare _ first _ second => [first.store, second.store]
  | .keepResult target => [target.store]
  | .runAs _ | .verbatim _ => []

/-- Target stores whose scores an action reads or writes. -/
def Action.stores : Action → List String
  | .edit _ target _ => [target.store]
  | .operate target _ source => [target.store, source.store]
  | .declare _ | .raw _ => []

namespace Command

/-- Target stores whose scores a command reads or writes. -/
def stores (c : Command) : List String := c.clauses.flatMap Clause.stores ++ c.action.stores

/-- The target store that a command declares. -/
def declared? (c : Command) : Option String :=
  match c.action with
  | .declare store => some store
  | _ => none

/-- The target stores that commands declare, in order. -/
def declarations (commands : List Command) : List String := commands.filterMap declared?

@[simp] theorem declared?_under (clause : Clause) (c : Command) :
    (c.under clause).declared? = c.declared? := by
  simp only [declared?, action_under]

/-- A declaration is a command that declares a store. -/
theorem isDeclaration_iff {c : Command} :
    c.isDeclaration = true ↔ ∃ store, c.declared? = some store := by
  unfold isDeclaration declared?
  cases c.action <;> simp

/-- A declaration under no clause is known by its store. -/
theorem eq_declare {c : Command} {store : String} (hclauses : c.clauses = [])
    (h : c.declared? = some store) : c = declare store := by
  obtain ⟨clauses, action⟩ := c
  cases action with
  | declare declared =>
    cases h
    cases hclauses
    rfl
  | _ => cases h

private theorem stores_under {clause : Clause} {c : Command} {store : String}
    (h : store ∈ (c.under clause).stores) : store ∈ clause.stores ∨ store ∈ c.stores := by
  rw [stores, clauses_under, action_under] at h
  split at h
  · exact Or.inr h
  · rw [List.flatMap_cons, List.append_assoc, List.mem_append] at h
    exact h

private theorem mem_declarations_cons {c : Command} {rest : List Command} {store : String} :
    store ∈ declarations (c :: rest) ↔ c.declared? = some store ∨ store ∈ declarations rest := by
  simp only [declarations, List.mem_filterMap, List.mem_cons, exists_eq_or_imp]

@[simp] theorem declarations_append (first second : List Command) :
    declarations (first ++ second) = declarations first ++ declarations second :=
  List.filterMap_append

@[simp] theorem declarations_map_under (clause : Clause) (commands : List Command) :
    declarations (commands.map (under clause)) = declarations commands := by
  rw [declarations, List.filterMap_map]
  exact congrArg (List.filterMap · commands) (funext fun c => declared?_under clause c)

/-- An edit by a fixed number touches the store of its target only, and declares nothing. -/
theorem mem_edit {verb : EditVerb} {target : Score} {amount : Int32} {c : Command}
    (h : c ∈ edit verb target amount) : c.stores = [target.store] ∧ c.declared? = none := by
  unfold edit at h
  split at h
  · rw [List.mem_singleton.mp h]
    exact ⟨rfl, rfl⟩
  · split_ifs at h
    · rw [List.mem_singleton.mp h]
      exact ⟨rfl, rfl⟩
    · rcases List.mem_pair.mp h with rfl | rfl <;> exact ⟨rfl, rfl⟩
    · rw [List.mem_singleton.mp h]
      exact ⟨rfl, rfl⟩

/-- Every store that a command touches is known, or declared by a command before it. -/
def DeclaredFirst (known : String → Prop) : List Command → Prop
  | [] => True
  | c :: rest => (∀ store ∈ c.stores, known store) ∧
      DeclaredFirst (fun store => known store ∨ c.declared? = some store) rest

private theorem DeclaredFirst.mono {known known' : String → Prop}
    (hknown : ∀ store, known store → known' store) {commands : List Command}
    (h : DeclaredFirst known commands) : DeclaredFirst known' commands := by
  induction commands generalizing known known' with
  | nil => trivial
  | cons c rest ih =>
    refine ⟨fun store hstore => hknown store (h.1 store hstore), ih ?_ h.2⟩
    intro store hstore
    exact hstore.imp_left (hknown store)

/-- Later commands may rely on what earlier ones declare. -/
theorem DeclaredFirst.append {known : String → Prop} {first second : List Command}
    (hfirst : DeclaredFirst known first)
    (hsecond : DeclaredFirst (fun store => known store ∨ store ∈ declarations first) second) :
    DeclaredFirst known (first ++ second) := by
  induction first generalizing known with
  | nil => exact hsecond.mono fun store h => h.resolve_right (List.not_mem_nil)
  | cons c rest ih =>
    refine ⟨hfirst.1, ih hfirst.2 (hsecond.mono ?_)⟩
    intro store hstore
    rcases hstore with hknown | hmem
    · exact Or.inl (Or.inl hknown)
    · exact (mem_declarations_cons.mp hmem).imp_left Or.inr

/-- A clause may be put around commands if its own stores are known. -/
theorem DeclaredFirst.under {known : String → Prop} {clause : Clause}
    (hclause : ∀ store ∈ clause.stores, known store) {commands : List Command}
    (h : DeclaredFirst known commands) : DeclaredFirst known (commands.map (under clause)) := by
  induction commands generalizing known with
  | nil => trivial
  | cons c rest ih =>
    refine ⟨fun store hstore => ?_, ?_⟩
    · exact (stores_under hstore).elim (hclause store) (h.1 store)
    · rw [declared?_under]
      exact ih (fun store hstore => Or.inl (hclause store hstore)) h.2

/-- Commands that only touch known stores. -/
theorem declaredFirst_of_known {known : String → Prop} {commands : List Command}
    (h : ∀ c ∈ commands, ∀ store ∈ c.stores, known store) : DeclaredFirst known commands := by
  induction commands generalizing known with
  | nil => trivial
  | cons c rest ih =>
    refine ⟨h c List.mem_cons_self, ih ?_⟩
    intro d hd store hstore
    exact Or.inl (h d (List.mem_cons_of_mem c hd) store hstore)

/-- What a command touches was known from the start or declared by a command before it. -/
theorem DeclaredFirst.split {known : String → Prop} {before after : List Command} {c : Command}
    (h : DeclaredFirst known (before ++ c :: after)) :
    ∀ store ∈ c.stores, known store ∨ store ∈ declarations before := by
  induction before generalizing known with
  | nil => exact fun store hstore => Or.inl (h.1 store hstore)
  | cons d rest ih =>
    intro store hstore
    rcases ih h.2 store hstore with (hknown | hd) | hmem
    · exact Or.inl hknown
    · exact Or.inr (mem_declarations_cons.mpr (Or.inl hd))
    · exact Or.inr (mem_declarations_cons.mpr (Or.inr hmem))

end Command

namespace Session

/-- Whether a target store is declared, under whatever source name. -/
def Knows (s : Session) (store : String) : Prop := ∃ name, s.storeName? name = some store

/-- Sessions that give every source store the same target store know the same stores. -/
theorem knows_congr {s t : Session} (h : ∀ name, t.storeName? name = s.storeName? name)
    (store : String) : t.Knows store ↔ s.Knows store := by
  simp only [Knows, h]

/-- What the declarations among commands have to do with the stores known before and after. -/
structure Declares (s : Session) (commands : List Command) (t : Session) : Prop where
  /-- Afterwards exactly the stores known before and those declared are known. -/
  knows_iff : ∀ store, t.Knows store ↔ s.Knows store ∨ store ∈ Command.declarations commands
  /-- What is declared was not known before. -/
  unknown : ∀ store ∈ Command.declarations commands, ¬ s.Knows store
  nodup : (Command.declarations commands).Nodup
  declaredFirst : Command.DeclaredFirst s.Knows commands
  bare : ∀ c ∈ commands, c.isDeclaration = true → c.clauses = []

namespace Declares

variable {s t u : Session} {commands : List Command}

private theorem of_eq (h : ∀ name, t.storeName? name = s.storeName? name) : Declares s [] t where
  knows_iff store := by
    rw [knows_congr h]
    exact (or_iff_left List.not_mem_nil).symm
  unknown _ h := absurd h List.not_mem_nil
  nodup := List.nodup_nil
  declaredFirst := trivial
  bare _ h := absurd h List.not_mem_nil

/-- Commands without declarations that touch known stores only. -/
theorem of_known (h : ∀ name, t.storeName? name = s.storeName? name)
    (hplain : ∀ c ∈ commands, c.declared? = none)
    (hknown : ∀ c ∈ commands, ∀ store ∈ c.stores, s.Knows store) : Declares s commands t := by
  have hnone : Command.declarations commands = [] := List.filterMap_eq_nil_iff.mpr hplain
  refine ⟨?_, ?_, ?_, Command.declaredFirst_of_known hknown, ?_⟩
  · intro store
    rw [hnone, knows_congr h]
    exact (or_iff_left List.not_mem_nil).symm
  · rw [hnone]
    exact fun _ h => absurd h List.not_mem_nil
  · rw [hnone]
    exact List.nodup_nil
  · intro c hc hdecl
    obtain ⟨store, hstore⟩ := Command.isDeclaration_iff.mp hdecl
    rw [hplain c hc] at hstore
    cases hstore

/-- One command that is no declaration and touches known stores only. -/
theorem of_known_singleton {c : Command} (h : ∀ name, t.storeName? name = s.storeName? name)
    (hplain : c.declared? = none) (hknown : ∀ store ∈ c.stores, s.Knows store) :
    Declares s [c] t := by
  refine of_known h (fun d hd => ?_) fun d hd => ?_
  · rw [List.mem_singleton.mp hd]
    exact hplain
  · rw [List.mem_singleton.mp hd]
    exact hknown

/-- Declarations of one part are known to the next part, which therefore does not repeat them. -/
theorem append {commands' : List Command} (h : Declares s commands t)
    (h' : Declares t commands' u) : Declares s (commands ++ commands') u where
  knows_iff store := by
    rw [h'.knows_iff, h.knows_iff, Command.declarations_append, List.mem_append, or_assoc]
  unknown store hstore hknown := by
    rw [Command.declarations_append, List.mem_append] at hstore
    rcases hstore with hfirst | hsecond
    · exact h.unknown store hfirst hknown
    · exact h'.unknown store hsecond ((h.knows_iff store).mpr (Or.inl hknown))
  nodup := by
    rw [Command.declarations_append, List.nodup_append']
    refine ⟨h.nodup, h'.nodup, ?_⟩
    intro store hfirst hsecond
    exact h'.unknown store hsecond ((h.knows_iff store).mpr (Or.inr hfirst))
  declaredFirst :=
    h.declaredFirst.append (h'.declaredFirst.mono fun store => (h.knows_iff store).mp)
  bare c hc := (List.mem_append.mp hc).elim (h.bare c) (h'.bare c)

/-- Sessions with the same stores may be exchanged at the end. -/
theorem congr_right (h : Declares s commands t)
    (hu : ∀ name, u.storeName? name = t.storeName? name) : Declares s commands u := by
  have hnil := h.append (of_eq hu)
  rwa [List.append_nil] at hnil

/-- A clause on known stores may be put around all commands. -/
theorem under {clause : Clause} (hclause : ∀ store ∈ clause.stores, s.Knows store)
    (h : Declares s commands t) : Declares s (commands.map (Command.under clause)) t where
  knows_iff := by simpa using h.knows_iff
  unknown := by simpa using h.unknown
  nodup := by simpa using h.nodup
  declaredFirst := h.declaredFirst.under hclause
  bare c hc hdecl := by
    obtain ⟨d, hd, rfl⟩ := List.mem_map.mp hc
    have hdecl' : d.isDeclaration = true := by
      rw [Command.isDeclaration_iff] at hdecl ⊢
      simpa using hdecl
    rw [Command.clauses_under, if_pos hdecl']
    exact h.bare d hd hdecl'

end Declares

/-- Creating a store declares it if it was unknown; its target name belongs to no other store. -/
theorem declares_createStore {held : List String} {s t : Session} {name : String}
    {commands : List Command} (hs : Moment.Reachable ⟨held, s⟩)
    (h : s.createStore name = (commands, t)) : Declares s commands t := by
  have ht : Moment.Reachable ⟨held, t⟩ := hs.reaches (Lowering.reaches_createStore h)
  obtain rfl : t = (s.createStore name).2 := by rw [h]
  cases hd : s.isDeclared name with
  | true =>
    rw [createStore_of_declared hd] at h ⊢
    cases h
    exact .of_eq fun _ => rfl
  | false =>
    have hself := storeName?_createStore_self hd
    have hbefore : s.storeName? name = none := by simp [storeName?, hd]
    have hne : ∀ {other store}, s.storeName? other = some store → other ≠ name := by
      rintro other store hother rfl
      rw [hbefore] at hother
      cases hother
    obtain rfl : commands = [.declare (s.storeNames.resolve name s.supply).short] := by
      rw [createStore_of_undeclared hd] at h
      exact (congrArg Prod.fst h).symm
    refine ⟨?_, ?_, List.nodup_singleton _, ⟨fun _ h => absurd h List.not_mem_nil, trivial⟩, ?_⟩
    · intro store
      change _ ↔ _ ∨ store ∈ [_]
      rw [List.mem_singleton]
      constructor
      · rintro ⟨other, hother⟩
        by_cases he : other = name
        · subst he
          rw [hself] at hother
          exact Or.inr (Option.some.inj hother).symm
        · rw [s.storeName?_createStore_of_ne name he] at hother
          exact Or.inl ⟨other, hother⟩
      · rintro (⟨other, hother⟩ | rfl)
        · exact ⟨other, (s.storeName?_createStore_of_ne name (hne hother)).trans hother⟩
        · exact ⟨name, hself⟩
    · intro store hstore
      obtain rfl := List.mem_singleton.mp hstore
      rintro ⟨other, hother⟩
      have hother' := (s.storeName?_createStore_of_ne name (hne hother)).trans hother
      exact hne hother (ht.storeName?_injective hother' hself)
    · intro c hc _
      rw [List.mem_singleton.mp hc]
      rfl

end Session

namespace Lowering

open Session

section Scores

variable {s t : Session} {a : Access} {x : Score}

/-- Finding a score changes nothing about stores. -/
theorem storeName?_of_scoreOf (h : scoreOf a s = (.ok x, t)) (name : String) :
    t.storeName? name = s.storeName? name := by
  obtain ⟨-, hentry⟩ := scoreOf_eq_ok.mp h
  have hname := s.storeName?_nameEntry a.entry name
  rwa [hentry] at hname

/-- The store of a score that was found is known. -/
theorem knows_of_scoreOf (h : scoreOf a s = (.ok x, t)) : s.Knows x.store :=
  ⟨a.store, (scoreOf_eq_ok.mp h).1⟩

/-- Taking a register changes nothing about stores. -/
theorem storeName?_of_acquire {r : String} (h : s.acquire = (r, t)) (name : String) :
    t.storeName? name = s.storeName? name := by
  obtain rfl : t = s.acquire.2 := by rw [h]
  rfl

end Scores

/-- The scratch store is declared where it was unknown, before two registers are taken. -/
theorem declares_registers {held : List String} {s s₁ s₂ s₃ : Session}
    {declaration : List Command} {r q : String} (hs : Moment.Reachable ⟨held, s⟩)
    (hdecl : s.createStore scratchStore = (declaration, s₁)) (hr : s₁.acquire = (r, s₂))
    (hq : s₂.acquire = (q, s₃)) : Declares s declaration s₃ :=
  ((declares_createStore hs hdecl).congr_right (storeName?_of_acquire hr)).congr_right
    (storeName?_of_acquire hq)

/-- The scores of a comparison are known where its body is lowered. -/
theorem knows_of_compare {s u v : Session} {a b : Access} {x y : Score} {negate : Bool}
    {c : Comparator} (hx : scoreOf a s = (.ok x, u)) (hy : scoreOf b u = (.ok y, v)) :
    ∀ store ∈ (Clause.compare negate x c y).stores, v.Knows store := by
  intro store hstore
  have hu := knows_congr (storeName?_of_scoreOf hx)
  have hv := knows_congr (storeName?_of_scoreOf hy)
  rcases List.mem_pair.mp hstore with rfl | rfl
  · exact (hv _).mpr ((hu _).mpr (knows_of_scoreOf hx))
  · exact (hv _).mpr (knows_of_scoreOf hy)

/-- Every task declares before it uses, and declares only what was unknown. -/
theorem Emits.declares {held : List String} {task : Task} {s t : Session}
    {commands : List Command} (h : Emits held task s commands t)
    (hs : Moment.Reachable ⟨held, s⟩) : Declares s commands t := by
  induction h with
  | int _ hx =>
    refine .of_known (storeName?_of_scoreOf hx) (fun c hc => (Command.mem_edit hc).2) ?_
    intro c hc store hstore
    rw [(Command.mem_edit hc).1, List.mem_singleton] at hstore
    subst hstore
    exact knows_of_scoreOf hx
  | access hx hy =>
    refine .of_known_singleton (fun name => ?_) rfl fun store hstore => ?_
    · rw [storeName?_of_scoreOf hy, storeName?_of_scoreOf hx]
    · rcases List.mem_pair.mp hstore with rfl | rfl
      · exact knows_of_scoreOf hx
      · exact (knows_congr (storeName?_of_scoreOf hx) _).mp (knows_of_scoreOf hy)
  | captured hx =>
    refine .of_known_singleton (storeName?_of_scoreOf hx) rfl fun store hstore => ?_
    rw [List.mem_singleton.mp hstore]
    exact knows_of_scoreOf hx
  | capturedFirst hdecl hr hcap _ ihcap ihcomb =>
    have hr' := hs.reaches ((reaches_createStore hdecl).trans (reaches_acquire hr))
    have hfirst := (declares_createStore hs hdecl).congr_right (storeName?_of_acquire hr)
    have hwork := (ihcap hr').append (ihcomb (hr'.reaches hcap.reaches))
    exact (hfirst.append hwork).congr_right fun _ => rfl
  | calculated hcalc _ ihcalc ihcomb =>
    exact (ihcalc hs).append (ihcomb (hs.reaches hcalc.reaches))
  | operands h _ ih ih' => exact (ih hs).append (ih' (hs.reaches h.reaches))
  | calculation _ _ hdecl hr hq hload _ ihload ihcomb =>
    have hq' := hs.reaches (reaches_registers hdecl hr hq)
    have hfirst := declares_registers hs hdecl hr hq
    have hwork := (ihload hq').append (ihcomb (hq'.reaches hload.reaches))
    exact (hfirst.append hwork).congr_right fun _ => rfl
  | block _ ih => exact ih hs
  | create h => exact declares_createStore hs h
  | assign _ ih => exact ih hs
  | discarded _ ih => exact ih hs
  | direct hx hy _ _ ih =>
    have hsame := fun name => (storeName?_of_scoreOf hy name).trans (storeName?_of_scoreOf hx name)
    have hbody := ih (hs.reaches ((reaches_scoreOf hx).trans (reaches_scoreOf hy)))
    exact (Declares.of_eq hsame).append (hbody.under (knows_of_compare hx hy))
  | copies hdecl hr hq hload hx hy _ ihload ihbody =>
    have hq' := hs.reaches (reaches_registers hdecl hr hq)
    have hfirst := declares_registers hs hdecl hr hq
    have hsame := fun name => (storeName?_of_scoreOf hy name).trans (storeName?_of_scoreOf hx name)
    have hloaded := hq'.reaches hload.reaches
    have hbody := ihbody (hloaded.reaches ((reaches_scoreOf hx).trans (reaches_scoreOf hy)))
    refine hfirst.append (((ihload hq').congr_right hsame).append ?_)
    exact (hbody.under (knows_of_compare hx hy)).congr_right fun _ => rfl
  | runAs _ ih => exact (ih hs).under fun _ h => absurd h List.not_mem_nil
  | text => exact .of_known_singleton (fun _ => rfl) rfl fun _ h => absurd h List.not_mem_nil
  | nil => exact .of_eq fun _ => rfl
  | cons h _ ih ih' => exact (ih hs).append (ih' (hs.reaches h.reaches))

end Lowering

namespace Session

/-- The commands of those calls that succeed, in order. -/
def handedOver (s : Session) : List Call → List Command
  | [] => []
  | c :: rest =>
    match s.call c with
    | (.ok commands, t) => commands ++ t.handedOver rest
    | (.error _, t) => t.handedOver rest

/-- Between calls no declaration is pending. -/
theorem pending_call (s : Session) (c : Call) : (s.call c).2.pending = [] := by
  obtain ⟨t, -, ⟨commands, -, h⟩ | ⟨e, -, h⟩⟩ := s.call_cases c <;> rw [h] <;> rfl

/-- A lowering that fails declares nothing. -/
theorem isDeclared_rollback {s t : Session} (hpending : s.pending = [])
    (h : Moment.Reaches ⟨[], s⟩ ⟨[], t⟩) (name : String) :
    t.rollback.isDeclared name = s.isDeclared name := by
  have heq : t.declared = s.declared := h.declared_eq
  simp only [isDeclared, rollback, heq, hpending]

/-- A lowering that fails leaves every store as it found it. -/
theorem storeName?_rollback {s t : Session} (hs : Moment.Reachable ⟨[], s⟩)
    (hpending : s.pending = []) (h : Moment.Reaches ⟨[], s⟩ ⟨[], t⟩) (name : String) :
    t.rollback.storeName? name = s.storeName? name := by
  rw [storeName?, storeName?, isDeclared_rollback hpending h]
  split
  next hd =>
    obtain ⟨short, hshort⟩ := hs.accounted.named hd
    exact (h.keepsNames.storeNames hshort).trans hshort.symm
  next => rfl

/-- Calls declare before they use, and declare only what was unknown, failed ones among them. -/
theorem declares_handedOver {s : Session} (hs : Moment.Reachable ⟨[], s⟩)
    (hpending : s.pending = []) (calls : List Call) :
    Declares s (s.handedOver calls) (s.after calls) := by
  induction calls generalizing s with
  | nil => exact .of_eq fun _ => rfl
  | cons c calls ih =>
    have hrest := ih (hs.call c) (s.pending_call c)
    obtain ⟨t, hsteps, ⟨commands, hok, h⟩ | ⟨e, -, h⟩⟩ := s.call_cases c
    · have hfirst := (Lowering.emits_call hok).declares hs
      rw [h] at hrest
      rw [handedOver, after_cons, h]
      exact (hfirst.congr_right t.storeName?_commit).append hrest
    · have hfirst := Declares.of_eq (storeName?_rollback hs hpending hsteps)
      rw [h] at hrest
      rw [handedOver, after_cons, h]
      exact hfirst.append hrest

/--
In the commands of all calls that succeed, failed calls left out: every store that
a command touches is declared by a command before it; no store is declared twice;
the stores declared are those that have a target name in the end; and no clause
stands in front of a declaration.
-/
theorem declarations_handedOver (calls : List Call) :
    let commands := Session.fresh.handedOver calls
    (∀ before c after, commands = before ++ c :: after →
      ∀ store ∈ c.stores, Command.declare store ∈ before) ∧
      (Command.declarations commands).Nodup ∧
      (∀ store, store ∈ Command.declarations commands ↔
        ∃ name, (Session.fresh.after calls).storeName? name = some store) ∧
      ∀ c ∈ commands, c.isDeclaration = true → c.clauses = [] := by
  intro commands
  have h : Declares .fresh commands (Session.fresh.after calls) :=
    declares_handedOver .fresh rfl calls
  have hfresh : ∀ store, ¬ Session.fresh.Knows store := by
    rintro store ⟨name, hname⟩
    cases hname
  refine ⟨?_, h.nodup, ?_, h.bare⟩
  · intro before c after hsplit store hstore
    have hfirst := h.declaredFirst
    rw [hsplit] at hfirst
    obtain ⟨d, hd, hdstore⟩ :=
      List.mem_filterMap.mp ((hfirst.split store hstore).resolve_left (hfresh store))
    have hmem : d ∈ commands := hsplit ▸ List.mem_append_left _ hd
    have hbare := h.bare d hmem (Command.isDeclaration_iff.mpr ⟨store, hdstore⟩)
    rwa [Command.eq_declare hbare hdstore] at hd
  · intro store
    exact ((h.knows_iff store).trans (or_iff_right (hfresh store))).symm

end Session

end Datapack
