import Datapack.Proofs.Lowering.DirectComparison

/-!
# Which programs have a lowering

A program is lowered exactly if its phrases have the right form for their places
and every store is created before it is used, in the order of the text: a `create`
counts wherever it stands, and the operands of a condition come before its body.
Registers play no part in that, and their store is never found missing.

Each step of lowering is said to decide a condition on the stores known so far:
it succeeds where the condition holds, fails where it does not, and the stores
known afterwards are those before and the ones it adds.
-/

namespace Datapack

/-- What happens to stores as a program goes on. -/
inductive StoreEvent where
  | uses (store : String)
  | creates (store : String)

namespace StoreEvent

variable {known : String → Prop} {first second : List StoreEvent}

/-- Every store that is used is known from the start, or is created before. -/
def Resolved (known : String → Prop) (events : List StoreEvent) : Prop :=
  ∀ before store after, events = before ++ .uses store :: after →
    known store ∨ .creates store ∈ before

/-- What the first events create is known to the second ones. -/
theorem resolved_append :
    Resolved known (first ++ second) ↔
      Resolved known first ∧
        Resolved (fun store => known store ∨ .creates store ∈ first) second := by
  constructor
  · intro h
    constructor
    · rintro before store after rfl
      exact h before store (after ++ second) (by simp)
    · rintro before store after rfl
      rcases h (first ++ before) store after (by simp) with hknown | hcreated
      · exact .inl (.inl hknown)
      · rcases List.mem_append.mp hcreated with hfirst | hbefore
        · exact .inl (.inr hfirst)
        · exact .inr hbefore
  · rintro ⟨hfirst, hsecond⟩ before store after hsplit
    rcases List.append_eq_append_iff.mp hsplit with ⟨rest, rfl, hrest⟩ | ⟨rest, hrest, hafter⟩
    · rcases hsecond rest store after hrest with (hknown | hcreated) | hcreated
      · exact .inl hknown
      · exact .inr (List.mem_append_left _ hcreated)
      · exact .inr (List.mem_append_right _ hcreated)
    · cases rest with
      | nil =>
        rw [List.nil_append] at hafter
        rcases hsecond [] store after hafter.symm with (hknown | hcreated) | hcreated
        · exact .inl hknown
        · rw [hrest, List.append_nil] at hcreated
          exact .inr hcreated
        · cases hcreated
      | cons event rest =>
        rw [List.cons_append, List.cons.injEq] at hafter
        obtain ⟨rfl, -⟩ := hafter
        exact hfirst before store rest hrest

/-- Where nothing is created, all stores used have to be known. -/
theorem resolved_uses {stores : List String} :
    Resolved known (stores.map uses) ↔ ∀ store ∈ stores, known store := by
  constructor
  · intro h store hstore
    obtain ⟨before, after, rfl⟩ := List.append_of_mem hstore
    rcases h (before.map uses) store (after.map uses) (by simp) with hknown | hcreated
    · exact hknown
    · simp at hcreated
  · intro h before store after hsplit
    have hmem : uses store ∈ stores.map uses := hsplit ▸ by simp
    exact .inl (h store (by simpa using hmem))

/-- Events that only use stores add nothing to those known. -/
theorem resolved_uses_append {stores : List String} :
    Resolved known (stores.map uses ++ second) ↔
      (∀ store ∈ stores, known store) ∧ Resolved known second := by
  rw [resolved_append, resolved_uses]
  simp

private theorem resolved_of_unused (h : ∀ store, uses store ∉ first) : Resolved known first := by
  rintro before store after rfl
  exact absurd (List.mem_append_right before List.mem_cons_self) (h store)

private theorem resolved_congr {known' : String → Prop}
    (h : ∀ store, uses store ∈ first → (known store ↔ known' store)) :
    Resolved known first ↔ Resolved known' first := by
  constructor
  · rintro hresolved before store after rfl
    have hstore := h store (List.mem_append_right before List.mem_cons_self)
    exact (hresolved before store after rfl).imp_left hstore.mp
  · rintro hresolved before store after rfl
    have hstore := h store (List.mem_append_right before List.mem_cons_self)
    exact (hresolved before store after rfl).imp_left hstore.mpr

end StoreEvent

/-- Operators that combine a score with a fixed number. -/
def Operator.isImmediate (o : Operator) : Bool := o == .set || o == .add || o == .sub

namespace Node

/-- Phrases made of numbers, scores and calculations only. -/
def isNumeric : Node → Bool
  | .int _ | .access _ => true
  | .calc first _ second => first.isNumeric && second.isNumeric
  | _ => false

/-- Phrases that have a number; a command line has the one it answers. -/
def hasNumber : Node → Bool
  | .text _ => true
  | node => node.isNumeric

/-- Whether the operator can combine a score with the phrase. -/
def isAssignable (o : Operator) : Node → Bool
  | .int _ => o.isImmediate
  | node => node.hasNumber

mutual

/-- Statements whose phrases have the right form for their places. -/
def isWellShaped : Node → Bool
  | .create _ | .text _ => true
  | .assign _ o value => value.isAssignable o
  | .calc first _ second => first.isNumeric && second.isNumeric
  | .branch _ first _ second body => first.hasNumber && second.hasNumber && areWellShaped body
  | .block body | .runAs _ body => areWellShaped body
  | .int _ | .float _ | .access _ | .call .. => false

/-- Whether all statements have phrases of the right form. -/
def areWellShaped : List Node → Bool
  | [] => true
  | node :: rest => node.isWellShaped && areWellShaped rest

end

/-- The stores that a value reads, in order. -/
def readStores (node : Node) : List String := node.accesses.map Access.store

mutual

/-- What a statement does to stores, in the order of the text. -/
def storeEvents : Node → List StoreEvent
  | .create store => [.creates store]
  | .assign target _ value => .uses target.store :: value.readStores.map .uses
  | .calc first _ second => first.readStores.map .uses ++ second.readStores.map .uses
  | .branch _ first _ second body =>
    first.readStores.map .uses ++ second.readStores.map .uses ++ storeEventsAll body
  | .block body | .runAs _ body => storeEventsAll body
  | .int _ | .float _ | .text _ | .access _ | .call .. => []

/-- What statements do to stores, in the order of the text. -/
def storeEventsAll : List Node → List StoreEvent
  | [] => []
  | node :: rest => node.storeEvents ++ storeEventsAll rest

end

mutual

/-- Stores of the scores that a phrase mentions are stores that it mentions. -/
theorem store_mem_stores {a : Access} : (node : Node) → a ∈ node.accesses → a.store ∈ node.stores
  | .int _, h | .float _, h | .text _, h | .create _, h => nomatch h
  | .access source, h => by
    obtain rfl := List.mem_singleton.mp h
    exact List.mem_singleton_self _
  | .assign target _ value, h => by
    rcases List.mem_cons.mp h with rfl | hvalue
    · exact List.mem_cons_self
    · exact List.mem_cons_of_mem _ (store_mem_stores value hvalue)
  | .calc first _ second, h => by
    rcases List.mem_append.mp h with hfirst | hsecond
    · exact List.mem_append_left _ (store_mem_stores first hfirst)
    · exact List.mem_append_right _ (store_mem_stores second hsecond)
  | .branch _ first _ second body, h => by
    simp only [accesses, List.mem_append] at h
    simp only [stores, List.mem_append]
    exact h.imp (store_mem_stores first)
      (Or.imp (store_mem_stores second) (store_mem_storesAll body))
  | .block body, h | .runAs _ body, h | .call _ body, h => store_mem_storesAll body h

private theorem store_mem_storesAll {a : Access} : (body : List Node) → a ∈ accessesAll body →
    a.store ∈ storesAll body
  | [], h => nomatch h
  | node :: rest, h => by
    rcases List.mem_append.mp h with hnode | hrest
    · exact List.mem_append_left _ (store_mem_stores node hnode)
    · exact List.mem_append_right _ (store_mem_storesAll rest hrest)

end

/-- The stores that a value reads are mentioned by it. -/
theorem readStores_subset (node : Node) : node.readStores ⊆ node.stores := by
  intro store hstore
  obtain ⟨a, ha, rfl⟩ := List.mem_map.mp hstore
  exact store_mem_stores node ha

mutual

/-- Stores that a statement uses are stores that it mentions. -/
theorem mem_stores_of_uses {store : String} : (node : Node) → .uses store ∈ node.storeEvents →
    store ∈ node.stores
  | .int _, h | .float _, h | .text _, h | .access _, h | .call .., h => nomatch h
  | .create _, h => by simp [storeEvents] at h
  | .assign target _ value, h => by
    simp only [storeEvents, List.mem_cons, StoreEvent.uses.injEq, List.mem_map,
      exists_eq_right] at h
    exact List.mem_cons.mpr (h.imp_right fun hvalue => readStores_subset value hvalue)
  | .calc first _ second, h => by
    simp only [storeEvents, List.mem_append, List.mem_map, StoreEvent.uses.injEq,
      exists_eq_right] at h
    exact List.mem_append.mpr (h.imp (fun hfirst => readStores_subset first hfirst)
      fun hsecond => readStores_subset second hsecond)
  | .branch _ first _ second body, h => by
    simp only [storeEvents, List.mem_append, List.mem_map, StoreEvent.uses.injEq,
      exists_eq_right, or_assoc] at h
    simp only [stores, List.mem_append]
    exact h.imp (fun hfirst => readStores_subset first hfirst)
      (Or.imp (fun hsecond => readStores_subset second hsecond) (mem_storesAll_of_uses body))
  | .block body, h | .runAs _ body, h => mem_storesAll_of_uses body h

private theorem mem_storesAll_of_uses {store : String} : (body : List Node) →
    .uses store ∈ storeEventsAll body → store ∈ storesAll body
  | [], h => nomatch h
  | node :: rest, h => by
    rcases List.mem_append.mp h with hnode | hrest
    · exact List.mem_append_left _ (mem_stores_of_uses node hnode)
    · exact List.mem_append_right _ (mem_storesAll_of_uses rest hrest)

end

end Node

/-- Stores that are declared, the scratch store aside. -/
def Session.Offers (s : Session) (store : String) : Prop :=
  store ≠ scratchStore ∧ s.isDeclared store = true

private theorem Session.offers_createStore (s : Session) (name store : String) :
    (s.createStore name).2.Offers store ↔
      s.Offers store ∨ store ≠ scratchStore ∧ store = name := by
  rw [Offers, Offers, isDeclared_createStore, Bool.or_eq_true, beq_iff_eq, and_or_left]

namespace Lowering

open Moment

/-- The lowering succeeds exactly where the condition on known stores holds, and adds stores to
them. With `ready` this is only said of sessions that have the scratch store. -/
def Decides {α : Type} (ready : Bool) (good : (String → Prop) → Prop) (adds : String → Prop)
    (m : Lowering α) : Prop :=
  ∀ ⦃held : List String⦄ ⦃s : Session⦄, Reachable ⟨held, s⟩ →
    (ready = true → s.isDeclared scratchStore = true) →
    (∃ a t, m s = (.ok a, t) ∧ good s.Offers ∧ Reachable ⟨held, t⟩ ∧
      (∀ store, t.Offers store ↔ s.Offers store ∨ adds store) ∧
      (s.isDeclared scratchStore = true → t.isDeclared scratchStore = true)) ∨
    ∃ e t, m s = (.error e, t) ∧ ¬ good s.Offers ∧ e ≠ .unknownStore scratchStore

section Decides

variable {α β : Type} {ready : Bool} {good good' : (String → Prop) → Prop}
  {adds adds' : String → Prop} {m : Lowering α}

private theorem decides_pure (a : α) :
    Decides ready (fun _ => True) (fun _ => False) (pure a : Lowering α) :=
  fun _ s hs _ => .inl ⟨a, s, rfl, trivial, hs, by simp, id⟩

private theorem decides_fail {e : LowerError} (he : e ≠ .unknownStore scratchStore) :
    Decides ready (fun _ => False) (fun _ => False) (fail e : Lowering α) :=
  fun _ s _ _ => .inr ⟨e, s, rfl, id, he⟩

private theorem Decides.congr (h : Decides ready good adds m)
    (hgood : ∀ known, good known ↔ good' known)
    (hadds : ∀ store, adds store ↔ adds' store) : Decides ready good' adds' m := by
  obtain rfl : good = good' := funext fun known => propext (hgood known)
  obtain rfl : adds = adds' := funext fun store => propext (hadds store)
  exact h

/-- What the first step adds is known to the second, which need only decide for results that the
first one can have. -/
theorem Decides.bind {f : α → Lowering β} {result : α → Prop} (hm : Decides ready good adds m)
    (hresult : ∀ {s t a}, m s = (.ok a, t) → result a)
    (hf : ∀ a, result a → Decides ready good' adds' (f a)) :
    Decides ready (fun known => good known ∧ good' fun store => known store ∨ adds store)
      (fun store => adds store ∨ adds' store) (m >>= f) := by
  intro held s hs hready
  rcases hm hs hready with ⟨a, t, hok, hgood, ht, hoffers, hscratch⟩ | ⟨e, t, herror, hbad, he⟩
  · have hknown : t.Offers = fun store => s.Offers store ∨ adds store :=
      funext fun store => propext (hoffers store)
    rw [bind_apply_ok hok]
    rcases hf a (hresult hok) ht fun h => hscratch (hready h) with
      ⟨b, u, hok', hgood', hu, hoffers', hscratch'⟩ | ⟨e, u, herror', hbad', he⟩
    · refine .inl ⟨b, u, hok', ⟨hgood, hknown ▸ hgood'⟩, hu, fun store => ?_, hscratch' ∘ hscratch⟩
      rw [hoffers', hoffers, or_assoc]
    · exact .inr ⟨e, u, herror', fun h => hbad' (hknown ▸ h.2), he⟩
  · exact .inr ⟨e, t, bind_apply_error herror, fun h => hbad h.1, he⟩

/-- A step that adds nothing, in front of another one. -/
theorem Decides.seq {f : α → Lowering β} (hm : Decides ready good (fun _ => False) m)
    (hf : ∀ a, Decides ready good' adds (f a)) :
    Decides ready (fun known => good known ∧ good' known) adds (m >>= f) :=
  (hm.bind (fun _ => trivial) fun a _ => hf a).congr (by simp) (by simp)

/-- What is made of the result does not matter. -/
theorem Decides.map (hm : Decides ready good adds m) (f : α → β) :
    Decides ready good adds (m >>= fun a => pure (f a)) :=
  (hm.bind (fun _ => trivial) fun a _ => decides_pure (f a)).congr (by simp) (by simp)

/-- A register is given back in any case. -/
theorem Decides.withRegister {use : String → Lowering α}
    (h : ∀ r, Decides ready good adds (use r)) : Decides ready good adds (withRegister use) := by
  intro held s hs hready
  have htaken := hs.step (.acquire held s)
  rcases h s.acquire.1 htaken hready with
    ⟨a, t, hok, hgood, ht, hoffers, hscratch⟩ | ⟨e, t, herror, hbad, he⟩
  · refine .inl ⟨a, t.release s.acquire.1, ?_, hgood, ht.step (.release _ _ _), hoffers, hscratch⟩
    exact withRegister_eq_ok.mpr ⟨_, _, t, rfl, hok, rfl⟩
  · refine .inr ⟨e, t.release s.acquire.1, ?_, hbad, he⟩
    simp only [Lowering.withRegister, herror]

/-- Once the scratch store is created, it is there. -/
theorem Decides.createScratch {f : List Command → Lowering β}
    (h : ∀ declaration, Decides true good adds (f declaration)) :
    Decides ready good adds (createStore scratchStore >>= f) := by
  intro held s hs _
  have hoffers : (s.createStore scratchStore).2.Offers = s.Offers := by
    funext store
    rw [Session.offers_createStore, not_and_self_iff, or_false]
  have hscratch : (s.createStore scratchStore).2.isDeclared scratchStore = true := by
    simp [Session.isDeclared_createStore]
  have hwork := h (s.createStore scratchStore).1 (hs.step (.createStore held s scratchStore))
    fun _ => hscratch
  rw [hoffers] at hwork
  rcases hwork with ⟨a, t, hok, hgood, ht, hadds, hkept⟩ | herror
  · exact .inl ⟨a, t, hok, hgood, ht, hadds, fun _ => hkept hscratch⟩
  · exact .inr herror

/-- A store that the program creates is known afterwards. -/
theorem decides_createStore {name : String} (hname : name ≠ scratchStore) :
    Decides ready (fun _ => True) (· = name) (createStore name) := by
  intro held s hs _
  have hscratch : s.isDeclared scratchStore = true →
      (s.createStore name).2.isDeclared scratchStore = true := by
    intro h
    simp [Session.isDeclared_createStore, h]
  refine .inl ⟨(s.createStore name).1, (s.createStore name).2, rfl, trivial,
    hs.step (.createStore held s name), fun store => ?_, hscratch⟩
  rw [Session.offers_createStore]
  refine or_congr_right (and_iff_right_of_imp ?_)
  rintro rfl
  exact hname

/-- Where a score may stand: in the scratch store, or in a store that is known. -/
def Located (a : Access) (known : String → Prop) : Prop := a.store = scratchStore ∨ known a.store

private theorem located_iff {a : Access} (hready : a.store = scratchStore → ready = true)
    {s : Session}
    (hs : ready = true → s.isDeclared scratchStore = true) :
    Located a s.Offers ↔ s.isDeclared a.store = true := by
  constructor
  · rintro (ha | ⟨-, hd⟩)
    · exact ha ▸ hs (hready ha)
    · exact hd
  · intro hd
    by_cases ha : a.store = scratchStore
    · exact .inl ha
    · exact .inr ⟨ha, hd⟩

private theorem ne_unknownStore {a : Access} {known : String → Prop} (h : ¬ Located a known) :
    LowerError.unknownStore a.store ≠ .unknownStore scratchStore := by
  intro he
  exact h (.inl (LowerError.unknownStore.inj he))

/-- A score is found where its store is known; registers always are. -/
theorem decides_scoreOf {a : Access} (ha : a.store = scratchStore → ready = true) :
    Decides ready (Located a) (fun _ => False) (scoreOf a) := by
  intro held s hs hready
  have hlocated := located_iff ha hready
  cases hd : s.isDeclared a.store with
  | true =>
    obtain ⟨short, hshort⟩ := hs.exists_storeName? hd
    refine .inl ⟨_, _, scoreOf_of_some hshort, hlocated.mpr hd,
      hs.step (.nameEntry held s a.entry), ?_, ?_⟩
    · simp [Session.Offers]
    · simp
  | false =>
    have hbad : ¬ Located a s.Offers := by rw [hlocated, hd]; exact Bool.false_ne_true
    have hnone : s.storeName? a.store = none := by simp [Session.storeName?, hd]
    exact .inr ⟨_, _, scoreOf_of_none hnone, hbad, ne_unknownStore hbad⟩

private theorem decides_storeName {a : Access} (ha : a.store = scratchStore → ready = true) :
    Decides ready (Located a) (fun _ => False) (storeName a.store) := by
  intro held s hs hready
  have hlocated := located_iff ha hready
  cases hd : s.isDeclared a.store with
  | true =>
    obtain ⟨short, hshort⟩ := hs.exists_storeName? hd
    exact .inl ⟨short, s, storeName_eq_ok.mpr ⟨hshort, rfl⟩, hlocated.mpr hd, hs, by simp, id⟩
  | false =>
    have hbad : ¬ Located a s.Offers := by rw [hlocated, hd]; exact Bool.false_ne_true
    have hnone : s.storeName? a.store = none := by simp [Session.storeName?, hd]
    refine .inr ⟨.unknownStore a.store, s, ?_, hbad, ne_unknownStore hbad⟩
    rw [storeName, hnone]

private theorem decides_checkOperand (node : Node) :
    Decides ready (fun _ => isOperand node = true) (fun _ => False) (checkOperand node) := by
  unfold checkOperand
  split
  next h => exact (decides_pure ()).congr (by simp [h]) fun _ => .rfl
  next h => exact (decides_fail LowerError.noConfusion).congr (by simp [h]) fun _ => .rfl

private theorem located_scratch (r : String) (known : String → Prop) : Located (scratch r) known :=
  .inl rfl

private theorem decides_combine {target source : Access} (o : Operator)
    (htarget : target.store = scratchStore → ready = true)
    (hsource : source.store = scratchStore → ready = true) :
    Decides ready (fun known => Located target known ∧ Located source known) (fun _ => False)
      (combine target o source) :=
  (decides_scoreOf htarget).seq fun _ => (decides_scoreOf hsource).map _

private theorem decides_capture {target : Access} (line : String)
    (htarget : target.store = scratchStore → ready = true) :
    Decides ready (Located target) (fun _ => False) (capture target line) :=
  (decides_scoreOf htarget).map _

private theorem decides_captureAndCombine {target : Access} (o : Operator) (line : String)
    (htarget : target.store = scratchStore → ready = true) :
    Decides ready (Located target) (fun _ => False) (captureAndCombine target o line) := by
  have hwork : ∀ r, Decides true (Located target) (fun _ => False)
      (do
        let captured ← capture (scratch r) line
        let combined ← combine target o (scratch r)
        return captured ++ combined) := by
    intro r
    refine ((decides_capture line fun _ => rfl).seq fun captured =>
      (decides_combine o (fun _ => rfl) fun _ => rfl).map _).congr ?_ fun _ => .rfl
    simp [located_scratch]
  refine ((decides_storeName htarget).seq fun _ =>
    Decides.createScratch fun _ => (Decides.withRegister hwork).map _).congr ?_ fun _ => .rfl
  simp

/-- A calculation is worked out where both of its operands can be loaded, and what follows it finds
the result in a register. -/
theorem Decides.calculate_bind {after : (String → Prop) → Prop} (o : Operator)
    {first second : Access → Lowering (List Command)} {f : List Command × Access → Lowering β}
    (hfirst : ∀ r, Decides true good (fun _ => False) (first (scratch r)))
    (hsecond : ∀ r, Decides true good' (fun _ => False) (second (scratch r)))
    (hf : ∀ commands r, Decides true after adds (f (commands, scratch r))) :
    Decides ready (fun known => (good known ∧ good' known) ∧ after known) adds
      (calculate o first second >>= f) := by
  have hwork : ∀ declaration r q, Decides true (fun known => good known ∧ good' known)
      (fun _ => False) (do
        let firstLoaded ← first (scratch r)
        let secondLoaded ← second (scratch q)
        let combined ← combine (scratch r) o (scratch q)
        return (declaration ++ firstLoaded ++ secondLoaded ++ combined, scratch r)) := by
    intro declaration r q
    refine ((hfirst r).seq fun _ => (hsecond q).seq fun _ =>
      (decides_combine o (fun _ => rfl) fun _ => rfl).map _).congr ?_ fun _ => .rfl
    simp [located_scratch]
  rw [calculate, bind_assoc]
  refine Decides.createScratch fun declaration => ?_
  have hregisters := Decides.withRegister fun r => Decides.withRegister fun q =>
    hwork declaration r q
  have hafter : ∀ a : List Command × Access, (∃ r, a.2 = scratch r) →
      Decides true after adds (f a) := by
    rintro ⟨commands, _⟩ ⟨r, rfl⟩
    exact hf commands r
  refine (hregisters.bind (fun hok => ?_) hafter).congr (by simp) (by simp)
  simp only [withRegister_eq_ok, bind_eq_ok, pure_eq_ok] at hok
  obtain ⟨r, _, _, -, ⟨q, _, _, -, ⟨_, _, -, _, _, -, _, _, -, rfl, -⟩, -⟩, -⟩ := hok
  exact ⟨r, rfl⟩

end Decides

section Forms

private theorem isAssignable_set (node : Node) : node.isAssignable .set = node.hasNumber := by
  cases node <;> rfl

/-- What a calculation may combine, looked at from outside and from inside. -/
theorem isNumeric_iff (node : Node) :
    node.isNumeric = true ↔ isOperand node = true ∧ node.hasNumber = true := by
  cases node <;> simp [Node.isNumeric, isOperand, Node.hasNumber]

/-- A calculation reads the stores of both operands. -/
theorem readStores_calc (first second : Node) (o : Operator) :
    (Node.calc first o second).readStores = first.readStores ++ second.readStores :=
  List.map_append

private theorem located_of_ne {a : Access} (h : a.store ≠ scratchStore) (known : String → Prop) :
    Located a known ↔ known a.store :=
  or_iff_right h

end Forms

section Phrases

/-- A register is there for every phrase that is loaded into it. -/
theorem decides_loaded {node : Node} {r : String}
    (h : Decides true (fun known => node.isAssignable .set = true ∧ Located (scratch r) known ∧
        ∀ store ∈ node.readStores, known store) (fun _ => False) (assign (scratch r) .set node)) :
    Decides true (fun known => node.hasNumber = true ∧ ∀ store ∈ node.readStores, known store)
      (fun _ => False) (assign (scratch r) .set node) :=
  h.congr (by simp [located_scratch, isAssignable_set]) fun _ => .rfl

/-- Phrases are assigned where they have the right form, and both sides are found. -/
theorem decides_assign {ready : Bool} (target : Access)
    (htarget : target.store = scratchStore → ready = true) (o : Operator) :
    (node : Node) → (hnode : scratchStore ∉ node.stores) →
      Decides ready
        (fun known => node.isAssignable o = true ∧ Located target known ∧
          ∀ store ∈ node.readStores, known store)
        (fun _ => False) (assign target o node)
  | .int amount, _ => by
    rw [assign, assignInt]
    cases hverb : EditVerb.ofOperator? o with
    | none =>
      have ho : o.isImmediate = false := by cases o <;> first | rfl | cases hverb
      exact (decides_fail LowerError.noConfusion).congr (by simp [Node.isAssignable, ho])
        fun _ => .rfl
    | some verb =>
      have ho : o.isImmediate = true := by cases o <;> first | rfl | cases hverb
      exact ((decides_scoreOf htarget).map _).congr
        (by simp [Node.isAssignable, ho, Node.readStores, Node.accesses]) fun _ => .rfl
  | .access source, hnode => by
    have hsource : source.store ≠ scratchStore := by
      intro h
      exact hnode (by simp [Node.stores, h])
    rw [assign]
    refine (decides_combine o htarget fun h => absurd h hsource).congr ?_ fun _ => .rfl
    simp [Node.isAssignable, Node.hasNumber, Node.isNumeric, Node.readStores, Node.accesses,
      located_of_ne hsource]
  | .calc first p second, hnode => by
    rw [Node.stores, List.mem_append, not_or] at hnode
    have hready : ∀ r, (scratch r).store = scratchStore → true = true := fun _ _ => rfl
    have hload (r : String) := decides_loaded
      (decides_assign (scratch r) (hready r) .set first hnode.1)
    have hload' (r : String) := decides_loaded
      (decides_assign (scratch r) (hready r) .set second hnode.2)
    have hresult : ∀ commands r, Decides true (Located target) (fun _ => False)
        (do return commands ++ (← combine target o (scratch r))) := by
      intro commands r
      refine ((decides_combine o (fun _ => rfl) fun _ => rfl).map _).congr ?_ fun _ => .rfl
      simp [located_scratch]
    rw [assign]
    refine ((decides_storeName htarget).seq fun _ => (decides_checkOperand first).seq fun _ =>
      (decides_checkOperand second).seq fun _ =>
        Decides.calculate_bind p hload hload' hresult).congr (fun known => ?_) fun _ => .rfl
    have hshape : (Node.calc first p second).isAssignable o = true ↔
        first.isNumeric = true ∧ second.isNumeric = true := Bool.and_eq_true_iff
    rw [hshape, isNumeric_iff, isNumeric_iff, readStores_calc, List.forall_mem_append]
    tauto
  | .text line, _ => by
    rw [assign]
    split
    · refine (decides_capture line htarget).congr ?_ fun _ => .rfl
      simp [Node.isAssignable, Node.hasNumber, Node.readStores, Node.accesses]
    · refine (decides_captureAndCombine o line htarget).congr ?_ fun _ => .rfl
      simp [Node.isAssignable, Node.hasNumber, Node.readStores, Node.accesses]
  | .block _, _ | .float _, _ | .assign .., _ | .branch .., _ | .runAs .., _ | .create _, _
  | .call .., _ => by
    rw [assign]
    · exact (decides_fail LowerError.noConfusion).congr
        (by simp [Node.isAssignable, Node.hasNumber, Node.isNumeric]) fun _ => .rfl
    all_goals simp

/-- Operands of a calculation, or of a condition, in registers. -/
theorem decides_register {node : Node} (hnode : scratchStore ∉ node.stores) (r : String) :
    Decides true (fun known => node.hasNumber = true ∧ ∀ store ∈ node.readStores, known store)
      (fun _ => False) (assign (scratch r) .set node) :=
  decides_loaded (decides_assign (scratch r) (fun _ => rfl) .set node hnode)

/-- A calculation succeeds exactly on numeric operands that read known stores. -/
theorem decides_calculation {ready : Bool} (o : Operator) {first second : Node}
    (hfirst : scratchStore ∉ first.stores) (hsecond : scratchStore ∉ second.stores) :
    Decides ready
      (fun known => (first.isNumeric = true ∧ second.isNumeric = true) ∧
        ∀ store ∈ first.readStores ++ second.readStores, known store)
      (fun _ => False) (calculation first o second) := by
  have hpure : ∀ (commands : List Command) r, Decides true (fun _ => True) (fun _ => False)
      (pure (commands, scratch r)) := fun commands r => decides_pure _
  have hcalculate : Decides ready _ _
      (calculate o (assign · .set first) (assign · .set second) >>= pure) :=
    Decides.calculate_bind o (decides_register hfirst) (decides_register hsecond) hpure
  rw [bind_pure] at hcalculate
  refine ((decides_checkOperand first).seq fun _ => (decides_checkOperand second).seq fun _ =>
    hcalculate).congr (fun known => ?_) fun _ => .rfl
  rw [isNumeric_iff, isNumeric_iff, List.forall_mem_append]
  tauto

/-- Comparing in place decides on both scores and the body. -/
theorem decides_compareDirectly {ready : Bool} {good : (String → Prop) → Prop}
    {adds : String → Prop} (negate : Bool) {first second : Access} (c : Comparator)
    {body : Lowering (List Command)} (hfirst : first.store ≠ scratchStore)
    (hsecond : second.store ≠ scratchStore) (hbody : Decides ready good adds body) :
    Decides ready (fun known => known first.store ∧ known second.store ∧ good known) adds
      (compareDirectly negate first c second body) := by
  refine ((decides_scoreOf fun h => absurd h hfirst).seq fun _ =>
    (decides_scoreOf fun h => absurd h hsecond).seq fun _ => hbody.map _).congr ?_ fun _ => .rfl
  intro known
  rw [located_of_ne hfirst, located_of_ne hsecond]

/-- Comparing copies decides on both values and the body. -/
theorem decides_compareCopies {ready : Bool} {good : (String → Prop) → Prop}
    {adds : String → Prop} (negate : Bool) {first second : Node} (c : Comparator)
    {body : Lowering (List Command)} (hfirst : scratchStore ∉ first.stores)
    (hsecond : scratchStore ∉ second.stores) (hbody : Decides true good adds body) :
    Decides ready
      (fun known => ((first.hasNumber = true ∧ ∀ store ∈ first.readStores, known store) ∧
        second.hasNumber = true ∧ ∀ store ∈ second.readStores, known store) ∧ good known)
      adds (compareCopies negate first c second body) := by
  refine Decides.createScratch fun _ => Decides.map (Decides.withRegister fun r =>
    Decides.withRegister fun q => ?_) _
  refine ((decides_register hfirst r).seq fun _ => (decides_register hsecond q).seq fun _ =>
    (decides_scoreOf fun _ => rfl).seq fun _ => (decides_scoreOf fun _ => rfl).seq fun _ =>
      hbody.map _).congr ?_ fun _ => .rfl
  simp [located_scratch, and_assoc]

end Phrases

section Statements

open StoreEvent

mutual

/-- A statement is lowered exactly where it has the right form and its stores are known. -/
theorem decides_lower {ready : Bool} : (node : Node) → (hnode : scratchStore ∉ node.stores) →
    Decides ready
      (fun known => node.isWellShaped = true ∧ Resolved known node.storeEvents)
      (fun store => .creates store ∈ node.storeEvents) (lower node)
  | .block body, hnode => by
    rw [lower]
    exact decides_lowerAll body hnode
  | .create store, hnode => by
    rw [lower]
    have hresolved : ∀ known, Resolved known [.creates store] :=
      fun known => resolved_of_unused (by simp)
    refine (decides_createStore fun h => hnode (by simp [Node.stores, h])).congr ?_ ?_
    · simp [Node.isWellShaped, Node.storeEvents, hresolved]
    · simp [Node.storeEvents]
  | .assign target o value, hnode => by
    rw [Node.stores, List.mem_cons, not_or] at hnode
    have htarget : target.store ≠ scratchStore := Ne.symm hnode.1
    rw [lower]
    refine (decides_assign target (fun h => absurd h htarget) o value hnode.2).congr ?_ ?_
    · intro known
      have hevents : (Node.assign target o value).storeEvents =
          (target.store :: value.readStores).map uses := rfl
      rw [hevents, resolved_uses, List.forall_mem_cons, located_of_ne htarget]
      rfl
    · simp [Node.storeEvents]
  | .calc first o second, hnode => by
    rw [Node.stores, List.mem_append, not_or] at hnode
    rw [lower]
    refine ((decides_calculation o hnode.1 hnode.2).map _).congr ?_ ?_
    · intro known
      have hevents : (Node.calc first o second).storeEvents =
          (first.readStores ++ second.readStores).map uses := List.map_append.symm
      rw [hevents, resolved_uses, Node.isWellShaped, Bool.and_eq_true]
    · simp [Node.storeEvents]
  | .branch negate first c second body, hnode => by
    simp only [Node.stores, List.mem_append, not_or] at hnode
    obtain ⟨hfirst, hsecond, hbody⟩ := hnode
    have hadds : ∀ store, .creates store ∈ Node.storeEventsAll body ↔
        .creates store ∈ (Node.branch negate first c second body).storeEvents := by
      simp [Node.storeEvents]
    rw [lower]
    cases hdirect : directOperands first second body with
    | some operands =>
      obtain ⟨rfl, rfl, -⟩ := directOperands_eq_some hdirect
      simp only [Node.stores, List.mem_singleton] at hfirst hsecond
      refine (decides_compareDirectly negate c (Ne.symm hfirst) (Ne.symm hsecond)
        (decides_lowerAll body hbody)).congr (fun known => ?_) hadds
      simp only [Node.isWellShaped, Node.storeEvents, Bool.and_eq_true, List.append_assoc,
        resolved_uses_append]
      simp [Node.hasNumber, Node.isNumeric, Node.readStores, Node.accesses]
      tauto
    | none =>
      refine (decides_compareCopies negate c hfirst hsecond (decides_lowerAll body hbody)).congr
        (fun known => ?_) hadds
      simp only [Node.isWellShaped, Node.storeEvents, Bool.and_eq_true, List.append_assoc,
        resolved_uses_append]
      tauto
  | .runAs selector body, hnode => by
    rw [lower]
    exact (decides_lowerAll body hnode).map _
  | .text line, _ => by
    rw [lower]
    have hresolved : ∀ known, Resolved known [] := fun known => resolved_of_unused (by simp)
    refine (decides_pure _).congr ?_ (by simp [Node.storeEvents])
    simp [Node.isWellShaped, Node.storeEvents, hresolved]
  | .int _, _ | .float _, _ | .access _, _ | .call .., _ => by
    rw [lower]
    exact (decides_fail LowerError.noConfusion).congr (by simp [Node.isWellShaped])
      (by simp [Node.storeEvents])

/-- Statements are lowered exactly if they are well shaped and their stores are known in time. -/
theorem decides_lowerAll {ready : Bool} : (body : List Node) →
    (hbody : scratchStore ∉ Node.storesAll body) →
    Decides ready
      (fun known => Node.areWellShaped body = true ∧ Resolved known (Node.storeEventsAll body))
      (fun store => .creates store ∈ Node.storeEventsAll body) (lowerAll body)
  | [], _ => by
    have hresolved : ∀ known, Resolved known [] := fun known => resolved_of_unused (by simp)
    rw [lowerAll]
    refine (decides_pure _).congr ?_ (by simp [Node.storeEventsAll])
    simp [Node.areWellShaped, Node.storeEventsAll, hresolved]
  | node :: rest, hbody => by
    rw [Node.storesAll, List.mem_append, not_or] at hbody
    rw [lowerAll]
    refine ((decides_lower node hbody.1).bind (fun _ => trivial) fun _ _ =>
      (decides_lowerAll rest hbody.2).map _).congr ?_ ?_
    · intro known
      rw [Node.areWellShaped, Bool.and_eq_true, Node.storeEventsAll, resolved_append]
      tauto
    · simp [Node.storeEventsAll]

end

end Statements

end Lowering

namespace Session

/--
After any calls, a program that does not name the scratch store is lowered exactly
if its phrases have the right form for their places and every store it uses is
declared already or created further up in it. If it is refused, it is not for want
of the scratch store.
-/
theorem lowerAll_ok_iff (calls : List Call) (body : List Node)
    (hbody : scratchStore ∉ Node.storesAll body) :
    let s := Session.fresh.after calls
    ((∃ commands, (s.lowerAll body).1 = .ok commands) ↔
      Node.areWellShaped body = true ∧
        StoreEvent.Resolved (fun store => s.isDeclared store = true) (Node.storeEventsAll body)) ∧
    (s.lowerAll body).1 ≠ .error (.unknownStore scratchStore) := by
  intro s
  have hs : Moment.Reachable ⟨[], s⟩ := Moment.Reachable.fresh.after calls
  have hoffers : StoreEvent.Resolved s.Offers (Node.storeEventsAll body) ↔
      StoreEvent.Resolved (fun store => s.isDeclared store = true) (Node.storeEventsAll body) := by
    refine StoreEvent.resolved_congr fun store huses => and_iff_right_of_imp fun _ => ?_
    rintro rfl
    exact hbody (Node.mem_storesAll_of_uses body huses)
  have hdecides : Lowering.Decides false _ _ (Lowering.lowerAll body) :=
    Lowering.decides_lowerAll body hbody
  rw [← hoffers, lowerAll, run]
  rcases hdecides hs Bool.false_ne_true.elim with
    ⟨commands, t, hok, hgood, -⟩ | ⟨e, t, herror, hbad, he⟩
  · rw [hok]
    exact ⟨iff_of_true ⟨commands, rfl⟩ hgood, by rintro ⟨⟩⟩
  · rw [herror]
    exact ⟨iff_of_false (by rintro ⟨_, ⟨⟩⟩) hbad, fun h => he (Except.error.inj h)⟩

/-- A store that is created under a condition, and assigned to further down. -/
theorem lowerAll_ok_iff_guarded :
    ∃ commands, ((Session.fresh.after [.program [.create "a"]]).lowerAll
      [.branch false (.access ⟨.named "x", "a"⟩) .eq (.int 1) [.create "b"],
        .assign ⟨.named "y", "b"⟩ .set (.int 2)]).1 = .ok commands := by
  refine (lowerAll_ok_iff _ _ (by decide)).1.mpr ⟨rfl, ?_⟩
  have hevents : StoreEvent.Resolved
      (fun store => (Session.fresh.after [.program [.create "a"]]).isDeclared store = true)
      (["a"].map .uses ++ ([.creates "b"] ++ ["b"].map .uses)) := by
    refine StoreEvent.resolved_uses_append.mpr ⟨by decide, ?_⟩
    refine StoreEvent.resolved_append.mpr ⟨StoreEvent.resolved_of_unused (by simp), ?_⟩
    exact StoreEvent.resolved_uses.mpr (by simp)
  exact hevents

end Session

end Datapack
