import Datapack.Proofs.Lowering.DirectComparison
import Datapack.Proofs.Session.Labels

/-!
# Two lowerings side by side

Two sessions with different pasts may have given out different names, and hold
different registers. They are followed through the same lowering: at every moment
the same stores are declared on both sides and equally many registers are in use,
so both fail with the same error or both go on, and the commands of both sides are
spelled from the same outlines.
-/

namespace Datapack

/-- The entries of a phrase that stand in commands as they are. -/
def Node.literals (node : Node) : List String := node.accesses.flatMap fun a => a.entry.literals

namespace Moment

/-- Two moments in which the same stores are declared and equally many registers are in use. -/
structure Twin (m n : Moment) : Prop where
  left : m.Reachable
  right : n.Reachable
  isDeclared_eq : ∀ name, m.session.isDeclared name = n.session.isDeclared name
  length_eq : m.held.length = n.held.length

/-- Two such moments, later on. -/
structure Onward (m n m' n' : Moment) : Prop where
  twin : Twin m' n'
  left : m.Reaches m'
  right : n.Reaches n'

private theorem Twin.onward {m n : Moment} (h : Twin m n) : Onward m n m n := ⟨h, .refl, .refl⟩

private theorem Onward.trans {m n m' n' m'' n'' : Moment} (h : Onward m n m' n')
    (h' : Onward m' n' m'' n'') : Onward m n m'' n'' :=
  ⟨h'.twin, h.left.trans h'.left, h.right.trans h'.right⟩

/-- A store has a target name on both sides or on none. -/
theorem Twin.storeName?_cases {m n : Moment} (h : Twin m n) (name : String) :
    (∃ short short', m.session.storeName? name = some short ∧
      n.session.storeName? name = some short') ∨
    m.session.storeName? name = none ∧ n.session.storeName? name = none := by
  have hdeclared := h.isDeclared_eq name
  cases hd : m.session.isDeclared name with
  | true =>
    obtain ⟨short, hs⟩ := h.left.exists_storeName? hd
    obtain ⟨short', ht⟩ := h.right.exists_storeName? (hdeclared.symm.trans hd)
    exact .inl ⟨short, short', hs, ht⟩
  | false =>
    rw [hd] at hdeclared
    exact .inr ⟨by simp [Session.storeName?, hd], by simp [Session.storeName?, ← hdeclared]⟩

/-- A step on both sides that declares the same store, or none. -/
theorem Twin.step {m n m' n' : Moment} (h : Twin m n) (hm : Step m m') (hn : Step n n')
    (hdeclared : ∀ name, m'.session.isDeclared name = n'.session.isDeclared name)
    (hlength : m'.held.length = n'.held.length) : Onward m n m' n' :=
  ⟨⟨h.left.step hm, h.right.step hn, hdeclared, hlength⟩, .single hm, .single hn⟩

end Moment

open Moment

/-- Results that are related stay so. -/
def Stable {α : Type} (result : Moment → Moment → α → α → Prop) : Prop :=
  ∀ m n m' n' x y, Onward m n m' n' → result m n x y → result m' n' x y

/-- Both moments have given the generated names, and the others are among the literals. -/
structure Known (literals : List String) (m n : Moment) (names : List NameOutline) : Prop where
  left : ∀ label, .generated label ∈ names → (m.label? label).isSome = true
  right : ∀ label, .generated label ∈ names → (n.label? label).isSome = true
  literal : ∀ text, .literal text ∈ names → text ∈ literals

namespace Known

variable {literals : List String} {m n m' n' : Moment} {names names' : List NameOutline}

private theorem nil : Known literals m n [] := ⟨nofun, nofun, nofun⟩

private theorem generated {label : Label} (h : (m.label? label).isSome = true)
    (h' : (n.label? label).isSome = true) : Known literals m n [.generated label] := by
  refine ⟨?_, ?_, by simp⟩
  · rintro _ (_ | ⟨_, ⟨⟩⟩)
    exact h
  · rintro _ (_ | ⟨_, ⟨⟩⟩)
    exact h'

private theorem keep (h : Known literals m n names) (hm : m.KeepsLabels m')
    (hn : n.KeepsLabels n') :
    Known literals m' n' names :=
  ⟨fun label hl => hm.isSome (h.left label hl), fun label hl => hn.isSome (h.right label hl),
    h.literal⟩

private theorem of_subset (h : Known literals m n names) (hsub : ∀ x ∈ names', x ∈ names) :
    Known literals m n names' :=
  ⟨fun label hl => h.left label (hsub _ hl), fun label hl => h.right label (hsub _ hl),
    fun text ht => h.literal text (hsub _ ht)⟩

private theorem append (h : Known literals m n names) (h' : Known literals m n names') :
    Known literals m n (names ++ names') where
  left label hl := (List.mem_append.mp hl).elim (h.left label) (h'.left label)
  right label hl := (List.mem_append.mp hl).elim (h.right label) (h'.right label)
  literal text ht := (List.mem_append.mp ht).elim (h.literal text) (h'.literal text)

end Known

/-- Two scores spelled from one outline. -/
def SameScore (literals : List String) (m n : Moment) (x y : Score) : Prop :=
  ∃ outline : ScoreOutline, x = outline.spell m.nameOf ∧ y = outline.spell n.nameOf ∧
    Known literals m n outline.names

/-- Two clauses spelled from one outline. -/
def SameClause (literals : List String) (m n : Moment) (x y : Clause) : Prop :=
  ∃ outline : ClauseOutline, x = outline.spell m.nameOf ∧ y = outline.spell n.nameOf ∧
    Known literals m n outline.names

/-- Two rows of commands spelled from one row of outlines. -/
def SameCommands (literals : List String) (m n : Moment) (xs ys : List Command) : Prop :=
  ∃ outlines : List CommandOutline, xs = outlines.map (CommandOutline.spell m.nameOf) ∧
    ys = outlines.map (CommandOutline.spell n.nameOf) ∧
    Known literals m n (outlines.flatMap CommandOutline.names)

section Same

variable {literals : List String} {m n m' n' : Moment}

private theorem SameScore.mono {x y : Score} (h : SameScore literals m n x y)
    (hon : Onward m n m' n') :
    SameScore literals m' n' x y := by
  have hm := hon.left.keepsLabels
  have hn := hon.right.keepsLabels
  obtain ⟨outline, rfl, rfl, hknown⟩ := h
  refine ⟨outline, ?_, ?_, hknown.keep hm hn⟩
  · exact ScoreOutline.spell_congr fun label hl => hm.nameOf_eq (hknown.left label hl)
  · exact ScoreOutline.spell_congr fun label hl => hn.nameOf_eq (hknown.right label hl)

/-- Commands that are the same stay the same when both sessions go on and keep their labels. -/
theorem SameCommands.keep {xs ys : List Command} (h : SameCommands literals m n xs ys)
    (hm : m.KeepsLabels m') (hn : n.KeepsLabels n') : SameCommands literals m' n' xs ys := by
  obtain ⟨outlines, rfl, rfl, hknown⟩ := h
  refine ⟨outlines, ?_, ?_, hknown.keep hm hn⟩
  · refine List.map_congr_left fun outline ho => CommandOutline.spell_congr fun label hl => ?_
    exact hm.nameOf_eq (hknown.left label (List.mem_flatMap.mpr ⟨outline, ho, hl⟩))
  · refine List.map_congr_left fun outline ho => CommandOutline.spell_congr fun label hl => ?_
    exact hn.nameOf_eq (hknown.right label (List.mem_flatMap.mpr ⟨outline, ho, hl⟩))

private theorem SameCommands.mono {xs ys : List Command} (h : SameCommands literals m n xs ys)
    (hon : Onward m n m' n') : SameCommands literals m' n' xs ys :=
  h.keep hon.left.keepsLabels hon.right.keepsLabels

/-- Commands that were the same stay so. -/
theorem sameCommands_stable : Stable (SameCommands literals) := fun _ _ _ _ _ _ hon h => h.mono hon

private theorem SameCommands.nil : SameCommands literals m n [] [] := ⟨[], rfl, rfl, .nil⟩

private theorem SameCommands.append {xs ys xs' ys' : List Command}
    (h : SameCommands literals m n xs ys)
    (h' : SameCommands literals m n xs' ys') :
    SameCommands literals m n (xs ++ xs') (ys ++ ys') := by
  obtain ⟨outlines, rfl, rfl, hknown⟩ := h
  obtain ⟨outlines', rfl, rfl, hknown'⟩ := h'
  refine ⟨outlines ++ outlines', List.map_append.symm, List.map_append.symm, ?_⟩
  rw [List.flatMap_append]
  exact hknown.append hknown'

/-- A clause may be put around all commands of both sides. -/
theorem SameCommands.under {xs ys : List Command} {clause clause' : Clause}
    (h : SameCommands literals m n xs ys) (hclause : SameClause literals m n clause clause') :
    SameCommands literals m n (xs.map (Command.under clause)) (ys.map (Command.under clause')) := by
  obtain ⟨outlines, rfl, rfl, hknown⟩ := h
  obtain ⟨outline, rfl, rfl, hknown'⟩ := hclause
  refine ⟨outlines.map (CommandOutline.under outline), ?_, ?_, ?_⟩
  · simp [CommandOutline.spell_under]
  · simp [CommandOutline.spell_under]
  · refine (hknown'.append hknown).of_subset fun name hname => ?_
    rw [List.flatMap_map] at hname
    obtain ⟨x, hx, hname⟩ := List.mem_flatMap.mp hname
    refine List.mem_append.mpr ((CommandOutline.names_under hname).imp_right fun h => ?_)
    exact List.mem_flatMap.mpr ⟨x, hx, h⟩

private theorem SameClause.compare {x y x' y' : Score} (negate : Bool) (c : Comparator)
    (h : SameScore literals m n x y) (h' : SameScore literals m n x' y') :
    SameClause literals m n (.compare negate x c x') (.compare negate y c y') := by
  obtain ⟨outline, rfl, rfl, hknown⟩ := h
  obtain ⟨outline', rfl, rfl, hknown'⟩ := h'
  exact ⟨.compare negate outline c outline', rfl, rfl, hknown.append hknown'⟩

private theorem SameClause.runAs (selector : String) :
    SameClause literals m n (.runAs selector) (.runAs selector) :=
  ⟨.runAs selector, rfl, rfl, .nil⟩

private theorem SameCommands.raw (line : String) :
    SameCommands literals m n [.raw line] [.raw line] :=
  ⟨[⟨[], .raw line⟩], rfl, rfl, .nil⟩

private theorem SameCommands.keepResult {x y : Score} (h : SameScore literals m n x y)
    (line : String) :
    SameCommands literals m n [.keepResult x line] [.keepResult y line] := by
  obtain ⟨outline, rfl, rfl, hknown⟩ := h
  refine ⟨[⟨[.keepResult outline], .raw line⟩], rfl, rfl, hknown.of_subset fun name hname => ?_⟩
  simpa [CommandOutline.names, ClauseOutline.names, ActionOutline.names] using hname

private theorem SameCommands.operate {x y x' y' : Score} (h : SameScore literals m n x y)
    (o : Operator)
    (h' : SameScore literals m n x' y') :
    SameCommands literals m n [.operate x o x'] [.operate y o y'] := by
  obtain ⟨outline, rfl, rfl, hknown⟩ := h
  obtain ⟨outline', rfl, rfl, hknown'⟩ := h'
  refine ⟨[⟨[], .operate outline o outline'⟩], rfl, rfl, ?_⟩
  refine (hknown.append hknown').of_subset fun name hname => ?_
  simpa [CommandOutline.names, ActionOutline.names] using hname

private theorem SameCommands.edit {x y : Score} (h : SameScore literals m n x y) (verb : EditVerb)
    (amount : Int32) :
    SameCommands literals m n (Command.edit verb x amount) (Command.edit verb y amount) := by
  obtain ⟨outline, rfl, rfl, hknown⟩ := h
  obtain ⟨edits, hedits⟩ := Command.exists_edit_eq verb amount
  refine ⟨edits.map fun e => ⟨[], .edit e.1 outline e.2⟩, ?_, ?_, ?_⟩
  · rw [hedits, List.map_map]
    rfl
  · rw [hedits, List.map_map]
    rfl
  · refine hknown.of_subset fun name hname => ?_
    rw [List.flatMap_map] at hname
    obtain ⟨e, -, hname⟩ := List.mem_flatMap.mp hname
    exact hname

end Same

namespace Lowering

/-- What an access stands for: a register is told by its place in the row. -/
inductive Denotes (m : Moment) : Access → ScoreOutline → Prop
  | named (name store : String) :
      Denotes m ⟨.named name, store⟩ ⟨.generated (.var name), .generated (.store store)⟩
  | verbatim (text store : String) :
      Denotes m ⟨.verbatim text, store⟩ ⟨.literal text, .generated (.store store)⟩
  | register {depth : Nat} {r : String} (h : m.label? (.register depth) = some r) :
      Denotes m (scratch r) ⟨.generated (.register depth), .generated (.store scratchStore)⟩

private theorem Denotes.mono {m n : Moment} {a : Access} {outline : ScoreOutline}
    (h : Denotes m a outline) (hreaches : m.Reaches n) : Denotes n a outline := by
  cases h with
  | named name store => exact .named name store
  | verbatim text store => exact .verbatim text store
  | register h => exact .register (hreaches.keepsLabels.label?_eq h)

private theorem Denotes.store_eq {m : Moment} {a : Access} {outline : ScoreOutline}
    (h : Denotes m a outline) : outline.store = .generated (.store a.store) := by
  cases h <;> rfl

/-- A score that was looked up is spelled from what its access stands for. -/
theorem Denotes.spell_eq {m : Moment} {a : Access} {outline : ScoreOutline} {store : String}
    (h : Denotes m a outline) (hstore : m.session.storeName? a.store = some store) :
    let n : Moment := ⟨m.held, (m.session.nameEntry a.entry).2⟩
    ⟨(m.session.nameEntry a.entry).1, store⟩ = outline.spell n.nameOf ∧
      ∀ label, .generated label ∈ outline.names → (n.label? label).isSome = true := by
  intro n
  have hlabel : n.label? (.store a.store) = some store := by
    have hlookup := Session.lookup_of_storeName? hstore
    simpa [n, label?] using hlookup
  have hentry : (m.session.nameEntry a.entry).1 = outline.entry.spell n.nameOf ∧
      ∀ label, outline.entry = .generated label → (n.label? label).isSome = true := by
    cases h with
    | named name store =>
      have hname : n.label? (.var name) = some (m.session.nameEntry (.named name)).1 :=
        NameTable.lookup_resolve _ _ _
      refine ⟨(nameOf_of_label? hname).symm, ?_⟩
      rintro label ⟨⟩
      rw [hname, Option.isSome_some]
    | verbatim text store => exact ⟨rfl, fun _ hl => by cases hl⟩
    | @register depth r hr =>
      have hname : n.label? (.register depth) = some r := hr
      refine ⟨(nameOf_of_label? hname).symm, ?_⟩
      rintro label ⟨⟩
      rw [hname, Option.isSome_some]
  refine ⟨?_, fun label hl => ?_⟩
  · rw [ScoreOutline.spell, ← hentry.1, h.store_eq, NameOutline.spell, nameOf_of_label? hlabel]
  · rcases List.mem_pair.mp hl with he | hs
    · exact hentry.2 label he.symm
    · rw [h.store_eq] at hs
      cases hs
      rw [hlabel, Option.isSome_some]

/-- Two accesses that stand for the same. -/
def SameAccess (literals : List String) (m n : Moment) (a b : Access) : Prop :=
  ∃ outline, Denotes m a outline ∧ Denotes n b outline ∧
    ∀ text, .literal text ∈ outline.names → text ∈ literals

section SameAccess

variable {literals : List String} {m n m' n' : Moment} {a b : Access}

private theorem SameAccess.mono (h : SameAccess literals m n a b) (hon : Onward m n m' n') :
    SameAccess literals m' n' a b := by
  obtain ⟨outline, hleft, hright, hliteral⟩ := h
  exact ⟨outline, hleft.mono hon.left, hright.mono hon.right, hliteral⟩

private theorem SameAccess.store_eq (h : SameAccess literals m n a b) : a.store = b.store := by
  obtain ⟨outline, hleft, hright, -⟩ := h
  have hstore := hleft.store_eq.symm.trans hright.store_eq
  exact Label.store.inj (NameOutline.generated.inj hstore)

/-- An access of the source stands for the same on both sides. -/
theorem SameAccess.of_literals (h : a.entry.literals ⊆ literals) :
    SameAccess literals m n a a := by
  obtain ⟨entry, store⟩ := a
  cases entry with
  | named name => exact ⟨_, .named name store, .named name store, by simp [ScoreOutline.names]⟩
  | verbatim text =>
    refine ⟨_, .verbatim text store, .verbatim text store, ?_⟩
    simpa [ScoreOutline.names, Entry.literals] using h

/-- Registers at the same place of the row stand for the same. -/
theorem SameAccess.register {depth : Nat} {r q : String}
    (hr : m.label? (.register depth) = some r) (hq : n.label? (.register depth) = some q) :
    SameAccess literals m n (scratch r) (scratch q) :=
  ⟨_, .register hr, .register hq, by simp [ScoreOutline.names]⟩

end SameAccess

/-- From these two moments both lowerings succeed, with results that are related, or both fail with
the same error. -/
def Mirrors {α : Type} (m n : Moment) (f g : Lowering α)
    (result : Moment → Moment → α → α → Prop) : Prop :=
  (∃ x y s t, f m.session = (.ok x, s) ∧ g n.session = (.ok y, t) ∧
    Onward m n ⟨m.held, s⟩ ⟨n.held, t⟩ ∧ result ⟨m.held, s⟩ ⟨n.held, t⟩ x y) ∨
  ∃ e, (f m.session).1 = .error e ∧ (g n.session).1 = .error e

section Mirrors

variable {α β : Type} {literals : List String} {m n : Moment} {f g : Lowering α}
  {result : Moment → Moment → α → α → Prop}

private theorem mirrors_pure {x y : α} (h : Twin m n) (hresult : result m n x y) :
    Mirrors m n (pure x) (pure y) result :=
  .inl ⟨x, y, m.session, n.session, rfl, rfl, h.onward, hresult⟩

private theorem mirrors_fail (e : LowerError) : Mirrors m n (fail e) (fail e) result :=
  .inr ⟨e, rfl, rfl⟩

/-- Related results go into the next steps. -/
theorem Mirrors.bind {f' g' : α → Lowering β} {result' : Moment → Moment → β → β → Prop}
    (h : Mirrors m n f g result)
    (h' : ∀ m' n' x y, Onward m n m' n' → result m' n' x y →
      Mirrors m' n' (f' x) (g' y) result') :
    Mirrors m n (f >>= f') (g >>= g') result' := by
  rcases h with ⟨x, y, s, t, hf, hg, hon, hxy⟩ | ⟨e, hf, hg⟩
  · have hnext := h' ⟨m.held, s⟩ ⟨n.held, t⟩ x y hon hxy
    rcases hnext with ⟨x', y', s', t', hf', hg', hon', hxy'⟩ | ⟨e, hf', hg'⟩
    · refine .inl ⟨x', y', s', t', ?_, ?_, hon.trans hon', hxy'⟩
      · rw [bind_apply_ok hf]
        exact hf'
      · rw [bind_apply_ok hg]
        exact hg'
    · refine .inr ⟨e, ?_, ?_⟩
      · rw [bind_apply_ok hf]
        exact hf'
      · rw [bind_apply_ok hg]
        exact hg'
  · refine .inr ⟨e, ?_, ?_⟩
    · rw [bind_apply_error (Prod.ext hf rfl)]
    · rw [bind_apply_error (Prod.ext hg rfl)]

/-- Commands that are the same may be put in front of the result. -/
theorem Mirrors.prepend {f g : Lowering (List Command)} {xs ys : List Command}
    (hxs : SameCommands literals m n xs ys) (h : Mirrors m n f g (SameCommands literals)) :
    Mirrors m n (f >>= fun commands => pure (xs ++ commands))
      (g >>= fun commands => pure (ys ++ commands)) (SameCommands literals) :=
  h.bind fun _ _ _ _ hon hcommands => mirrors_pure hon.twin ((hxs.mono hon).append hcommands)

/-- Both sides take a register at the same place of the row, and give it back. -/
theorem Mirrors.withRegister (literals : List String) {f g : String → Lowering α} (h : Twin m n)
    (hstable : Stable result)
    (huse : ∀ m' n' r q, Onward m n m' n' → SameAccess literals m' n' (scratch r) (scratch q) →
      Mirrors m' n' (f r) (g q) result) :
    Mirrors m n (withRegister f) (withRegister g) result := by
  obtain ⟨held, s⟩ := m
  obtain ⟨held', t⟩ := n
  have htaken := h.step (.acquire held s) (.acquire held' t) h.isDeclared_eq
    (congrArg Nat.succ h.length_eq)
  have hright := label?_acquire held' t
  -- As many registers are in use on both sides, so both rows have their border at the same place.
  rw [← h.length_eq] at hright
  have hwork := huse _ _ _ _ htaken (.register (label?_acquire held s) hright)
  rcases hwork with ⟨x, y, s', t', hf, hg, hon, hxy⟩ | ⟨e, hf, hg⟩
  · have hback := hon.twin.step (.release held s' s.acquire.1) (.release held' t' t.acquire.1)
      hon.twin.isDeclared_eq h.length_eq
    refine .inl ⟨x, y, s'.release s.acquire.1, t'.release t.acquire.1, ?_, ?_,
      (htaken.trans hon).trans hback, hstable _ _ _ _ x y hback hxy⟩
    · exact withRegister_eq_ok.mpr ⟨_, _, s', rfl, hf, rfl⟩
    · exact withRegister_eq_ok.mpr ⟨_, _, t', rfl, hg, rfl⟩
  · exact .inr ⟨e, hf, hg⟩

/-- A score is found on both sides or on none. -/
theorem mirrors_scoreOf {a b : Access} (h : Twin m n) (hab : SameAccess literals m n a b) :
    Mirrors m n (scoreOf a) (scoreOf b) (SameScore literals) := by
  have hstore := hab.store_eq
  rcases h.storeName?_cases a.store with ⟨short, short', hs, ht⟩ | ⟨hs, ht⟩
  · rw [hstore] at ht
    obtain ⟨outline, hleft, hright, hliteral⟩ := hab
    obtain ⟨hspell, hknown⟩ := hleft.spell_eq hs
    obtain ⟨hspell', hknown'⟩ := hright.spell_eq ht
    have hon := h.step (.nameEntry m.held m.session a.entry) (.nameEntry n.held n.session b.entry)
      (by simpa using h.isDeclared_eq) h.length_eq
    exact .inl ⟨_, _, _, _, scoreOf_of_some hs, scoreOf_of_some ht, hon, outline, hspell, hspell',
      hknown, hknown', hliteral⟩
  · rw [hstore] at ht
    refine .inr ⟨.unknownStore a.store, ?_, ?_⟩
    · rw [scoreOf_of_none hs]
    · rw [scoreOf_of_none ht, hstore]

private theorem mirrors_storeName (h : Twin m n) (name : String) :
    Mirrors m n (storeName name) (storeName name) fun _ _ _ _ => True := by
  rcases h.storeName?_cases name with ⟨short, short', hs, ht⟩ | ⟨hs, ht⟩
  · exact .inl ⟨short, short', m.session, n.session, storeName_eq_ok.mpr ⟨hs, rfl⟩,
      storeName_eq_ok.mpr ⟨ht, rfl⟩, h.onward, trivial⟩
  · refine .inr ⟨.unknownStore name, ?_, ?_⟩
    · rw [storeName, hs]
    · rw [storeName, ht]

/-- A store that was not declared is declared under the name that stands for it afterwards. -/
theorem createStore_spell (held : List String) {s : Session} {name : String}
    (h : s.isDeclared name = false) :
    let m : Moment := ⟨held, (s.createStore name).2⟩
    (s.createStore name).1 = [.declare (m.nameOf (.store name))] ∧
      (m.label? (.store name)).isSome = true := by
  intro m
  have hlabel : m.label? (.store name) = some (s.storeNames.resolve name s.supply).short :=
    Session.lookup_of_storeName? (Session.storeName?_createStore_self h)
  rw [nameOf_of_label? hlabel, hlabel, Session.createStore_of_undeclared h]
  exact ⟨rfl, rfl⟩

/-- A store is declared on both sides or on none. -/
theorem mirrors_createStore (literals : List String) (h : Twin m n) (name : String) :
    Mirrors m n (createStore name) (createStore name) (SameCommands literals) := by
  have hon := h.step (.createStore m.held m.session name) (.createStore n.held n.session name)
    (fun other => by simp [Session.isDeclared_createStore, h.isDeclared_eq]) h.length_eq
  have hdeclared := h.isDeclared_eq name
  have hcommands : SameCommands literals ⟨m.held, (m.session.createStore name).2⟩
      ⟨n.held, (n.session.createStore name).2⟩ (m.session.createStore name).1
      (n.session.createStore name).1 := by
    cases hd : m.session.isDeclared name with
    | true =>
      rw [hd] at hdeclared
      rw [Session.createStore_of_declared hd, Session.createStore_of_declared hdeclared.symm]
      exact .nil
    | false =>
      rw [hd] at hdeclared
      obtain ⟨hleft, hknown⟩ := createStore_spell m.held hd
      obtain ⟨hright, hknown'⟩ := createStore_spell n.held hdeclared.symm
      exact ⟨[⟨[], .declare (.generated (.store name))⟩], hleft, hright, .generated hknown hknown'⟩
  exact .inl ⟨_, _, _, _, rfl, rfl, hon, hcommands⟩

private theorem mirrors_checkOperand (h : Twin m n) (node : Node) :
    Mirrors m n (checkOperand node) (checkOperand node) fun _ _ _ _ => True := by
  unfold checkOperand
  split
  · exact mirrors_pure h trivial
  · exact mirrors_fail _

private theorem mirrors_combine {a b a' b' : Access} (h : Twin m n)
    (hab : SameAccess literals m n a b)
    (o : Operator) (hab' : SameAccess literals m n a' b') :
    Mirrors m n (combine a o a') (combine b o b') (SameCommands literals) :=
  (mirrors_scoreOf h hab).bind fun _ _ _ _ hon hx =>
    (mirrors_scoreOf hon.twin (hab'.mono hon)).bind fun _ _ _ _ hon' hy =>
      mirrors_pure hon'.twin (.operate (hx.mono hon') o hy)

private theorem mirrors_capture {a b : Access} (h : Twin m n) (hab : SameAccess literals m n a b)
    (line : String) : Mirrors m n (capture a line) (capture b line) (SameCommands literals) :=
  (mirrors_scoreOf h hab).bind fun _ _ _ _ hon hx => mirrors_pure hon.twin (.keepResult hx line)

private theorem mirrors_captureAndCombine {a b : Access} (h : Twin m n)
    (hab : SameAccess literals m n a b) (o : Operator) (line : String) :
    Mirrors m n (captureAndCombine a o line) (captureAndCombine b o line)
      (SameCommands literals) := by
  unfold captureAndCombine
  rw [hab.store_eq]
  refine (mirrors_storeName h b.store).bind fun m₁ n₁ _ _ hon₁ _ => ?_
  refine (mirrors_createStore literals hon₁.twin scratchStore).bind fun m₂ n₂ _ _ hon₂ hdecl => ?_
  refine Mirrors.prepend hdecl (Mirrors.withRegister literals hon₂.twin sameCommands_stable
    fun m₃ n₃ r q hon₃ hr => ?_)
  refine (mirrors_capture hon₃.twin hr line).bind fun m₄ n₄ _ _ hon₄ hcap => ?_
  have hab₄ := hab.mono (((hon₁.trans hon₂).trans hon₃).trans hon₄)
  exact Mirrors.prepend hcap (mirrors_combine hon₄.twin hab₄ o (hr.mono hon₄))

/-- Calculations whose operands are loaded alike end alike. -/
theorem mirrors_calculate (h : Twin m n) (o : Operator)
    {first second first' second' : Access → Lowering (List Command)}
    (hfirst : ∀ m' n' a b, Onward m n m' n' → SameAccess literals m' n' a b →
      Mirrors m' n' (first a) (first' b) (SameCommands literals))
    (hsecond : ∀ m' n' a b, Onward m n m' n' → SameAccess literals m' n' a b →
      Mirrors m' n' (second a) (second' b) (SameCommands literals)) :
    Mirrors m n (calculate o first second) (calculate o first' second')
      fun m' n' x y => SameCommands literals m' n' x.1 y.1 ∧ SameAccess literals m' n' x.2 y.2 := by
  have hstable : Stable fun m' n' (x y : List Command × Access) =>
      SameCommands literals m' n' x.1 y.1 ∧ SameAccess literals m' n' x.2 y.2 :=
    fun _ _ _ _ _ _ hon h => ⟨h.1.mono hon, h.2.mono hon⟩
  refine (mirrors_createStore literals h scratchStore).bind fun m₁ n₁ _ _ hon₁ hdecl => ?_
  refine Mirrors.withRegister literals hon₁.twin hstable fun m₂ n₂ r q hon₂ hr => ?_
  refine Mirrors.withRegister literals hon₂.twin hstable fun m₃ n₃ r' q' hon₃ hr' => ?_
  refine (hfirst m₃ n₃ _ _ ((hon₁.trans hon₂).trans hon₃) (hr.mono hon₃)).bind
    fun m₄ n₄ _ _ hon₄ hload => ?_
  refine (hsecond m₄ n₄ _ _ (((hon₁.trans hon₂).trans hon₃).trans hon₄) (hr'.mono hon₄)).bind
    fun m₅ n₅ _ _ hon₅ hload' => ?_
  refine (mirrors_combine hon₅.twin (hr.mono ((hon₃.trans hon₄).trans hon₅)) o
    (hr'.mono (hon₄.trans hon₅))).bind fun m₆ n₆ _ _ hon₆ hcomb => ?_
  refine mirrors_pure hon₆.twin ⟨?_, hr.mono (((hon₃.trans hon₄).trans hon₅).trans hon₆)⟩
  have hdecl₆ := hdecl.mono ((((hon₂.trans hon₃).trans hon₄).trans hon₅).trans hon₆)
  exact ((hdecl₆.append (hload.mono (hon₅.trans hon₆))).append (hload'.mono hon₆)).append hcomb

end Mirrors

section Phrases

variable {literals : List String}

private theorem literals_calc (first second : Node) (o : Operator) :
    (Node.calc first o second).literals = first.literals ++ second.literals :=
  List.flatMap_append

/-- Assigning a phrase to accesses that stand for the same ends alike. -/
theorem mirrors_assign : (node : Node) → (hnode : node.literals ⊆ literals) → {m n : Moment} →
    {a b : Access} → Twin m n → SameAccess literals m n a b → (o : Operator) →
    Mirrors m n (assign a o node) (assign b o node) (SameCommands literals)
  | .int amount, _, m, n, a, b, h, hab, o => by
    rw [assign, assign, assignInt, assignInt]
    cases EditVerb.ofOperator? o with
    | none => exact mirrors_fail _
    | some verb =>
      refine (mirrors_scoreOf h hab).bind fun _ _ _ _ hon hx => ?_
      exact mirrors_pure hon.twin (.edit hx verb amount)
  | .access source, hnode, m, n, a, b, h, hab, o => by
    rw [assign, assign]
    refine mirrors_combine h hab o (.of_literals fun text htext => hnode ?_)
    simpa [Node.literals, Node.accesses] using htext
  | .calc first p second, hnode, m, n, a, b, h, hab, o => by
    rw [literals_calc, List.append_subset] at hnode
    rw [assign, assign, hab.store_eq]
    refine (mirrors_storeName h b.store).bind fun m₁ n₁ _ _ hon₁ _ => ?_
    refine (mirrors_checkOperand hon₁.twin first).bind fun m₂ n₂ _ _ hon₂ _ => ?_
    refine (mirrors_checkOperand hon₂.twin second).bind fun m₃ n₃ _ _ hon₃ _ => ?_
    refine (mirrors_calculate hon₃.twin p
      (fun _ _ _ _ hon hab => mirrors_assign first hnode.1 hon.twin hab .set)
      fun _ _ _ _ hon hab => mirrors_assign second hnode.2 hon.twin hab .set).bind
        fun m₄ n₄ x y hon₄ hxy => ?_
    have hab₄ := hab.mono (((hon₁.trans hon₂).trans hon₃).trans hon₄)
    exact Mirrors.prepend hxy.1 (mirrors_combine hon₄.twin hab₄ o hxy.2)
  | .text line, _, m, n, a, b, h, hab, o => by
    rw [assign, assign]
    split
    · exact mirrors_capture h hab line
    · exact mirrors_captureAndCombine h hab o line
  | .block _, _, _, _, _, _, _, _, _ | .float _, _, _, _, _, _, _, _, _
  | .assign .., _, _, _, _, _, _, _, _ | .branch .., _, _, _, _, _, _, _, _
  | .runAs .., _, _, _, _, _, _, _, _ | .create _, _, _, _, _, _, _, _, _
  | .call .., _, _, _, _, _, _, _, _ => by
    rw [assign, assign]
    · exact mirrors_fail _
    all_goals simp

private theorem mirrors_calculation {first second : Node} {m n : Moment} (h : Twin m n)
    (hfirst : first.literals ⊆ literals) (o : Operator) (hsecond : second.literals ⊆ literals) :
    Mirrors m n (calculation first o second) (calculation first o second)
      fun m' n' x y => SameCommands literals m' n' x.1 y.1 ∧ SameAccess literals m' n' x.2 y.2 := by
  refine (mirrors_checkOperand h first).bind fun m₁ n₁ _ _ hon₁ _ => ?_
  refine (mirrors_checkOperand hon₁.twin second).bind fun m₂ n₂ _ _ hon₂ _ => ?_
  exact mirrors_calculate hon₂.twin o
    (fun _ _ _ _ hon hab => mirrors_assign first hfirst hon.twin hab .set)
    fun _ _ _ _ hon hab => mirrors_assign second hsecond hon.twin hab .set

/-- Comparing in place ends alike if the body does. -/
theorem mirrors_compareDirectly {m n : Moment} (h : Twin m n) (negate : Bool) {first : Access}
    (hfirst : first.entry.literals ⊆ literals) (c : Comparator) {second : Access}
    (hsecond : second.entry.literals ⊆ literals) {body : Lowering (List Command)}
    (hbody : ∀ m' n', Twin m' n' → Mirrors m' n' body body (SameCommands literals)) :
    Mirrors m n (compareDirectly negate first c second body)
      (compareDirectly negate first c second body) (SameCommands literals) := by
  refine (mirrors_scoreOf h (.of_literals hfirst)).bind fun m₁ n₁ _ _ hon₁ hx => ?_
  refine (mirrors_scoreOf hon₁.twin (.of_literals hsecond)).bind fun m₂ n₂ _ _ hon₂ hy => ?_
  refine (hbody m₂ n₂ hon₂.twin).bind fun m₃ n₃ _ _ hon₃ hcommands => ?_
  refine mirrors_pure hon₃.twin (hcommands.under (.compare negate c ?_ (hy.mono hon₃)))
  exact hx.mono (hon₂.trans hon₃)

/-- Comparing copies ends alike if the body does. -/
theorem mirrors_compareCopies {m n : Moment} (h : Twin m n) (negate : Bool) {first : Node}
    (hfirst : first.literals ⊆ literals) (c : Comparator) {second : Node}
    (hsecond : second.literals ⊆ literals) {body : Lowering (List Command)}
    (hbody : ∀ m' n', Twin m' n' → Mirrors m' n' body body (SameCommands literals)) :
    Mirrors m n (compareCopies negate first c second body)
      (compareCopies negate first c second body) (SameCommands literals) := by
  refine (mirrors_createStore literals h scratchStore).bind fun m₁ n₁ _ _ hon₁ hdecl => ?_
  refine Mirrors.prepend hdecl (Mirrors.withRegister literals hon₁.twin sameCommands_stable
    fun m₂ n₂ r q hon₂ hr => Mirrors.withRegister literals hon₂.twin sameCommands_stable
      fun m₃ n₃ r' q' hon₃ hr' => ?_)
  refine (mirrors_assign first hfirst hon₃.twin (hr.mono hon₃) .set).bind
    fun m₄ n₄ _ _ hon₄ hload => ?_
  refine (mirrors_assign second hsecond hon₄.twin (hr'.mono hon₄) .set).bind
    fun m₅ n₅ _ _ hon₅ hload' => ?_
  have hr₅ := hr.mono ((hon₃.trans hon₄).trans hon₅)
  refine (mirrors_scoreOf hon₅.twin hr₅).bind fun m₆ n₆ _ _ hon₆ hx => ?_
  have hr₆ := hr'.mono ((hon₄.trans hon₅).trans hon₆)
  refine (mirrors_scoreOf hon₆.twin hr₆).bind fun m₇ n₇ _ _ hon₇ hy => ?_
  refine (hbody m₇ n₇ hon₇.twin).bind fun m₈ n₈ _ _ hon₈ hcommands => ?_
  have hclause := SameClause.compare negate c (hx.mono (hon₇.trans hon₈)) (hy.mono hon₈)
  have hload₈ := hload.mono (((hon₅.trans hon₆).trans hon₇).trans hon₈)
  have hload'₈ := hload'.mono ((hon₆.trans hon₇).trans hon₈)
  exact mirrors_pure hon₈.twin ((hload₈.append hload'₈).append (hcommands.under hclause))

end Phrases

section Statements

variable {literals : List String}

mutual

/-- Twins lower every statement alike. -/
theorem mirrors_lower : (node : Node) → (hnode : node.literals ⊆ literals) → (m n : Moment) →
    Twin m n → Mirrors m n (lower node) (lower node) (SameCommands literals)
  | .block body, hnode, m, n, h => by
    rw [lower]
    exact mirrors_lowerAll body hnode m n h
  | .create store, _, m, n, h => by
    rw [lower]
    exact mirrors_createStore literals h store
  | .assign target o value, hnode, m, n, h => by
    have hliterals : (Node.assign target o value).literals =
        target.entry.literals ++ value.literals := List.flatMap_cons
    rw [hliterals, List.append_subset] at hnode
    rw [lower]
    exact mirrors_assign value hnode.2 h (.of_literals hnode.1) o
  | .calc first o second, hnode, m, n, h => by
    rw [literals_calc, List.append_subset] at hnode
    rw [lower]
    refine (mirrors_calculation h hnode.1 o hnode.2).bind fun _ _ _ _ hon hxy => ?_
    exact mirrors_pure hon.twin hxy.1
  | .branch negate first c second body, hnode, m, n, h => by
    have hliterals : (Node.branch negate first c second body).literals =
        first.literals ++ (second.literals ++
          (Node.accessesAll body).flatMap fun a => a.entry.literals) := by
      simp [Node.literals, Node.accesses]
    rw [hliterals, List.append_subset, List.append_subset] at hnode
    obtain ⟨hfirst, hsecond, hbody⟩ := hnode
    rw [lower]
    cases hdirect : directOperands first second body with
    | some operands =>
      obtain ⟨rfl, rfl, -⟩ := directOperands_eq_some hdirect
      refine mirrors_compareDirectly h negate ?_ c ?_ (mirrors_lowerAll body hbody)
      · simpa [Node.literals, Node.accesses] using hfirst
      · simpa [Node.literals, Node.accesses] using hsecond
    | none => exact mirrors_compareCopies h negate hfirst c hsecond (mirrors_lowerAll body hbody)
  | .runAs selector body, hnode, m, n, h => by
    rw [lower]
    refine (mirrors_lowerAll body hnode m n h).bind fun _ _ _ _ hon hcommands => ?_
    exact mirrors_pure hon.twin (hcommands.under (.runAs selector))
  | .text line, _, m, n, h => by
    rw [lower]
    exact mirrors_pure h (.raw line)
  | .int _, _, _, _, _ | .float _, _, _, _, _ | .access _, _, _, _, _ | .call .., _, _, _, _ => by
    rw [lower]
    exact mirrors_fail _

/-- Twins lower statements in order alike. -/
theorem mirrors_lowerAll : (body : List Node) →
    (hbody : (Node.accessesAll body).flatMap (fun a => a.entry.literals) ⊆ literals) →
    (m n : Moment) → Twin m n →
    Mirrors m n (lowerAll body) (lowerAll body) (SameCommands literals)
  | [], _, m, n, h => by
    rw [lowerAll]
    exact mirrors_pure h .nil
  | node :: rest, hbody, m, n, h => by
    rw [Node.accessesAll, List.flatMap_append, List.append_subset] at hbody
    rw [lowerAll]
    refine (mirrors_lower node hbody.1 m n h).bind fun m₁ n₁ _ _ hon₁ hfirst => ?_
    exact Mirrors.prepend hfirst (mirrors_lowerAll rest hbody.2 m₁ n₁ hon₁.twin)

end

end Statements

end Lowering

end Datapack
