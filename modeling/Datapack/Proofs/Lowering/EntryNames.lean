import Datapack.Proofs.Lowering.Vocabulary

/-!
# Which entries keep apart

Variables are named from the counter that stores and registers share; entries in
quotes are used as they stand. So two variables never meet on the target, nor do two
quoted entries. A variable and a quoted entry may meet, but only where the quoted text
is a word that could have been handed out as a name.
-/

namespace Datapack

/-- Whether the entry is a variable of the program. -/
def Entry.isVariable : Entry → Bool
  | .named _ => true
  | .verbatim _ => false

namespace Session

variable {s : Session}

section Entries

variable {a b : Access} {x y : Score} {name other text : String}

private theorem entry_address_of_verbatim (ha : a.entry = .verbatim text) :
    (s.address a).entry = text := by
  rw [address, ha]
  rfl

private theorem entry_address_of_named (ha : a.entry = .named name) {short : String}
    (hshort : s.variableNames.lookup name = some short) : (s.address a).entry = short := by
  rw [address, ha, entryName, hshort]
  rfl

/-- Variables are found under words. -/
theorem isWord_entry_address (hs : Moment.Reachable ⟨[], s⟩) (hfound : Lowering.Found s a x)
    (ha : a.entry = .named name) : Letters.IsWord (s.address a).entry := by
  obtain ⟨short, hshort⟩ := hfound.exists_lookup ha
  rw [entry_address_of_named ha hshort]
  exact hs.isWord_variable hshort

/-- Two variables, or two entries in quotes, are found under one name only if they are the same. -/
theorem entry_address_eq_iff (hs : Moment.Reachable ⟨[], s⟩) (ha : Lowering.Found s a x)
    (hb : Lowering.Found s b y) (hkind : a.entry.isVariable = b.entry.isVariable) :
    (s.address a).entry = (s.address b).entry ↔ a.entry = b.entry := by
  cases hea : a.entry with
  | verbatim text =>
    cases heb : b.entry with
    | verbatim other =>
      rw [entry_address_of_verbatim hea, entry_address_of_verbatim heb, Entry.verbatim.injEq]
    | named other =>
      rw [hea, heb] at hkind
      cases hkind
  | named name =>
    cases heb : b.entry with
    | verbatim other =>
      rw [hea, heb] at hkind
      cases hkind
    | named other =>
      obtain ⟨short, hshort⟩ := ha.exists_lookup hea
      obtain ⟨short', hshort'⟩ := hb.exists_lookup heb
      rw [entry_address_of_named hea hshort, entry_address_of_named heb hshort', Entry.named.injEq]
      constructor
      · rintro rfl
        exact hs.variableNames_injective hshort hshort'
      · rintro rfl
        exact Option.some.inj (hshort.symm.trans hshort')

end Entries

end Session

open Session

/--
The commands of a program are derived from the scores that are found for its
references, and every reference is found at its address, whenever it is looked up.
So the commands speak of the scores that the program mentions, at their addresses,
and of registers. Two variables, or two entries in quotes, have the same target name
exactly when they are the same entry. Entries in quotes are used as they stand and
variables are called by words over `a` to `z`, so a variable and a text in quotes that
is no such word have different names.
-/
theorem compile_entries_apart {source : String} {commands : List Command} {t : Session}
    (h : Session.fresh.compile source = (.ok commands, t)) :
    ∃ body, parse source = .ok body ∧
      (∃ u, Lowering.Emits [] (.statements body) .fresh commands u ∧ u.commit = t) ∧
      (∀ a ∈ Node.accessesAll body, ∀ x, Lowering.Found t a x ↔ t.address a = x) ∧
      (∀ c ∈ commands, ∀ x, .score x ∈ c.parts →
        (∃ a ∈ Node.accessesAll body, t.address a = x) ∨
          ∃ r, Letters.IsWord r ∧ t.address (Lowering.scratch r) = x) ∧
      (∀ a ∈ Node.accessesAll body, ∀ b ∈ Node.accessesAll body,
        a.entry.isVariable = b.entry.isVariable →
          ((t.address a).entry = (t.address b).entry ↔ a.entry = b.entry)) ∧
      ∀ a ∈ Node.accessesAll body, ∀ b ∈ Node.accessesAll body, ∀ name text,
        a.entry = .named name → b.entry = .verbatim text →
          Letters.IsWord (t.address a).entry ∧ (t.address b).entry = text ∧
            (¬ Letters.IsWord text → (t.address a).entry ≠ (t.address b).entry) := by
  obtain ⟨body, hparse, hlower⟩ := compile_eq_ok.mp h
  obtain ⟨u, hemits, hu, rfl⟩ := exists_emits_of_lowerAll hlower
  have hmade := hemits.madeOf .fresh (KeepsNames.refl u)
  have hfound : ∀ a ∈ Node.accessesAll body, ∃ x, Lowering.Found u.commit a x :=
    hemits.found ⟨id, id⟩
  refine ⟨body, hparse, ⟨u, hemits, rfl⟩, ?_, fun c hc x hx => hmade c hc (.score x) hx, ?_, ?_⟩
  · intro a ha x
    constructor
    · exact Lowering.Found.address_eq
    · rintro rfl
      obtain ⟨x, hx⟩ := hfound a ha
      rwa [hx.address_eq]
  · intro a ha b hb hkind
    obtain ⟨x, hx⟩ := hfound a ha
    obtain ⟨y, hy⟩ := hfound b hb
    exact entry_address_eq_iff hu.commit hx hy hkind
  · intro a ha b hb name text hea heb
    obtain ⟨x, hx⟩ := hfound a ha
    have hword := isWord_entry_address hu.commit hx hea
    have htext := entry_address_of_verbatim (s := u.commit) heb
    refine ⟨hword, htext, fun hno heq => hno ?_⟩
    rwa [← htext, ← heq]

/-- Two variables, an entity's own score and a word that is not handed out. -/
theorem compile_entries_apart_sample :
    let source := "create store s\ns[x] = s['@s'] + s[y]\ns['zz'] = s[x]"
    let t := (Session.fresh.compile source).2
    (t.address ⟨.named "x", "s"⟩).entry ≠ (t.address ⟨.named "y", "s"⟩).entry ∧
      (t.address ⟨.named "x", "s"⟩).entry ≠ (t.address ⟨.verbatim "@s", "s"⟩).entry ∧
      (t.address ⟨.verbatim "zz", "s"⟩).entry ≠ (t.address ⟨.verbatim "@s", "s"⟩).entry := by
  intro source t
  have hcompile : Session.fresh.compile source =
      (.ok ((compile source).toOption.getD []), t) := Prod.ext (by decide +kernel) rfl
  obtain ⟨body, hparse, -, -, -, hsame, hmixed⟩ := compile_entries_apart hcompile
  have hbody : (parse source).toOption.map Node.accessesAll = some
      [⟨.named "x", "s"⟩, ⟨.verbatim "@s", "s"⟩, ⟨.named "y", "s"⟩, ⟨.verbatim "zz", "s"⟩,
        ⟨.named "x", "s"⟩] := by decide +kernel
  rw [hparse] at hbody
  have hmem := Option.some.inj hbody
  simp only [hmem] at hsame hmixed
  refine ⟨?_, ?_, ?_⟩
  · exact mt (hsame ⟨.named "x", "s"⟩ (by decide +kernel) ⟨.named "y", "s"⟩ (by decide +kernel)
      rfl).mp (by decide +kernel)
  · exact (hmixed ⟨.named "x", "s"⟩ (by decide +kernel) ⟨.verbatim "@s", "s"⟩ (by decide +kernel)
      _ _ rfl rfl).2.2 (by decide +kernel)
  · exact mt (hsame ⟨.verbatim "zz", "s"⟩ (by decide +kernel) ⟨.verbatim "@s", "s"⟩
      (by decide +kernel) rfl).mp (by decide +kernel)

/-- A variable meets an entry in quotes that is spelled like its short name. -/
theorem variable_meets_quoted :
    let source := "create store s\ns[x] = 1\ns['b'] = 2"
    (parse source).toOption.map Node.accessesAll =
        some [⟨.named "x", "s"⟩, ⟨.verbatim "b", "s"⟩] ∧
      compile source = .ok [.declare "a", .bare (.edit .set ⟨"b", "a"⟩ 1),
        .bare (.edit .set ⟨"b", "a"⟩ 2)] := by
  decide +kernel

end Datapack
