import Datapack.Proofs.Grammar.Texts
import Datapack.Proofs.Lowering.Vocabulary
import Datapack.Proofs.Target.OutputLines

/-!
# Lines and their guards

A program is a row of single statements, each with the conditions and selectors
around it. Its commands come statement by statement in the same order, and each of
them has the clauses of everything around its statement in front, outermost first;
a declaration has none. All clauses of one condition compare the same two scores. An
output file shows this line by line, unless a text of the program brings newlines of
its own.
-/

namespace Datapack

/-- Words hold no newline. -/
theorem Letters.IsWord.oneLine {text : String} (h : IsWord text) : OneLine text := by
  intro hmem
  have hlower := h.2 _ hmem
  revert hlower
  decide

/-- What can stand around a statement; conditions are numbered in the order of the program. -/
inductive Enclosure where
  | branch (number : Nat) (negate : Bool) (first : Node) (comparator : Comparator) (second : Node)
  | runAs (selector : String)

/-- The clause that an enclosure puts in front of commands. The scores that a condition compares
are listed under its number, for all commands that it governs. -/
inductive Enclosure.Governs (address : Meaning.Address) (compared : List (Access × Access)) :
    Enclosure → Clause → Prop
  | branch {number : Nat} {pair : Access × Access} (h : compared[number]? = some pair)
      (negate : Bool) (first : Node) (c : Comparator) (second : Node) :
      Governs address compared (.branch number negate first c second)
        (.compare negate (address pair.1) c (address pair.2))
  | runAs (selector : String) : Governs address compared (.runAs selector) (.runAs selector)

/-- What a condition compares: its operands where they are compared in place, or else two
registers. -/
inductive Lowering.Compares : Option (Access × Access) → Access × Access → Prop
  | inPlace (operands : Access × Access) : Compares (some operands) operands
  | copies {r q : String} (hr : Letters.IsWord r) (hq : Letters.IsWord q) (hne : r ≠ q) :
      Compares none (scratch r, scratch q)

/-- A statement without a body, and what stands around it, outermost first. -/
structure Single where
  around : List Enclosure
  statement : Node

namespace Node

mutual

/-- The conditions of a statement in order, each with the operands that it compares in place. -/
def comparisons : Node → List (Option (Access × Access))
  | .block body | .runAs _ body => comparisonsAll body
  | .branch _ first _ second body =>
    Lowering.directOperands first second body :: comparisonsAll body
  | _ => []

/-- The conditions of statements in order. -/
def comparisonsAll : List Node → List (Option (Access × Access))
  | [] => []
  | node :: rest => node.comparisons ++ comparisonsAll rest

end

mutual

/-- The single statements of a statement, in order; a condition stands before what it governs.
Conditions are numbered from `number` on. -/
def singles (around : List Enclosure) (number : Nat) : Node → List Single
  | .block body => singlesAll around number body
  | .runAs selector body => singlesAll (around ++ [.runAs selector]) number body
  | .branch negate first c second body =>
    ⟨around, .branch negate first c second []⟩ ::
      singlesAll (around ++ [.branch number negate first c second]) (number + 1) body
  | node => [⟨around, node⟩]

/-- The single statements of statements, in order. -/
def singlesAll (around : List Enclosure) (number : Nat) : List Node → List Single
  | [] => []
  | node :: rest =>
    node.singles around number ++ singlesAll around (number + node.comparisons.length) rest

end

end Node

/-- Commands that belong together, and the clauses in front of them, outermost first. -/
structure Group where
  clauses : List Clause
  commands : List Command

/-- The group comes from the statement: the clauses are those of what stands around it, and the
commands are its own. A condition that is compared in place has none of its own. -/
structure Single.Gives (address : Meaning.Address) (compared : List (Access × Access))
    (x : Single) (g : Group) : Prop where
  clauses : List.Forall₂ (Enclosure.Governs address compared) x.around g.clauses
  commands : (∃ s t, Lowering.lower x.statement s = (.ok g.commands, t)) ∨
    x.statement.kind = .branch ∧ g.commands = []

/-- What a clause puts in front of a command. -/
def Clause.front (clause : Clause) : String := "execute " ++ clause.render ++ " run "

/-- What clauses put in front of a command. -/
def Clause.fronts (clauses : List Clause) : String := String.join (clauses.map front)

/-- Lines of a group: the clauses stand in front of every command that is no declaration. -/
def Group.lines (g : Group) : List String :=
  g.commands.map fun c => if c.isDeclaration then c.render else Clause.fronts g.clauses ++ c.render

namespace Command

/-- Puts the command under clauses, the first one outermost. -/
def underAll (clauses : List Clause) (c : Command) : Command := clauses.foldr under c

@[simp] theorem underAll_nil (c : Command) : c.underAll [] = c := rfl

private theorem map_underAll_append_singleton (clauses : List Clause) (clause : Clause)
    (commands : List Command) :
    commands.map (underAll (clauses ++ [clause])) =
      (commands.map (under clause)).map (underAll clauses) := by
  rw [List.map_map]
  refine List.map_congr_left fun c _ => ?_
  rw [underAll, List.foldr_append]
  rfl

private theorem isDeclaration_under (clause : Clause) (c : Command) :
    (c.under clause).isDeclaration = c.isDeclaration := by
  simp only [isDeclaration, action_under]

private theorem isDeclaration_underAll (clauses : List Clause) (c : Command) :
    (c.underAll clauses).isDeclaration = c.isDeclaration := by
  induction clauses with
  | nil => rfl
  | cons clause clauses ih => exact (isDeclaration_under clause _).trans ih

private theorem render_under (clause : Clause) (c : Command) :
    (c.under clause).render = if c.isDeclaration then c.render else clause.front ++ c.render := by
  unfold under
  split <;> rfl

/-- Clauses stand in front of a command in their order, but not of a declaration. -/
theorem render_underAll (clauses : List Clause) (c : Command) :
    (c.underAll clauses).render =
      if c.isDeclaration then c.render else Clause.fronts clauses ++ c.render := by
  induction clauses with
  | nil => simp [Clause.fronts]
  | cons clause clauses ih =>
    have hstep : c.underAll (clause :: clauses) = (c.underAll clauses).under clause := rfl
    rw [hstep, render_under, isDeclaration_underAll, ih]
    split
    · rfl
    · simp [Clause.fronts, String.append_assoc]

end Command

namespace Lowering

open Command

variable {s t : Session} {commands : List Command}

private theorem directOperands_nil (first second : Node) :
    directOperands first second [] = none := by
  cases first <;> cases second <;> rfl

/-- A comparison of copies is loaded first, in the same way whatever its body, and compares two
registers, which are in use around the body. -/
theorem compareCopies_eq_ok {held : List String} {negate : Bool} {first second : Node}
    {c : Comparator} {body : Lowering (List Command)}
    (h : compareCopies negate first c second body s = (.ok commands, t)) :
    ∃ loads inner r q x y s₁ s₂ u v w, Moment.Reaches ⟨held, s⟩ ⟨q :: r :: held, s₁⟩ ∧
      scoreOf (scratch r) s₁ = (.ok x, s₂) ∧ scoreOf (scratch q) s₂ = (.ok y, u) ∧
      body u = (.ok inner, v) ∧ (v.release q).release r = t ∧
      compareCopies negate first c second (pure []) s = (.ok loads, w) ∧
      commands = loads ++ inner.map (under (.compare negate x c y)) := by
  simp only [compareCopies, bind_eq_ok, pure_eq_ok, createStore_eq_ok, withRegister_eq_ok] at h ⊢
  obtain ⟨declaration, s₁, hdecl, _, _, ⟨r, s₂, _, hr, ⟨q, s₃, _, hq, ⟨loaded, s₄, hload, loaded',
    s₅, hload', x, s₆, hx, y, s₇, hy, inner, s₈, hinner, rfl, rfl⟩, rfl⟩, rfl⟩, rfl, rfl⟩ := h
  have hloads : Moment.Reaches ⟨q :: r :: held, s₃⟩ ⟨q :: r :: held, s₅⟩ :=
    ((stepwise_assign _ _ _).reaches hload).trans ((stepwise_assign _ _ _).reaches hload')
  refine ⟨declaration ++ (loaded ++ loaded'), inner, r, q, x, y, s₅, s₆, s₇, s₈,
    (s₇.release q).release r, (reaches_registers hdecl hr hq).trans hloads, hx, hy, hinner, rfl,
    ?_, by simp⟩
  exact ⟨declaration, s₁, hdecl, loaded ++ loaded', _, ⟨r, s₂, _, hr, ⟨q, s₃, _, hq, ⟨loaded, s₄,
    hload, loaded', s₅, hload', x, s₆, hx, y, s₇, hy, [], s₇, ⟨rfl, rfl⟩, by simp, rfl⟩, rfl⟩,
    rfl⟩, rfl, rfl⟩

/-- Whatever stands around, the commands come in groups from single statements, once the conditions
among these have been given what they compare. -/
def Arises (address : Meaning.Address) (comparisons : List (Option (Access × Access)))
    (singles : List Enclosure → Nat → List Single) (commands : List Command) : Prop :=
  ∀ around clauses compared, List.Forall₂ (Enclosure.Governs address compared) around clauses →
    ∃ more groups, List.Forall₂ Compares comparisons more ∧
      List.Forall₂ (Single.Gives address (compared ++ more)) (singles around compared.length)
        groups ∧
      commands.map (underAll clauses) = groups.flatMap fun g => g.commands.map (underAll g.clauses)

section Arises

variable {address : Meaning.Address} {comparisons comparisons' : List (Option (Access × Access))}
  {singles singles' : List Enclosure → Nat → List Single} {commands' : List Command}

/-- What a condition compares stays when further conditions are given theirs. -/
theorem governs_append {around : List Enclosure} {clauses : List Clause}
    {compared : List (Access × Access)}
    (h : List.Forall₂ (Enclosure.Governs address compared) around clauses)
    (more : List (Access × Access)) :
    List.Forall₂ (Enclosure.Governs address (compared ++ more)) around clauses := by
  refine h.imp fun e clause he => ?_
  cases he with
  | branch hpair negate first c second =>
    have hlt := (List.getElem?_eq_some_iff.mp hpair).1
    exact .branch ((List.getElem?_append_left hlt).trans hpair) negate first c second
  | runAs selector => exact .runAs selector

private theorem Arises.nil : Arises address [] (fun _ _ => []) [] :=
  fun _ _ _ _ => ⟨[], [], .nil, .nil, rfl⟩

private theorem Arises.append (h : Arises address comparisons singles commands)
    (h' : Arises address comparisons' singles' commands') :
    Arises address (comparisons ++ comparisons')
      (fun around number => singles around number ++ singles' around (number + comparisons.length))
      (commands ++ commands') := by
  intro around clauses compared haround
  obtain ⟨more, groups, hmore, hgives, heq⟩ := h _ _ _ haround
  obtain ⟨more', groups', hmore', hgives', heq'⟩ := h' _ _ _ (governs_append haround more)
  rw [List.length_append, ← hmore.length_eq] at hgives'
  refine ⟨more ++ more', groups ++ groups', List.rel_append hmore hmore',
    List.rel_append (hgives.imp ?_) ?_, ?_⟩
  · intro x g hg
    refine ⟨?_, hg.commands⟩
    rw [← List.append_assoc]
    exact governs_append hg.clauses more'
  · rw [← List.append_assoc]
    exact hgives'
  · rw [List.map_append, List.flatMap_append, heq, heq']

private theorem Arises.single {node : Node} (h : lower node s = (.ok commands, t)) :
    Arises address [] (fun around _ => [⟨around, node⟩]) commands := by
  intro around clauses compared haround
  refine ⟨[], [⟨clauses, commands⟩], .nil, .cons ⟨?_, .inl ⟨s, t, h⟩⟩ .nil, by simp⟩
  rwa [List.append_nil]

private theorem Arises.runAs (h : Arises address comparisons singles commands) (selector : String) :
    Arises address comparisons
      (fun around number => singles (around ++ [.runAs selector]) number)
      (commands.map (under (.runAs selector))) := by
  intro around clauses compared haround
  have hinner := h _ _ _ (List.rel_append haround (.cons (.runAs selector) .nil))
  rwa [map_underAll_append_singleton] at hinner

/-- A condition comes first, and its body has one more clause in front. -/
theorem Arises.branch {operands : Option (Access × Access)} {pair : Access × Access}
    {negate : Bool} {first second : Node} {c : Comparator} {loads inner : List Command}
    (hpair : Compares operands pair)
    (hloads : (∃ s t, lower (.branch negate first c second []) s = (.ok loads, t)) ∨ loads = [])
    (h : Arises address comparisons singles inner) :
    Arises address (operands :: comparisons)
      (fun around number => ⟨around, .branch negate first c second []⟩ ::
        singles (around ++ [.branch number negate first c second]) (number + 1))
      (loads ++ inner.map (under (.compare negate (address pair.1) c (address pair.2)))) := by
  intro around clauses compared haround
  have hhere : (compared ++ [pair])[compared.length]? = some pair :=
    List.getElem?_concat_length
  obtain ⟨more, groups, hmore, hgives, heq⟩ := h _ _ _
    (List.rel_append (governs_append haround [pair])
      (.cons (.branch hhere negate first c second) .nil))
  rw [List.append_assoc, List.singleton_append, List.length_append] at hgives
  refine ⟨pair :: more, ⟨clauses, loads⟩ :: groups, .cons hpair hmore, .cons ?_ hgives, ?_⟩
  · exact ⟨governs_append haround _, hloads.imp_right fun hnone => ⟨rfl, hnone⟩⟩
  · rw [map_underAll_append_singleton] at heq
    rw [List.map_append, List.flatMap_cons, heq]

end Arises

mutual

/-- The commands of a statement arise from its single statements. -/
theorem arises_lower {held : List String} {s t u : Session} {commands : List Command}
    (hs : Moment.Reachable ⟨held, s⟩) (hu : t.KeepsNames u) :
    {node : Node} → lower node s = (.ok commands, t) →
      Arises u.address node.comparisons (node.singles · ·) commands
  | .block body, h => by
    rw [lower] at h
    exact arises_lowerAll hs hu h
  | .runAs selector body, h => by
    rw [lower] at h
    simp only [bind_eq_ok, pure_eq_ok] at h
    obtain ⟨inner, v, hinner, rfl, rfl⟩ := h
    exact (arises_lowerAll hs hu hinner).runAs selector
  | .branch negate first c second body, h => by
    rw [lower] at h
    cases hdirect : directOperands first second body with
    | some operands =>
      rw [hdirect] at h
      simp only [compareDirectly, bind_eq_ok, pure_eq_ok] at h
      obtain ⟨x, s₁, hx, y, s₂, hy, inner, v, hinner, rfl, rfl⟩ := h
      have hs₂ := hs.reaches ((reaches_scoreOf hx).trans (reaches_scoreOf hy))
      have hkeep : s₂.KeepsNames u := ((stepwise_lowerAll body).keepsNames hinner).trans hu
      obtain ⟨rfl, rfl⟩ := addresses_of_scoreOf hx hy hkeep
      rw [Node.comparisons, hdirect]
      exact (arises_lowerAll hs₂ hu hinner).branch (.inPlace operands) (.inr rfl)
    | none =>
      rw [hdirect] at h
      obtain ⟨loads, inner, r, q, x, y, s₁, s₂, s₃, v, w, hsteps, hx, hy, hinner, rfl, hloads,
        rfl⟩ := compareCopies_eq_ok h
      have hs₁ := hs.reaches hsteps
      have hs₃ := hs₁.reaches ((reaches_scoreOf hx).trans (reaches_scoreOf hy))
      have hv : v.KeepsNames u := hu.of_release.of_release
      have hkeep : s₃.KeepsNames u := ((stepwise_lowerAll body).keepsNames hinner).trans hv
      have hempty : lower (.branch negate first c second []) s = (.ok loads, w) := by
        rw [lower, directOperands_nil, lowerAll]
        exact hloads
      have hpair : Compares none (scratch r, scratch q) :=
        .copies (hs₁.isWord_held (List.mem_cons_of_mem _ List.mem_cons_self))
          (hs₁.isWord_held List.mem_cons_self) hs₁.registers_fresh.2.2
      obtain ⟨rfl, rfl⟩ := addresses_of_scoreOf hx hy hkeep
      rw [Node.comparisons, hdirect]
      exact (arises_lowerAll hs₃ hv hinner).branch hpair (.inl ⟨s, w, hempty⟩)
  | .create _, h | .assign .., h | .calc .., h | .text _, h | .int _, h | .float _, h
  | .access _, h | .call .., h => .single h

/-- The commands of statements arise from their single statements. -/
theorem arises_lowerAll {held : List String} {s t u : Session} {commands : List Command}
    (hs : Moment.Reachable ⟨held, s⟩) (hu : t.KeepsNames u) :
    {body : List Node} → lowerAll body s = (.ok commands, t) →
      Arises u.address (Node.comparisonsAll body) (Node.singlesAll · · body) commands
  | [], h => by
    rw [lowerAll, pure_eq_ok] at h
    obtain ⟨rfl, rfl⟩ := h
    exact .nil
  | node :: rest, h => by
    rw [lowerAll] at h
    simp only [bind_eq_ok, pure_eq_ok] at h
    obtain ⟨first, v, hfirst, others, w, hothers, rfl, rfl⟩ := h
    have hv : Moment.Reachable ⟨held, v⟩ := hs.reaches ((stepwise_lower node).reaches hfirst)
    have hkeeps : v.KeepsNames u :=
      ((stepwise_lowerAll rest).keepsNames hothers).trans hu
    exact (arises_lower hs hkeeps hfirst).append (arises_lowerAll hv hu hothers)

end

/-- Names and addresses bring no newline. -/
theorem oneLine_address {u : Session} (hu : Moment.Reachable ⟨[], u⟩) {a : Access}
    (h : ∀ text ∈ a.entry.literals, OneLine text) : OneLine (u.address a).render := by
  have hname : ∀ found : Option String, (∀ short, found = some short → Letters.IsWord short) →
      OneLine (found.getD "") := by
    intro found hfound
    cases found with
    | none => decide +kernel
    | some short => exact (hfound short rfl).oneLine
  have hentry : OneLine (u.address a).entry := by
    cases he : a.entry with
    | named name =>
      rw [Session.address, he]
      exact hname _ fun short hshort => hu.isWord_variable hshort
    | verbatim text =>
      rw [Session.address, he]
      rw [he] at h
      exact h text List.mem_cons_self
  have hstore : OneLine (u.address a).store := hname _ fun short hshort => hu.isWord_store hshort
  exact (hentry.append oneLine_blank).append hstore

/-- Commands are one line each if all texts of the program are. -/
theorem Emits.oneLine_render {body : List Node} {u : Session}
    (h : Emits [] (.statements body) .fresh commands u)
    (htexts : ∀ text ∈ Node.textsAll body, OneLine text) : ∀ c ∈ commands, OneLine c.render := by
  have hu : Moment.Reachable ⟨[], u⟩ := Moment.Reachable.fresh.reaches h.reaches
  intro c hc
  refine Command.oneLine_render fun part hpart => ?_
  have hallowed := h.madeOf .fresh (.refl u) c hc part hpart
  cases part with
  | store name => exact hallowed.oneLine
  | text content => exact htexts content hallowed
  | score x =>
    rcases hallowed with ⟨a, ha, rfl⟩ | ⟨r, hr, rfl⟩
    · exact oneLine_address hu fun text htext =>
        htexts text (Node.literals_entry_subset_all ha htext)
    · exact oneLine_address hu (List.forall_mem_singleton.mpr hr.oneLine)

end Lowering

open Command

/--
An output file has one line per command exactly when no command holds a newline,
which is so whenever no text in quotes holds one. The commands come in groups, one
for each single statement of the program in order, and start with everything that
the conditions and selectors around the statement put in front, declarations apart.
All commands under one condition compare the same two scores: the operands at their
addresses where they are compared in place, or else two registers.
-/
theorem outputLines_compile {source : String} {commands : List Command}
    (h : compile source = .ok commands) (hne : commands ≠ []) :
    (outputLines (renderAll commands) = commands.map render ↔ ∀ c ∈ commands, OneLine c.render) ∧
      ((∀ text ∈ quotedTexts source, OneLine text) →
        outputLines (renderAll commands) = commands.map render) ∧
      ∃ body compared groups, parse source = .ok body ∧
        List.Forall₂ Lowering.Compares (Node.comparisonsAll body) compared ∧
        List.Forall₂ (Single.Gives (Session.fresh.compile source).2.address compared)
          (Node.singlesAll [] 0 body) groups ∧
        commands.map render = groups.flatMap Group.lines := by
  have hcompile : Session.fresh.compile source = (.ok commands, (Session.fresh.compile source).2) :=
    Prod.ext h rfl
  obtain ⟨body, hparse, hlower⟩ := Session.compile_eq_ok.mp hcompile
  obtain ⟨u, hemits, -, -⟩ := Session.exists_emits_of_lowerAll hlower
  refine ⟨outputLines_renderAll hne, fun htexts => ?_, ?_⟩
  · rw [← textsAll_of_parse hparse] at htexts
    exact (outputLines_renderAll hne).mpr (hemits.oneLine_render htexts)
  · obtain ⟨v, hv, hcommit⟩ := Session.run_eq_ok.mp hlower
    have haddress : (Session.fresh.compile source).2.address = v.address := by
      rw [← hcommit]
      rfl
    obtain ⟨compared, groups, hcompared, hgives, hcommands⟩ :=
      Lowering.arises_lowerAll .fresh (.refl v) hv [] [] [] .nil
    refine ⟨body, compared, groups, hparse, hcompared, haddress ▸ hgives, ?_⟩
    have hnone : commands.map (underAll []) = commands := by
      rw [show underAll [] = id from rfl, List.map_id]
    rw [hnone] at hcommands
    rw [hcommands, List.map_flatMap]
    refine List.flatMap_congr fun g _ => ?_
    rw [List.map_map, Group.lines]
    exact List.map_congr_left fun c _ => render_underAll g.clauses c

/-- A condition below a selector: its copies are made as the entities, and its body is run as them
where the condition holds. -/
theorem outputLines_compile_nested :
    let source := "create store s\nas '@a' if s[x] < s[y] \x7b 'say hi' s[x] += 1 \x7d"
    let guards : List Clause := [.runAs "@a", .compare false ⟨"c", "b"⟩ .lt ⟨"d", "b"⟩]
    let commands : List Command :=
      [.declare "a", .declare "b", ⟨[.runAs "@a"], .operate ⟨"c", "b"⟩ .set ⟨"e", "a"⟩⟩,
        ⟨[.runAs "@a"], .operate ⟨"d", "b"⟩ .set ⟨"f", "a"⟩⟩, ⟨guards, .raw "say hi"⟩,
        ⟨guards, .edit .add ⟨"e", "a"⟩ 1⟩]
    compile source = .ok commands ∧
      outputLines (renderAll commands) =
        ["scoreboard objectives add a dummy", "scoreboard objectives add b dummy",
          "execute as @a run scoreboard players operation c b = e a",
          "execute as @a run scoreboard players operation d b = f a",
          "execute as @a run execute if score c b < d b run say hi",
          "execute as @a run execute if score c b < d b run scoreboard players add e a 1"] := by
  intro source guards commands
  have hcompile : compile source = .ok commands := by decide +kernel
  obtain ⟨-, hlines, -⟩ := outputLines_compile hcompile (List.cons_ne_nil _ _)
  refine ⟨hcompile, (hlines (by decide +kernel)).trans ?_⟩
  decide +kernel

/-- A text with a newline brings a line that no condition governs, and no selector stands in front
of a declaration. -/
theorem outputLines_compile_unguarded :
    let source := "create store s\nif s[x] == s[y] 'say a\\nsay b'\nas '@a' create store t"
    let commands : List Command :=
      [.declare "a", ⟨[.compare false ⟨"b", "a"⟩ .eq ⟨"c", "a"⟩], .raw "say a\nsay b"⟩,
        .declare "d"]
    compile source = .ok commands ∧
      outputLines (renderAll commands) =
        ["scoreboard objectives add a dummy", "execute if score b a = c a run say a", "say b",
          "scoreboard objectives add d dummy"] ∧
      outputLines (renderAll commands) ≠ commands.map render := by
  decide +kernel

end Datapack
