import Datapack.Compile
import Datapack.Proofs.Grammar.Concatenation
import Datapack.Proofs.Lowering.Simulation

/-!
# Working line by line

Whether the declarations of a lowering have been handed over makes no difference
to what is lowered after it. So texts that are compiled one after the other in one
session give the commands of the text that has them on lines of its own, compiled
at once.
-/

namespace Datapack

namespace Session

section Commit

variable (s : Session)

private theorem nameEntry_commit (e : Entry) :
    s.commit.nameEntry e = ((s.nameEntry e).1, (s.nameEntry e).2.commit) := by
  cases e <;> rfl

private theorem createStore_commit (name : String) :
    (s.commit.createStore name).1 = (s.createStore name).1 ∧
      (s.commit.createStore name).2.commit = (s.createStore name).2.commit := by
  have hdeclared := s.isDeclared_commit name
  cases h : s.isDeclared name with
  | true =>
    rw [createStore_of_declared h, createStore_of_declared (hdeclared.trans h)]
    simp [commit]
  | false =>
    rw [createStore_of_undeclared h, createStore_of_undeclared (hdeclared.trans h)]
    simp [commit]

end Commit

/-- Sessions that differ in what has been handed over go on alike. -/
theorem simulation_commit : Simulation .id fun s t => s.commit = t.commit where
  store_scratch := rfl
  storeName?_eq := by
    intro s t h name
    rw [← storeName?_commit s, h, storeName?_commit]
    rfl
  nameEntry := by
    intro s t h e
    have hs := nameEntry_commit s e
    rw [h, nameEntry_commit] at hs
    obtain ⟨hname, hsession⟩ := Prod.mk.inj hs
    rw [Entry.rename_id]
    exact ⟨hname, hsession.symm⟩
  createStore := by
    intro s t h name
    obtain ⟨hcommands, hsession⟩ := createStore_commit s name
    rw [h] at hcommands hsession
    obtain ⟨hcommands', hsession'⟩ := createStore_commit t name
    exact ⟨hcommands'.symm.trans hcommands, hsession.symm.trans hsession'⟩
  acquire := by
    intro s t h
    have hs : s.commit.acquire = (s.acquire.1, s.acquire.2.commit) := rfl
    have ht : t.commit.acquire = (t.acquire.1, t.acquire.2.commit) := rfl
    rw [h, ht] at hs
    obtain ⟨hregister, hsession⟩ := Prod.mk.inj hs
    exact ⟨hregister, hsession.symm⟩
  release := by
    intro s t h register
    have hs : s.commit.release register = (s.release register).commit := rfl
    rw [h] at hs
    exact hs.symm

end Session

namespace Lowering

variable {body rest : List Node} {s t u : Session} {commands commands' : List Command}

private theorem lowerAll_append (h : lowerAll body s = (.ok commands, t))
    (h' : lowerAll rest t = (.ok commands', u)) :
    lowerAll (body ++ rest) s = (.ok (commands ++ commands'), u) := by
  induction body generalizing s commands with
  | nil =>
    rw [lowerAll, pure_eq_ok] at h
    obtain ⟨rfl, rfl⟩ := h
    exact h'
  | cons node body ih =>
    simp only [lowerAll, bind_eq_ok, pure_eq_ok] at h
    obtain ⟨first, v, hfirst, others, w, hothers, rfl, rfl⟩ := h
    simp only [List.cons_append, lowerAll, bind_eq_ok, pure_eq_ok]
    exact ⟨first, v, hfirst, _, _, ih hothers, (List.append_assoc ..).symm, rfl⟩

/-- Statements are lowered alike before and after the declarations are handed over. -/
theorem lowerAll_commit (h : lowerAll body s.commit = (.ok commands, t)) :
    ∃ u, lowerAll body s = (.ok commands, u) ∧ u.commit = t.commit := by
  have hstart : s.commit.commit = s.commit := by simp [Session.commit]
  obtain ⟨hanswer, hsession⟩ := follows_lowerAll Session.simulation_commit body hstart
  rw [Node.renameAll_id, h] at hanswer
  rw [Node.renameAll_id, h] at hsession
  exact ⟨_, Prod.ext hanswer rfl, hsession.symm⟩

end Lowering

namespace Session

/-- A lowering that succeeds is committed. -/
theorem run_eq_ok {work : Lowering (List Command)} {s t : Session} {commands : List Command} :
    s.run work = (.ok commands, t) ↔ ∃ u, work s = (.ok commands, u) ∧ u.commit = t := by
  unfold run
  split
  case h_1 u h => simp [h]
  case h_2 e u h => simp [h]

variable {s t u : Session} {commands commands' : List Command}

/-- Two lowerings in a row that succeed do together what one lowering does. -/
theorem lowerAll_append {body rest : List Node} (h : s.lowerAll body = (.ok commands, t))
    (h' : t.lowerAll rest = (.ok commands', u)) :
    s.lowerAll (body ++ rest) = (.ok (commands ++ commands'), u) := by
  obtain ⟨v, hv, rfl⟩ := run_eq_ok.mp h
  obtain ⟨w, hw, rfl⟩ := run_eq_ok.mp h'
  obtain ⟨x, hx, hcommit⟩ := Lowering.lowerAll_commit hw
  exact run_eq_ok.mpr ⟨x, Lowering.lowerAll_append hv hx, hcommit⟩

/-- A text compiles if it is a program whose statements are lowered. -/
theorem compile_eq_ok {source : String} :
    s.compile source = (.ok commands, t) ↔
      ∃ body, parse source = .ok body ∧ s.lowerAll body = (.ok commands, t) := by
  unfold compile
  cases parse source with
  | error e => simp
  | ok body =>
    cases hlower : s.lowerAll body with
    | mk result v => cases result <;> simp [hlower, Except.mapError]

/-- Two texts compiled in a row are compiled like one text with a newline between them. -/
theorem compile_append_newline {source rest : String}
    (h : s.compile source = (.ok commands, t)) (h' : t.compile rest = (.ok commands', u))
    (hminus : ¬ StartsWithMinus rest) :
    s.compile (source ++ "\n" ++ rest) = (.ok (commands ++ commands'), u) := by
  obtain ⟨body, hbody, hlower⟩ := compile_eq_ok.mp h
  obtain ⟨body', hbody', hlower'⟩ := compile_eq_ok.mp h'
  exact compile_eq_ok.mpr ⟨_, parse_append_newline hbody hbody' hminus,
    lowerAll_append hlower hlower'⟩

/-- What a session answers to texts compiled one after the other. -/
def compileEach (s : Session) : List String → List (Except CompileError (List Command))
  | [] => []
  | line :: lines => (s.compile line).1 :: (s.compile line).2.compileEach lines

private theorem compileEach_cons_eq_ok {line : String} {lines : List String}
    {outputs : List (List Command)} :
    s.compileEach (line :: lines) = outputs.map .ok ↔
      ∃ commands t rest, s.compile line = (.ok commands, t) ∧
        t.compileEach lines = rest.map .ok ∧ outputs = commands :: rest := by
  constructor
  · intro h
    obtain ⟨commands, rest, rfl, hcommands, hrest⟩ := List.map_eq_cons_iff.mp h.symm
    exact ⟨commands, _, rest, Prod.ext hcommands.symm rfl, hrest.symm, rfl⟩
  · rintro ⟨commands, t, rest, hcommands, hrest, rfl⟩
    rw [compileEach, hcommands, hrest, List.map_cons]

private theorem compile_empty (s : Session) : s.compile "" = (.ok [], s.commit) := by
  have hparse : parse "" = .ok [] := by
    have htokens : (lexemes "").map Lexeme.item = ([] : List Token).map Except.ok := by
      rw [lexemes, String.toList_empty, Scan.lexemesFrom_nil]
      rfl
    exact (parse_eq_ok_iff htokens).mpr ⟨.none⟩
  rw [compile, hparse]
  rfl

/-- Texts that are compiled one by one are compiled alike as the lines of one text. -/
theorem compile_intercalate {lines : List String} {outputs : List (List Command)}
    (hminus : ∀ line ∈ lines, ¬ StartsWithMinus line)
    (h : s.compileEach lines = outputs.map .ok) :
    (∃ t, s.compile ("\n".intercalate lines) = (.ok outputs.flatten, t)) ∧
      ¬ StartsWithMinus ("\n".intercalate lines) := by
  induction lines generalizing s outputs with
  | nil =>
    obtain rfl : outputs = [] := List.map_eq_nil_iff.mp h.symm
    refine ⟨⟨_, compile_empty s⟩, fun hminus => ?_⟩
    rw [String.intercalate_nil, StartsWithMinus, lexemes, String.toList_empty,
      Scan.lexemesFrom_nil] at hminus
    cases hminus
  | cons line lines ih =>
    obtain ⟨commands, t, rest, hline, hlines, rfl⟩ := compileEach_cons_eq_ok.mp h
    obtain ⟨hfirst, hminus⟩ := List.forall_mem_cons.mp hminus
    obtain ⟨⟨u, hrest⟩, hjoined⟩ := ih hminus hlines
    rw [List.flatten_cons]
    cases lines with
    | nil =>
      obtain rfl : rest = [] := List.map_eq_nil_iff.mp hlines.symm
      rw [String.intercalate_singleton, List.flatten_nil, List.append_nil]
      exact ⟨⟨t, hline⟩, hfirst⟩
    | cons next lines =>
      obtain ⟨body, hbody, -⟩ := compile_eq_ok.mp hline
      rw [String.intercalate_cons_cons]
      exact ⟨⟨u, compile_append_newline hline hrest hjoined⟩,
        not_startsWithMinus_append_newline hbody hfirst hjoined⟩

end Session

/--
Working line by line gives what compiling the whole text gives. If every line
compiles in one session that starts fresh, and none of them starts with a minus
sign, then the lines joined by newlines compile, and their commands are those of
the lines in order. It does not matter whether a line has a newline in it.
-/
theorem compile_lines (lines : List String) (outputs : List (List Command))
    (hminus : ∀ line ∈ lines, ¬ StartsWithMinus line)
    (h : Session.fresh.compileEach lines = outputs.map .ok) :
    compile ("\n".intercalate lines) = .ok outputs.flatten := by
  obtain ⟨⟨t, ht⟩, -⟩ := Session.compile_intercalate hminus h
  rw [compile, ht]

/-- A calculation with a comment behind it, an empty line, and a condition on what was written. -/
theorem compile_lines_calculation :
    let lines := ["create store s", "s[a] = s[b] * 2 // twice", "", " if s[a] > s[b] s[a] -= 1"]
    let a : Score := ⟨"f", "a"⟩
    let b : Score := ⟨"e", "a"⟩
    let twice : List Command := [.declare "b", .operate ⟨"c", "b"⟩ .set b,
      ⟨[], .edit .set ⟨"d", "b"⟩ 2⟩, .operate ⟨"c", "b"⟩ .mul ⟨"d", "b"⟩,
      .operate a .set ⟨"c", "b"⟩]
    let less : List Command := [⟨[.compare false a .gt b], .edit .remove a 1⟩]
    Session.fresh.compileEach lines = [.ok [.declare "a"], .ok twice, .ok [], .ok less] ∧
      compile ("\n".intercalate lines) = .ok (.declare "a" :: (twice ++ less)) := by
  intro lines a b twice less
  have hlines : Session.fresh.compileEach lines =
      [[.declare "a"], twice, [], less].map .ok := by decide +kernel
  refine ⟨hlines, compile_lines lines _ ?_ hlines⟩
  unfold StartsWithMinus
  decide +kernel

end Datapack
