import Datapack.Proofs.Files.Sources

/-!
# Runs are decided beforehand

Checks and writes take turns, source by source. But what is written for one source
is neither the output nor the text of another, so every source is judged as it would
have been on the tree that the run started from.
-/

namespace Datapack

/-- The run does not stop at the source: its output is no directory and does not exist, unless it
may be overwritten, and the source is text. -/
structure Admitted (t : FileTree) (overwrite : Bool) (p : Path) : Prop where
  not_directory : t.isDirectory (outputPath p) = false
  replaceable : t.get? (outputPath p) = none ∨ overwrite = true
  readable : (t.text? p).isSome = true

instance (t : FileTree) (overwrite : Bool) (p : Path) : Decidable (Admitted t overwrite p) :=
  decidable_of_iff
    (t.isDirectory (outputPath p) = false ∧ (t.get? (outputPath p) = none ∨ overwrite = true) ∧
      (t.text? p).isSome = true)
    ⟨fun ⟨hdirectory, hreplaceable, hreadable⟩ => ⟨hdirectory, hreplaceable, hreadable⟩,
      fun h => ⟨h.not_directory, h.replaceable, h.readable⟩⟩

/-- The source at a path is text that compiles to the commands. -/
def CompilesTo (t : FileTree) (p : Path) (commands : List Command) : Prop :=
  ∃ content, t.text? p = some content ∧ compile content = .ok commands

/-- Whether the source at a path is text that does not compile. -/
def failsToCompile (t : FileTree) (p : Path) : Bool :=
  (t.text? p).any fun content => !(compile content).isOk

/-- A text does not fail to compile if it compiles to something. -/
theorem failsToCompile_eq_false_iff {t : FileTree} {p : Path} (h : (t.text? p).isSome = true) :
    failsToCompile t p = false ↔ ∃ commands, CompilesTo t p commands := by
  obtain ⟨content, htext⟩ := Option.isSome_iff_exists.mp h
  rw [failsToCompile, htext, Option.any_some]
  constructor
  · intro hfails
    cases hcompile : compile content with
    | error e =>
      rw [hcompile] at hfails
      cases hfails
    | ok commands => exact ⟨commands, content, htext, hcompile⟩
  · rintro ⟨commands, content', htext', hcompile⟩
    cases htext.symm.trans htext'
    rw [hcompile]
    rfl

instance (t : FileTree) (p : Path) : Decidable (∃ commands, CompilesTo t p commands) :=
  decidable_of_iff ((t.text? p).isSome = true ∧ failsToCompile t p = false)
    ⟨fun ⟨htext, hfails⟩ => (failsToCompile_eq_false_iff htext).mp hfails,
      fun h =>
        have htext : (t.text? p).isSome = true := by
          obtain ⟨_, content, htext, -⟩ := h
          rw [htext]
          rfl
        ⟨htext, (failsToCompile_eq_false_iff htext).mpr h⟩⟩

private theorem CompilesTo.unique {t : FileTree} {p : Path} {commands commands' : List Command}
    (h : CompilesTo t p commands) (h' : CompilesTo t p commands') : commands = commands' := by
  obtain ⟨content, htext, hcompile⟩ := h
  obtain ⟨content', htext', hcompile'⟩ := h'
  cases htext.symm.trans htext'
  exact Except.ok.inj (hcompile.symm.trans hcompile')

/-- An admitted source is not written over the root. -/
theorem Admitted.output_ne_nil {t : FileTree} {overwrite : Bool} {f : SourceFile}
    (h : Admitted t overwrite f.path) : f.output ≠ [] := by
  intro hroot
  have hout := h.not_directory
  rw [f.outputPath_path, hroot] at hout
  cases hout

namespace SourceFile

section Outputs

variable {t : FileTree} {f g : SourceFile}

/-- The source is a file of the tree. -/
def Stands (t : FileTree) (f : SourceFile) : Prop := ∃ content, t.get? f.path = some (.file content)

private theorem Stands.isDirectory (ht : t.WellFormed) (h : f.Stands t) :
    t.isDirectory f.directory = true := by
  obtain ⟨content, hfile⟩ := h
  rw [← dropLast_path]
  exact ht.isDirectory_dropLast hfile

/-- An output whose name leads up is a directory. -/
theorem Stands.stem_ne (ht : t.WellFormed) (h : f.Stands t)
    (hout : t.isDirectory f.output = false) : f.stem ≠ "." := by
  intro hstem
  have hup : f.output = f.directory.dropLast := by
    simp [output, outputName, hstem, FileTree.follow]
  have habove := ht.isDirectory_dropLast (FileTree.isDirectory_iff.mp (h.isDirectory ht))
  rw [← hup, hout] at habove
  cases habove

/-- The output lies beside the source. -/
theorem Stands.output_eq (ht : t.WellFormed) (h : f.Stands t)
    (hout : t.isDirectory f.output = false) :
    f.output = f.directory ++ [named f.stem outputExtension] :=
  output_of_stem_ne (h.stem_ne ht hout)

/-- No two sources share an output. -/
theorem Stands.output_ne (ht : t.WellFormed) (hf : f.Stands t) (hg : g.Stands t)
    (hout : t.isDirectory f.output = false) (hne : g.path ≠ f.path) : g.output ≠ f.output := by
  intro h
  have hdot : '.' ∉ outputExtension.toList := by decide
  have hgout : t.isDirectory g.output = false := by
    rw [h]
    exact hout
  rw [hf.output_eq ht hout, hg.output_eq ht hgout] at h
  obtain ⟨hdirectory, hname⟩ := List.append_inj' h rfl
  obtain ⟨hstem, -⟩ := named_injective hdot hdot (List.singleton_inj.mp hname)
  exact hne (by rw [path, path, hdirectory, hstem])

/-- No output has the source extension. -/
theorem Stands.extension_output_ne (ht : t.WellFormed) (hf : f.Stands t)
    (hfout : t.isDirectory f.output = false) :
    f.output.getLast?.bind extension? ≠ some sourceExtension := by
  have hdot : '.' ∉ sourceExtension.toList := by decide
  rw [hf.output_eq ht hfout, List.getLast?_concat, Option.bind_some, Ne,
    extension?_eq_some_iff hdot]
  rintro ⟨stem, -, hname⟩
  obtain ⟨-, hext⟩ := named_injective (by decide) hdot hname
  revert hext
  decide

/-- No output is a source. -/
theorem Stands.output_ne_path (ht : t.WellFormed) (hf : f.Stands t)
    (hfout : t.isDirectory f.output = false) : f.output ≠ g.path := by
  rw [hf.output_eq ht hfout, path]
  intro h
  obtain ⟨-, hname⟩ := List.append_inj' h rfl
  obtain ⟨-, hext⟩ := named_injective (by decide) (by decide) (List.singleton_inj.mp hname)
  revert hext
  decide

end Outputs

end SourceFile

namespace Build

open FileTree SourceFile

section Judge

variable {t u : FileTree} {overwrite : Bool} {f : SourceFile}

/-- A source is judged by its output and its own content alone. -/
theorem judge_congr (hout : t.get? f.output = u.get? f.output)
    (hpath : t.get? f.path = u.get? f.path) : judge t overwrite f = judge u overwrite f := by
  unfold judge
  rw [isDirectory_congr hout, hout, text?_congr hpath]

private theorem admitted_iff : Admitted t overwrite f.path ↔
    t.isDirectory f.output = false ∧ ((t.get? f.output).isSome && !overwrite) = false ∧
      (t.text? f.path).isSome = true := by
  have hexists : t.get? f.output = none ∨ overwrite = true ↔
      ((t.get? f.output).isSome && !overwrite) = false := by
    cases t.get? f.output <;> simp
  constructor
  · rintro ⟨hdirectory, hreplaceable, hreadable⟩
    rw [outputPath_path] at hdirectory hreplaceable
    exact ⟨hdirectory, hexists.mp hreplaceable, hreadable⟩
  · rintro ⟨hdirectory, hreplaceable, hreadable⟩
    rw [← outputPath_path] at hdirectory hreplaceable hexists
    exact ⟨hdirectory, hexists.mpr hreplaceable, hreadable⟩

private theorem exists_judge_eq_refused (h : ¬ Admitted t overwrite f.path) :
    ∃ e, judge t overwrite f = .refused e := by
  rw [admitted_iff] at h
  unfold judge
  split
  case isTrue => exact ⟨_, rfl⟩
  case isFalse hdirectory =>
    split
    case isTrue => exact ⟨_, rfl⟩
    case isFalse hexists =>
      have hnone : t.text? f.path = none := by
        simpa [Bool.eq_false_iff.mpr hdirectory, Bool.eq_false_iff.mpr hexists] using h
      rw [hnone]
      exact ⟨_, rfl⟩

private theorem judge_of_admitted (h : Admitted t overwrite f.path) {content : String}
    (htext : t.text? f.path = some content) :
    judge t overwrite f =
      match compile content with
      | .ok commands => .accepted commands
      | .error e => .rejected content e := by
  obtain ⟨hdirectory, hexists, -⟩ := admitted_iff.mp h
  rw [judge, hdirectory, hexists, htext]
  rfl

/-- What a source can come to: it is refused, does not compile, or is accepted. -/
theorem judge_cases (t : FileTree) (overwrite : Bool) (f : SourceFile) :
    (¬ Admitted t overwrite f.path ∧ ∃ e, judge t overwrite f = .refused e) ∨
      (Admitted t overwrite f.path ∧ failsToCompile t f.path = true ∧
        ∃ content e, judge t overwrite f = .rejected content e) ∨
      (Admitted t overwrite f.path ∧ failsToCompile t f.path = false ∧
        ∃ commands, CompilesTo t f.path commands ∧ judge t overwrite f = .accepted commands) := by
  by_cases hadmitted : Admitted t overwrite f.path
  · obtain ⟨content, htext⟩ := Option.isSome_iff_exists.mp hadmitted.readable
    have hjudge := judge_of_admitted hadmitted htext
    have hfails : failsToCompile t f.path = !(compile content).isOk := by
      rw [failsToCompile, htext, Option.any_some]
    cases hcompile : compile content with
    | error e =>
      rw [hcompile] at hjudge hfails
      exact .inr (.inl ⟨hadmitted, hfails, content, e, hjudge⟩)
    | ok commands =>
      rw [hcompile] at hjudge hfails
      exact .inr (.inr ⟨hadmitted, hfails, commands, ⟨content, htext, hcompile⟩, hjudge⟩)
  · exact .inl ⟨hadmitted, exists_judge_eq_refused hadmitted⟩

end Judge

section Advances

/-- `Advances t o fs p result q`: judged on the tree `t`, the sources `fs` lead from `p` to `q`, and
the run goes on or stops with an error. -/
inductive Advances (t : FileTree) (o : BuildOptions) :
    List SourceFile → Progress → Except BuildError Unit → Progress → Prop
  | done {p} : Advances t o [] p (.ok ()) p
  | refused {f rest p e} : ¬ Admitted t o.overwrite f.path → Advances t o (f :: rest) p (.error e) p
  | rejected {f rest p outputs result q} :
      Admitted t o.overwrite f.path → failsToCompile t f.path = true →
      Advances t o rest { p with outputs := outputs, failed := p.failed + 1 } result q →
      Advances t o (f :: rest) p result q
  | accepted {f rest p commands written outputs result q} :
      Admitted t o.overwrite f.path → failsToCompile t f.path = false →
      CompilesTo t f.path commands →
      Advances t o rest { p with
        tree := p.tree.write f.output (outputContent commands)
        written := written
        outputs := outputs } result q →
      Advances t o (f :: rest) p result q

variable {t : FileTree} {o : BuildOptions} {fs : List SourceFile} {p q : Progress}
  {result : Except BuildError Unit}

/-- What is written for a source keeps the tree well formed. -/
theorem wellFormed_write {f : SourceFile} (ht : t.WellFormed) (hf : f.Stands t)
    (hout : t.isDirectory f.output = false) (content : ByteArray) :
    (t.write f.output content).WellFormed := by
  have houtput := hf.output_eq ht hout
  refine ht.write ?_ ?_ hout content
  · rw [houtput]
    exact List.concat_ne_nil _ _
  · rw [houtput, List.dropLast_concat]
    exact hf.isDirectory ht

/-- Every source is judged as on the tree that the run started from, and the tree stays well
formed. -/
theorem advances_advanceAll (hp : p.tree.WellFormed) (hstands : ∀ f ∈ fs, f.Stands p.tree)
    (hnodup : (fs.map path).Nodup)
    (hsame : ∀ f ∈ fs, p.tree.get? f.output = t.get? f.output ∧
      p.tree.get? f.path = t.get? f.path) :
    Advances t o fs p (advanceAll o fs p).1 (advanceAll o fs p).2 ∧
      (advanceAll o fs p).2.tree.WellFormed := by
  induction fs generalizing p with
  | nil => exact ⟨.done, hp⟩
  | cons f rest ih =>
    obtain ⟨hf, hrest⟩ := List.forall_mem_cons.mp hstands
    obtain ⟨⟨hout, hpath⟩, hsame⟩ := List.forall_mem_cons.mp hsame
    obtain ⟨hnew, hnodup⟩ := List.nodup_cons.mp hnodup
    have hjudge : judge p.tree o.overwrite f = judge t o.overwrite f := judge_congr hout hpath
    obtain ⟨hadmitted, e, h⟩ | ⟨hadmitted, hfails, content, e, h⟩ |
      ⟨hadmitted, hfails, commands, hcompiles, h⟩ := judge_cases t o.overwrite f
    · simp only [advanceAll, advance, hjudge, h]
      exact ⟨.refused hadmitted, hp⟩
    · simp only [advanceAll, advance, hjudge, h]
      refine And.imp_left (.rejected hadmitted hfails) (ih ?_ ?_ hnodup ?_)
      · exact hp
      · exact hrest
      · exact hsame
    · have hfile : p.tree.isDirectory f.output = false := by
        rw [isDirectory_congr hout, ← outputPath_path]
        exact hadmitted.not_directory
      have hne : ∀ g ∈ rest, g.output ≠ f.output ∧ g.path ≠ f.output := by
        intro g hg
        have hpaths : g.path ≠ f.path := fun h => hnew (h ▸ List.mem_map_of_mem hg)
        exact ⟨hf.output_ne hp (hrest g hg) hfile hpaths, (hf.output_ne_path hp hfile).symm⟩
      simp only [advanceAll, advance, hjudge, h]
      refine And.imp_left (.accepted hadmitted hfails hcompiles) (ih ?_ ?_ hnodup ?_)
      · exact wellFormed_write hp hf hfile _
      · intro g hg
        obtain ⟨content, hcontent⟩ := hrest g hg
        exact ⟨content, (get?_write_of_ne (hne g hg).2).trans hcontent⟩
      · intro g hg
        obtain ⟨hgout, hgpath⟩ := hsame g hg
        exact ⟨(get?_write_of_ne (hne g hg).1).trans hgout,
          (get?_write_of_ne (hne g hg).2).trans hgpath⟩

/-- A run stops exactly at a source that is not admitted. -/
theorem Advances.ok_iff (h : Advances t o fs p result q) :
    result = .ok () ↔ ∀ f ∈ fs, Admitted t o.overwrite f.path := by
  induction h with
  | done => simp
  | refused hadmitted =>
    exact ⟨nofun, fun hall => absurd (hall _ List.mem_cons_self) hadmitted⟩
  | rejected hadmitted _ _ ih | accepted hadmitted _ _ _ ih =>
    rw [ih, List.forall_mem_cons]
    exact ⟨fun hrest => ⟨hadmitted, hrest⟩, And.right⟩

/-- A run that does not stop counts the sources that do not compile. -/
theorem Advances.failed_eq (h : Advances t o fs p result q) (hok : result = .ok ()) :
    q.failed = p.failed + (fs.map path).countP (failsToCompile t) := by
  induction h with
  | done => rfl
  | refused => cases hok
  | rejected _ hfails _ ih =>
    rw [ih hok, List.map_cons, List.countP_cons_of_pos hfails]
    exact Nat.add_right_comm _ _ _
  | accepted _ hfails _ _ ih =>
    rw [ih hok, List.map_cons, List.countP_cons_of_neg (Bool.eq_false_iff.mp hfails)]

/-- Only outputs of sources that compile are written, with what these compile to. -/
theorem Advances.get?_eq (h : Advances t o fs p result q) (place : Path) :
    q.tree.get? place = p.tree.get? place ∨
      ∃ f ∈ fs, ∃ commands, Admitted t o.overwrite f.path ∧ CompilesTo t f.path commands ∧
        place = f.output ∧ q.tree.get? place = some (.file (outputContent commands)) := by
  induction h with
  | done | refused => exact .inl rfl
  | rejected _ _ _ ih =>
    refine ih.imp_right ?_
    rintro ⟨g, hg, hwritten⟩
    exact ⟨g, List.mem_cons_of_mem _ hg, hwritten⟩
  | @accepted f _ _ commands _ _ _ _ hadmitted _ hcompiles _ ih =>
    rcases ih with hsame | ⟨g, hg, hwritten⟩
    · by_cases hplace : place = f.output
      · refine .inr ⟨f, List.mem_cons_self, commands, hadmitted, hcompiles, hplace, ?_⟩
        rw [hsame, hplace]
        exact get?_write hadmitted.output_ne_nil
      · exact .inl (hsame.trans (get?_write_of_ne hplace))
    · exact .inr ⟨g, List.mem_cons_of_mem _ hg, hwritten⟩

/-- A run that does not stop writes the outputs of all sources that compile. -/
theorem Advances.get?_output (h : Advances t o fs p result q) (hok : result = .ok ())
    (ht : t.WellFormed) (hstands : ∀ f ∈ fs, f.Stands t) (hnodup : (fs.map path).Nodup)
    {f : SourceFile} (hf : f ∈ fs) {commands : List Command}
    (hcompiles : CompilesTo t f.path commands) :
    q.tree.get? f.output = some (.file (outputContent commands)) := by
  induction h with
  | done => cases hf
  | refused => cases hok
  | rejected hadmitted hfails _ ih =>
    obtain ⟨-, hnodup⟩ := List.nodup_cons.mp hnodup
    rcases List.mem_cons.mp hf with rfl | hf
    · rw [(failsToCompile_eq_false_iff hadmitted.readable).mpr ⟨_, hcompiles⟩] at hfails
      cases hfails
    · exact ih hok (List.forall_mem_cons.mp hstands).2 hnodup hf
  | accepted hadmitted _ hcompiles' hrest ih =>
    obtain ⟨hnew, hnodup⟩ := List.nodup_cons.mp hnodup
    obtain ⟨hstand, hothers⟩ := List.forall_mem_cons.mp hstands
    rcases List.mem_cons.mp hf with rfl | hf
    · rcases hrest.get?_eq f.output with hsame | ⟨g, hg, _, -, -, hshared, -⟩
      · rw [hsame, hcompiles.unique hcompiles']
        exact get?_write hadmitted.output_ne_nil
      · -- a later source would have to share the output
        have hout := hadmitted.not_directory
        rw [outputPath_path] at hout
        have hne : g.path ≠ f.path := fun h => hnew (h ▸ List.mem_map_of_mem hg)
        exact absurd hshared.symm (hstand.output_ne ht (hothers g hg) hout hne)
    · exact ih hok hothers hnodup hf

end Advances

end Build

end Datapack
