import Datapack.CommandLine
import Datapack.Proofs.Files.Runs

/-!
# Outcomes are decided beforehand

Whether a run succeeds can be told from the tree that it starts from, and so can
every file that it writes. Nothing else changes, whatever the outcome: no source, no
directory, and without leave to overwrite no file at all. A run that succeeded can be
repeated and changes nothing then.
-/

namespace Datapack

namespace FileTree

section Keeps

variable {t u : FileTree} {p q : Path}

/-- What stands in `t` stands in `u`, and directories stay directories. -/
structure Keeps (t u : FileTree) : Prop where
  exists_of_exists : ∀ q, (t.get? q).isSome = true → (u.get? q).isSome = true
  isDirectory : ∀ q, t.isDirectory q = true → u.isDirectory q = true

private theorem Keeps.step (h : t.Keeps u) {component : String}
    (hstep : t.step p component = some q) :
    u.step p component = some q := by
  unfold FileTree.step at hstep ⊢
  split at hstep
  case isTrue hleads =>
    obtain ⟨hdirectory, hexists⟩ := Bool.and_eq_true_iff.mp hleads
    rw [h.isDirectory _ hdirectory, h.exists_of_exists _ hexists]
    exact hstep
  case isFalse => cases hstep

private theorem Keeps.foldlM_step (h : t.Keeps u) {components : List String}
    (hfold : components.foldlM t.step p = some q) : components.foldlM u.step p = some q := by
  induction components generalizing p with
  | nil => exact hfold
  | cons component rest ih =>
    rw [List.foldlM_cons] at hfold ⊢
    obtain ⟨place, hstep, hrest⟩ := Option.bind_eq_some_iff.mp hfold
    exact Option.bind_eq_some_iff.mpr ⟨place, h.step hstep, ih hrest⟩

/-- A path text leads to the same place as long as nothing is removed. -/
theorem Keeps.resolve? (h : t.Keeps u) {current : Path} {text : String}
    (hresolve : t.resolve? current text = some p) : u.resolve? current text = some p := by
  unfold FileTree.resolve? at hresolve ⊢
  split at hresolve
  case h_1 => cases hresolve
  case h_2 | h_3 => exact h.foldlM_step hresolve

end Keeps

end FileTree

namespace Build

open FileTree SourceFile

variable {t : FileTree} {o : BuildOptions} {root : Path} {fs : List SourceFile} {q : Progress}
  {result : Except BuildError Unit}

/-- What a run on a well-formed tree does with the sources at a place. -/
structure Course (t : FileTree) (o : BuildOptions) (root : Path) (fs : List SourceFile)
    (result : Except BuildError Unit) (q : Progress) : Prop where
  initial : t.WellFormed
  final : q.tree.WellFormed
  nodup : (fs.map path).Nodup
  mem_iff : ∀ p, p ∈ fs.map path ↔ IsSource t root p
  advances : Advances t o fs ⟨t, [], [], 0⟩ result q

section Course

private theorem Course.stands (h : Course t o root fs result q) {f : SourceFile} (hf : f ∈ fs) :
    f.Stands t :=
  ((h.mem_iff f.path).mp (List.mem_map_of_mem hf)).file

private theorem Course.forall_iff (h : Course t o root fs result q) (motive : Path → Prop) :
    (∀ f ∈ fs, motive f.path) ↔ ∀ p, IsSource t root p → motive p := by
  rw [← List.forall_mem_map (P := motive)]
  exact forall_congr' fun p => imp_congr_left (h.mem_iff p)

/-- The run goes on to the end if no source is refused. -/
theorem Course.ok_iff (h : Course t o root fs result q) :
    result = .ok () ↔ ∀ p, IsSource t root p → Admitted t o.overwrite p :=
  h.advances.ok_iff.trans (h.forall_iff _)

private theorem Course.failed_eq (h : Course t o root fs result q) (hok : result = .ok ()) :
    q.failed = (fs.map path).countP (failsToCompile t) := by
  rw [h.advances.failed_eq hok]
  exact Nat.zero_add _

/-- Whatever changes is the output of a source that compiles. -/
theorem Course.get?_eq (h : Course t o root fs result q) (place : Path) :
    q.tree.get? place = t.get? place ∨
      ∃ p commands, IsSource t root p ∧ Admitted t o.overwrite p ∧ CompilesTo t p commands ∧
        place = outputPath p ∧ q.tree.get? place = some (.file (outputContent commands)) := by
  refine (h.advances.get?_eq place).imp_right ?_
  rintro ⟨f, hf, commands, hadmitted, hcompiles, hplace, hwritten⟩
  refine ⟨f.path, commands, (h.mem_iff _).mp (List.mem_map_of_mem hf), hadmitted, hcompiles, ?_,
    hwritten⟩
  rw [hplace, outputPath_path]

/-- A run that goes on to the end writes the outputs of all sources that compile. -/
theorem Course.get?_output (h : Course t o root fs result q) (hok : result = .ok ()) {p : Path}
    (hp : IsSource t root p) {commands : List Command} (hcompiles : CompilesTo t p commands) :
    q.tree.get? (outputPath p) = some (.file (outputContent commands)) := by
  obtain ⟨f, hf, rfl⟩ := List.mem_map.mp ((h.mem_iff p).mpr hp)
  rw [outputPath_path]
  exact h.advances.get?_output hok h.initial (fun g hg => h.stands hg) h.nodup hf hcompiles

/-- Nothing that is named like a source changes. -/
theorem Course.get?_of_extension (h : Course t o root fs result q) {place : Path}
    (hplace : place.getLast?.bind extension? = some sourceExtension) :
    q.tree.get? place = t.get? place := by
  rcases h.advances.get?_eq place with hsame | ⟨f, hf, _, hadmitted, -, rfl, -⟩
  · exact hsame
  · have hout := hadmitted.not_directory
    rw [outputPath_path] at hout
    exact absurd hplace ((h.stands hf).extension_output_ne h.initial hout)

private theorem Course.get?_of_isDirectory (h : Course t o root fs result q) {place : Path}
    (hplace : t.isDirectory place = true) : q.tree.get? place = t.get? place := by
  rcases h.get?_eq place with hsame | ⟨p, _, -, hadmitted, -, rfl, -⟩
  · exact hsame
  · rw [hadmitted.not_directory] at hplace
    cases hplace

private theorem Course.get?_of_not_overwrite (h : Course t o root fs result q)
    (hoverwrite : o.overwrite = false) {place : Path} {content : ByteArray}
    (hplace : t.get? place = some (.file content)) : q.tree.get? place = t.get? place := by
  rcases h.get?_eq place with hsame | ⟨p, _, -, hadmitted, -, rfl, -⟩
  · exact hsame
  · rcases hadmitted.replaceable with hnone | hoverwrite'
    · rw [hnone] at hplace
      cases hplace
    · rw [hoverwrite] at hoverwrite'
      cases hoverwrite'

/-- Nothing is removed. -/
theorem Course.keeps (h : Course t o root fs result q) : t.Keeps q.tree := by
  refine ⟨fun place hplace => ?_, fun place hplace => ?_⟩
  · rcases h.get?_eq place with hsame | ⟨_, _, -, -, -, -, hwritten⟩
    · rw [hsame]
      exact hplace
    · rw [hwritten]
      rfl
  · rw [isDirectory_congr (h.get?_of_isDirectory hplace)]
    exact hplace

/-- The sources stay the same. -/
theorem Course.isSource_iff (h : Course t o root fs result q) {above p : Path} :
    IsSource q.tree above p ↔ IsSource t above p := by
  constructor
  · rintro ⟨hbelow, hfile, hextension⟩
    rw [h.get?_of_extension hextension] at hfile
    exact ⟨hbelow, hfile, hextension⟩
  · rintro ⟨hbelow, hfile, hextension⟩
    rw [← h.get?_of_extension hextension] at hfile
    exact ⟨hbelow, hfile, hextension⟩

private theorem Course.compilesTo_iff (h : Course t o root fs result q) {above p : Path}
    (hp : IsSource t above p) {commands : List Command} :
    CompilesTo q.tree p commands ↔ CompilesTo t p commands := by
  unfold CompilesTo
  rw [text?_congr (h.get?_of_extension hp.extension)]

/-- A course succeeds if there are sources, and every one of them is admitted and compiles. -/
theorem Course.succeeds_iff (h : Course t o root fs result q) :
    fs ≠ [] ∧ result = .ok () ∧ q.failed = 0 ↔
      (∃ p, IsSource t root p) ∧
        ∀ p, IsSource t root p →
          Admitted t o.overwrite p ∧ ∃ commands, CompilesTo t p commands := by
  have hsources : fs ≠ [] ↔ ∃ p, IsSource t root p := by
    simp only [← h.mem_iff]
    constructor
    · intro hne
      obtain ⟨f, hf⟩ := List.exists_mem_of_ne_nil fs hne
      exact ⟨f.path, List.mem_map_of_mem hf⟩
    · rintro ⟨p, hp⟩ rfl
      cases hp
  have hcompile : (∀ p, IsSource t root p → Admitted t o.overwrite p) →
      ((fs.map path).countP (failsToCompile t) = 0 ↔
        ∀ p, IsSource t root p → ∃ commands, CompilesTo t p commands) := by
    intro hadmitted
    rw [List.countP_eq_zero]
    refine forall_congr' fun p => ?_
    rw [h.mem_iff]
    refine forall_congr' fun hp => ?_
    rw [Bool.not_eq_true]
    exact failsToCompile_eq_false_iff (hadmitted p hp).readable
  rw [hsources]
  refine and_congr_right fun _ => ?_
  constructor
  · rintro ⟨hok, hfailed⟩
    have hadmitted := h.ok_iff.mp hok
    rw [h.failed_eq hok, hcompile hadmitted] at hfailed
    exact fun p hp => ⟨hadmitted p hp, hfailed p hp⟩
  · intro hall
    have hadmitted := fun p hp => (hall p hp).1
    have hok := h.ok_iff.mpr hadmitted
    refine ⟨hok, ?_⟩
    rw [h.failed_eq hok, hcompile hadmitted]
    exact fun p hp => (hall p hp).2

/-- What was compiled once is admitted and compiles again. -/
theorem Course.admitted_again (h : Course t o root fs result q) (hok : result = .ok ()) {p : Path}
    (hp : IsSource t root p) {commands : List Command} (hcompiles : CompilesTo t p commands) :
    Admitted q.tree true p ∧ CompilesTo q.tree p commands := by
  have hagain := (h.compilesTo_iff hp).mpr hcompiles
  refine ⟨⟨?_, .inr rfl, ?_⟩, hagain⟩
  · unfold isDirectory
    rw [h.get?_output hok hp hcompiles]
  · obtain ⟨content, htext, -⟩ := hagain
    rw [htext]
    rfl

end Course

/-- A run whose location leads nowhere does nothing. -/
theorem run_of_missing {current : Path} (h : t.resolve? current o.location = none) :
    run o current t = (.error (.missing o.location), ⟨t, [], [], 0⟩) := by
  unfold run
  rw [h]

section Located

variable {current : Path} (hroot : t.resolve? current o.location = some root)

include hroot

private theorem run_of_noSources (hsources : sourcesAt t o.location root = []) :
    run o current t = (.error (.noSources o.location), ⟨t, [], [], 0⟩) := by
  simp [run, hroot, hsources]

private theorem run_of_stopped (hsources : sourcesAt t o.location root ≠ []) {e : BuildError}
    (h : advanceAll o (sourcesAt t o.location root) ⟨t, [], [], 0⟩ = (.error e, q)) :
    run o current t = (.error e, q) := by
  simp [run, hroot, hsources, h]

private theorem run_of_finished (hsources : sourcesAt t o.location root ≠ [])
    (h : advanceAll o (sourcesAt t o.location root) ⟨t, [], [], 0⟩ = (.ok (), q)) :
    run o current t =
      (if q.failed = 0 then .ok ()
        else .error (.failed q.failed (sourcesAt t o.location root).length), q) := by
  simp only [run, hroot, hsources, h, List.isEmpty_iff, if_false]
  split <;> rfl

/-- A run whose location leads somewhere takes its course there. -/
theorem exists_course (ht : t.WellFormed) :
    ∃ fs result q, Course t o root fs result q ∧ (run o current t).2 = q ∧
      ((run o current t).1 = .ok () ↔ fs ≠ [] ∧ result = .ok () ∧ q.failed = 0) ∧
      (result = .ok () → 0 < q.failed →
        (run o current t).1 = .error (.failed q.failed fs.length)) := by
  obtain ⟨node, hnode⟩ := exists_of_resolve? hroot
  let start : Progress := ⟨t, [], [], 0⟩
  let fs := sourcesAt t o.location root
  have hmem : ∀ p, p ∈ fs.map path ↔ IsSource t root p := fun p => mem_paths_sourcesAt ht hnode
  have hnodup : (fs.map path).Nodup := nodup_paths_sourcesAt ht
  have hstands : ∀ f ∈ fs, f.Stands t := fun f hf => ((hmem _).mp (List.mem_map_of_mem hf)).file
  obtain ⟨hadvances, hfinal⟩ := advances_advanceAll (o := o) (p := start) (t := t) ht hstands hnodup
    fun f _ => ⟨rfl, rfl⟩
  have hcourse : Course t o root fs (advanceAll o fs start).1 (advanceAll o fs start).2 :=
    ⟨ht, hfinal, hnodup, hmem, hadvances⟩
  refine ⟨fs, _, _, hcourse, ?_⟩
  by_cases hsources : fs = []
  · rw [run_of_noSources hroot hsources, hsources]
    simp [advanceAll, start]
  · rcases hall : advanceAll o fs start with ⟨_ | ⟨⟩, p⟩
    · rw [run_of_stopped hroot hsources hall]
      simp
    · rw [run_of_finished hroot hsources hall]
      by_cases hfailed : p.failed = 0 <;> simp [hfailed, hsources, fs]

end Located

end Build

namespace CommandLine

open FileTree Build

variable {t : FileTree} {o : BuildOptions} {current root : Path} {input : String}

section Outcome

private theorem failureLine_failed (count total : Nat) :
    failureLine (BuildError.failed count total).message =
      "Error: " ++ decimal count ++ " of " ++ decimal total ++ " files failed to compile\n" := by
  simp only [failureLine, BuildError.message, String.append_assoc]
  rfl

private theorem run_build_of_ok {p : Build.Progress} (h : Build.run o current t = (.ok (), p)) :
    (Request.build o).run current t input = ⟨0, p.outputs, p.written, p.tree⟩ := by
  simp only [Request.run, h]

private theorem run_build_of_error {e : BuildError} {p : Build.Progress}
    (h : Build.run o current t = (.error e, p)) :
    (Request.build o).run current t input =
      ⟨1, p.outputs ++ [.note (failureLine e.message)], p.written, p.tree⟩ := by
  simp only [Request.run, h]

private theorem tree_run_build :
    ((Request.build o).run current t input).tree = (Build.run o current t).2.tree := by
  rcases h : Build.run o current t with ⟨e | ⟨⟩, p⟩
  · rw [run_build_of_error h]
  · rw [run_build_of_ok h]

private theorem exitCode_run_build_eq_zero :
    ((Request.build o).run current t input).exitCode = 0 ↔ (Build.run o current t).1 = .ok () := by
  rcases h : Build.run o current t with ⟨e | ⟨⟩, p⟩
  · rw [run_build_of_error h]
    exact ⟨nofun, nofun⟩
  · rw [run_build_of_ok h]
    exact ⟨fun _ => rfl, fun _ => rfl⟩

private theorem exitCode_run_build_iff (ht : t.WellFormed) :
    ((Request.build o).run current t input).exitCode = 0 ↔
      ∃ root, t.resolve? current o.location = some root ∧ (∃ p, IsSource t root p) ∧
        ∀ p, IsSource t root p →
          Admitted t o.overwrite p ∧ ∃ commands, CompilesTo t p commands := by
  rw [exitCode_run_build_eq_zero]
  cases hroot : t.resolve? current o.location with
  | none =>
    rw [run_of_missing hroot]
    exact ⟨nofun, by rintro ⟨_, h, -⟩; cases h⟩
  | some root =>
    obtain ⟨fs, result, q, hcourse, -, hok, -⟩ := exists_course hroot ht
    rw [hok, hcourse.succeeds_iff]
    constructor
    · exact fun h => ⟨root, rfl, h⟩
    · rintro ⟨_, hsame, h⟩
      cases hsame
      exact h

/-- A run that succeeds goes on to the end. -/
theorem exists_course_of_exitCode (ht : t.WellFormed)
    (hroot : t.resolve? current o.location = some root)
    (hexit : ((Request.build o).run current t input).exitCode = 0) :
    ∃ fs q, Course t o root fs (.ok ()) q ∧
      ((Request.build o).run current t input).tree = q.tree := by
  obtain ⟨fs, result, q, hcourse, hrun, hok, -⟩ := exists_course hroot ht
  obtain ⟨-, rfl, -⟩ := hok.mp (exitCode_run_build_eq_zero.mp hexit)
  exact ⟨fs, q, hcourse, by rw [tree_run_build, hrun]⟩

/-- Compiling again what was compiled succeeds and changes nothing. -/
theorem run_build_again {fs : List SourceFile} {q : Build.Progress}
    (hcourse : Course t o root fs (.ok ()) q) (hroot : t.resolve? current o.location = some root)
    (hsources : ∃ p, IsSource t root p)
    (hcompile : ∀ p, IsSource t root p → ∃ commands, CompilesTo t p commands)
    {again : BuildOptions} (hlocation : again.location = o.location)
    (hoverwrite : again.overwrite = true) :
    ((Request.build again).run current q.tree input).exitCode = 0 ∧
      ∀ place, ((Request.build again).run current q.tree input).tree.get? place =
        q.tree.get? place := by
  have hroot' : q.tree.resolve? current again.location = some root := by
    rw [hlocation]
    exact hcourse.keeps.resolve? hroot
  have hexit : ((Request.build again).run current q.tree input).exitCode = 0 := by
    rw [exitCode_run_build_iff hcourse.final]
    refine ⟨root, hroot', hsources.imp fun p => hcourse.isSource_iff.mpr, fun p hp => ?_⟩
    rw [hcourse.isSource_iff] at hp
    obtain ⟨commands, hcommands⟩ := hcompile p hp
    obtain ⟨hadmitted, hagain⟩ := hcourse.admitted_again rfl hp hcommands
    rw [hoverwrite]
    exact ⟨hadmitted, commands, hagain⟩
  refine ⟨hexit, fun place => ?_⟩
  obtain ⟨fs', q', hcourse', htree⟩ := exists_course_of_exitCode hcourse.final hroot' hexit
  rw [htree]
  rcases hcourse'.get?_eq place with hsame | ⟨p, commands, hp, -, hagain, rfl, hwritten⟩
  · exact hsame
  · rw [hcourse.isSource_iff] at hp
    rw [hcourse.compilesTo_iff hp] at hagain
    rw [hwritten, hcourse.get?_output rfl hp hagain]

/-- If no source is refused, all that compile are written, and the others are counted. -/
theorem run_build_of_admitted (ht : t.WellFormed)
    (hroot : t.resolve? current o.location = some root)
    (hadmitted : ∀ p, IsSource t root p → Admitted t o.overwrite p) :
    let outcome := (Request.build o).run current t input
    (∀ p commands, IsSource t root p → CompilesTo t p commands →
      outcome.tree.get? (outputPath p) = some (.file (outputContent commands))) ∧
    ∃ sources : List Path, sources.Nodup ∧ (∀ p, p ∈ sources ↔ IsSource t root p) ∧
      (0 < sources.countP (failsToCompile t) →
        outcome.exitCode = 1 ∧
        outcome.outputs.getLast? = some (.note ("Error: " ++
          decimal (sources.countP (failsToCompile t)) ++ " of " ++ decimal sources.length ++
          " files failed to compile\n"))) := by
  intro outcome
  obtain ⟨fs, result, q, hcourse, hrun, -, hfailed⟩ := exists_course hroot ht
  have hok := hcourse.ok_iff.mpr hadmitted
  have htree : outcome.tree = q.tree := by
    rw [← hrun]
    exact tree_run_build
  refine ⟨fun p commands hp hcommands => ?_, fs.map SourceFile.path, hcourse.nodup, hcourse.mem_iff,
    fun hpos => ?_⟩
  · rw [htree]
    exact hcourse.get?_output hok hp hcommands
  · rw [← hcourse.failed_eq hok] at hpos ⊢
    have herror : Build.run o current t = (.error (.failed q.failed fs.length), q) :=
      Prod.ext (hfailed hok hpos) hrun
    have houtcome : outcome = _ := run_build_of_error herror
    rw [List.length_map, houtcome]
    exact ⟨rfl, by rw [List.getLast?_concat, failureLine_failed]⟩

end Outcome

/-- Exit status and result are told by the tree that the run starts from. A run succeeds if its
location leads somewhere, there are sources, and every one of them is admitted and compiles. Then
the outputs hold what the sources compile to, everything else is as it was, and with leave to
overwrite the run can be repeated without changing anything. -/
theorem run_build_decided (ht : t.WellFormed) (o : BuildOptions) (current : Path)
    (input : String) :
    let outcome := (Request.build o).run current t input
    (outcome.exitCode = 0 ↔
      ∃ root, t.resolve? current o.location = some root ∧ (∃ p, IsSource t root p) ∧
        ∀ p, IsSource t root p → Admitted t o.overwrite p ∧ ∃ commands, CompilesTo t p commands) ∧
    (outcome.exitCode = 0 →
      ∀ root, t.resolve? current o.location = some root →
        (∀ p commands, IsSource t root p → CompilesTo t p commands →
          outcome.tree.get? (outputPath p) = some (.file (outputContent commands))) ∧
        (∀ place, (∀ p, IsSource t root p → place ≠ outputPath p) →
          outcome.tree.get? place = t.get? place) ∧
        ∀ again : BuildOptions, again.location = o.location → again.overwrite = true →
          ∀ input, ((Request.build again).run current outcome.tree input).exitCode = 0 ∧
            ∀ place, ((Request.build again).run current outcome.tree input).tree.get? place =
              outcome.tree.get? place) := by
  intro outcome
  refine ⟨exitCode_run_build_iff ht, fun hexit root hroot => ?_⟩
  obtain ⟨fs, q, hcourse, htree⟩ := exists_course_of_exitCode ht hroot hexit
  obtain ⟨_, hroot', hsources, hall⟩ := (exitCode_run_build_iff ht).mp hexit
  cases hroot.symm.trans hroot'
  have hcompile := fun p hp => (hall p hp).2
  refine ⟨fun p commands hp hcommands => ?_, fun place hplace => ?_,
    fun again hlocation hoverwrite input => ?_⟩
  · rw [htree]
    exact hcourse.get?_output rfl hp hcommands
  · rw [htree]
    rcases hcourse.get?_eq place with hsame | ⟨p, _, hp, -, -, heq, -⟩
    · exact hsame
    · exact absurd heq (hplace p hp)
  · rw [htree]
    exact run_build_again hcourse hroot hsources hcompile hlocation hoverwrite

/-- A pack with names that have several dots and a directory that is named like a source. -/
def samplePack : FileTree :=
  ⟨[(["pack"], .directory),
    (["pack", "a.dpl"], .file "create store s".toUTF8),
    (["pack", "a.b.dpl"], .file "create store s\ns[x] = 1".toUTF8),
    (["pack", "deep.dpl"], .directory),
    (["pack", "deep.dpl", "a.dpl"], .file "'say hi'".toUTF8),
    (["pack", "note.txt"], .file "keep".toUTF8)]⟩

/-- The pack is compiled, also inside the directory named like a source, and once more on top. -/
theorem run_build_decided_samplePack :
    let outcome := (Request.build ⟨"pack", false, true⟩).run [] samplePack ""
    samplePack.WellFormed ∧ outcome.exitCode = 0 ∧
      outcome.tree.get? ["pack", "a.b.mcfunction"] = some (.file
        "scoreboard objectives add a dummy\r\nscoreboard players set b a 1".toUTF8) ∧
      outcome.tree.get? ["pack", "deep.dpl", "a.mcfunction"] = some (.file "say hi".toUTF8) ∧
      outcome.tree.get? ["pack", "note.txt"] = some (.file "keep".toUTF8) ∧
      ((Request.build ⟨"pack", true, false⟩).run [] outcome.tree "").exitCode = 0 := by
  intro outcome
  have ht : samplePack.WellFormed := by decide +kernel
  have hroot : samplePack.resolve? [] "pack" = some ["pack"] := by decide +kernel
  obtain ⟨hiff, hresult⟩ := run_build_decided ht ⟨"pack", false, true⟩ [] ""
  have hexit : outcome.exitCode = 0 := hiff.mpr ⟨["pack"], hroot,
    ⟨["pack", "a.dpl"], by decide +kernel⟩, forall_isSource_iff.mpr (by decide +kernel)⟩
  obtain ⟨houtput, hframe, hagain⟩ := hresult hexit ["pack"] hroot
  refine ⟨ht, hexit, ?_, ?_, ?_, ?_⟩
  · exact houtput ["pack", "a.b.dpl"] [.declare "a", .bare (.edit .set ⟨"b", "a"⟩ 1)]
      (by decide +kernel) ⟨"create store s\ns[x] = 1", by decide +kernel, by decide +kernel⟩
  · exact houtput ["pack", "deep.dpl", "a.dpl"] [.raw "say hi"] (by decide +kernel)
      ⟨"'say hi'", by decide +kernel, by decide +kernel⟩
  · exact hframe ["pack", "note.txt"] (forall_isSource_iff.mpr (by decide +kernel))
  · exact (hagain ⟨"pack", true, false⟩ rfl rfl "").1

/-- A run leaves alone what is not its own, whatever the outcome. -/
theorem run_build_frame (ht : t.WellFormed) (o : BuildOptions) (current : Path)
    (input : String) :
    let outcome := (Request.build o).run current t input
    (∀ place, outcome.tree.get? place ≠ t.get? place →
      ∃ root p commands, t.resolve? current o.location = some root ∧ IsSource t root p ∧
        CompilesTo t p commands ∧ place = outputPath p ∧
        outcome.tree.get? place = some (.file (outputContent commands))) ∧
    (∀ p, IsSource t [] p → outcome.tree.get? p = t.get? p) ∧
    (∀ place, t.isDirectory place = true → outcome.tree.isDirectory place = true) ∧
    (o.overwrite = false → ∀ place content, t.get? place = some (.file content) →
      outcome.tree.get? place = some (.file content)) ∧
    (∀ root, t.resolve? current o.location = some root →
      (∀ p, IsSource t root p → Admitted t o.overwrite p) →
        (∀ p commands, IsSource t root p → CompilesTo t p commands →
          outcome.tree.get? (outputPath p) = some (.file (outputContent commands))) ∧
        ∃ sources : List Path, sources.Nodup ∧ (∀ p, p ∈ sources ↔ IsSource t root p) ∧
          (0 < sources.countP (failsToCompile t) →
            outcome.exitCode = 1 ∧
            outcome.outputs.getLast? = some (.note ("Error: " ++
              decimal (sources.countP (failsToCompile t)) ++ " of " ++ decimal sources.length ++
              " files failed to compile\n")))) := by
  intro outcome
  have htree : outcome.tree = (Build.run o current t).2.tree := tree_run_build
  cases hroot : t.resolve? current o.location with
  | none =>
    rw [run_of_missing hroot] at htree
    rw [htree]
    exact ⟨fun place hplace => absurd rfl hplace, fun _ _ => rfl, fun _ h => h,
      fun _ _ _ h => h, nofun⟩
  | some root =>
    obtain ⟨fs, result, q, hcourse, hrun, -⟩ := exists_course hroot ht
    rw [hrun] at htree
    refine ⟨fun place hplace => ?_, fun p hp => ?_, fun place hplace => ?_,
      fun hoverwrite place content hplace => ?_, ?_⟩
    · rw [htree] at hplace ⊢
      obtain ⟨p, commands, hp, -, hcommands, heq, hwritten⟩ :=
        (hcourse.get?_eq place).resolve_left hplace
      exact ⟨root, p, commands, rfl, hp, hcommands, heq, hwritten⟩
    · rw [htree, hcourse.get?_of_extension hp.extension]
    · rw [htree, isDirectory_congr (hcourse.get?_of_isDirectory hplace)]
      exact hplace
    · rw [htree, hcourse.get?_of_not_overwrite hoverwrite hplace]
      exact hplace
    · rintro _ hsame hadmitted
      cases hsame
      exact run_build_of_admitted ht hroot hadmitted

/-- A pack with a source that does not compile and an output that exists. -/
def brokenPack : FileTree :=
  ⟨[(["pack"], .directory),
    (["pack", "bad.dpl"], .file "create store".toUTF8),
    (["pack", "good.dpl"], .file "'say hi'".toUTF8),
    (["pack", "good.mcfunction"], .file "old".toUTF8)]⟩

/-- The one source that compiles is written where that is allowed, and the other one reported. -/
theorem run_build_frame_brokenPack :
    let outcome := (Request.build ⟨"pack", true, false⟩).run [] brokenPack ""
    let refused := (Request.build ⟨"pack", false, false⟩).run [] brokenPack ""
    brokenPack.WellFormed ∧ outcome.exitCode = 1 ∧
      outcome.outputs.getLast? = some (.note "Error: 1 of 2 files failed to compile\n") ∧
      outcome.tree.get? ["pack", "good.mcfunction"] = some (.file "say hi".toUTF8) ∧
      refused.tree.get? ["pack", "good.mcfunction"] = some (.file "old".toUTF8) := by
  intro outcome refused
  have ht : brokenPack.WellFormed := by decide +kernel
  have hroot : brokenPack.resolve? [] "pack" = some ["pack"] := by decide +kernel
  obtain ⟨-, -, -, -, hrun⟩ := run_build_frame ht ⟨"pack", true, false⟩ [] ""
  obtain ⟨-, -, -, hkeep, -⟩ := run_build_frame ht ⟨"pack", false, false⟩ [] ""
  obtain ⟨houtput, sources, hnodup, hmem, hreport⟩ :=
    hrun ["pack"] hroot (forall_isSource_iff.mpr (by decide +kernel))
  have hsources : sources.Perm [["pack", "bad.dpl"], ["pack", "good.dpl"]] := by
    rw [List.perm_ext_iff_of_nodup hnodup (by decide)]
    intro p
    rw [hmem]
    have hfound : ∀ p, IsSource brokenPack ["pack"] p →
        p ∈ [["pack", "bad.dpl"], ["pack", "good.dpl"]] :=
      forall_isSource_iff.mpr (by decide +kernel)
    have hlisted : ∀ p ∈ [["pack", "bad.dpl"], ["pack", "good.dpl"]],
        IsSource brokenPack ["pack"] p := by decide +kernel
    exact ⟨hfound p, hlisted p⟩
  rw [hsources.countP_eq, hsources.length_eq] at hreport
  obtain ⟨hexit, hlast⟩ := hreport (by decide +kernel)
  refine ⟨ht, hexit, hlast.trans (by decide +kernel), ?_, ?_⟩
  · exact houtput ["pack", "good.dpl"] [.raw "say hi"] (by decide +kernel)
      ⟨"'say hi'", by decide +kernel, by decide +kernel⟩
  · exact hkeep rfl _ _ (by rfl)

end CommandLine

end Datapack
