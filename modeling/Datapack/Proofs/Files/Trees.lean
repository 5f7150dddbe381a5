import Mathlib.Data.List.Induction
import Mathlib.Data.List.Nodup
import Datapack.Files.Tree

/-!
# Well-formed trees

A tree is well formed if it has one entry for each path, none for its root, and
each entry stands in a directory. Then the list of files and the look-up of paths
say the same, everything above an entry is a directory, and writing a file beside
what is there keeps the tree well formed.
-/

namespace Datapack

/-- Whether the node is a file. -/
def FileNode.isFile : FileNode → Bool
  | .directory => false
  | .file _ => true

namespace FileTree

/-- The paths that have an entry. -/
def paths (t : FileTree) : List Path := t.nodes.map Prod.fst

/-- One entry for each path, none for the root, and each of them in a directory. -/
structure WellFormed (t : FileTree) : Prop where
  nodup : t.paths.Nodup
  root_not_mem : [] ∉ t.paths
  parent : ∀ p ∈ t.paths, t.isDirectory p.dropLast = true

instance (t : FileTree) : Decidable t.WellFormed :=
  decidable_of_iff
    (t.paths.Nodup ∧ [] ∉ t.paths ∧ ∀ p ∈ t.paths, t.isDirectory p.dropLast = true)
    ⟨fun ⟨hnodup, hroot, hparent⟩ => ⟨hnodup, hroot, hparent⟩,
      fun h => ⟨h.nodup, h.root_not_mem, h.parent⟩⟩

/-- A path is a directory where the tree holds one. -/
theorem isDirectory_iff {t : FileTree} {p : Path} :
    t.isDirectory p = true ↔ t.get? p = some .directory := by
  unfold isDirectory
  split <;> simp_all

/-- What stands at a path depends on the look-up alone. -/
theorem isDirectory_congr {t u : FileTree} {p : Path} (h : t.get? p = u.get? p) :
    t.isDirectory p = u.isDirectory p := by
  unfold isDirectory
  rw [h]

/-- The text at a path depends on what is found there only. -/
theorem text?_congr {t u : FileTree} {p : Path} (h : t.get? p = u.get? p) :
    t.text? p = u.text? p := by
  unfold text?
  rw [h]

/-- Whether a file stands at a path can be decided. -/
theorem exists_file_iff {t : FileTree} {p : Path} :
    (∃ content, t.get? p = some (.file content)) ↔ (t.get? p).any FileNode.isFile = true := by
  rcases t.get? p with _ | _ | content <;> simp [FileNode.isFile]

section Lookup

variable {t : FileTree} {p q : Path} {node : FileNode}

/-- What is found in a tree stands at one of its paths. -/
theorem mem_paths_of_get? (hp : p ≠ []) (h : t.get? p = some node) : p ∈ t.paths := by
  rw [get?, if_neg hp] at h
  obtain ⟨before, after, hsplit, -⟩ := List.lookup_eq_some_iff.mp h
  rw [paths, hsplit, List.map_append]
  exact List.mem_append_right _ List.mem_cons_self

/-- Looking a path up finds its one entry. -/
theorem WellFormed.get?_eq_some_iff (ht : t.WellFormed) (hp : p ≠ []) :
    t.get? p = some node ↔ (p, node) ∈ t.nodes := by
  rw [get?, if_neg hp, List.lookup_eq_some_iff]
  constructor
  · rintro ⟨before, after, hsplit, -⟩
    rw [hsplit]
    exact List.mem_append_right _ List.mem_cons_self
  · intro hmem
    obtain ⟨before, after, hsplit⟩ := List.append_of_mem hmem
    refine ⟨before, after, hsplit, fun entry hentry => ?_⟩
    have hnodup := ht.nodup
    rw [paths, hsplit, List.map_append, List.nodup_append] at hnodup
    have hne := hnodup.2.2 entry.1 (List.mem_map_of_mem hentry) p List.mem_cons_self
    simpa using Ne.symm hne

/-- The files of the tree are those found at their paths. -/
theorem WellFormed.mem_files (ht : t.WellFormed) {content : ByteArray} :
    (p, content) ∈ t.files ↔ t.get? p = some (.file content) := by
  have hmem : (p, content) ∈ t.files ↔ (p, .file content) ∈ t.nodes := by
    simp only [files, List.mem_filterMap]
    constructor
    · rintro ⟨⟨q, node⟩, hnode, hsome⟩
      cases node with
      | directory => cases hsome
      | file bytes =>
        cases hsome
        exact hnode
    · intro h
      exact ⟨_, h, rfl⟩
  rw [hmem]
  by_cases hp : p = []
  · subst hp
    refine ⟨fun h => absurd ?_ ht.root_not_mem, nofun⟩
    exact List.mem_map_of_mem (f := Prod.fst) h
  · rw [ht.get?_eq_some_iff hp]

/-- No two files have the same path. -/
theorem WellFormed.nodup_files (ht : t.WellFormed) : (t.files.map Prod.fst).Nodup := by
  refine List.Nodup.sublist ?_ ht.nodup
  unfold files paths
  induction t.nodes with
  | nil => exact .slnil
  | cons entry nodes ih =>
    obtain ⟨p, node⟩ := entry
    cases node with
    | directory => exact ih.cons p
    | file content => exact ih.cons_cons p

/-- Every entry stands in a directory, and so does the root, in itself. -/
theorem WellFormed.isDirectory_dropLast (ht : t.WellFormed) (h : t.get? p = some node) :
    t.isDirectory p.dropLast = true := by
  by_cases hp : p = []
  · rw [hp]
    rfl
  · exact ht.parent p (mem_paths_of_get? hp h)

/-- Everything above an entry is a directory. -/
theorem WellFormed.isDirectory_of_append (ht : t.WellFormed) {below : Path} (hbelow : below ≠ [])
    (h : t.get? (p ++ below) = some node) : t.isDirectory p = true := by
  induction below using List.reverseRecOn generalizing node with
  | nil => exact absurd rfl hbelow
  | append_singleton below name ih =>
    have hdirectory := ht.isDirectory_dropLast h
    rw [← List.append_assoc, List.dropLast_concat] at hdirectory
    by_cases hmore : below = []
    · rwa [hmore, List.append_nil] at hdirectory
    · exact ih hmore (isDirectory_iff.mp hdirectory)

end Lookup

section Write

variable {t : FileTree} {p q : Path} {content : ByteArray}

/-- A file that was written is found with its new content. -/
theorem get?_write (hp : p ≠ []) : (t.write p content).get? p = some (.file content) :=
  get?_insert t hp _

/-- Writing a file leaves all other paths alone. -/
theorem get?_write_of_ne (h : q ≠ p) : (t.write p content).get? q = t.get? q :=
  get?_insert_of_ne t h _

private theorem paths_write : (t.write p content).paths = p :: t.paths.filter (· ≠ p) := by
  simp only [paths, write, insert, List.map_cons, List.filter_map]
  rfl

/-- Writing a file into a directory, where no directory stands, keeps the tree well formed. -/
theorem WellFormed.write (ht : t.WellFormed) (hp : p ≠ [])
    (hparent : t.isDirectory p.dropLast = true) (hfile : t.isDirectory p = false)
    (content : ByteArray) : (t.write p content).WellFormed := by
  have hkeep : ∀ q, t.isDirectory q = true → (t.write p content).isDirectory q = true := by
    intro q hq
    have hne : q ≠ p := by
      rintro rfl
      rw [hfile] at hq
      cases hq
    rwa [isDirectory_congr (get?_write_of_ne hne)]
  refine ⟨?_, ?_, ?_⟩
  · rw [paths_write, List.nodup_cons]
    exact ⟨by simp, ht.nodup.filter _⟩
  · rw [paths_write, List.mem_cons, not_or]
    exact ⟨Ne.symm hp, fun hmem => ht.root_not_mem (List.mem_of_mem_filter hmem)⟩
  · rw [paths_write]
    refine List.forall_mem_cons.mpr ⟨hkeep _ hparent, fun q hq => hkeep _ ?_⟩
    exact ht.parent q (List.mem_of_mem_filter hq)

end Write

section Resolve

variable {t : FileTree} {p q : Path}

private theorem exists_of_step {component : String} (h : t.step p component = some q) :
    ∃ node, t.get? q = some node := by
  unfold step at h
  split at h
  case isTrue hstep =>
    cases h
    exact Option.isSome_iff_exists.mp (Bool.and_eq_true_iff.mp hstep).2
  case isFalse => cases h

/-- Where components lead to, there stands something. -/
theorem exists_of_foldlM_step {components : List String} (hne : components ≠ [])
    (h : components.foldlM t.step p = some q) : ∃ node, t.get? q = some node := by
  rw [← List.dropLast_append_getLast hne, List.foldlM_append] at h
  obtain ⟨place, -, hlast⟩ := Option.bind_eq_some_iff.mp h
  rw [List.foldlM_cons] at hlast
  obtain ⟨last, hstep, hend⟩ := Option.bind_eq_some_iff.mp hlast
  cases hend
  exact exists_of_step hstep

/-- A path text that can be followed leads to something. -/
theorem exists_of_resolve? {current : Path} {text : String}
    (h : t.resolve? current text = some p) : ∃ node, t.get? p = some node := by
  unfold resolve? at h
  split at h
  case h_1 => cases h
  case h_2 rest hrest _ => exact exists_of_foldlM_step (by rintro rfl; exact hrest rfl) h
  case h_3 =>
    refine exists_of_foldlM_step ?_ h
    simp [components, pieces]

end Resolve

end FileTree

end Datapack
