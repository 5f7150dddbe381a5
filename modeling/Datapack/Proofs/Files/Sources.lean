import Datapack.Files.Build
import Datapack.Proofs.Files.Trees

/-!
# The sources of a run

Sources are the files at or below the place that a run is asked for, at any depth,
whose name has the source extension; each is found exactly once. An output has the
same name with the output extension, so no two sources share an output, and no
output is a source.
-/

namespace Datapack

/-- What stands behind the last dot of a file name, if something stands before that dot. -/
def extension? (name : String) : Option String :=
  match name.toList.reverse.dropWhile (· ≠ '.') with
  | _ :: _ :: _ => some (String.ofList (name.toList.reverse.takeWhile (· ≠ '.')).reverse)
  | _ => none

/-- What stands before the last dot of a file name. -/
def beforeExtension (name : String) : String :=
  String.ofList (name.toList.reverse.dropWhile (· ≠ '.')).tail.reverse

/-- A file name with another extension; a name that would be `..` up to its last dot leads up, and
takes no extension. -/
def withExtension (name extension : String) : String :=
  if beforeExtension name = "." then ".."
  else SourceFile.named (beforeExtension name) extension

section Names

open SourceFile

private theorem toList_named (stem extension : String) :
    (named stem extension).toList = stem.toList ++ '.' :: extension.toList := by
  simp [named]

/-- A name is taken apart at its last dot. -/
theorem reverse_takeWhile_named (stem : List Char) {extension : List Char} (h : '.' ∉ extension) :
    (stem ++ '.' :: extension).reverse.takeWhile (· ≠ '.') = extension.reverse ∧
      (stem ++ '.' :: extension).reverse.dropWhile (· ≠ '.') = '.' :: stem.reverse := by
  have hall : ∀ c ∈ extension.reverse, decide (c ≠ '.') = true := by
    intro c hc
    refine decide_eq_true ?_
    rintro rfl
    exact h (List.mem_reverse.mp hc)
  have hsplit : (stem ++ '.' :: extension).reverse = extension.reverse ++ '.' :: stem.reverse := by
    simp
  rw [hsplit, List.takeWhile_append_of_pos hall, List.dropWhile_append_of_pos hall,
    List.takeWhile_cons_of_neg (by simp), List.dropWhile_cons_of_neg (by simp), List.append_nil]
  exact ⟨rfl, rfl⟩

private theorem beforeExtension_named {stem extension : String} (h : '.' ∉ extension.toList) :
    beforeExtension (named stem extension) = stem := by
  rw [beforeExtension, toList_named, (reverse_takeWhile_named _ h).2]
  simp

/-- A name tells its stem and its extension. -/
theorem named_injective {stem stem' extension extension' : String} (h : '.' ∉ extension.toList)
    (h' : '.' ∉ extension'.toList) (hname : named stem extension = named stem' extension') :
    stem = stem' ∧ extension = extension' := by
  have hstem := congrArg beforeExtension hname
  rw [beforeExtension_named h, beforeExtension_named h'] at hstem
  refine ⟨hstem, ?_⟩
  rw [hstem, ← String.toList_inj, toList_named, toList_named] at hname
  rw [← String.toList_inj]
  exact List.tail_eq_of_cons_eq (List.append_cancel_left hname)

/-- A name has an extension if something and a dot stand before it. -/
theorem extension?_eq_some_iff {name extension : String} (h : '.' ∉ extension.toList) :
    extension? name = some extension ↔ ∃ stem, stem ≠ "" ∧ name = named stem extension := by
  constructor
  · intro hext
    unfold extension? at hext
    split at hext
    case h_1 c d more hrest =>
      obtain rfl := Option.some.inj hext
      have hdot : c = '.' := by
        have hhead := List.head?_dropWhile_not (· ≠ '.') name.toList.reverse
        rw [hrest] at hhead
        simpa using hhead
      have hsplit := List.takeWhile_append_dropWhile (p := (· ≠ '.')) (l := name.toList.reverse)
      rw [hrest, hdot] at hsplit
      refine ⟨String.ofList (d :: more).reverse, by simp, ?_⟩
      rw [← String.toList_inj, toList_named]
      have hlist := congrArg List.reverse hsplit
      rw [List.reverse_reverse, List.reverse_append, List.reverse_cons, List.append_assoc] at hlist
      rw [String.toList_ofList, String.toList_ofList]
      exact hlist.symm
    case h_2 => cases hext
  · rintro ⟨stem, hstem, rfl⟩
    obtain ⟨behind, before⟩ := reverse_takeWhile_named stem.toList h
    rw [← toList_named] at behind before
    have hchars : stem.toList.reverse ≠ [] := by simpa using hstem
    obtain ⟨c, cs, hcs⟩ := List.exists_cons_of_ne_nil hchars
    rw [extension?, before, behind, hcs]
    simp

private theorem withoutEnding?_eq_some_iff {ending cs front : List Char} :
    withoutEnding? ending cs = some front ↔ cs = front ++ ending := by
  unfold withoutEnding?
  dsimp only
  constructor
  · intro h
    split at h
    case isTrue hdrop =>
      cases h
      conv_lhs => rw [← List.take_append_drop (cs.length - ending.length) cs, hdrop]
    case isFalse => cases h
  · rintro rfl
    simp

/-- Sources are named by a stem and the source extension. -/
theorem stem?_eq_some_iff {name stem : String} :
    stem? name = some stem ↔ stem ≠ "" ∧ name = named stem sourceExtension := by
  have hname : name = named stem sourceExtension ↔
      withoutEnding? ("." ++ sourceExtension).toList name.toList = some stem.toList := by
    rw [withoutEnding?_eq_some_iff, ← String.toList_inj, toList_named]
    rfl
  rw [hname, stem?]
  cases hfront : withoutEnding? ("." ++ sourceExtension).toList name.toList with
  | none => simp
  | some front =>
    have hempty : stem ≠ "" ↔ stem.toList ≠ [] := by simp
    rw [hempty, Option.some.injEq]
    cases front with
    | nil => simp
    | cons c cs =>
      have hstem : some (String.ofList (c :: cs)) = some stem ↔ c :: cs = stem.toList := by
        rw [Option.some.injEq, ← String.toList_inj, String.toList_ofList]
      rw [hstem]
      refine ⟨fun h => ⟨?_, h⟩, And.right⟩
      rw [← h]
      exact List.cons_ne_nil c cs

end Names

/-- Where the output of the source at a path goes. -/
def outputPath (p : Path) : Path :=
  FileTree.follow p.dropLast (withExtension (p.getLast?.getD "") outputExtension)

/-- Files at or below a place whose name has the source extension. -/
structure IsSource (t : FileTree) (root p : Path) : Prop where
  below : root <+: p
  file : ∃ content, t.get? p = some (.file content)
  extension : p.getLast?.bind extension? = some sourceExtension

instance (t : FileTree) (root p : Path) : Decidable (IsSource t root p) :=
  decidable_of_iff
    (root <+: p ∧ (t.get? p).any FileNode.isFile = true ∧
      p.getLast?.bind extension? = some sourceExtension)
    ⟨fun ⟨hbelow, hfile, hextension⟩ => ⟨hbelow, FileTree.exists_file_iff.mpr hfile, hextension⟩,
      fun h => ⟨h.below, FileTree.exists_file_iff.mp h.file, h.extension⟩⟩

/-- Sources are found among the paths that have an entry. -/
theorem forall_isSource_iff {t : FileTree} {root : Path} {motive : Path → Prop} :
    (∀ p, IsSource t root p → motive p) ↔ ∀ p ∈ t.paths, IsSource t root p → motive p := by
  refine ⟨fun h p _ => h p, fun h p hp => h p ?_ hp⟩
  obtain ⟨content, hfile⟩ := hp.file
  refine FileTree.mem_paths_of_get? ?_ hfile
  rintro rfl
  cases hfile

namespace SourceFile

/-- A source lies in its directory. -/
theorem dropLast_path (f : SourceFile) : f.path.dropLast = f.directory := by
  rw [path, List.dropLast_concat]

/-- The output of a source is found from its path alone. -/
theorem outputPath_path (f : SourceFile) : outputPath f.path = f.output := by
  have hdot : '.' ∉ sourceExtension.toList := by decide
  rw [outputPath, dropLast_path, path, List.getLast?_concat, Option.getD_some, withExtension,
    beforeExtension_named hdot]
  rfl

/-- A path is read as a source where its name has the source extension. -/
theorem ofPath?_eq_some_iff {lead : String} {p : Path} {f : SourceFile} :
    ofPath? lead p = some f ↔ f.path = p ∧ f.stem ≠ "" ∧ f.lead = lead := by
  simp only [ofPath?, Option.bind_eq_bind, Option.bind_eq_some_iff, stem?_eq_some_iff,
    Option.pure_def, Option.some.injEq]
  constructor
  · rintro ⟨name, hname, stem, ⟨hstem, rfl⟩, rfl⟩
    refine ⟨?_, hstem, rfl⟩
    obtain ⟨front, rfl⟩ := List.getLast?_eq_some_iff.mp hname
    rw [path, List.dropLast_concat]
  · rintro ⟨rfl, hstem, rfl⟩
    refine ⟨_, List.getLast?_concat, f.stem, ⟨hstem, rfl⟩, ?_⟩
    rw [dropLast_path]

private theorem exists_ofPath?_iff {lead : String} {p : Path} :
    (∃ f, ofPath? lead p = some f) ↔ p.getLast?.bind extension? = some sourceExtension := by
  have hdot : '.' ∉ sourceExtension.toList := by decide
  simp only [ofPath?, Option.bind_eq_bind, Option.bind_eq_some_iff, stem?_eq_some_iff,
    extension?_eq_some_iff hdot, Option.pure_def, Option.some.injEq]
  constructor
  · rintro ⟨_, name, hname, stem, hstem, -⟩
    exact ⟨name, hname, stem, hstem⟩
  · rintro ⟨name, hname, stem, hstem⟩
    exact ⟨_, name, hname, stem, hstem, rfl⟩

end SourceFile

namespace Build

open FileTree

variable {t : FileTree} {root : Path} {location : String}

/-- The files below a place are those found there. -/
theorem mem_filesBelow (ht : t.WellFormed) {relative : Path} :
    relative ∈ filesBelow t root ↔ ∃ content, t.get? (root ++ relative) = some (.file content) := by
  simp only [filesBelow, List.mem_mergeSort, List.mem_filterMap, Prod.exists, ht.mem_files]
  constructor
  · rintro ⟨p, content, hfile, hrelative⟩
    split at hrelative
    case isTrue hprefix =>
      cases hrelative
      obtain ⟨below, rfl⟩ := List.isPrefixOf_iff_prefix.mp hprefix
      rw [List.drop_left]
      exact ⟨content, hfile⟩
    case isFalse => cases hrelative
  · rintro ⟨content, hfile⟩
    refine ⟨_, content, hfile, ?_⟩
    rw [if_pos (List.isPrefixOf_iff_prefix.mpr (List.prefix_append ..)), List.drop_left]

private theorem nodup_filesBelow (ht : t.WellFormed) : (filesBelow t root).Nodup := by
  have hnodup : ((t.files.map Prod.fst).filterMap fun p =>
      if root.isPrefixOf p then some (p.drop root.length) else none).Nodup := by
    refine List.Nodup.filterMap ?_ ht.nodup_files
    intro p q relative hp hq
    simp only [Option.mem_ite_none_right, Option.mem_some_iff, List.isPrefixOf_iff_prefix] at hp hq
    obtain ⟨⟨below, rfl⟩, rfl⟩ := hp
    obtain ⟨⟨below', rfl⟩, hbelow⟩ := hq
    rw [List.drop_left, List.drop_left] at hbelow
    rw [hbelow]
  rw [List.filterMap_map] at hnodup
  rw [filesBelow, (List.mergeSort_perm _ _).nodup_iff]
  exact hnodup

/-- The sources that are collected are the sources at or below the place. -/
theorem mem_paths_sourcesAt (ht : t.WellFormed) {node : FileNode} (hroot : t.get? root = some node)
    {p : Path} : p ∈ (sourcesAt t location root).map SourceFile.path ↔ IsSource t root p := by
  rw [List.mem_map, sourcesAt]
  split
  case isTrue hdirectory =>
    simp only [List.mem_filterMap, mem_filesBelow ht]
    constructor
    · rintro ⟨f, ⟨relative, hfile, hf⟩, rfl⟩
      obtain ⟨hpath, -⟩ := SourceFile.ofPath?_eq_some_iff.mp hf
      rw [hpath]
      exact ⟨List.prefix_append .., hfile, SourceFile.exists_ofPath?_iff.mp ⟨f, hf⟩⟩
    · rintro ⟨⟨relative, rfl⟩, hfile, hextension⟩
      obtain ⟨f, hf⟩ := SourceFile.exists_ofPath?_iff.mpr hextension
      exact ⟨f, ⟨relative, hfile, hf⟩, (SourceFile.ofPath?_eq_some_iff.mp hf).1⟩
  case isFalse hdirectory =>
    simp only [Option.mem_toList]
    constructor
    · rintro ⟨f, hf, rfl⟩
      obtain ⟨hpath, -⟩ := SourceFile.ofPath?_eq_some_iff.mp hf
      rw [hpath]
      refine ⟨List.prefix_rfl, ?_, SourceFile.exists_ofPath?_iff.mp ⟨f, hf⟩⟩
      cases node with
      | directory => exact absurd (isDirectory_iff.mpr hroot) hdirectory
      | file content => exact ⟨content, hroot⟩
    · rintro ⟨⟨relative, rfl⟩, ⟨content, hfile⟩, hextension⟩
      -- nothing stands below a file
      obtain rfl : relative = [] := by
        by_contra hbelow
        exact hdirectory (ht.isDirectory_of_append hbelow hfile)
      rw [List.append_nil] at hextension ⊢
      obtain ⟨f, hf⟩ := SourceFile.exists_ofPath?_iff.mpr hextension
      exact ⟨f, hf, (SourceFile.ofPath?_eq_some_iff.mp hf).1⟩

/-- No source is collected twice. -/
theorem nodup_paths_sourcesAt (ht : t.WellFormed) :
    ((sourcesAt t location root).map SourceFile.path).Nodup := by
  unfold sourcesAt
  split
  · rw [List.map_filterMap]
    refine List.Nodup.filterMap ?_ (nodup_filesBelow ht)
    intro relative relative' p hp hp'
    obtain ⟨f, hf, rfl⟩ := Option.map_eq_some_iff.mp hp
    obtain ⟨g, hg, hpath⟩ := Option.map_eq_some_iff.mp hp'
    rw [(SourceFile.ofPath?_eq_some_iff.mp hf).1, (SourceFile.ofPath?_eq_some_iff.mp hg).1] at hpath
    exact (List.append_cancel_left hpath).symm
  · cases SourceFile.ofPath? (leadOfFile location) root with
    | none => exact List.nodup_nil
    | some f => exact List.nodup_singleton _

end Build

end Datapack
