import Datapack.Text.Basic

/-!
# Directory trees

A tree holds directories and files, each under its path from the root. Paths
given as text are followed component by component: an empty component and `.`
stay where they are, `..` goes up, and each of them asks for a directory.
-/

namespace Datapack

/-- The names from the root down to a directory or file. -/
abbrev Path := List String

/-- What stands at a path. -/
inductive FileNode where
  | directory
  | file (content : ByteArray)

/-- Directories and files by path; the root is always a directory. -/
structure FileTree where
  nodes : List (Path × FileNode)

namespace FileTree

/-- A tree with nothing below its root. -/
def empty : FileTree := ⟨[]⟩

/-- What stands at a path, if anything. -/
def get? (t : FileTree) (p : Path) : Option FileNode :=
  if p = [] then some .directory else t.nodes.lookup p

/-- Whether a directory stands at the path. -/
def isDirectory (t : FileTree) (p : Path) : Bool :=
  match t.get? p with
  | some .directory => true
  | _ => false

/-- The text of the file at a path, if its content is UTF-8. -/
def text? (t : FileTree) (p : Path) : Option String :=
  match t.get? p with
  | some (.file content) => String.fromUTF8? content
  | _ => none

/-- Puts a node at a path, in place of what stood there. -/
def insert (t : FileTree) (p : Path) (node : FileNode) : FileTree :=
  ⟨(p, node) :: t.nodes.filter fun entry => entry.1 ≠ p⟩

/-- Writes a file. -/
def write (t : FileTree) (p : Path) (content : ByteArray) : FileTree := t.insert p (.file content)

/-- Makes a directory where nothing stands. -/
def makeDirectory (t : FileTree) (p : Path) : FileTree :=
  if (t.get? p).isSome then t else t.insert p .directory

/-- Makes the directories below `above` that lead down along a path. -/
def makeDirectories (t : FileTree) (above : Path) : Path → FileTree
  | [] => t
  | name :: rest => (t.makeDirectory (above ++ [name])).makeDirectories (above ++ [name]) rest

/-- All files with their paths. -/
def files (t : FileTree) : List (Path × ByteArray) :=
  t.nodes.filterMap fun
    | (p, .file content) => some (p, content)
    | (_, .directory) => none

/-- Components of a path text. -/
def components (text : String) : List String := (pieces '/' text.toList).map String.ofList

/-- Where a component leads from a path, whether or not anything stands there. -/
def follow (p : Path) (component : String) : Path :=
  if component = "" ∨ component = "." then p
  else if component = ".." then p.dropLast
  else p ++ [component]

/-- Where a component leads from a directory, if something stands there. -/
def step (t : FileTree) (p : Path) (component : String) : Option Path :=
  if t.isDirectory p && (t.get? (follow p component)).isSome then some (follow p component)
  else none

/-- Follows a path text from a directory; a text that starts with a slash starts at the root. -/
def resolve? (t : FileTree) (current : Path) (text : String) : Option Path :=
  match components text with
  | [""] => none
  | "" :: rest => rest.foldlM t.step []
  | all => all.foldlM t.step current

/-- What was put at a path stands there. -/
theorem get?_insert (t : FileTree) {p : Path} (hp : p ≠ []) (node : FileNode) :
    (t.insert p node).get? p = some node := by
  simp [get?, insert, hp]

/-- Dropping the entries at one path does not change what stands at another. -/
theorem lookup_filter_ne {p q : Path} (h : q ≠ p) (nodes : List (Path × FileNode)) :
    (nodes.filter fun entry => entry.1 ≠ p).lookup q = nodes.lookup q := by
  induction nodes with
  | nil => rfl
  | cons entry rest ih =>
    obtain ⟨r, node⟩ := entry
    by_cases hr : r = p
    · have hq : (q == r) = false := by simpa [hr] using h
      rw [List.filter_cons_of_neg (by simpa using hr), ih, List.lookup_cons, hq]
    · rw [List.filter_cons_of_pos (by simpa using hr), List.lookup_cons, List.lookup_cons, ih]

/-- Other paths are left alone. -/
theorem get?_insert_of_ne (t : FileTree) {p q : Path} (h : q ≠ p) (node : FileNode) :
    (t.insert p node).get? q = t.get? q := by
  have hq : (q == p) = false := by simpa using h
  unfold get? insert
  rw [List.lookup_cons, hq, lookup_filter_ne h]

end FileTree

end Datapack
