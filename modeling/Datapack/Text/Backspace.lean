import Datapack.Text.Cluster
import Datapack.Text.Span

/-!
# Backspaces

A backspace in a typed line takes back the last cluster typed before it. Of each
cluster only its width in bytes is remembered, in a single byte: what is taken
back is the width modulo 256. Without a backspace a line stays as it is.
-/

namespace Datapack

/-- The character that takes back. -/
def backspace : Char := '\x08'

/-- A line while it is typed. -/
structure TypedLine where
  /-- The characters so far, the last one first. -/
  kept : List Char
  /-- Remembered widths of the clusters so far, the last one first. -/
  widths : List Nat

namespace TypedLine

/-- A line before anything is typed. -/
def start : TypedLine := ⟨[], []⟩

/-- Number of widths that a byte tells apart. -/
def widthModulus : Nat := 256

/-- Takes back the last cluster; without one, nothing happens. -/
def takeBack (line : TypedLine) : TypedLine :=
  match line.widths with
  | [] => line
  | width :: widths => ⟨(splitAtByte width line.kept).2, widths⟩

/-- Types a cluster. -/
def type (line : TypedLine) (cluster : List Char) : TypedLine :=
  if cluster = [backspace] then line.takeBack
  else ⟨cluster.reverse ++ line.kept, utf8Length cluster % widthModulus :: line.widths⟩

/-- Clusters without backspaces are kept. -/
theorem kept_foldl_type (line : TypedLine) {groups : List (List Char)}
    (h : [backspace] ∉ groups) :
    (groups.foldl type line).kept = groups.flatten.reverse ++ line.kept := by
  induction groups generalizing line with
  | nil => rfl
  | cons g groups ih =>
    have hg : g ≠ [backspace] := fun he => h (he ▸ List.mem_cons_self ..)
    rw [List.foldl_cons, ih _ fun hm => h (List.mem_cons_of_mem _ hm), type, if_neg hg,
      List.flatten_cons, List.reverse_append, List.append_assoc]

end TypedLine

/-- The line that is left when its backspaces have taken back what they take. -/
def applyBackspaces (cs : List Char) : List Char :=
  ((clusters cs).foldl TypedLine.type .start).kept.reverse

/-- A line without backspaces is left as it is. -/
theorem applyBackspaces_of_not_mem {cs : List Char} (h : backspace ∉ cs) :
    applyBackspaces cs = cs := by
  have hc : [backspace] ∉ clusters cs := fun hm => h <| by
    rw [← flatten_clusters cs]
    exact List.mem_flatten_of_mem hm (List.mem_singleton_self _)
  rw [applyBackspaces, TypedLine.kept_foldl_type _ hc, flatten_clusters]
  simp [TypedLine.start]

end Datapack
