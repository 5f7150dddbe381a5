import Datapack.Text.ClusterClass

/-!
# Clusters

A text is cut into its clusters in front of every character that does not stay
with the text before it. Most of the time the classes of the two characters at
the place decide; consonants, pictures and flags look further back.
-/

namespace Datapack

namespace ClusterClass

/-- Whether the character is a cluster of its own, whatever stands beside it. -/
def isControl : ClusterClass → Bool
  | .carriageReturn | .lineFeed | .control => true
  | _ => false

/-- Marks that leave a picture open for a joiner behind them. -/
def isExtend : ClusterClass → Bool
  | .extend | .linker | .nonJoiner => true
  | _ => false

/-- Marks that leave a consonant open for being tied. -/
def keepsConsonantOpen : ClusterClass → Bool
  | .extend | .linker | .joiner => true
  | _ => false

/-- Whether the second character goes on with the Hangul syllable of the first. -/
def continuesSyllable : ClusterClass → ClusterClass → Bool
  | .leadingJamo, .leadingJamo | .leadingJamo, .vowelJamo => true
  | .leadingJamo, .openSyllable | .leadingJamo, .closedSyllable => true
  | .openSyllable, .vowelJamo | .openSyllable, .trailingJamo => true
  | .vowelJamo, .vowelJamo | .vowelJamo, .trailingJamo => true
  | .closedSyllable, .trailingJamo | .trailingJamo, .trailingJamo => true
  | _, _ => false

end ClusterClass

namespace Cluster

/-! Texts before a place are given by the classes of their characters, the last one first. -/

/-- Whether the text ends in a consonant and marks, with a linker among them. -/
def endsInTie (before : List ClusterClass) : Bool :=
  (before.takeWhile ClusterClass.keepsConsonantOpen).contains .linker &&
    (before.dropWhile ClusterClass.keepsConsonantOpen).head? = some .consonant

/-- Whether the text ends in a picture, marks and a joiner. -/
def endsInJoinedPicture : List ClusterClass → Bool
  | .joiner :: rest => (rest.dropWhile ClusterClass.isExtend).head? = some .pictographic
  | _ => false

/-- Whether the text ends in half a flag. -/
def endsInHalfFlag (before : List ClusterClass) : Bool :=
  (before.takeWhile (· = .regionalIndicator)).length % 2 = 1

/-- Whether a character stays in the cluster of the text before it. -/
def stays (next : ClusterClass) : List ClusterClass → Bool
  | [] => false
  | last :: before =>
    if last = .carriageReturn ∧ next = .lineFeed then true
    else if last.isControl ∨ next.isControl then false
    else
      match next with
      | .extend | .linker | .nonJoiner | .joiner | .spacingMark => true
      | .consonant => last = .prepend ∨ endsInTie (last :: before)
      | .pictographic => last = .prepend ∨ endsInJoinedPicture (last :: before)
      | .regionalIndicator => last = .prepend ∨ endsInHalfFlag (last :: before)
      | next => last = .prepend ∨ last.continuesSyllable next

/-- What stays of a text in the cluster before it, and the clusters after that one. -/
def cut (before : List ClusterClass) : List Char → List Char × List (List Char)
  | [] => ([], [])
  | c :: cs =>
    let next := ClusterClass.ofChar c
    let (staying, rest) := cut (next :: before) cs
    if stays next before then (c :: staying, rest) else ([], (c :: staying) :: rest)

/-- Cutting loses nothing. -/
theorem cut_append_flatten (before : List ClusterClass) (cs : List Char) :
    (cut before cs).1 ++ (cut before cs).2.flatten = cs := by
  induction cs generalizing before with
  | nil => rfl
  | cons c cs ih =>
    have h := ih (ClusterClass.ofChar c :: before)
    by_cases hs : stays (ClusterClass.ofChar c) before = true <;> simp [cut, hs, h]

/-- Nothing stays in a cluster before the start of a text. -/
theorem cut_nil_fst (cs : List Char) : (cut [] cs).1 = [] := by
  cases cs <;> simp [cut, stays]

end Cluster

/-- The clusters of a text, in order. -/
def clusters (cs : List Char) : List (List Char) := (Cluster.cut [] cs).2

/-- The clusters make up the text. -/
theorem flatten_clusters (cs : List Char) : (clusters cs).flatten = cs := by
  simpa [clusters, Cluster.cut_nil_fst] using Cluster.cut_append_flatten [] cs

end Datapack
