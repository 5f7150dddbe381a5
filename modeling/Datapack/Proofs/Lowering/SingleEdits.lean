import Datapack.Proofs.Grammar.Numbers
import Datapack.Proofs.Lowering.Emission
import Datapack.Proofs.Token.WholeNumbers

/-!
# Edits of one command

An edit by the least number takes two commands, and no text brings that number into
a program. That lowering a program from a text never comes to such an edit is said
by what it depends on: here the same lowering is given with the edits left open, so
that an edit may fail, say, or do something else to the session. Whatever is put in
for edits that take two commands, the lowering of a program from a text is the same,
also where it fails; a lowering that came to one would come to what was put in.
-/

namespace Datapack

namespace Lowering

/-- A way to edit a score by a fixed number. -/
abbrev Editing := EditVerb → Score → Int32 → Lowering (List Command)

/-- Editing by this number gives the commands of `Command.edit`, and does nothing else. -/
def Editing.AgreesAt (edit : Editing) (amount : Int32) : Prop :=
  ∀ verb x, edit verb x amount = pure (Command.edit verb x amount)

/-- Combines a score with the number of a phrase, with a given way to edit. -/
def assignWith (edit : Editing) (target : Access) (o : Operator) : Node → Lowering (List Command)
  | .int amount =>
    match EditVerb.ofOperator? o with
    | none => fail (.notImmediate o)
    | some verb => do edit verb (← scoreOf target) amount
  | .calc first p second => do
    let _ ← storeName target.store
    checkOperand first
    checkOperand second
    let (commands, result) ←
      calculate p (assignWith edit · .set first) (assignWith edit · .set second)
    return commands ++ (← combine target o result)
  | node => assign target o node

/-- Works out a calculation in registers, with a given way to edit. -/
def calculationWith (edit : Editing) (first : Node) (o : Operator) (second : Node) :
    Lowering (List Command × Access) := do
  checkOperand first
  checkOperand second
  calculate o (assignWith edit · .set first) (assignWith edit · .set second)

/-- Compares copies of two values around every command of the body, with a given way to edit. -/
def compareCopiesWith (edit : Editing) (negate : Bool) (first : Node) (c : Comparator)
    (second : Node) (body : Lowering (List Command)) : Lowering (List Command) := do
  let declaration ← createStore scratchStore
  let commands ← withRegister fun r => withRegister fun q => do
    let firstLoaded ← assignWith edit (scratch r) .set first
    let secondLoaded ← assignWith edit (scratch q) .set second
    let x ← scoreOf (scratch r)
    let y ← scoreOf (scratch q)
    return firstLoaded ++ secondLoaded ++ (← body).map (Command.under (.compare negate x c y))
  return declaration ++ commands

mutual

/-- Lowers one statement, with a given way to edit. -/
def lowerWith (edit : Editing) : Node → Lowering (List Command)
  | .block body => lowerAllWith edit body
  | .assign target o value => assignWith edit target o value
  | .calc first o second => return (← calculationWith edit first o second).1
  | .branch negate first c second body =>
    match directOperands first second body with
    | some (x, y) => compareDirectly negate x c y (lowerAllWith edit body)
    | none => compareCopiesWith edit negate first c second (lowerAllWith edit body)
  | .runAs selector body =>
    return (← lowerAllWith edit body).map (Command.under (.runAs selector))
  | node => lower node

/-- Lowers statements in order, with a given way to edit. -/
def lowerAllWith (edit : Editing) : List Node → Lowering (List Command)
  | [] => return []
  | node :: rest => return (← lowerWith edit node) ++ (← lowerAllWith edit rest)

end

section Agreement

variable {edit : Editing}

/-- Assigning depends on the edits by numbers of the phrase only. -/
theorem assignWith_eq (target : Access) (o : Operator) : {node : Node} →
    (∀ amount ∈ node.integers, edit.AgreesAt amount) →
    assignWith edit target o node = assign target o node
  | .int amount, h => by
    have hedit : edit.AgreesAt amount := h amount List.mem_cons_self
    rw [assignWith, assign, assignInt]
    cases EditVerb.ofOperator? o with
    | none => rfl
    | some verb => exact bind_congr fun x => hedit verb x
  | .calc first p second, h => by
    rw [Node.integers, List.forall_mem_append] at h
    have hfirst : (assignWith edit · .set first) = (assign · .set first) :=
      funext fun a => assignWith_eq a .set h.1
    have hsecond : (assignWith edit · .set second) = (assign · .set second) :=
      funext fun a => assignWith_eq a .set h.2
    rw [assignWith, assign, hfirst, hsecond]
  | .access _, _ | .text _, _ | .block _, _ | .float _, _ | .assign .., _ | .branch .., _
  | .runAs .., _ | .create _, _ | .call .., _ => by
    rw [assignWith]
    all_goals simp

private theorem calculationWith_eq {first second : Node} (o : Operator)
    (hfirst : ∀ amount ∈ first.integers, edit.AgreesAt amount)
    (hsecond : ∀ amount ∈ second.integers, edit.AgreesAt amount) :
    calculationWith edit first o second = calculation first o second := by
  simp only [calculationWith, calculation, assignWith_eq _ _ hfirst, assignWith_eq _ _ hsecond]

private theorem compareCopiesWith_eq {first second : Node} (negate : Bool) (c : Comparator)
    (body : Lowering (List Command)) (hfirst : ∀ amount ∈ first.integers, edit.AgreesAt amount)
    (hsecond : ∀ amount ∈ second.integers, edit.AgreesAt amount) :
    compareCopiesWith edit negate first c second body =
      compareCopies negate first c second body := by
  simp only [compareCopiesWith, compareCopies, assignWith_eq _ _ hfirst, assignWith_eq _ _ hsecond]

mutual

/-- Lowering a statement depends on the edits by its numbers only. -/
theorem lowerWith_eq : {node : Node} → (∀ amount ∈ node.integers, edit.AgreesAt amount) →
    lowerWith edit node = lower node
  | .block body, h => by
    rw [Node.integers] at h
    rw [lowerWith, lower, lowerAllWith_eq h]
  | .assign target o value, h => by
    rw [Node.integers] at h
    rw [lowerWith, lower, assignWith_eq target o h]
  | .calc first o second, h => by
    rw [Node.integers, List.forall_mem_append] at h
    rw [lowerWith, lower, calculationWith_eq o h.1 h.2]
  | .branch negate first c second body, h => by
    rw [Node.integers, List.forall_mem_append, List.forall_mem_append] at h
    obtain ⟨hfirst, hsecond, hbody⟩ := h
    -- whether scores are compared in place is decided without regard to the edits
    rw [lowerWith, lower, lowerAllWith_eq hbody]
    cases directOperands first second body with
    | some operands => rfl
    | none => exact compareCopiesWith_eq negate c _ hfirst hsecond
  | .runAs selector body, h => by
    rw [Node.integers] at h
    rw [lowerWith, lower, lowerAllWith_eq h]
  | .create _, _ | .text _, _ | .int _, _ | .float _, _ | .access _, _ | .call .., _ => by
    rw [lowerWith]
    all_goals simp

/-- Lowering statements depends on the edits by their numbers only. -/
theorem lowerAllWith_eq : {body : List Node} →
    (∀ amount ∈ Node.integersAll body, edit.AgreesAt amount) →
    lowerAllWith edit body = lowerAll body
  | [], _ => by rw [lowerAllWith, lowerAll]
  | node :: rest, h => by
    rw [Node.integersAll, List.forall_mem_append] at h
    rw [lowerAllWith, lowerAll, lowerWith_eq h.1, lowerAllWith_eq h.2]

end

end Agreement

/-- Only an edit by the least number takes more than one command. -/
theorem length_edit_eq_one {amount : Int32} (h : magnitude amount ≤ Scan.maxInteger)
    (verb : EditVerb) (x : Score) : (Command.edit verb x amount).length = 1 := by
  rw [length_edit, Command.editLength, if_neg]
  rintro ⟨-, rfl⟩
  exact absurd h (by decide)

end Lowering

open Scan Grammar

/--
Whole numbers mean what they say, and no change of sign is out of range. Wherever
the longest match at a place of a text has the form of a whole number, the text
holds there the number that its digits stand for in base ten if that is at most
`2 ^ 31 - 1`, and else a fault. A number of the text that stands behind a minus sign
is read as its opposite, without overflow. In a program that is read from a text
every whole number, however deep it stands, lies between `-(2 ^ 31 - 1)` and
`2 ^ 31 - 1`, so that an edit by it is a single command; and lowering the program
never comes to an edit of two commands, since it is the same whatever is done there.
-/
theorem integers_exact (source : String) :
    (∀ before w o after, joined (before ++ ⟨w, o⟩ :: after) = source.toList →
      LongestMatches (before ++ ⟨w, o⟩ :: after) → w ∈ Rule.whole.language →
      let start := utf8Length (joined before)
      let stop := start + utf8Length w
      ∃ item, lexemes source = placed 0 before ++ ⟨item, start, stop⟩ :: placed stop after ∧
        ((∃ v : Int32, v.toInt = decimalValue w ∧ item = .ok (.integer v)) ↔
          decimalValue w ≤ 2 ^ 31 - 1) ∧
        (item = .error .tooBig ↔ 2 ^ 31 - 1 < decimalValue w)) ∧
    (∀ v span, ⟨.ok (.integer v), span⟩ ∈ lexemes source → ∀ rest,
      ∃ opposite : Int32, opposite.toInt = -v.toInt ∧
        Reads (primary (.operation .sub :: .integer v :: rest)) (.int opposite) rest) ∧
    ∀ body, parse source = .ok body →
      (∀ v ∈ Node.integersAll body, -(2 ^ 31 - 1) ≤ v.toInt ∧ v.toInt ≤ 2 ^ 31 - 1 ∧
        ∀ verb x, (Command.edit verb x v).length = 1) ∧
      ∀ edit : Lowering.Editing,
        (∀ verb x v, (Command.edit verb x v).length = 1 →
          edit verb x v = pure (Command.edit verb x v)) →
        Lowering.lowerAllWith edit body = Lowering.lowerAll body := by
  refine ⟨?_, ?_, fun body hparse => ?_⟩
  · intro before w o after hjoined hmatches hw
    exact hmatches.lexemes_whole hjoined hw
  · intro v span hmem rest
    have hscanned : IsScanned (.integer v) := isWritable_of_mem (List.mem_map_of_mem hmem)
    exact hscanned.reads_negative rest
  · have hmagnitude : ∀ v ∈ Node.integersAll body, magnitude v ≤ 2 ^ 31 - 1 :=
      fun v hv => magnitude_le_of_parse hparse hv
    have hlength : ∀ v ∈ Node.integersAll body, ∀ verb x, (Command.edit verb x v).length = 1 :=
      fun v hv => Lowering.length_edit_eq_one (hmagnitude v hv)
    constructor
    · intro v hv
      have hrange : v.toInt.natAbs ≤ 2 ^ 31 - 1 := hmagnitude v hv
      exact ⟨by omega, by omega, hlength v hv⟩
    · intro edit hedit
      exact Lowering.lowerAllWith_eq fun v hv verb x => hedit verb x v (hlength v hv verb x)

/-- The least number cannot be written, for all that a minus sign stands in front of its digits. The
number next to it can, and lowering refuses no edit by it if those of two commands are refused; it
does refuse the least number in a program that comes from no text. -/
theorem integers_exact_limits :
    lexemes "-0_2147483648" = [⟨.ok (.operation .sub), 0, 1⟩, ⟨.error .tooBig, 1, 13⟩] ∧
    let source := "s[x] += -2147483647"
    let body : List Node := [.assign ⟨.named "x", "s"⟩ .add (.int (-2147483647))]
    let edit : Lowering.Editing := fun verb x v =>
      if (Command.edit verb x v).length = 1 then pure (Command.edit verb x v)
      else Lowering.fail (.notImmediate .add)
    parse source = .ok body ∧ -(2 ^ 31 - 1) ≤ (-2147483647 : Int32).toInt ∧
      (∃ opposite : Int32, opposite.toInt = -(2147483647 : Int32).toInt ∧
        Reads (primary [.operation .sub, .integer 2147483647]) (.int opposite) []) ∧
      Lowering.lowerAllWith edit body = Lowering.lowerAll body ∧
      (Lowering.lowerAllWith edit
        [.create "s", .assign ⟨.named "x", "s"⟩ .add (.int Int32.minValue)] .fresh).1 =
          .error (.notImmediate .add) := by
  constructor
  · let digits : List Char := ['2', '1', '4', '7', '4', '8', '3', '6', '4', '8']
    have hnil : LongestMatches [] := fun before _ _ h => by cases before <;> cases h
    have hmatches : LongestMatches ([⟨['-'], .token (.operation .sub)⟩] ++
        ⟨'0' :: '_' :: digits, .fault .tooBig⟩ :: []) :=
      .cons (longestMatch_firstSegment '-' ('0' :: '_' :: digits))
        (.cons (longestMatch_firstSegment '0' ('_' :: digits)) hnil)
    have hwhole : '0' :: '_' :: digits ∈ Rule.whole.language :=
      mem_whole.mpr ⟨_, _, rfl, rfl, List.all_eq_true.mp rfl⟩
    obtain ⟨item, hlexemes, -, hfault⟩ :=
      (integers_exact "-0_2147483648").1 _ _ _ _ rfl hmatches hwhole
    obtain rfl : item = .error .tooBig := hfault.mpr (by decide +kernel)
    exact hlexemes
  · intro source body edit
    have hts : (lexemes source).map Lexeme.item =
        [Token.identifier "s", .leftBracket, .identifier "x", .rightBracket, .assignment .add,
          .operation .sub, .integer 2147483647].map .ok := by decide +kernel
    have hparse : parse source = .ok body := (parse_eq_ok_iff hts).mpr
      ⟨.more (.assign .named (.assignment (.value (.term .negativeInteger .noFactor) .noTerm rfl)))
        .none⟩
    have hmem : ⟨.ok (.integer 2147483647), 9, 19⟩ ∈ lexemes source := by decide +kernel
    obtain ⟨-, hnegative, hprogram⟩ := integers_exact source
    obtain ⟨hbounds, hlower⟩ := hprogram body hparse
    refine ⟨hparse, (hbounds _ List.mem_cons_self).1, hnegative _ _ hmem [], hlower edit ?_, rfl⟩
    intro verb x v hone
    exact if_pos hone

end Datapack
