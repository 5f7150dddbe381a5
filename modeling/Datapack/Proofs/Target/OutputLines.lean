import Datapack.Interactive
import Datapack.Proofs.Target.Parts

/-!
# Lines of an output file

An output file read line by line gives back its commands, unless a command holds a
newline of its own. Fixed words and numbers hold none, so a newline in the text of a
command comes from one of its parts.
-/

namespace Datapack

/-- The text holds no newline. -/
def OneLine (text : String) : Prop := '\n' ∉ text.toList

instance (text : String) : Decidable (OneLine text) := inferInstanceAs (Decidable (¬ _))

/-- Texts without newlines have none when joined. -/
theorem OneLine.append {first second : String} (h : OneLine first) (h' : OneLine second) :
    OneLine (first ++ second) := by
  unfold OneLine
  rw [String.toList_append, List.mem_append, not_or]
  exact ⟨h, h'⟩

section Pieces

variable {sep : Char} {cs : List Char}

private theorem pieces_of_not_mem (h : sep ∉ cs) : pieces sep cs = [cs] := by
  unfold pieces
  induction cs with
  | nil => rfl
  | cons c cs ih =>
    rw [List.mem_cons, not_or] at h
    obtain ⟨hc, hcs⟩ := h
    obtain ⟨hhead, htail⟩ := List.cons.inj (ih hcs)
    rw [splitPieces]
    simp only [Ne.symm hc, if_false, hhead, htail]

/-- The text up to the first separator is the first piece. -/
theorem pieces_append_cons (h : sep ∉ cs) (rest : List Char) :
    pieces sep (cs ++ sep :: rest) = cs :: pieces sep rest := by
  unfold pieces
  induction cs with
  | nil => simp [splitPieces]
  | cons c cs ih =>
    rw [List.mem_cons, not_or] at h
    obtain ⟨hc, hcs⟩ := h
    obtain ⟨hhead, htail⟩ := List.cons.inj (ih hcs)
    rw [List.cons_append, splitPieces]
    simp only [Ne.symm hc, if_false, hhead, htail]

end Pieces

/-- The lines of an output file: it is cut at every newline, and a return before it is dropped. -/
def outputLines (text : String) : List String :=
  let all := pieces '\n' text.toList
  (all.dropLast.map Interactive.withoutReturn ++ all.getLast?.toList).map String.ofList

section Lines

variable {line : String}

private theorem outputLines_of_not_mem (h : OneLine line) : outputLines line = [line] := by
  simp [outputLines, pieces_of_not_mem h]

private theorem outputLines_append (h : OneLine line) (rest : String) :
    outputLines (line ++ Command.lineSeparator ++ rest) = line :: outputLines rest := by
  have hreturn : '\n' ∉ line.toList ++ ['\r'] := by simpa [OneLine] using h
  have hsplit : (line ++ Command.lineSeparator ++ rest).toList =
      line.toList ++ ['\r'] ++ '\n' :: rest.toList := by simp [Command.lineSeparator]
  have hpieces : pieces '\n' rest.toList ≠ [] := List.cons_ne_nil _ _
  have hline : Interactive.withoutReturn (line.toList ++ ['\r']) = line.toList := by
    simp [Interactive.withoutReturn]
  have hlast : (pieces '\n' rest.toList).getLast? =
      ((line.toList ++ ['\r']) :: pieces '\n' rest.toList).getLast? := by
    rw [pieces, List.getLast?_cons_cons]
  simp only [outputLines, hsplit, pieces_append_cons hreturn, List.dropLast_cons_of_ne_nil hpieces,
    ← hlast, List.map_cons, hline, List.cons_append, String.ofList_toList]

/-- No line holds a newline. -/
theorem oneLine_of_mem_outputLines {text : String} (h : line ∈ outputLines text) :
    OneLine line := by
  have hpieces := sep_not_mem_pieces '\n' text.toList
  obtain ⟨cs, hcs, rfl⟩ := List.mem_map.mp h
  rw [OneLine, String.toList_ofList]
  rcases List.mem_append.mp hcs with hcs | hcs
  · obtain ⟨piece, hpiece, rfl⟩ := List.mem_map.mp hcs
    have hno := hpieces piece ((List.dropLast_sublist _).subset hpiece)
    unfold Interactive.withoutReturn
    split
    · exact fun hmem => hno ((List.dropLast_sublist _).subset hmem)
    · exact hno
  · exact hpieces cs (List.mem_of_getLast? (Option.mem_toList.mp hcs))

end Lines

namespace Command

/-- An output file has one line per command exactly when no command holds a newline. -/
theorem outputLines_renderAll {commands : List Command} (hne : commands ≠ []) :
    outputLines (renderAll commands) = commands.map render ↔
      ∀ c ∈ commands, OneLine c.render := by
  constructor
  · intro h c hc
    have hline : c.render ∈ outputLines (renderAll commands) := by
      rw [h]
      exact List.mem_map_of_mem hc
    exact oneLine_of_mem_outputLines hline
  · intro h
    unfold renderAll
    induction commands with
    | nil => exact absurd rfl hne
    | cons c rest ih =>
      obtain ⟨hc, hrest⟩ := List.forall_mem_cons.mp h
      cases rest with
      | nil =>
        rw [List.map_cons, List.map_nil, String.intercalate_singleton]
        exact outputLines_of_not_mem hc
      | cons d rest =>
        rw [List.map_cons, List.map_cons, String.intercalate_cons_cons, outputLines_append hc,
          ← List.map_cons, ih (List.cons_ne_nil d rest) hrest]

end Command

section Newlines

private theorem oneLine_decimal (n : Nat) : OneLine (decimal n) := by
  intro h
  rw [decimal, String.toList_ofList] at h
  have hdigit := Nat.isDigit_of_mem_toDigits (by decide) (by decide) h
  revert hdigit
  decide

private theorem oneLine_signedDecimal (n : Int) : OneLine (signedDecimal n) := by
  cases n with
  | ofNat n => exact oneLine_decimal n
  | negSucc n =>
    have hsign : OneLine "-" := by decide +kernel
    exact hsign.append (oneLine_decimal (n + 1))

/-- A blank is no newline. -/
theorem oneLine_blank : OneLine " " := by decide +kernel

private theorem Clause.oneLine_render {clause : Clause}
    (h : ∀ part ∈ clause.parts, OneLine part.render) :
    OneLine clause.render := by
  cases clause with
  | compare negate first c second =>
    have hword : OneLine (if negate then "unless" else "if") := by cases negate <;> decide +kernel
    have hscore : OneLine " score " := by decide +kernel
    have hfirst : OneLine first.render := h (.score first) (by simp [parts])
    have hsymbol : OneLine c.targetSymbol := by cases c <;> decide +kernel
    have hsecond : OneLine second.render := h (.score second) (by simp [parts])
    have hstart := ((hword.append hscore).append hfirst).append oneLine_blank
    exact ((hstart.append hsymbol).append oneLine_blank).append hsecond
  | runAs selector =>
    have hword : OneLine "as " := by decide +kernel
    exact hword.append (h (.text selector) (by simp [parts]))
  | keepResult target =>
    have hword : OneLine "store result score " := by decide +kernel
    exact hword.append (h (.score target) (by simp [parts]))
  | verbatim text => exact h (.text text) (by simp [parts])

private theorem Action.oneLine_render {action : Action}
    (h : ∀ part ∈ action.parts, OneLine part.render) :
    OneLine action.render := by
  cases action with
  | declare store =>
    have hstart : OneLine "scoreboard objectives add " := by decide +kernel
    have hend : OneLine " dummy" := by decide +kernel
    exact (hstart.append (h (.store store) (by simp [parts]))).append hend
  | edit verb target amount =>
    have hstart : OneLine "scoreboard players " := by decide +kernel
    have hverb : OneLine verb.word := by cases verb <;> decide +kernel
    have htarget : OneLine target.render := h (.score target) (by simp [parts])
    have hfront := ((hstart.append hverb).append oneLine_blank).append htarget
    exact (hfront.append oneLine_blank).append (oneLine_signedDecimal _)
  | operate target o source =>
    have hstart : OneLine "scoreboard players operation " := by decide +kernel
    have htarget : OneLine target.render := h (.score target) (by simp [parts])
    have hsymbol : OneLine o.targetSymbol := by cases o <;> decide +kernel
    have hsource : OneLine source.render := h (.score source) (by simp [parts])
    have hfront := ((hstart.append htarget).append oneLine_blank).append hsymbol
    exact (hfront.append oneLine_blank).append hsource
  | raw line => exact h (.text line) (by simp [parts])

/-- A newline in the text of a command stands in one of its parts. -/
theorem Command.oneLine_render {c : Command} (h : ∀ part ∈ c.parts, OneLine part.render) :
    OneLine c.render := by
  obtain ⟨clauses, action⟩ := c
  obtain ⟨hclauses, haction⟩ := List.forall_mem_append.mp h
  clear h
  induction clauses with
  | nil => exact Action.oneLine_render haction
  | cons clause clauses ih =>
    obtain ⟨hclause, hclauses⟩ := List.forall_mem_append.mp hclauses
    have hstart : OneLine "execute " := by decide +kernel
    have hrun : OneLine " run " := by decide +kernel
    have hfront := (hstart.append (Clause.oneLine_render hclause)).append hrun
    exact hfront.append (ih hclauses haction)

end Newlines

end Datapack
