import Datapack.Proofs.Grammar.Acceptance
import Datapack.Proofs.Token.Lines

/-!
# Programs one behind the other

A program can be read on where another one ends: nothing that was read changes
unless what follows starts with an operator of calculations. The only such
operator that a program can start with is the minus sign of a negative number, so
programs whose tokens do not start with it can be put one below the other.
-/

namespace Datapack

namespace Grammar

/-- What no operator followed, none follows if other tokens are added. -/
theorem goesOnWith_append {kind : Operator → Bool} {ts more : List Token}
    (hts : goesOnWith kind ts = false) (hmore : goesOnWith kind more = false) :
    goesOnWith kind (ts ++ more) = false := by
  cases ts with
  | nil => exact hmore
  | cons t ts => cases t <;> exact hts

section Extend

variable {more : List Token} (hmore : goesOnWith isArithmetic more = false)

include hmore

/-- The same derivation in front of further tokens, if they do not go on a calculation. -/
def ValueDerivation.extend {p : ValuePhrase} {ts rest : List Token} :
    ValueDerivation p ts rest → ValueDerivation p (ts ++ more) (rest ++ more)
  | .integer => .integer
  | .float => .float
  | .text => .text
  | .negativeInteger => .negativeInteger
  | .negativeFloat => .negativeFloat
  | .parens d => .parens d.extend
  | .named => .named
  | .verbatim => .verbatim
  | .callEmpty => .callEmpty
  | .call d => .call d.extend
  | .lastArgument d => .lastArgument d.extend
  | .argument d d' => .argument d.extend d'.extend
  | .noFactor => .noFactor
  | .factor ho d d' => .factor ho d.extend d'.extend
  | .term d d' => .term d.extend d'.extend
  | .noTerm => .noTerm
  | .nextTerm ho d d' => .nextTerm ho d.extend d'.extend
  | .value d d' hend => .value d.extend d'.extend (goesOnWith_append hend hmore)
  | .assignment d => .assignment d.extend
  | .increment => .increment
  | .decrement => .decrement

/-- The same derivation in front of further tokens, if they do not go on a calculation. -/
def Derivation.extend {p : Phrase} {ts rest : List Token} :
    Derivation p ts rest → Derivation p (ts ++ more) (rest ++ more)
  | .create => .create
  | .branch d₁ d₂ d₃ => .branch (d₁.extend hmore) (d₂.extend hmore) d₃.extend
  | .branchNot d₁ d₂ d₃ => .branchNot (d₁.extend hmore) (d₂.extend hmore) d₃.extend
  | .runAs d => .runAs d.extend
  | .assign d d' => .assign (d.extend hmore) (d'.extend hmore)
  | .value d => .value (d.extend hmore)
  | .none => .none
  | .more d d' => .more d.extend d'.extend
  | .braces d => .braces d.extend
  | .single d => .single d.extend

end Extend

/-- Statements followed by statements. -/
def Derivation.append {nodes nodes' : List Node} {ts mid rest : List Token} :
    Derivation (.statements nodes) ts mid → Derivation (.statements nodes') mid rest →
      Derivation (.statements (nodes ++ nodes')) ts rest
  | .none, e => e
  | .more d d', e => .more d (d'.append e)

/-- The only operator that statements start with is a minus sign. -/
theorem Derivation.not_arithmetic {nodes : List Node} {ts : List Token}
    (d : Derivation (.statements nodes) ts []) (h : ts.head? ≠ some (.operation .sub)) :
    goesOnWith isArithmetic ts = false := by
  cases d with
  | none => rfl
  | more d _ =>
    have hopens := d.opens
    cases ts with
    | nil => rfl
    | cons t ts =>
      cases t with
      | operation o =>
        cases o with
        | sub => exact absurd rfl h
        | add | set | mod | mul | div => cases hopens
      | _ => rfl

end Grammar

/-- Whether the first token of a text is a minus sign. -/
def StartsWithMinus (source : String) : Prop :=
  (lexemes source).head?.map Lexeme.item = some (.ok (.operation .sub))

section Newline

variable {source rest : String}

/-- The tokens of two texts with a newline between them. -/
theorem map_item_append_newline {ts : List Token}
    (h : (lexemes source).map Lexeme.item = ts.map Except.ok) :
    (lexemes (source ++ "\n" ++ rest)).map Lexeme.item =
      (lexemes source).map Lexeme.item ++ (lexemes rest).map Lexeme.item := by
  have hclosed : ∀ start, (Scan.lexemesFrom 0 source.toList).getLast? ≠
      some ⟨.error .unterminated, start, 0 + utf8Length source.toList⟩ := by
    intro start hlast
    have hmem := List.mem_map_of_mem (f := Lexeme.item) (List.mem_of_getLast? hlast)
    rw [← lexemes, h] at hmem
    simp at hmem
  rw [lexemes, toList_append_newline, Scan.lexemesFrom_append_newline 0 _ _ hclosed,
    List.map_append, Scan.map_item_lexemesFrom (0 + utf8Length source.toList + 1) 0]
  rfl

/-- Two programs with a newline between them are one program, unless the second starts with a
minus sign. -/
theorem parse_append_newline {nodes nodes' : List Node} (h : parse source = .ok nodes)
    (h' : parse rest = .ok nodes') (hminus : ¬ StartsWithMinus rest) :
    parse (source ++ "\n" ++ rest) = .ok (nodes ++ nodes') := by
  obtain ⟨ts, hts, ⟨d⟩⟩ := exists_derivation_of_parse h
  obtain ⟨ts', hts', ⟨d'⟩⟩ := exists_derivation_of_parse h'
  have hitems : (lexemes (source ++ "\n" ++ rest)).map Lexeme.item = (ts ++ ts').map Except.ok := by
    rw [map_item_append_newline hts, hts, hts', List.map_append]
  have hhead : ts'.head? ≠ some (.operation .sub) := by
    intro hhead
    apply hminus
    rw [StartsWithMinus, ← List.head?_map, hts', List.head?_map, hhead]
    rfl
  refine (parse_eq_ok_iff hitems).mpr ⟨?_⟩
  exact (d.extend (d'.not_arithmetic hhead)).append d'

/-- No minus sign starts two texts if it starts neither. -/
theorem not_startsWithMinus_append_newline {nodes : List Node} (h : parse source = .ok nodes)
    (hsource : ¬ StartsWithMinus source) (hrest : ¬ StartsWithMinus rest) :
    ¬ StartsWithMinus (source ++ "\n" ++ rest) := by
  obtain ⟨ts, hts, -⟩ := exists_derivation_of_parse h
  rw [StartsWithMinus, ← List.head?_map] at hsource hrest ⊢
  rw [map_item_append_newline hts, List.head?_append]
  cases hhead : ((lexemes source).map Lexeme.item).head? with
  | none => exact hrest
  | some item => rwa [hhead] at hsource

end Newline

end Datapack
