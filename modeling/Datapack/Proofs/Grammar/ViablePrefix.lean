import Datapack.Proofs.Grammar.Stopping

/-!
# Errors at the earliest token

Reading fails at the first token at which it must. What stands in front of that
token can be completed to a program, and nothing that follows the token changes
the error: both are read off the rules for where reading stops. So the end of the
tokens is reported exactly where a program was only begun.
-/

namespace Datapack

namespace Grammar

section Completion

variable {next : Option Token} {ts us rest : List Token} {node : Node} {o : Operator}

private theorem ValuePhrase.Whole.ofPrimary (h : (ValuePhrase.primary node).Whole ts next)
    (hnext : goesOnWith isArithmetic next.toList = false) :
    (ValuePhrase.value node).Whole ts next := by
  intro rest hrest
  obtain ⟨d⟩ := h rest hrest
  exact ⟨.value (.term d .noFactor) .noTerm (hrest hnext)⟩

/-- A primary and an operator in front of a value make a value. -/
theorem ValueDerivation.operand {first second : Node} {mid : List Token}
    (ho : isArithmetic o = true) (d : ValueDerivation (.primary first) ts (.operation o :: mid))
    (d' : ValueDerivation (.value second) mid rest) :
    ∃ node, Nonempty (ValueDerivation (.value node) ts rest) := by
  cases d' with
  | value d₁ d₂ hend =>
    cases d₁ with
    | term d₃ d₄ =>
      rcases Bool.or_eq_true_iff.mp ho with ho | ho
      · exact ⟨_, ⟨.value (.term d (.factor ho d₃ d₄)) d₂ hend⟩⟩
      · exact ⟨_, ⟨.value (.term d .noFactor) (.nextTerm ho (.term d₃ d₄) d₂) hend⟩⟩

private theorem ValuePhrase.Whole.operand {first second : Node} (ho : isArithmetic o = true)
    (h : (ValuePhrase.primary first).Whole ts (some (.operation o)))
    (h' : (ValuePhrase.value second).Whole us none) :
    ∃ node, (ValuePhrase.value node).Whole (ts ++ .operation o :: us) none := by
  obtain ⟨d⟩ := h (.operation o :: us) id
  obtain ⟨d'⟩ := h' [] id
  rw [List.append_nil] at d'
  obtain ⟨node, ⟨e⟩⟩ := d.operand ho d'
  obtain ⟨front, hfront, hwhole⟩ := e.whole
  rw [List.append_nil] at hfront
  exact ⟨node, hfront ▸ hwhole⟩

/-- A phrase of this form can be made of the tokens and further ones. -/
def ValueForm.Completes : ValueForm → List Token → Prop
  | .primary, ts => ∃ more node, (ValuePhrase.primary node).Whole (ts ++ more) none
  | .arguments, ts => ∃ more values, (ValuePhrase.arguments values).Whole (ts ++ more) none
  | .value, ts => ∃ more node, (ValuePhrase.value node).Whole (ts ++ more) none

/-- Wherever reading stops in a value, the value can be completed. -/
theorem ValueStop.completes {form : ValueForm} {what : Expected}
    (h : ValueStop next form ts what) : form.Completes ts := by
  induction h with
  | value => exact ⟨[.integer 0], _, fun _ _ => ⟨.integer⟩⟩
  | minus => exact ⟨[.integer 0], _, fun _ _ => ⟨.negativeInteger⟩⟩
  | name => exact ⟨[.leftParen, .rightParen], _, fun _ _ => ⟨.callEmpty⟩⟩
  | entry => exact ⟨[.text "", .rightBracket], _, fun _ _ => ⟨.verbatim⟩⟩
  | @bracket _ t ht =>
    cases t with
    | identifier => exact ⟨[.rightBracket], _, fun _ _ => ⟨.named⟩⟩
    | text => exact ⟨[.rightBracket], _, fun _ _ => ⟨.verbatim⟩⟩
    | _ => cases ht
  | parens _ ih =>
    obtain ⟨more, node, h⟩ := ih
    have hend : (ValuePhrase.value node).Whole _ (some .rightParen) := h.mono fun _ => rfl
    exact ⟨more ++ [.rightParen], node, by simpa using hend.parens⟩
  | parensEnd h =>
    have hend : (ValuePhrase.value _).Whole _ (some .rightParen) := h.mono fun _ => rfl
    exact ⟨[.rightParen], _, hend.parens⟩
  | call _ _ ih =>
    obtain ⟨more, values, h⟩ := ih
    have hend : (ValuePhrase.arguments values).Whole _ (some .rightParen) := h.mono fun _ => rfl
    exact ⟨more ++ [.rightParen], _, by simpa using hend.call⟩
  | argument _ ih =>
    obtain ⟨more, node, h⟩ := ih
    exact ⟨more, [node], h.lastArgument⟩
  | argumentEnd h =>
    have hend : (ValuePhrase.value _).Whole _ none := h.mono fun _ => rfl
    exact ⟨[], _, by simpa using hend.lastArgument⟩
  | nextArgument hfirst _ ih =>
    obtain ⟨more, values, h⟩ := ih
    exact ⟨more, _, by simpa using hfirst.argument h⟩
  | first _ ih =>
    obtain ⟨more, node, h⟩ := ih
    exact ⟨more, node, h.ofPrimary rfl⟩
  | operand ho hfirst _ ih =>
    obtain ⟨more, second, h⟩ := ih
    obtain ⟨node, hnode⟩ := hfirst.operand ho h
    exact ⟨more, node, by simpa using hnode⟩

/-- A phrase of this form can be made of the tokens and further ones. Statements of which there is
none yet need no further ones. -/
def Form.Completes : Form → List Token → Prop
  | .statement, ts => ∃ more node, (Phrase.statement node).Whole (ts ++ more) none
  | .conditional, ts => ∃ more, ∀ negate : Bool, ∃ node, (Phrase.statement node).Whole
      (.ifWord :: ((if negate then [.notWord] else []) ++ (ts ++ more))) none
  | .body, ts => ∃ more nodes, (Phrase.body nodes).Whole (ts ++ more) none
  | .statements _, ts => ∃ more nodes, (ts = [] → more = []) ∧
      (Phrase.statements nodes).Whole (ts ++ more) none

private theorem whole_zero (hnext : goesOnWith isArithmetic next.toList = false) :
    (ValuePhrase.value (.int 0)).Whole [.integer 0] next :=
  ValuePhrase.Whole.ofPrimary (fun _ _ => ⟨.integer⟩) hnext

private theorem whole_empty_body (next : Option Token) :
    (Phrase.body []).Whole [.leftBrace, .rightBrace] next :=
  Phrase.Whole.none.braces

/-- A condition whose first value can be completed can be completed. -/
theorem completes_of_first {more : List Token} {first : Node}
    (h : (ValuePhrase.value first).Whole (ts ++ more) none) : Form.conditional.Completes ts := by
  refine ⟨more ++ [.comparison .eq, .integer 0, .leftBrace, .rightBrace], fun negate => ?_⟩
  have hleft : (ValuePhrase.value first).Whole _ (some (.comparison .eq)) := h.mono fun _ => rfl
  have hall := Phrase.Whole.branch negate hleft (whole_zero rfl) (whole_empty_body none)
  exact ⟨_, by simpa using hall⟩

/-- A condition whose second value can be completed can be completed. -/
theorem completes_of_second {c : Comparator} {more : List Token} {first second : Node}
    (hfirst : (ValuePhrase.value first).Whole ts (some (.comparison c)))
    (h : (ValuePhrase.value second).Whole (us ++ more) none) :
    Form.conditional.Completes (ts ++ .comparison c :: us) := by
  refine ⟨more ++ [.leftBrace, .rightBrace], fun negate => ?_⟩
  have hright : (ValuePhrase.value second).Whole _ (some .leftBrace) := h.mono fun _ => rfl
  have hall := Phrase.Whole.branch negate hfirst hright (whole_empty_body none)
  exact ⟨_, by simpa using hall⟩

/-- Statements can be completed behind one that was read. -/
theorem completes_next {inBraces : Bool} {node : Node}
    (hread : TakenAsStatement node ts (us.head?.or next))
    (h : (Form.statements inBraces).Completes us) :
    (Form.statements inBraces).Completes (ts ++ us) := by
  obtain ⟨more, nodes, hmore, h⟩ := h
  refine ⟨more, node :: nodes, fun hnil => hmore (List.append_eq_nil_iff.mp hnil).2, ?_⟩
  cases us with
  | nil =>
    obtain rfl := hmore rfl
    have hend : (Phrase.statement node).Whole ts none := hread.whole.mono fun _ => rfl
    simpa using hend.more h
  | cons u us =>
    have hfirst : (Phrase.statement node).Whole ts ((u :: us ++ more).head?.or none) :=
      hread.whole
    simpa using hfirst.more h

/-- Wherever reading stops in statements, they can be completed. -/
theorem Stop.completes {form : Form} {fault : Fault} (h : Stop next form ts fault) :
    form.Completes ts := by
  induction h with
  | nothing =>
    exact ⟨[.createWord, .identifier storeWord, .identifier ""], _, fun _ _ => ⟨.create⟩⟩
  | create | uncreatable =>
    exact ⟨[.identifier storeWord, .identifier ""], _, fun _ _ => ⟨.create⟩⟩
  | created => exact ⟨[.identifier ""], _, fun _ _ => ⟨.create⟩⟩
  | branch _ _ ih =>
    obtain ⟨more, h⟩ := ih
    obtain ⟨node, hnode⟩ := h false
    exact ⟨more, node, hnode⟩
  | branchNot _ ih =>
    obtain ⟨more, h⟩ := ih
    obtain ⟨node, hnode⟩ := h true
    exact ⟨more, node, hnode⟩
  | left h =>
    obtain ⟨more, first, hfirst⟩ := h.completes
    exact completes_of_first hfirst
  | @comparator first ts h =>
    have hend : (ValuePhrase.value first).Whole (ts ++ []) none := by
      rw [List.append_nil]
      exact h.mono fun _ => rfl
    exact completes_of_first hend
  | right hfirst h =>
    obtain ⟨more, second, hsecond⟩ := h.completes
    exact completes_of_second hfirst hsecond
  | @branchBody _ _ second _ us vs _ hfirst hsecond _ ih =>
    -- a body that has not begun is written in braces: an operator must not follow the condition
    cases vs with
    | nil =>
      have hend : (ValuePhrase.value second).Whole (us ++ [] ++ []) none := by
        rw [List.append_nil, List.append_nil]
        exact hsecond.mono fun _ => rfl
      exact completes_of_second hfirst hend
    | cons v vs =>
      obtain ⟨more, nodes, h⟩ := ih
      refine ⟨more, fun negate => ?_⟩
      have hright : (ValuePhrase.value second).Whole _ ((v :: vs ++ more).head?.or none) := hsecond
      have hall := Phrase.Whole.branch negate hfirst hright h
      exact ⟨_, by simpa using hall⟩
  | selector => exact ⟨[.text "", .leftBrace, .rightBrace], _, (whole_empty_body none).runAs⟩
  | scope _ ih =>
    obtain ⟨more, nodes, h⟩ := ih
    exact ⟨more, _, h.runAs⟩
  | value _ h =>
    obtain ⟨more, node, hnode⟩ := h.completes
    exact ⟨more, node, .ofValue hnode⟩
  | @assigned target o ts us _ htarget h =>
    obtain ⟨more, node, hnode⟩ := h.completes
    have hall : (Phrase.statement (.assign target o node)).Whole
        (ts ++ .assignment o :: (us ++ more)) none := .assign htarget hnode.assignment
    exact ⟨more, _, by simpa using hall⟩
  | target h =>
    have hend : (ValuePhrase.primary _).Whole _ none := h.mono fun _ => rfl
    exact ⟨[], _, by simpa using Phrase.Whole.ofValue (hend.ofPrimary rfl)⟩
  | single _ _ ih =>
    obtain ⟨more, node, h⟩ := ih
    exact ⟨more, [node], h.single⟩
  | braces _ ih =>
    obtain ⟨more, nodes, -, h⟩ := ih
    have hend : (Phrase.statements nodes).Whole _ (some .rightBrace) := h.mono fun _ => rfl
    exact ⟨more ++ [.rightBrace], nodes, by simpa using hend.braces⟩
  | unclosed => exact ⟨[], [], fun _ => rfl, .none⟩
  | @first _ ts _ _ _ _ ih =>
    cases ts with
    | nil => exact ⟨[], [], fun _ => rfl, .none⟩
    | cons t ts =>
      obtain ⟨more, node, h⟩ := ih
      exact ⟨more, [node], nofun, by simpa using h.more .none⟩
  | next hread _ ih => exact completes_next hread ih

/-- Wherever reading statements stops, what stands in front can be completed to statements. -/
theorem Stop.exists_completion {fault : Fault} (h : Stop next (.statements false) ts fault) :
    ∃ more nodes, statements (ts ++ more) = .ok nodes := by
  obtain ⟨more, nodes, -, hwhole⟩ := h.completes
  obtain ⟨d⟩ := hwhole [] id
  rw [List.append_nil] at d
  exact ⟨more, nodes, statements_iff.mpr ⟨d⟩⟩

end Completion

section Location

variable {next : Option Token} {ts : List Token}

/-- What the next token and the tokens in front of it have to do with a fault. -/
def Fault.FitsAt (next : Option Token) (front : List Token) : Fault → Prop
  | .expected _ => True
  | .uncreatable word => next = some (.identifier word)
  | .unassignable kind target => goesOnAssigning next.toList = true ∧ ∃ lead node,
      front = lead ++ target ∧ node.kind = kind ∧ (ValuePhrase.primary node).Whole target next

private theorem Fault.FitsAt.behind {fault : Fault} (h : fault.FitsAt next ts) (lead : List Token) :
    fault.FitsAt next (lead ++ ts) := by
  cases fault with
  | expected => trivial
  | uncreatable => exact h
  | unassignable =>
    obtain ⟨hsign, lead', node, rfl, hnode⟩ := h
    exact ⟨hsign, lead ++ lead', node, by simp, hnode⟩

private theorem Stop.fitsAt {form : Form} {fault : Fault} (h : Stop next form ts fault) :
    fault.FitsAt next ts := by
  induction h with
  | nothing | create | created | left | comparator | right | selector | value | assigned
  | unclosed => trivial
  | uncreatable hnext => exact hnext
  | branch _ _ ih => exact ih.behind [_]
  | branchNot _ ih => exact ih.behind [_, _]
  | @branchBody _ c _ ts us vs _ _ _ _ ih =>
    simpa using ih.behind (ts ++ .comparison c :: us)
  | scope _ ih => exact ih.behind [_, _]
  | target h hsign => exact ⟨hsign, [], _, rfl, rfl, h⟩
  | single _ _ ih => exact ih
  | braces _ ih => exact ih.behind [_]
  | first _ _ _ ih => exact ih
  | next _ _ ih => exact ih.behind _

end Location

end Grammar

/-- Reads the placed tokens of a text of `stop` bytes as a program. -/
def parseTokens (placed : List Placed) (stop : Nat) : Except ParseError (List Node) :=
  match Grammar.statements (placed.map Placed.token) with
  | .ok nodes => .ok nodes
  | .error stuck => .error (.ofStuck placed stop stuck)

/-- The error is raised behind the tokens `before`, at the first of the tokens `after`, or at the
end if there is none. The target of an assignment ends where the error is raised. -/
def ParseError.RaisedAt (stop : Nat) (before after : List Placed) : ParseError → Prop
  | .lexical .. => False
  | .unexpected _ found span => after.head? = some ⟨found, span⟩
  | .unexpectedEnd _ span => after = [] ∧ span = ⟨stop, stop⟩
  | .uncreatable name span => after.head? = some ⟨.identifier name, span⟩
  | .unassignable kind span => Grammar.goesOnAssigning (after.map Placed.token) = true ∧
      ∃ start first target node, before = start ++ first :: target ∧ first.span = span ∧
        node.kind = kind ∧
        Nonempty (Grammar.ValueDerivation (.primary node) ((first :: target).map Placed.token) [])

section Places

variable {source : String} {placed before after : List Placed} {stop : Nat}

/-- A text that consists of tokens is read by its tokens. -/
theorem parse_eq_parseTokens (h : placedTokens (lexemes source) = .ok placed) :
    parse source = parseTokens placed (utf8Length source.toList) := by
  rw [parse, h]
  rfl

/-- Tokens are a program if they are statements. -/
theorem parseTokens_eq_ok {nodes : List Node} :
    parseTokens placed stop = .ok nodes ↔
      Grammar.statements (placed.map Placed.token) = .ok nodes := by
  unfold parseTokens
  split <;> simp_all

/-- Where statements get stuck, the program fails with the error for that. -/
theorem parseTokens_of_error {stuck : Grammar.Stuck}
    (h : Grammar.statements (placed.map Placed.token) = .error stuck) :
    parseTokens placed stop = .error (.ofStuck placed stop stuck) := by
  rw [parseTokens, h]

private theorem spanOf_cons {p : Placed} :
    spanOf (before ++ p :: after) stop ((p :: after).map Placed.token) = p.span := by
  have hlength : (before ++ p :: after).length - ((p :: after).map Placed.token).length =
      before.length := by
    rw [List.length_append, List.length_map]
    omega
  rw [spanOf, hlength, List.drop_left]

private theorem spanOf_nil : spanOf placed stop [] = ⟨stop, stop⟩ := by
  simp [spanOf]

/-- The error for a fault in front of a token does not depend on what follows the token. -/
theorem exists_ofStuck {p : Placed} {fault : Grammar.Fault}
    (h : fault.FitsAt (some p.token) (before.map Placed.token)) :
    ∃ e, ∀ after stop, ParseError.ofStuck (before ++ p :: after) stop
        (fault.stuckAt ((p :: after).map Placed.token)) = e ∧
      e.RaisedAt stop before (p :: after) := by
  cases fault with
  | expected what =>
    refine ⟨.unexpected what p.token p.span, fun after stop => ⟨?_, rfl⟩⟩
    change ParseError.unexpected what p.token (spanOf _ stop ((p :: after).map Placed.token)) = _
    rw [spanOf_cons]
  | uncreatable word =>
    refine ⟨.uncreatable word p.span, fun after stop => ⟨?_, ?_⟩⟩
    · change ParseError.uncreatable word (spanOf _ stop ((p :: after).map Placed.token)) = _
      rw [spanOf_cons]
    · have hp : p.token = .identifier word := Option.some.inj h
      simp [ParseError.RaisedAt, ← hp]
  | unassignable kind target =>
    obtain ⟨hsign, lead, node, hfront, hkind, hwhole⟩ := h
    obtain ⟨start, placed, rfl, -, rfl⟩ := List.map_eq_append_iff.mp hfront
    obtain ⟨d⟩ := hwhole [] fun _ => rfl
    have hopens := d.opens rfl
    rw [List.append_nil] at d hopens
    cases placed with
    | nil => cases hopens
    | cons first target =>
      refine ⟨.unassignable kind first.span, fun after stop => ⟨?_, hsign, ?_⟩⟩
      · change ParseError.unassignable kind (spanOf _ stop ((first :: target).map Placed.token ++
          (p :: after).map Placed.token)) = _
        rw [← List.map_append, List.append_assoc, List.cons_append, spanOf_cons]
      · exact ⟨start, first, target, node, rfl, rfl, hkind, ⟨d⟩⟩

/-- At the end of the tokens, reading can only lack something. -/
theorem exists_ofStuck_end {fault : Grammar.Fault} {ts : List Token} (h : fault.FitsAt none ts)
    (placed : List Placed) (stop : Nat) :
    ∃ what,
      ParseError.ofStuck placed stop (fault.stuckAt []) = .unexpectedEnd what ⟨stop, stop⟩ := by
  cases fault with
  | expected what =>
    refine ⟨what, ?_⟩
    change ParseError.unexpectedEnd what (spanOf placed stop []) = _
    rw [spanOf_nil]
  | uncreatable => cases h
  | unassignable => cases h.1

/-- Tokens that are not read as a program fail behind some of them that can be completed to one. If
a token follows there, the error is raised at it whatever comes behind. -/
theorem parseTokens_error {e : ParseError} (h : parseTokens placed stop = .error e) :
    ∃ before after, placed = before ++ after ∧ e.RaisedAt stop before after ∧
      (∃ more nodes, Grammar.statements (before.map Placed.token ++ more) = .ok nodes) ∧
      ∀ p rest, after = p :: rest → ∀ later stop,
        parseTokens (before ++ p :: later) stop = .error e ∧
          e.RaisedAt stop before (p :: later) := by
  cases hread : Grammar.statements (placed.map Placed.token) with
  | ok nodes =>
    rw [parseTokens_eq_ok.mpr hread] at h
    cases h
  | error stuck =>
    obtain rfl := Except.error.inj ((parseTokens_of_error hread).symm.trans h)
    obtain ⟨front, rest, fault, hts, rfl, hstop⟩ := Grammar.statements_eq_error_iff.mp hread
    obtain ⟨before, after, rfl, rfl, rfl⟩ := List.map_eq_append_iff.mp hts
    refine ⟨before, after, rfl, ?_⟩
    cases after with
    | nil =>
      obtain ⟨what, he⟩ := exists_ofStuck_end hstop.fitsAt (before ++ []) stop
      rw [List.map_nil, he]
      exact ⟨⟨rfl, rfl⟩, hstop.exists_completion, nofun⟩
    | cons p after =>
      obtain ⟨e, he⟩ := exists_ofStuck hstop.fitsAt
      rw [(he after stop).1]
      refine ⟨(he after stop).2, hstop.exists_completion, ?_⟩
      rintro _ _ ⟨⟩ later stop'
      have hfails := Grammar.statements_eq_error_iff.mpr
        ⟨_, (p :: later).map Placed.token, fault, List.map_append, rfl, hstop⟩
      obtain ⟨herror, hraised⟩ := he later stop'
      exact ⟨(parseTokens_of_error hfails).trans (congrArg _ herror), hraised⟩

/-- The end of the tokens is reported where they are no program and can be completed to one. -/
theorem parseTokens_unexpectedEnd_iff :
    (∃ what span, parseTokens placed stop = .error (.unexpectedEnd what span)) ↔
      (∀ nodes, parseTokens placed stop ≠ .ok nodes) ∧
        ∃ more nodes, Grammar.statements (placed.map Placed.token ++ more) = .ok nodes := by
  constructor
  · rintro ⟨what, span, herror⟩
    obtain ⟨before, after, rfl, ⟨rfl, -⟩, hmore, -⟩ := parseTokens_error herror
    rw [List.append_nil] at herror ⊢
    refine ⟨fun nodes hok => ?_, hmore⟩
    cases hok.symm.trans herror
  · rintro ⟨hno, more, nodes, hmore⟩
    cases herror : parseTokens placed stop with
    | ok nodes => exact absurd herror (hno nodes)
    | error e =>
      obtain ⟨before, after, rfl, hraised, -, hlater⟩ := parseTokens_error herror
      cases after with
      | nil =>
        cases e with
        | unexpectedEnd what span => exact ⟨what, span, rfl⟩
        | lexical => cases hraised
        | unexpected | uncreatable => cases hraised
        | unassignable => cases hraised.1
      | cons p rest =>
        -- the completion has the token too, behind which nothing helps
        let placedMore : List Placed := more.map fun t => ⟨t, ⟨stop, stop⟩⟩
        have htokens : (before ++ p :: (rest ++ placedMore)).map Placed.token =
            (before ++ p :: rest).map Placed.token ++ more := by
          simp [placedMore, Function.comp_def]
        rw [← htokens] at hmore
        obtain ⟨hfails, -⟩ := hlater p rest rfl (rest ++ placedMore) stop
        cases (parseTokens_eq_ok.mpr hmore).symm.trans hfails

end Places

/-- An error of reading can be computed with the nodes left out, which have no decidable
equality. -/
theorem parse_eq_error {source : String} {e : ParseError}
    (h : (parse source).map (fun _ => ()) = .error e) : parse source = .error e := by
  cases hparse : parse source with
  | ok nodes =>
    rw [hparse] at h
    cases h
  | error e' =>
    rw [hparse] at h
    cases h
    rfl

/--
In a text that consists of tokens, an error is raised at the earliest token.
The tokens in front of it can be completed to a program. If the error is raised at
a token and not at the end, then all rows of tokens that begin like the text up to
and including it fail there with the same error. So the end is reported exactly for texts
that are no program and whose tokens can be completed to one.
-/
theorem parse_error_earliest (source : String) (placed : List Placed)
    (h : placedTokens (lexemes source) = .ok placed) :
    (∀ e, parse source = .error e → ∃ before after, placed = before ++ after ∧
      e.RaisedAt (utf8Length source.toList) before after ∧
      (∃ more nodes, Grammar.statements (before.map Placed.token ++ more) = .ok nodes) ∧
      ∀ p rest, after = p :: rest → ∀ later stop,
        parseTokens (before ++ p :: later) stop = .error e ∧
          e.RaisedAt stop before (p :: later)) ∧
    ((∃ what span, parse source = .error (.unexpectedEnd what span)) ↔
      (∀ nodes, parse source ≠ .ok nodes) ∧
        ∃ more nodes, Grammar.statements (placed.map Placed.token ++ more) = .ok nodes) := by
  rw [parse_eq_parseTokens h]
  exact ⟨fun _ => parseTokens_error, parseTokens_unexpectedEnd_iff⟩

/-- A call that is assigned to, which fails at the sign, and a conditional that ends behind its
first value. -/
theorem parse_error_earliest_target :
    (∃ before p rest, placedTokens (lexemes "f(1) += 2") = .ok (before ++ p :: rest) ∧
      p.token = .assignment .add ∧
      (∃ more nodes, Grammar.statements (before.map Placed.token ++ more) = .ok nodes) ∧
      ∀ later stop,
        parseTokens (before ++ p :: later) stop = .error (.unassignable .call ⟨0, 1⟩)) ∧
    ∃ more nodes, Grammar.statements
      (.ifWord :: .identifier "a" :: .leftBracket :: .identifier "b" :: .rightBracket :: more) =
        .ok nodes := by
  have htokens : placedTokens (lexemes "f(1) += 2") = .ok [⟨.identifier "f", 0, 1⟩,
      ⟨.leftParen, 1, 2⟩, ⟨.integer 1, 2, 3⟩, ⟨.rightParen, 3, 4⟩, ⟨.assignment .add, 5, 7⟩,
      ⟨.integer 2, 8, 9⟩] := by decide +kernel
  have htokens' : placedTokens (lexemes "if a[b]") = .ok [⟨.ifWord, 0, 2⟩, ⟨.identifier "a", 3, 4⟩,
      ⟨.leftBracket, 4, 5⟩, ⟨.identifier "b", 5, 6⟩, ⟨.rightBracket, 6, 7⟩] := by decide +kernel
  constructor
  · obtain ⟨before, after, hsplit, ⟨hsign, -⟩, hmore, hlater⟩ :=
      (parse_error_earliest _ _ htokens).1 (.unassignable .call ⟨0, 1⟩)
        (parse_eq_error (by decide +kernel))
    cases after with
    | nil => cases hsign
    | cons p rest =>
      refine ⟨before, p, rest, htokens.trans (congrArg _ hsplit), ?_, hmore, fun later stop =>
        (hlater p rest rfl later stop).1⟩
      have hmem : p ∈ before ++ p :: rest := by simp
      rw [← hsplit] at hmem
      simp only [List.mem_cons, List.not_mem_nil, or_false] at hmem
      rcases hmem with rfl | rfl | rfl | rfl | rfl | rfl <;> first | rfl | cases hsign
  · exact ((parse_error_earliest _ _ htokens').2.mp
      ⟨.comparator, ⟨7, 7⟩, parse_eq_error (by decide +kernel)⟩).2

end Datapack
