import AlgebraText.Expr.Equality
import AlgebraText.Proofs.Expr.Building
import AlgebraText.Proofs.Grammar.Exactness
import AlgebraText.Reader

/-!
# Printed expressions are read back

Printing derives its parentheses from priorities, and the grammar derives its grouping from layers.
The two agree: the words of an expression of some level are derivable from the nonterminal of that
level, and the derivation builds the expression again, except that a sequence of a single operation
is not written and so comes back as its operand (`Expr.collapse`).

The proof is an induction on the expression. Its hypothesis says of every token list that is spelled
as the expression what nonterminal derives it (`Spells`); a place that asks for a tighter level
finds the expression in parentheses, which are derivable everywhere.

## What this module delivers

* `Expr.collapse` and `Expr.isCollapsed`;
* `Writes`, a nonterminal deriving the tokens of an expression, with one lemma for each constructor
  of a derivation;
* `Expr.WellFormed.spells`: every well-formed expression is written as its level allows;
* `parse_print_eq_collapse`: printing and then reading gives the collapsed expression.
-/

set_option autoImplicit false

namespace AlgebraText

/-! ## Sequences of a single operation -/

mutual

/-- The expression with its operand in the place of every sequence of a single operation. -/
def Expr.collapse : Expr → Expr
  | .app name body origin => .app name body.collapse origin
  | .neg body origin => .neg body.collapse origin
  | .seq [⟨_, operand, _⟩] _ => operand.collapse
  | .seq operations origin => .seq (Operation.collapseList operations) origin
  | e => e

/-- Operations with their operands collapsed. -/
def Operation.collapseList : List Operation → List Operation
  | [] => []
  | ⟨method, operand, origin⟩ :: rest =>
    ⟨method, operand.collapse, origin⟩ :: Operation.collapseList rest

end

mutual

/-- Whether every sequence in an expression has at least two operations. -/
def Expr.isCollapsed : Expr → Bool
  | .app _ body _ => body.isCollapsed
  | .neg body _ => body.isCollapsed
  | .seq operations _ => 2 ≤ operations.length && Operation.areCollapsed operations
  | _ => true

/-- Whether the operands of operations are collapsed. -/
def Operation.areCollapsed : List Operation → Bool
  | [] => true
  | ⟨_, operand, _⟩ :: rest => operand.isCollapsed && Operation.areCollapsed rest

end

theorem Operation.areCollapsed_eq_true {operations : List Operation} :
    areCollapsed operations = true ↔
      ∀ operation ∈ operations, operation.operand.isCollapsed = true := by
  induction operations with
  | nil => simp [areCollapsed]
  | cons operation rest ih =>
      obtain ⟨method, operand, origin⟩ := operation
      rw [areCollapsed, Bool.and_eq_true, ih, List.forall_mem_cons]

theorem Expr.collapse_seq_cons (first second : Operation) (rest : List Operation)
    (origin : Option Origin) :
    (Expr.seq (first :: second :: rest) origin).collapse =
      .seq (Operation.collapseList (first :: second :: rest)) origin := by
  rw [Expr.collapse]
  simp

mutual

/-- Collapsing changes nothing where every sequence has several operations. -/
theorem Expr.collapse_eq_self : ∀ e : Expr, e.isCollapsed = true → e.collapse = e
  | .integer .., _ => rfl
  | .decimal .., _ => rfl
  | .var .., _ => rfl
  | .app name body origin, h => by
      rw [Expr.collapse, Expr.collapse_eq_self body h]
  | .neg body origin, h => by
      rw [Expr.collapse, Expr.collapse_eq_self body h]
  | .seq [] _, h => by cases h
  | .seq [_] _, h => by cases h
  | .seq (first :: second :: rest) origin, h => by
      rw [Expr.isCollapsed, Bool.and_eq_true] at h
      rw [Expr.collapse_seq_cons,
        Operation.collapseList_eq_self (first :: second :: rest) h.2]

theorem Operation.collapseList_eq_self : ∀ operations : List Operation,
    Operation.areCollapsed operations = true → Operation.collapseList operations = operations
  | [], _ => rfl
  | ⟨method, operand, origin⟩ :: rest, h => by
      rw [Operation.areCollapsed, Bool.and_eq_true] at h
      rw [Operation.collapseList, Expr.collapse_eq_self operand h.1,
        Operation.collapseList_eq_self rest h.2]

end

/-! ## What a nonterminal writes -/

/-- The tokens are derivable from a nonterminal, and what is derived builds to an expression. -/
def Writes (goal : Nonterminal) (tokens : List Token) (e : Expr) : Prop :=
  ∃ full, Derivation goal full ∧ full.leaves = tokens ∧
    ∃ built, full.collapse.build = .ok built ∧ built.equal e = true

namespace Writes

variable {goal operand : Nonterminal} {rule : Rule} {tokens : List Token} {e : Expr}

theorem expression (h : Writes .additive tokens e) : Writes .expression tokens e := by
  obtain ⟨full, hfull, hleaves, hbuilt⟩ := h
  exact ⟨full, .expression hfull, hleaves, hbuilt⟩

/-- A chain of one operand writes what the operand writes. -/
theorem chain_nil (hgoal : goal.chain? = some (rule, operand)) (h : Writes operand tokens e) :
    Writes goal tokens e := by
  obtain ⟨full, hfull, hleaves, hbuilt⟩ := h
  refine ⟨.ofChildren rule (.node full :: Element.ofLinks []), ?_, ?_, ?_⟩
  · exact .chain hgoal hfull (by simp) (by simp)
  · rw [ParseTree.leaves_chain, hleaves]
    simp
  · rw [Element.ofLinks_nil, ParseTree.collapse_chain_nil full (Nonterminal.chain?_facts hgoal).1]
    exact hbuilt

theorem plain (hatom : goal.isAtom = true) (h : Writes goal tokens e) :
    Writes .single tokens e := by
  obtain ⟨full, hfull, hleaves, built, hbuild, hequal⟩ := h
  refine ⟨_, .plain hatom hfull, ?_, built, ?_, hequal⟩
  · rw [ParseTree.leaves_plain, hleaves]
  · rw [hfull.collapse_plain]
    exact ParseTree.build_plain hbuild

theorem negated {minus : Token} {origin : Option Origin} (hatom : goal.isAtom = true)
    (hminus : minus.kind = .sub) (h : Writes goal tokens e) :
    Writes .single (minus :: tokens) (.neg e origin) := by
  obtain ⟨full, hfull, hleaves, built, hbuild, hequal⟩ := h
  refine ⟨_, .negated hatom hminus hfull, ?_, ?_⟩
  · rw [ParseTree.leaves_negated, hleaves]
  · rw [hfull.collapse_negated]
    exact ⟨_, ParseTree.build_negated hminus hbuild, hequal⟩

theorem paren {opening closing : Token} (hopening : opening.kind = .openParen)
    (hclosing : closing.kind = .closeParen) (h : Writes .expression tokens e) :
    Writes .paren (opening :: (tokens ++ [closing])) e := by
  obtain ⟨full, hfull, hleaves, built, hbuild, hequal⟩ := h
  refine ⟨_, .paren hopening hfull hclosing, ?_, built, ?_, hequal⟩
  · rw [ParseTree.leaves_paren, hleaves]
  · rw [Derivation.collapse_paren]
    exact ParseTree.build_paren opening closing hbuild

theorem function {name opening closing : Token} {origin : Option Origin}
    (hname : name.kind = .name) (hopening : opening.kind = .openSquare)
    (hclosing : closing.kind = .closeSquare) (h : Writes .expression tokens e) :
    Writes .function (name :: opening :: (tokens ++ [closing])) (.app name.lexeme e origin) := by
  obtain ⟨full, hfull, hleaves, built, hbuild, hequal⟩ := h
  refine ⟨_, .function hname hopening hfull hclosing, ?_, ?_⟩
  · rw [ParseTree.leaves_function, hleaves]
  · rw [Derivation.collapse_function]
    exact ⟨_, ParseTree.build_function opening closing hname hbuild,
      by simpa [Expr.equal] using hequal⟩

theorem var {name : Token} {origin : Option Origin} (hname : name.kind = .name) :
    Writes .var [name] (.var name.lexeme origin) := by
  exact ⟨_, .var hname, rfl, _, ParseTree.build_var hname, by simp [Expr.equal]⟩

theorem integer {digits : Token} {origin : Option Origin} (hdigits : digits.kind = .int)
    (hcanonical : IsCanonical digits.lexeme.toList) :
    Writes .number [digits] (.integer digits.lexeme origin) := by
  have hinteger :=
    ParseTree.build_integer hdigits (canonicalDigits?_of_isCanonical hcanonical)
  exact ⟨_, .integer hdigits, rfl, _, hinteger, by simp [Expr.equal]⟩

theorem decimal {digits : Token} {value : Binary64} {origin : Option Origin}
    (hdigits : digits.kind = .float)
    (hvalue : Binary64.read? digits.lexeme.toList = some value)
    (hequal : value.equal value = true) : Writes .number [digits] (.decimal value origin) := by
  exact ⟨_, .decimal hdigits, rfl, _, ParseTree.build_decimal hdigits hvalue, hequal⟩

end Writes

/-! ## Levels and nonterminals -/

/-- The loosest nonterminal of a level. -/
def Nonterminal.ofLevel : Nat → Nonterminal
  | 2 => .additive
  | 3 => .multiply
  | 4 => .divide
  | 5 => .power
  | _ => .single

theorem Method.chain?_ofLevel (method : Method) :
    (Nonterminal.ofLevel method.priority).chain? =
      some (method.rule, .ofLevel (method.priority + 1)) := by
  cases method <;> rfl

theorem Method.rule_eq_of_priority_eq {method method' : Method}
    (h : method.priority = method'.priority) : method.rule = method'.rule := by
  cases method <;> cases method' <;> first | rfl | cases h

/-- A looser level writes whatever the next tighter one writes. -/
theorem Writes.loosen {level : Nat} {tokens : List Token} {e : Expr} (hlevel : 2 ≤ level)
    (h : Writes (.ofLevel (level + 1)) tokens e) : Writes (.ofLevel level) tokens e := by
  match level, hlevel with
  | 2, _ => exact .chain_nil rfl h
  | 3, _ => exact .chain_nil rfl h
  | 4, _ => exact .chain_nil rfl h
  | 5, _ => exact .chain_nil rfl h
  | _ + 6, _ => exact h

theorem Writes.of_le {low high : Nat} {tokens : List Token} {e : Expr} (hlow : 2 ≤ low)
    (hle : low ≤ high) (h : Writes (.ofLevel high) tokens e) : Writes (.ofLevel low) tokens e := by
  induction hle with
  | refl => exact h
  | step hle ih => exact ih (h.loosen (hlow.trans hle))

/-! ## Tokens that spell given words -/

theorem cons_of_map_word {tokens : List Token} {word : Word} {rest : List Word}
    (h : tokens.map Token.word = word :: rest) :
    ∃ token more, tokens = token :: more ∧ token.kind = word.kind ∧ token.lexeme = word.lexeme ∧
      more.map Token.word = rest := by
  obtain ⟨token, more, rfl, rfl, hmore⟩ := List.map_eq_cons_iff.1 h
  exact ⟨token, more, rfl, rfl, rfl, hmore⟩

theorem concat_of_map_word {tokens : List Token} {word : Word} {front : List Word}
    (h : tokens.map Token.word = front ++ [word]) :
    ∃ inner token, tokens = inner ++ [token] ∧ inner.map Token.word = front ∧
      token.kind = word.kind := by
  obtain ⟨inner, last, rfl, hinner, hlast⟩ := List.map_eq_append_iff.1 h
  obtain ⟨token, more, rfl, hkind, -, hmore⟩ := cons_of_map_word hlast
  obtain rfl : more = [] := List.map_eq_nil_iff.1 hmore
  exact ⟨inner, token, rfl, hinner, hkind⟩

/-! ## Every expression is written as its level allows -/

/-- Tokens are an expression in writing if the nonterminal of its level derives them, and also an
atom in case the expression shows no operator and no sign. -/
def Written (e : Expr) (tokens : List Token) : Prop :=
  Writes (.ofLevel e.level) tokens e.collapse ∧
    (e.level = 7 → ∃ atom : Nonterminal, atom.isAtom = true ∧ Writes atom tokens e.collapse)

/-- All tokens that spell an expression are the expression in writing. -/
def Spells (e : Expr) : Prop :=
  ∀ tokens : List Token, tokens.map Token.word = e.words → Written e tokens

/-- Where an atom writes an expression of the tightest level, so does an operand. -/
theorem Written.of_atom {e : Expr} {tokens : List Token} {atom : Nonterminal} (hlevel : e.level = 7)
    (hatom : atom.isAtom = true) (h : Writes atom tokens e.collapse) : Written e tokens := by
  refine ⟨?_, fun _ => ⟨atom, hatom, h⟩⟩
  rw [hlevel]
  exact h.plain hatom

namespace Spells

variable {e : Expr} {tokens : List Token}

theorem expression (h : Spells e) (htokens : tokens.map Token.word = e.words) :
    Writes .expression tokens e.collapse := by
  have hloose := (h tokens htokens).1.of_le (Nat.le_refl 2) e.level_bounds.1
  exact hloose.expression

/-- In parentheses an expression is an atom. -/
theorem bracketed (h : Spells e)
    (htokens : tokens.map Token.word = Word.bracketed true e.words) :
    Writes .paren tokens e.collapse := by
  obtain ⟨opening, more, rfl, hopening, -, hmore⟩ := cons_of_map_word htokens
  obtain ⟨inner, closing, rfl, hinner, hclosing⟩ := concat_of_map_word hmore
  exact .paren hopening hclosing (h.expression hinner)

/-- In a place that asks for the level of an operand, an expression is derivable from it. -/
theorem within (h : Spells e) {level : Nat} (hlow : 2 ≤ level)
    (htokens : tokens.map Token.word = e.wordsWithin level) :
    Writes (.ofLevel level) tokens e.collapse := by
  by_cases hlevel : e.level < level
  · rw [Expr.wordsWithin, decide_eq_true hlevel] at htokens
    -- a parenthesized expression is an operand, which every chain level can consist of
    have hsingle : Writes (.ofLevel (level + 6)) tokens e.collapse :=
      (h.bracketed htokens).plain rfl
    exact hsingle.of_le hlow (Nat.le_add_right level 6)
  · rw [Expr.wordsWithin, decide_eq_false hlevel] at htokens
    exact (h tokens htokens).1.of_le hlow (Nat.le_of_not_lt hlevel)

/-- In a place that asks for an atom, an expression is derivable from one. -/
theorem atom (h : Spells e) (htokens : tokens.map Token.word = e.wordsWithin 7) :
    ∃ atom : Nonterminal, atom.isAtom = true ∧ Writes atom tokens e.collapse := by
  by_cases hlevel : e.level < 7
  · rw [Expr.wordsWithin, decide_eq_true hlevel] at htokens
    exact ⟨.paren, rfl, h.bracketed htokens⟩
  · rw [Expr.wordsWithin, decide_eq_false hlevel] at htokens
    exact (h tokens htokens).2 (Nat.le_antisymm e.level_bounds.2 (Nat.le_of_not_lt hlevel))

end Spells

/-! ### Sequences -/

/-- The tokens that spell the later operations of a sequence are links of a chain. -/
theorem exists_links {method₀ : Method} {operations : List Operation}
    (hpriority : ∀ operation ∈ operations, operation.HasPriority method₀.priority)
    (hspells : ∀ operation ∈ operations, Spells operation.operand) {tokens : List Token}
    (htokens : tokens.map Token.word =
      operations.flatMap (Operation.words method₀.priority)) :
    ∃ (links : List (Token × ParseTree)) (built : List Operation),
      (∀ link ∈ links, link.1.kind ∈ method₀.rule.operators) ∧
      (∀ link ∈ links, Derivation (.ofLevel (method₀.priority + 1)) link.2) ∧
      (links.flatMap fun link => link.1 :: link.2.leaves) = tokens ∧
      Element.LinksBuild method₀.rule
        (Element.ofLinks (links.map fun link => (link.1, link.2.collapse))) built ∧
      Operation.equalList built (Operation.collapseList operations) = true := by
  induction operations generalizing tokens with
  | nil =>
      obtain rfl : tokens = [] := List.map_eq_nil_iff.1 htokens
      exact ⟨[], [], by simp, by simp, rfl, Element.linksBuild_nil _, rfl⟩
  | cons operation rest ih =>
      have hoperand := hspells operation List.mem_cons_self
      obtain ⟨method, hmethod, hlevel⟩ := hpriority operation List.mem_cons_self
      obtain ⟨_, operand, place⟩ := operation
      obtain rfl := hmethod
      obtain ⟨front, later, rfl, hfront, hlater⟩ := List.map_eq_append_iff.1 htokens
      obtain ⟨operator, right, rfl, hkind, -, hright⟩ := cons_of_map_word hfront
      -- the operand stands in a place that asks for the next tighter level
      have hlow : 2 ≤ method₀.priority + 1 := by
        have hbounds := method₀.two_le_priority
        omega
      obtain ⟨full, hfull, rfl, expr, hbuild, hequal⟩ := hoperand.within hlow hright
      obtain ⟨links, built, hoperators, hlinks, hleaves, hlinksBuild, hequals⟩ :=
        ih (fun other hmem => hpriority other (List.mem_cons_of_mem _ hmem))
          (fun other hmem => hspells other (List.mem_cons_of_mem _ hmem)) hlater
      have hrule : method.rule = method₀.rule := Method.rule_eq_of_priority_eq hlevel
      have hoperator : operator.kind = method.kind := hkind
      have hchain : chainMethod? method₀.rule operator.kind = some method := by
        rw [hoperator, ← hrule]
        exact chainMethod?_eq method
      have hcons := Element.linksBuild_cons hchain hbuild hlinksBuild
      refine ⟨(operator, full) :: links, ⟨some method, expr, _⟩ :: built, ?_, ?_, ?_, hcons,
        ?_⟩
      · intro link hmem
        rcases List.mem_cons.1 hmem with rfl | hmem
        · rw [hoperator, ← hrule]
          exact method.kind_mem_operators
        · exact hoperators link hmem
      · intro link hmem
        rcases List.mem_cons.1 hmem with rfl | hmem
        · exact hfull
        · exact hlinks link hmem
      · rw [List.flatMap_cons, hleaves]
      · simp [Operation.collapseList, Operation.equalList, Operation.equal, hequal, hequals]

theorem spells_seq {first : Operation} {rest : List Operation} {priority : Nat}
    {origin : Option Origin} (hmethod : first.method = none) (hfirst : Spells first.operand)
    (hpriority : ∀ operation ∈ rest, operation.HasPriority priority)
    (hspells : ∀ operation ∈ rest, Spells operation.operand) :
    Spells (.seq (first :: rest) origin) := by
  intro tokens htokens
  cases rest with
  | nil =>
      -- nothing of the sequence is written, and its level is that of its operand up to a sign
      rw [Expr.words_seq_singleton hmethod] at htokens
      have hwrites := (hfirst tokens htokens).1
      have hlevel : (Expr.seq [first] origin).level = min 6 first.operand.level :=
        Expr.level_seq_singleton hmethod
      have hlow : 2 ≤ min 6 first.operand.level := by
        have hbounds := first.operand.level_bounds
        omega
      refine ⟨?_, fun hseven => ?_⟩
      · rw [hlevel]
        obtain ⟨_, operand, place⟩ := first
        exact hwrites.of_le hlow (Nat.min_le_right ..)
      · rw [hlevel] at hseven
        omega
  | cons second rest =>
      obtain ⟨method, hsecond, rfl⟩ := hpriority second List.mem_cons_self
      rw [Expr.words_seq hmethod hpriority (by simp)] at htokens
      have hlevel : (Expr.seq (first :: second :: rest) origin).level = method.priority :=
        Expr.level_seq hmethod hpriority (by simp)
      obtain ⟨front, later, rfl, hfront, hlater⟩ := List.map_eq_append_iff.1 htokens
      have hbounds := method.two_le_priority
      obtain ⟨full, hfull, rfl, built, hbuild, hequal⟩ := hfirst.within (by omega) hfront
      obtain ⟨links, operations, hoperators, hlinks, hleaves, hlinksBuild, hequals⟩ :=
        exists_links hpriority hspells hlater
      obtain ⟨_, operand, place⟩ := first
      obtain rfl : _ = none := hmethod
      have hsome : operations ≠ [] := by
        rintro rfl
        obtain ⟨_, _, _⟩ := second
        cases hequals
      -- with links the chain node stays, on both sides
      have hlinksSome : links ≠ [] := by
        rintro rfl
        have hnone := hlinksBuild default
        rw [List.map_nil, Element.ofLinks_nil, Element.buildLinks, Except.ok.injEq] at hnone
        exact hsome hnone.symm
      have hseq := ParseTree.build_chain method.chain?_ofLevel hbuild hlinksBuild hsome
      refine ⟨?_, fun hseven => ?_⟩
      · rw [hlevel]
        refine ⟨_, .chain method.chain?_ofLevel hfull hoperators hlinks, ?_, ?_⟩
        · rw [ParseTree.leaves_chain, hleaves]
        · rw [Derivation.collapse_chain_cons hfull hlinks hlinksSome]
          refine ⟨_, hseq, ?_⟩
          rw [Expr.collapse_seq_cons, Operation.collapseList, Expr.equal, Operation.equalList,
            Operation.equal, hequal, hequals]
          rfl
      · omega

/-- **Every well-formed expression is written as its level allows.** -/
theorem Expr.WellFormed.spells {e : Expr} (h : e.WellFormed)
    (hliteral : ∀ value ∈ e.decimals, value.isLiteral = true) : Spells e := by
  induction h with
  | @integer value origin hcanonical =>
      intro tokens htokens
      rw [Expr.words_of_isDigits hcanonical.1] at htokens
      obtain ⟨digits, more, rfl, hkind, hlexeme, hmore⟩ := cons_of_map_word htokens
      obtain rfl : more = [] := List.map_eq_nil_iff.1 hmore
      obtain rfl : digits.lexeme = value := hlexeme
      exact .of_atom rfl rfl (Writes.integer hkind hcanonical)
  | @decimal value origin =>
      intro tokens htokens
      -- only here the decimals matter: anything but a literal is spelled as something else
      have hvalue : value.isLiteral = true := hliteral value (by simp [Expr.decimals])
      rw [Expr.words_of_isLiteral hvalue] at htokens
      obtain ⟨digits, more, rfl, hkind, hlexeme, hmore⟩ := cons_of_map_word htokens
      obtain rfl : more = [] := List.map_eq_nil_iff.1 hmore
      obtain ⟨rank, rfl⟩ := Binary64.exists_rank_of_isLiteral hvalue
      have hread : Binary64.read? digits.lexeme.toList = some (.finite false rank) := by
        rw [show digits.lexeme = _ from hlexeme]
        exact Binary64.read?_literal rank
      exact .of_atom rfl rfl (Writes.decimal hkind hread (by simp [Binary64.equal]))
  | @var name origin hname =>
      intro tokens htokens
      rw [Expr.words_of_isName hname] at htokens
      obtain ⟨token, more, rfl, hkind, hlexeme, hmore⟩ := cons_of_map_word htokens
      obtain rfl : more = [] := List.map_eq_nil_iff.1 hmore
      obtain rfl : token.lexeme = name := hlexeme
      exact .of_atom rfl rfl (Writes.var hkind)
  | @app name body origin hname _ ih =>
      intro tokens htokens
      rw [Expr.words_app hname] at htokens
      obtain ⟨token, more, rfl, hkind, hlexeme, hmore⟩ := cons_of_map_word htokens
      obtain ⟨opening, inside, rfl, hopening, -, hinside⟩ := cons_of_map_word hmore
      obtain ⟨inner, closing, rfl, hinner, hclosing⟩ := concat_of_map_word hinside
      obtain rfl : token.lexeme = name := hlexeme
      have happ : Writes .function (token :: opening :: (inner ++ [closing]))
          (Expr.app token.lexeme body origin).collapse := by
        rw [Expr.collapse]
        exact .function hkind hopening hclosing ((ih hliteral).expression hinner)
      exact .of_atom rfl rfl happ
  | @neg body origin _ ih =>
      intro tokens htokens
      rw [Expr.words_neg] at htokens
      obtain ⟨minus, more, rfl, hminus, -, hmore⟩ := cons_of_map_word htokens
      obtain ⟨atom, hatom, hbody⟩ := (ih hliteral).atom hmore
      constructor
      · rw [Expr.collapse]
        exact Writes.negated hatom hminus hbody
      · -- a sign is no atom, and its level says so
        intro hlevel
        cases hlevel
  | @seq first rest priority origin hmethod _ hpriority _ ihfirst ihrest =>
      rw [Expr.decimals, Operation.decimals_cons] at hliteral
      refine spells_seq hmethod (ihfirst fun value hmem => ?_) hpriority
        fun operation hmem => ihrest operation hmem fun value hvalue => ?_
      · exact hliteral value (List.mem_append_left _ hmem)
      · exact hliteral value (List.mem_append_right _
          (Operation.mem_decimals.2 ⟨operation, hmem, hvalue⟩))

/-! ## Texts -/

/-- A text is read as the expression that its words are derived from. -/
theorem parse_of_writes {text : String} {e : Expr}
    (h : Writes .expression (significantTokens (tokenize text)) e) :
    ∃ result, parse text = .ok result ∧ result.equal e = true := by
  obtain ⟨full, hfull, hleaves, built, hbuild, hequal⟩ := h
  have htree : parseTree text = .ok full.collapse :=
    parseTree_eq_ok_iff_collapse.2 ⟨full, hfull, hleaves, rfl⟩
  refine ⟨built, ?_, hequal⟩
  unfold parse
  rw [htree]
  dsimp only
  rw [hbuild]

/-- **Printing and then reading gives the expression back.** A sequence of a single operation is
read as its operand; where every sequence has several operations, nothing changes. -/
theorem parse_print_eq_collapse (e : Expr) (h : e.WellFormed)
    (hliteral : ∀ value ∈ e.decimals, value.isLiteral = true) :
    ∃ result, parse e.print = .ok result ∧ result.equal e.collapse = true ∧
      (e.isCollapsed = true → result.equal e = true) := by
  obtain ⟨result, hparse, hequal⟩ :=
    parse_of_writes ((h.spells hliteral).expression (words_tokenize e.print))
  refine ⟨result, hparse, hequal, fun hcollapsed => ?_⟩
  rw [← e.collapse_eq_self hcollapsed]
  exact hequal

/-- The negation of a sum that is wrapped in a sequence of its own: it is written `-(x + 0.0)`. -/
theorem parse_print_negated_sum :
    ∃ e : Expr,
      e = .neg (.seq [⟨none, .chain (.var "x" none) [(.add, .decimal .zero none)], none⟩] none)
        none ∧
      e.WellFormed ∧ (∀ value ∈ e.decimals, value.isLiteral = true) ∧
      ∃ result, parse e.print = .ok result ∧ result.equal e.collapse = true ∧
        (e.isCollapsed = true → result.equal e = true) := by
  have hsum : (Expr.chain (.var "x" none) [(.add, .decimal .zero none)]).WellFormed := by
    refine @Expr.WellFormed.seq _ _ 2 _ rfl (.var (by decide)) ?_ ?_
    · intro operation hmem
      obtain rfl := List.mem_singleton.1 hmem
      exact ⟨.add, rfl, rfl⟩
    · intro operation hmem
      obtain rfl := List.mem_singleton.1 hmem
      exact .decimal
  have h : (Expr.neg (.seq [⟨none, .chain (.var "x" none) [(.add, .decimal .zero none)], none⟩]
      none) none).WellFormed :=
    .neg (@Expr.WellFormed.seq _ _ 2 _ rfl hsum (by simp) (by simp))
  have hliteral : ∀ value ∈ (Expr.neg (.seq
      [⟨none, .chain (.var "x" none) [(.add, .decimal .zero none)], none⟩] none) none).decimals,
      value.isLiteral = true := by decide
  exact ⟨_, rfl, h, hliteral, parse_print_eq_collapse _ h hliteral⟩

end AlgebraText
