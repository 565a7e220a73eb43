import AlgebraText.Proofs.Expr.Building
import AlgebraText.Proofs.Grammar.Exactness
import AlgebraText.Reader

/-!
# What a text denotes

Every derivation of tokens that the lexer can produce builds to an expression. The expression is
well formed, its decimals are the numbers of the decimal tokens, and printing it takes no more than
the tokens it was read from: whatever is counted, as long as the count depends on the kinds of the
tokens and charges a number with a point no less than a name. The last exception is there since an
infinity is printed as a name.

What is compared is not the bare expression but the expression in the place of its nonterminal
(`Expr.wordsWithin`). So the parentheses that printing would add are paid for by those that the
derivation must have had: a nonterminal derives an expression of a looser level only through
parentheses.

## What this module delivers

* `weight`, the count of words by their kinds;
* `Token.decimal?`, the number of a decimal token;
* `Denotes`, and `Derivation.denotes`: every derivation denotes an expression;
* `denotes_of_parse` and `decimal_of_parse`: so does every text that can be read, and its decimals
  are literals or infinities.
-/

set_option autoImplicit false

namespace AlgebraText

/-! ## Weights -/

/-- The sum of a count over words, by their kinds. -/
def weight (count : TokenKind → Nat) (words : List Word) : Nat :=
  (words.map fun word => count word.kind).sum

section Weight

variable (count : TokenKind → Nat)

@[simp]
theorem weight_nil : weight count [] = 0 := rfl

@[simp]
theorem weight_cons (word : Word) (words : List Word) :
    weight count (word :: words) = count word.kind + weight count words := by
  simp [weight]

@[simp]
theorem weight_append (words words' : List Word) :
    weight count (words ++ words') = weight count words + weight count words' := by
  simp [weight]

/-- Parentheses cost what they weigh. -/
theorem weight_bracketed (needed : Bool) (words : List Word) :
    weight count (Word.bracketed needed words) =
      weight count words + if needed then count .openParen + count .closeParen else 0 := by
  cases needed with
  | false => rfl
  | true =>
      simp only [Word.bracketed, if_true, weight_cons, weight_append, weight_nil]
      show count .openParen + (_ + (count .closeParen + 0)) = _
      omega

/-- A place that asks for a tighter level costs no less. -/
theorem weight_wordsWithin_mono (e : Expr) {low high : Nat} (h : low ≤ high) :
    weight count (e.wordsWithin low) ≤ weight count (e.wordsWithin high) := by
  rw [Expr.wordsWithin, Expr.wordsWithin, weight_bracketed, weight_bracketed]
  by_cases hlow : e.level < low
  · simp [hlow, lt_of_lt_of_le hlow h]
  · simp [hlow]

/-- Parentheses are enough in any place. -/
theorem weight_wordsWithin_le (e : Expr) (level : Nat) :
    weight count (e.wordsWithin level) ≤
      weight count e.words + (count .openParen + count .closeParen) := by
  rw [Expr.wordsWithin, weight_bracketed]
  split <;> omega

end Weight

/-- An expression that binds tightly enough is written without parentheses. -/
theorem Expr.wordsWithin_of_le {e : Expr} {level : Nat} (h : level ≤ e.level) :
    e.wordsWithin level = e.words := by
  rw [Expr.wordsWithin, decide_eq_false (Nat.not_lt.2 h)]
  rfl

/-! ## Decimals -/

/-- The number of a decimal token. -/
def Token.decimal? (token : Token) : Option Binary64 :=
  if token.kind = .float then Binary64.read? token.lexeme.toList else none

theorem Token.decimal?_of_kind_ne {token : Token} (h : token.kind ≠ .float) :
    token.decimal? = none := if_neg h

/-- A decimal token has a number, which is a literal or an infinity. -/
theorem exists_read?_of_isPointed {text : List Char} (h : IsPointed text) :
    ∃ value, Binary64.read? text = some value ∧
      (value.isLiteral = true ∨ value = .infinite false) := by
  obtain ⟨whole, fraction, hwhole, hfraction, rfl⟩ := h
  refine ⟨_, Binary64.read?_pointed hwhole hfraction.2, ?_⟩
  rw [Binary64.ofRatio, Binary64.ofRank]
  split
  · exact Or.inl rfl
  · exact Or.inr rfl

/-! ## Denotations -/

/-- What is known about the expression that a nonterminal builds from tokens. -/
structure Denotes (goal : Nonterminal) (tokens : List Token) (e : Expr) : Prop where
  /-- The expression follows the rules. -/
  wellFormed : e.WellFormed
  /-- Its decimals are the numbers of the decimal tokens, in the same order. -/
  decimals : e.decimals = tokens.filterMap Token.decimal?
  /-- In the place of the nonterminal it is written with no more than the tokens. -/
  cheap : ∀ count : TokenKind → Nat, count .name ≤ count .float →
    weight count (e.wordsWithin goal.level) ≤ weight count (tokens.map Token.word)

namespace Denotes

variable {goal operand : Nonterminal} {tokens : List Token} {e : Expr}

theorem loosen (h : Denotes operand tokens e) (hlevel : goal.level ≤ operand.level) :
    Denotes goal tokens e := by
  -- a looser place adds parentheses only where a tighter one does
  refine ⟨h.wellFormed, h.decimals, fun count hcount => ?_⟩
  exact (weight_wordsWithin_mono count e hlevel).trans (h.cheap count hcount)

/-- An expression in the loosest place is written without parentheses. -/
theorem cheap_words (h : Denotes .expression tokens e) (count : TokenKind → Nat)
    (hcount : count .name ≤ count .float) :
    weight count e.words ≤ weight count (tokens.map Token.word) := by
  have hbare : e.wordsWithin Nonterminal.expression.level = e.words :=
    Expr.wordsWithin_of_le e.level_bounds.1
  rw [← hbare]
  exact h.cheap count hcount

theorem negated {minus : Token} (hminus : minus.kind = .sub) (h : Denotes goal tokens e)
    (hatom : goal.level = 7) (origin : Option Origin) :
    Denotes .single (minus :: tokens) (.neg e origin) := by
  refine ⟨.neg h.wellFormed, ?_, fun count hcount => ?_⟩
  · rw [Expr.decimals, h.decimals, List.filterMap_cons_none]
    exact Token.decimal?_of_kind_ne (by simp [hminus])
  · have hbody := h.cheap count hcount
    rw [hatom] at hbody
    rw [Expr.wordsWithin_of_le (Nat.le_refl 6), Expr.words_neg, List.map_cons, weight_cons,
      weight_cons]
    exact Nat.add_le_add (le_of_eq (congrArg count hminus.symm)) hbody

/-- The tokens of a bracketed list, without those that carry no number. -/
theorem filterMap_decimal?_bracketed {opening closing : Token} (hopening : opening.kind ≠ .float)
    (hclosing : closing.kind ≠ .float) (tokens : List Token) :
    (opening :: (tokens ++ [closing])).filterMap Token.decimal? =
      tokens.filterMap Token.decimal? := by
  rw [List.filterMap_cons_none (Token.decimal?_of_kind_ne hopening), List.filterMap_append,
    List.filterMap_cons_none (Token.decimal?_of_kind_ne hclosing), List.filterMap_nil,
    List.append_nil]

theorem paren {opening closing : Token} (hopening : opening.kind = .openParen)
    (hclosing : closing.kind = .closeParen) (h : Denotes .expression tokens e) :
    Denotes .paren (opening :: (tokens ++ [closing])) e := by
  refine ⟨h.wellFormed, ?_, fun count hcount => ?_⟩
  · rw [h.decimals, filterMap_decimal?_bracketed (by simp [hopening]) (by simp [hclosing])]
  · -- the parentheses of the derivation pay for those that printing may add
    have hbody := h.cheap_words count hcount
    have hwithin := weight_wordsWithin_le count e Nonterminal.paren.level
    rw [List.map_cons, List.map_append, List.map_singleton, weight_cons, weight_append,
      weight_cons, weight_nil]
    simp only [Token.word, hopening, hclosing]
    omega

theorem function {name opening closing : Token} (hname : name.kind = .name)
    (hopening : opening.kind = .openSquare) (hclosing : closing.kind = .closeSquare)
    (hspelled : name.Spelled) (h : Denotes .expression tokens e) (origin : Option Origin) :
    Denotes .function (name :: opening :: (tokens ++ [closing])) (.app name.lexeme e origin) := by
  refine ⟨.app (hspelled.name hname) h.wellFormed, ?_, fun count hcount => ?_⟩
  · rw [Expr.decimals, h.decimals,
      List.filterMap_cons_none (Token.decimal?_of_kind_ne (by simp [hname])),
      filterMap_decimal?_bracketed (by simp [hopening]) (by simp [hclosing])]
  · have hbody := h.cheap_words count hcount
    rw [Expr.wordsWithin_of_le (Nat.le_refl 7), Expr.words_app (hspelled.name hname)]
    simp only [List.map_cons, List.map_append, List.map_nil, weight_cons, weight_append,
      weight_nil, Token.word, hname, hopening, hclosing, Word.openSquare, Word.closeSquare]
    omega

theorem var {name : Token} (hname : name.kind = .name) (hspelled : name.Spelled)
    (origin : Option Origin) : Denotes .var [name] (.var name.lexeme origin) := by
  refine ⟨.var (hspelled.name hname), ?_, fun count _ => ?_⟩
  · rw [List.filterMap_cons_none (Token.decimal?_of_kind_ne (by simp [hname]))]
    rfl
  · rw [Expr.wordsWithin_of_le (Nat.le_refl 7), Expr.words_of_isName (hspelled.name hname)]
    simp [Token.word, hname]

theorem integer {digits : Token} {value : String} (hdigits : digits.kind = .int)
    (hvalue : canonicalDigits? digits.lexeme = some value) (origin : Option Origin) :
    Denotes .number [digits] (.integer value origin) := by
  have hcanonical := isCanonical_of_canonicalDigits? hvalue
  refine ⟨.integer hcanonical, ?_, fun count _ => ?_⟩
  · rw [List.filterMap_cons_none (Token.decimal?_of_kind_ne (by simp [hdigits]))]
    rfl
  · rw [Expr.wordsWithin_of_le (Nat.le_refl 7), Expr.words_of_isDigits hcanonical.1]
    simp [Token.word, hdigits]

theorem decimal {digits : Token} {value : Binary64} (hdigits : digits.kind = .float)
    (hvalue : Binary64.read? digits.lexeme.toList = some value)
    (hrange : value.isLiteral = true ∨ value = .infinite false) (origin : Option Origin) :
    Denotes .number [digits] (.decimal value origin) := by
  refine ⟨.decimal, ?_, fun count hcount => ?_⟩
  · simp [Expr.decimals, Token.decimal?, hdigits, hvalue]
  · rw [Expr.wordsWithin_of_le (Nat.le_refl 7)]
    rcases hrange with hliteral | rfl
    · rw [Expr.words_of_isLiteral hliteral]
      simp [Token.word, hdigits]
    · rw [Expr.words_infinite]
      simpa [Token.word, hdigits] using hcount

/-! ## Chains -/

/-- The operations that the links of a chain build to. -/
structure OfLinks (goal : Nonterminal) (rule : Rule) (links : List (Token × ParseTree))
    (operations : List Operation) : Prop where
  /-- The links build to the operations. -/
  build : Element.LinksBuild rule
    (Element.ofLinks (links.map fun link => (link.1, link.2.collapse))) operations
  /-- There is one operation for each link. -/
  length : operations.length = links.length
  /-- All operators are of the level of the chain. -/
  priority : ∀ operation ∈ operations, operation.HasPriority goal.level
  /-- All operands follow the rules. -/
  wellFormed : ∀ operation ∈ operations, operation.operand.WellFormed
  /-- The decimals are those of the tokens. -/
  decimals : Operation.decimals operations =
    (links.flatMap fun link => link.1 :: link.2.leaves).filterMap Token.decimal?
  /-- The operations are written with no more than the tokens. -/
  cheap : ∀ count : TokenKind → Nat, count .name ≤ count .float →
    weight count (operations.flatMap (Operation.words goal.level)) ≤
      weight count ((links.flatMap fun link => link.1 :: link.2.leaves).map Token.word)

theorem ofLinks {rule : Rule} (hgoal : goal.chain? = some (rule, operand))
    {links : List (Token × ParseTree)} (hoperators : ∀ link ∈ links, link.1.kind ∈ rule.operators)
    (h : ∀ link ∈ links, ∃ e, link.2.collapse.build = .ok e ∧ Denotes operand link.2.leaves e) :
    ∃ operations, OfLinks goal rule links operations := by
  obtain ⟨-, hrule, hnext⟩ := Nonterminal.chain?_facts hgoal
  induction links with
  | nil =>
      exact ⟨[], Element.linksBuild_nil rule, rfl, by simp, by simp, rfl, fun _ _ => Nat.le_refl _⟩
  | cons link links ih =>
      obtain ⟨operations, hrest⟩ :=
        ih (fun other hmem => hoperators other (List.mem_cons_of_mem _ hmem))
          (fun other hmem => h other (List.mem_cons_of_mem _ hmem))
      obtain ⟨e, hbuild, hdenotes⟩ := h link List.mem_cons_self
      obtain ⟨method, hkind, hmethod, hchain⟩ :=
        exists_method_of_mem_operators (hoperators link List.mem_cons_self)
      have hlinks := Element.linksBuild_cons hchain hbuild hrest.build
      have hpriority : method.priority = goal.level := by
        rw [← method.level_rule, hmethod, hrule]
      -- an operator carries no number, and it is one word on both sides
      have hnumber : link.1.kind ≠ .float := by
        rw [← hkind]
        cases method <;> decide
      refine ⟨⟨some method, e, _⟩ :: operations, hlinks, ?_, ?_, ?_, ?_,
        fun count hcount => ?_⟩
      · simp [hrest.length]
      · intro operation hmem
        rcases List.mem_cons.1 hmem with rfl | hmem
        · exact ⟨method, rfl, hpriority⟩
        · exact hrest.priority operation hmem
      · intro operation hmem
        rcases List.mem_cons.1 hmem with rfl | hmem
        · exact hdenotes.wellFormed
        · exact hrest.wellFormed operation hmem
      · rw [Operation.decimals_cons, hdenotes.decimals, hrest.decimals, List.flatMap_cons,
          List.cons_append, List.filterMap_cons_none (Token.decimal?_of_kind_ne hnumber),
          List.filterMap_append]
      · have hoperand := hdenotes.cheap count hcount
        have hothers := hrest.cheap count hcount
        rw [hnext] at hoperand
        rw [List.flatMap_cons, List.flatMap_cons, List.map_append, weight_append, weight_append,
          List.map_cons, weight_cons]
        simp only [Operation.words, Operation.methodWords, Option.map_some, Option.toList_some,
          List.singleton_append, weight_cons, Method.word, Token.word, hkind]
        omega

/-- A chain with links denotes the sequence of its operands. -/
theorem chain {rule : Rule} {links : List (Token × ParseTree)} {operations : List Operation}
    (hgoal : goal.chain? = some (rule, operand)) (h : Denotes operand tokens e)
    (hlinks : OfLinks goal rule links operations) (hne : operations ≠ [])
    (origin origin' : Option Origin) :
    Denotes goal (tokens ++ links.flatMap fun link => link.1 :: link.2.leaves)
      (.seq (⟨none, e, origin⟩ :: operations) origin') := by
  obtain ⟨-, -, hnext⟩ := Nonterminal.chain?_facts hgoal
  have hlevel : (Expr.seq (⟨none, e, origin⟩ :: operations) origin').level = goal.level :=
    Expr.level_seq rfl hlinks.priority hne
  -- the place of the chain asks for the level of the sequence, so nothing is added around it
  refine ⟨.seq rfl h.wellFormed hlinks.priority hlinks.wellFormed, ?_, fun count hcount => ?_⟩
  · rw [Expr.decimals, Operation.decimals_cons, h.decimals, hlinks.decimals, List.filterMap_append]
  · have hfirst := h.cheap count hcount
    have hrest := hlinks.cheap count hcount
    rw [hnext] at hfirst
    rw [Expr.wordsWithin_of_le hlevel.ge, Expr.words_seq rfl hlinks.priority hne, weight_append,
      List.map_append, weight_append]
    exact Nat.add_le_add hfirst hrest

end Denotes

/-! ## Every derivation denotes an expression -/

theorem Nonterminal.level_of_isAtom {atom : Nonterminal} (h : atom.isAtom = true) :
    atom.level = 7 := by
  cases atom <;> first | rfl | cases h

/-- **Every derivation denotes an expression.** -/
theorem Derivation.denotes {goal : Nonterminal} {full : ParseTree} (h : Derivation goal full)
    (hspelled : ∀ token ∈ full.leaves, token.Spelled) :
    ∃ e, full.collapse.build = .ok e ∧ Denotes goal full.leaves e := by
  induction h with
  | expression _ ih =>
      obtain ⟨e, hbuild, hdenotes⟩ := ih hspelled
      exact ⟨e, hbuild, hdenotes.loosen (Nat.le_refl 2)⟩
  | @chain goal operand rule first links hgoal hfirst hoperators hlinks ihfirst ihlinks =>
      obtain ⟨hchain, hrule, hnext⟩ := Nonterminal.chain?_facts hgoal
      rw [ParseTree.leaves_chain] at hspelled ⊢
      obtain ⟨e, hbuild, hdenotes⟩ :=
        ihfirst fun token hmem => hspelled token (List.mem_append_left _ hmem)
      cases links with
      | nil =>
          -- a level of one operand leaves no node, and its place asks for no more
          refine ⟨e, ?_, ?_⟩
          · rw [Element.ofLinks_nil, ParseTree.collapse_chain_nil first hchain]
            exact hbuild
          · rw [List.flatMap_nil, List.append_nil]
            exact hdenotes.loosen (by omega)
      | cons link links =>
          obtain ⟨operations, hoperations⟩ := Denotes.ofLinks hgoal hoperators
            fun other hmem => ihlinks other hmem fun token htoken =>
              hspelled token (List.mem_append_right _ (List.mem_flatMap.2
                ⟨other, hmem, List.mem_cons_of_mem _ htoken⟩))
          have hne : operations ≠ [] := by
            rintro rfl
            exact absurd hoperations.length (by simp)
          have hseq := ParseTree.build_chain hgoal hbuild hoperations.build hne
          rw [collapse_chain_cons hfirst hlinks (by simp)]
          exact ⟨_, hseq, hdenotes.chain hgoal hoperations hne _ _⟩
  | @plain atom full hatom hfull ih =>
      rw [ParseTree.leaves_plain] at hspelled ⊢
      obtain ⟨e, hbuild, hdenotes⟩ := ih hspelled
      refine ⟨e, ?_, hdenotes.loosen ?_⟩
      · rw [hfull.collapse_plain]
        exact ParseTree.build_plain hbuild
      · rw [Nonterminal.level_of_isAtom hatom]
        decide
  | @negated atom minus full hatom hminus hfull ih =>
      rw [ParseTree.leaves_negated] at hspelled ⊢
      obtain ⟨e, hbuild, hdenotes⟩ :=
        ih fun token hmem => hspelled token (List.mem_cons_of_mem _ hmem)
      have hneg := ParseTree.build_negated hminus hbuild
      -- the operand of a sign is an atom, so printing finds it in the tightest place of all
      rw [hfull.collapse_negated]
      exact ⟨_, hneg, hdenotes.negated hminus (Nonterminal.level_of_isAtom hatom) _⟩
  | @paren opening closing full hopening hfull hclosing ih =>
      rw [ParseTree.leaves_paren] at hspelled ⊢
      obtain ⟨e, hbuild, hdenotes⟩ := ih fun token hmem =>
        hspelled token (List.mem_cons_of_mem _ (List.mem_append_left _ hmem))
      refine ⟨e, ?_, hdenotes.paren hopening hclosing⟩
      rw [collapse_paren]
      exact ParseTree.build_paren opening closing hbuild
  | @function name opening closing full hname hopening hfull hclosing ih =>
      rw [ParseTree.leaves_function] at hspelled ⊢
      obtain ⟨e, hbuild, hdenotes⟩ := ih fun token hmem =>
        hspelled token (by simp [hmem])
      have happ := ParseTree.build_function opening closing hname hbuild
      rw [collapse_function]
      exact ⟨_, happ, hdenotes.function hname hopening hclosing
        (hspelled name List.mem_cons_self) _⟩
  | @var name hname =>
      exact ⟨_, ParseTree.build_var hname, .var hname (hspelled name List.mem_cons_self) _⟩
  | @integer digits hdigits =>
      have hvalue := canonicalDigits?_of_isDigits ((hspelled digits List.mem_cons_self).int hdigits)
      exact ⟨_, ParseTree.build_integer hdigits hvalue, .integer hdigits hvalue _⟩
  | @decimal digits hdigits =>
      obtain ⟨value, hvalue, hrange⟩ :=
        exists_read?_of_isPointed ((hspelled digits List.mem_cons_self).float hdigits)
      exact ⟨_, ParseTree.build_decimal hdigits hvalue, .decimal hdigits hvalue hrange _⟩

/-- **A text that can be read denotes what is read.** -/
theorem denotes_of_parse {text : String} {e : Expr} (h : parse text = .ok e) :
    Denotes .expression (significantTokens (tokenize text)) e := by
  unfold parse at h
  cases htree : parseTree text with
  | error failure =>
      rw [htree] at h
      cases h
  | ok tree =>
      obtain ⟨full, hfull, hleaves, rfl⟩ := parseTree_eq_ok_iff_collapse.1 htree
      obtain ⟨built, hbuild, hdenotes⟩ := hfull.denotes fun token hmem =>
        spelled_of_mem_tokenize (hleaves ▸ hmem)
      rw [htree] at h
      dsimp only at h
      rw [hbuild] at h
      cases h
      rw [← hleaves]
      exact hdenotes

/-- A decimal that was read is a literal or an infinity. -/
theorem decimal_of_parse {text : String} {e : Expr} (h : parse text = .ok e) :
    ∀ value ∈ e.decimals, value.isLiteral = true ∨ value = .infinite false := by
  intro value hmem
  rw [(denotes_of_parse h).decimals] at hmem
  obtain ⟨token, htoken, hvalue⟩ := List.mem_filterMap.1 hmem
  by_cases hkind : token.kind = .float
  · rw [Token.decimal?, if_pos hkind] at hvalue
    obtain ⟨value', hvalue', hrange⟩ :=
      exists_read?_of_isPointed ((spelled_of_mem_tokenize htoken).float hkind)
    rw [hvalue] at hvalue'
    cases hvalue'
    exact hrange
  · rw [Token.decimal?_of_kind_ne hkind] at hvalue
    cases hvalue

end AlgebraText
