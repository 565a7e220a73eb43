import AlgebraText.Proofs.Expr.Totality
import AlgebraText.Proofs.Grammar.ViablePrefix
import AlgebraText.Proofs.Parser.Endings

/-!
# Every rule takes the longest match

A rule never takes back a token that would have made its match longer: where it succeeds, no more of
the tokens ahead are derivable from it. This is no matter of course for a parser that tries
alternatives. It holds because a match is ended by its next token alone, and the two kinds of token
on which a rule could have gone on without doing so stand in no longer derivation. These are a point
and, after anything but a name, an opening square bracket. After a name the rules of operands have
looked for the bracket before they took the name for a variable.

## What this module delivers

* `Derivable.expression`: what any rule derives is an expression, so the machine of frontiers reads
  it;
* `Derivation.mem_continuations`: the token with which a longer derivation goes on is one on which
  the rule goes on;
* `Parser.explained_of_ok` and `Parser.length_le_of_ok`: where a rule ends, nothing longer is
  derivable;
* `parser_longest_match`: what a rule takes, at any place of any text.
-/

set_option autoImplicit false

namespace AlgebraText

/-! ## Rules and whole expressions -/

namespace Derivable

variable {goal operand : Nonterminal} {rule : Rule} {tokens : List Token}

/-- An operand is a chain on its own. -/
theorem of_operand (hgoal : goal.chain? = some (rule, operand)) (h : Derivable operand tokens) :
    Derivable goal tokens := by
  obtain ⟨full, hfull, rfl⟩ := h
  refine ⟨.ofChildren rule (.node full :: Element.ofLinks []),
    .chain hgoal hfull (by simp) (by simp), ?_⟩
  rw [ParseTree.leaves_chain, List.flatMap_nil, List.append_nil]

/-- **What any rule derives is an expression.** -/
theorem expression (h : Derivable goal tokens) : Derivable .expression tokens := by
  have hadditive : Derivable .additive tokens → Derivable .expression tokens :=
    fun ⟨full, hfull, hleaves⟩ => ⟨full, .expression hfull, hleaves⟩
  have hmultiply : Derivable .multiply tokens → Derivable .expression tokens :=
    fun h => hadditive (h.of_operand rfl)
  have hdivide : Derivable .divide tokens → Derivable .expression tokens :=
    fun h => hmultiply (h.of_operand rfl)
  have hpower : Derivable .power tokens → Derivable .expression tokens :=
    fun h => hdivide (h.of_operand rfl)
  have hsingle : Derivable .single tokens → Derivable .expression tokens :=
    fun h => hpower (h.of_operand rfl)
  cases goal with
  | expression => exact h
  | additive => exact hadditive h
  | multiply => exact hmultiply h
  | divide => exact hdivide h
  | power => exact hpower h
  | single => exact hsingle h
  | paren | function | var | number =>
      obtain ⟨full, hfull, rfl⟩ := h
      exact hsingle ⟨_, .plain rfl hfull, full.leaves_plain⟩

/-- The machine of frontiers reads whatever a rule derives. -/
theorem exists_run (h : Derivable goal tokens) :
    ∃ final, Frontier.start.run tokens = some final := by
  obtain ⟨final, hrun, -⟩ := derivable_iff_run.1 h.expression
  exact ⟨final, hrun⟩

end Derivable

namespace Derivation

/-- **A longer derivation goes on with a token on which the rule goes on.** With any other token
behind it the shorter derivation is what the parser reads, and the parser has one answer. -/
theorem mem_continuations {goal : Nonterminal} {full longer : ParseTree} {next : Token}
    {more : List Token} (h : Derivation goal full) (hlonger : Derivation goal longer)
    (hleaves : longer.leaves = full.leaves ++ next :: more) : next.kind ∈ goal.continuations := by
  by_contra hother
  have hpending := Cursor.pending_ofTokens hlonger.isBlank_of_mem_leaves
  obtain ⟨later, hrun, hlater⟩ := h.reads (Cursor.ofTokens longer.leaves) (next :: more)
    (hpending.trans hleaves) (.cons hother)
  obtain ⟨later', hrun', hlater'⟩ := hlonger.reads (Cursor.ofTokens longer.leaves) []
    (by rw [hpending, List.append_nil]) (.nil goal)
  rw [hrun] at hrun'
  injection hrun' with _ hsame
  rw [← hsame, hlater] at hlater'
  cases hlater'

/-- A variable is a single token. -/
theorem leaves_length_of_var {full : ParseTree} (h : Derivation .var full) :
    full.leaves.length = 1 := by
  cases h with
  | chain hgoal => cases hgoal
  | var => rfl

end Derivation

/-! ## Where a rule ends -/

namespace Parser

variable {goal : Nonterminal} {cursor later : Cursor} {tree : ParseTree}

/-- **Every rule but that of variables is explained where it succeeds.** A variable taken on its own
has not looked for a square bracket. -/
theorem explained_of_ok (hgoal : goal ≠ .var) (hrun : goal.parser cursor = .ok tree later) :
    Explained goal .start cursor (goal.parser cursor) := by
  obtain ⟨full, hfull, -, hpending⟩ := goal.sound_parser cursor tree later hrun
  have hbelow : ∀ inner : Cursor, inner.ahead.length < cursor.ahead.length →
      Explained .expression .start inner (expression inner) :=
    fun inner _ => explained_expression inner
  have hle := Nat.le_refl cursor.ahead.length
  cases goal with
  | expression => exact explained_expression cursor
  | additive => exact explained_additive hbelow cursor hle
  | multiply => exact explained_multiply hbelow cursor hle
  | divide => exact explained_divide hbelow cursor hle
  | power => exact explained_power hbelow cursor hle
  | single => exact explained_single hbelow hle
  | paren =>
      -- the first tokens of the match are those on which an operand chooses its alternative
      cases hfull with
      | chain hchain => cases hchain
      | paren hopening =>
          rw [ParseTree.leaves_paren] at hpending
          exact explained_paren hbelow hle hpending hopening true
  | function =>
      cases hfull with
      | chain hchain => cases hchain
      | function hname hopening =>
          rw [ParseTree.leaves_function] at hpending
          exact explained_function hbelow hle hpending hname hopening true
  | var => exact absurd rfl hgoal
  | number =>
      cases hfull with
      | chain hchain => cases hchain
      | integer hdigits => exact explained_number hpending (by simp [hdigits]) true
      | decimal hdigits => exact explained_number hpending (by simp [hdigits]) true

/-- Where a match has ended, no longer derivation goes on. -/
theorem Ended.not_longer {named : Bool} {full longer : ParseTree} {next : Token}
    {more rest : List Token} (hended : Ended goal named (next :: rest))
    (hread : Frontier.start.run full.leaves = some ⟨[], .operator named⟩)
    (hfull : Derivation goal full) (hlonger : Derivation goal longer)
    (hleaves : longer.leaves = full.leaves ++ next :: more) : False := by
  rcases hended next rfl (hfull.mem_continuations hlonger hleaves) with ⟨hsquare, rfl⟩ | hdot
  · -- after anything but a name the machine does not read a square bracket
    obtain ⟨final, hfinal⟩ := Derivable.exists_run ⟨longer, hlonger, hleaves⟩
    have hstuck : Frontier.step ⟨[], .operator false⟩ next = none := by
      simp [Frontier.step, hsquare, Expectation.after?]
    rw [Frontier.run_append_of_run hread, Frontier.run_cons_of_stuck hstuck] at hfinal
    cases hfinal
  · -- the grammar has no place for a point
    have hterminal := hlonger.isTerminal_of_mem_leaves next (by rw [hleaves]; simp)
    rw [hdot] at hterminal
    cases hterminal

/-- **No more of the tokens ahead are derivable than a rule has taken.** -/
theorem length_le_of_ok {run : List Token} (hrun : goal.parser cursor = .ok tree later)
    (hahead : run <+: cursor.pending) (hderivable : Derivable goal run) :
    run.length ≤ tree.leaves.length := by
  obtain ⟨full, hfull, rfl, hpending⟩ := goal.sound_parser cursor tree later hrun
  obtain ⟨longer, hlonger, rfl⟩ := hderivable
  rw [full.leaves_collapse]
  by_cases hvar : goal = .var
  · subst hvar
    rw [hfull.leaves_length_of_var, hlonger.leaves_length_of_var]
  have hexplained := explained_of_ok hvar hrun
  rw [hrun] at hexplained
  obtain ⟨named, ⟨-, seen, hseen, hread⟩, hended⟩ := hexplained
  obtain rfl : full.leaves = seen := List.append_cancel_right (hpending.symm.trans hseen)
  by_contra hless
  -- a longer run goes on with the token before which the rule has ended
  obtain ⟨_ | ⟨next, more⟩, hleaves⟩ : full.leaves <+: longer.leaves :=
    List.prefix_of_prefix_length_le ⟨later.pending, hpending.symm⟩ hahead (by omega)
  · rw [List.append_nil] at hleaves
    exact hless (Nat.le_of_eq (congrArg List.length hleaves.symm))
  · obtain ⟨rest, hrest⟩ := hahead
    rw [hpending, ← hleaves, List.append_assoc, List.append_cancel_left_eq] at hrest
    rw [← hrest] at hended
    exact hended.not_longer hread hfull hlonger hleaves.symm

end Parser

/-! ## Places in the tokens -/

namespace Cursor

/-- The tokens behind a cursor are those before its position. -/
theorem take_buffer (cursor : Cursor) :
    cursor.buffer.take cursor.position = cursor.behind.reverse := by
  rw [buffer, position, ← List.length_reverse, List.take_left]

/-- The tokens ahead of a cursor are those from its position on. -/
theorem drop_buffer (cursor : Cursor) : cursor.buffer.drop cursor.position = cursor.ahead := by
  rw [buffer, position, ← List.length_reverse, List.drop_left]

/-- The token directly behind a cursor stands one before its position. -/
theorem head?_behind (cursor : Cursor) (hbehind : 0 < cursor.position) :
    cursor.behind.head? = cursor.buffer[cursor.position - 1]? := by
  have hlast : cursor.position - 1 < cursor.position := Nat.sub_one_lt_of_lt hbehind
  rw [← List.getElem?_take_of_lt hlast, take_buffer, ← List.getLast?_reverse,
    List.getLast?_eq_getElem?, List.length_reverse, position]

/-- Between two cursors stand the tokens that were passed. -/
theorem slice_buffer {cursor later : Cursor} {passed : List Token}
    (hahead : cursor.ahead = passed ++ later.ahead)
    (hbehind : later.behind = passed.reverse ++ cursor.behind) :
    (cursor.buffer.take later.position).drop cursor.position = passed := by
  have hbuffer := Reaches.buffer_eq ⟨passed, hahead, hbehind⟩
  rw [← hbuffer, take_buffer, hbehind, List.reverse_append, List.reverse_reverse, position,
    ← List.length_reverse, List.drop_left]

end Cursor

/-! ## The longest match -/

/-- **Every rule takes the longest match.** Wherever it stands, if it succeeds then it ends further
on in the same tokens, directly behind the last leaf of its tree, and the leaves are the significant
tokens between. Its tree is the one derivation of these tokens, collapsed, and no longer run of the
significant tokens ahead is derivable. -/
theorem parser_longest_match (goal : Nonterminal) {cursor later : Cursor} {tree : ParseTree}
    (hrun : goal.parser cursor = .ok tree later) :
    later.buffer = cursor.buffer ∧ cursor.position < later.position ∧
      tree.leaves.getLast? = cursor.buffer[later.position - 1]? ∧
      tree.leaves =
        significantTokens ((cursor.buffer.take later.position).drop cursor.position) ∧
      (∃ full, Derivation goal full ∧ full.leaves = tree.leaves ∧ full.collapse = tree ∧
        ∀ other, Derivation goal other → other.leaves = tree.leaves → other = full) ∧
      ∀ run, run <+: significantTokens (cursor.buffer.drop cursor.position) →
        Derivable goal run → run.length ≤ tree.leaves.length := by
  obtain ⟨passed, hahead, hbehind, hleaves, hlast⟩ := Parser.leaves_of_sound goal.sound_parser
    goal.advances_parser goal.endsBehindToken hrun
  obtain ⟨full, hfull, rfl, -⟩ := goal.sound_parser cursor tree later hrun
  have hbuffer := Cursor.Reaches.buffer_eq ⟨passed, hahead, hbehind⟩
  have hsame := full.leaves_collapse
  -- a match has leaves, so a token was passed
  have hpassed : passed ≠ [] := by
    rintro rfl
    exact hfull.covers_collapse.1 hleaves
  have hposition : cursor.position < later.position := by
    rw [Cursor.position, Cursor.position, hbehind, List.length_append, List.length_reverse]
    exact Nat.lt_add_of_pos_left (List.length_pos_iff.2 hpassed)
  refine ⟨hbuffer, hposition, ?_, ?_, ?_, fun run hfront hderivable => ?_⟩
  · rw [hlast, later.head?_behind (Nat.zero_lt_of_lt hposition), hbuffer]
  · rw [hleaves, Cursor.slice_buffer hahead hbehind]
  · exact ⟨full, hfull, hsame.symm, rfl,
      fun other hother heq => hother.unique hfull (heq.trans hsame)⟩
  · rw [cursor.drop_buffer] at hfront
    exact Parser.length_le_of_ok hrun hfront hderivable

/-- Behind `a * ` the rule of divisions takes `b/2^x`. It stops before the difference, and neither
`b` nor `b/2` is all that it could take. -/
theorem parser_longest_match_midway :
    ∃ tree later,
      Nonterminal.divide.parser ⟨((tokenize "a * b/2^x - c").take 4).reverse,
        (tokenize "a * b/2^x - c").drop 4, []⟩ = .ok tree later ∧
      tree.leaves.map Token.lexeme = ["b", "/", "2", "^", "x"] ∧ later.position = 9 ∧
      ∀ run, run <+: significantTokens ((tokenize "a * b/2^x - c").drop 4) →
        Derivable .divide run → run.length ≤ 5 := by
  obtain ⟨tree, later, hrun, hleaves, hposition⟩ : ∃ tree later,
      Nonterminal.divide.parser ⟨((tokenize "a * b/2^x - c").take 4).reverse,
        (tokenize "a * b/2^x - c").drop 4, []⟩ = .ok tree later ∧
      tree.leaves.map Token.lexeme = ["b", "/", "2", "^", "x"] ∧ later.position = 9 :=
    ⟨_, _, by cbv, by cbv, by cbv⟩
  obtain ⟨-, -, -, -, -, hlongest⟩ := parser_longest_match .divide hrun
  have hlength := congrArg List.length hleaves
  rw [List.length_map] at hlength
  refine ⟨tree, later, hrun, hleaves, hposition, fun run hfront hderivable => ?_⟩
  rw [Cursor.drop_buffer] at hlongest
  exact (hlongest run hfront hderivable).trans (Nat.le_of_eq hlength)

end AlgebraText
