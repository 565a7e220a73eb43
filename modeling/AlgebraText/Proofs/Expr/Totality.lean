import AlgebraText.Parser.Script
import AlgebraText.Proofs.Expr.Denotation

/-!
# The builder accepts every tree of the parser

The builder checks the shape of every node and refuses what it does not know. The parser never makes
such a node, whichever rule is run and wherever the parser stands: what it makes is a derivation of
tokens of the text, and every derivation denotes an expression. So reading fails only where parsing
does.

Where the parser can stand is a matter of what was done before. However it is driven, the cursor
stays among the tokens of the text (`Step.runAll_keeps`), and this is all that counts.

## What this module delivers

* `Nonterminal.sound_parser`: every rule is sound on its own;
* `Parser.Builds`, with one lemma for each way of combining rules;
* `Step.perform_keeps` and `Step.runAll_keeps`: what steps and scripts of steps keep;
* `parser_trees_build`: no tree that the parser makes is refused.
-/

set_option autoImplicit false

namespace AlgebraText

/-- An expression can be built from a tree. -/
def ParseTree.Builds (tree : ParseTree) : Prop := ∃ e, tree.build = .ok e

/-- A cursor among tokens that are spelled as their kinds say. -/
def Cursor.Spelled (cursor : Cursor) : Prop := ∀ token ∈ cursor.buffer, token.Spelled

theorem Cursor.Spelled.of_buffer_eq {cursor later : Cursor} (h : cursor.Spelled)
    (hbuffer : later.buffer = cursor.buffer) : later.Spelled := by
  unfold Cursor.Spelled
  rwa [hbuffer]

theorem Cursor.spelled_ofText (text : String) : (Cursor.ofText text).Spelled :=
  spelled_of_mem_tokensFrom 0 text.toList

/-- The pending tokens are among all tokens. -/
theorem Cursor.mem_buffer_of_mem_pending {cursor : Cursor} {token : Token}
    (h : token ∈ cursor.pending) : token ∈ cursor.buffer :=
  List.mem_append_right _ (List.mem_filter.1 h).1

/-- **Every rule is sound.** -/
theorem Nonterminal.sound_parser (goal : Nonterminal) : Parser.Sound goal goal.parser := by
  have hexpression := Parser.sound_expression
  have hsingle := Parser.sound_single hexpression
  have hpower : Parser.Sound .power (Nonterminal.parser .power) := Parser.sound_chain rfl hsingle
  have hdivide : Parser.Sound .divide (Nonterminal.parser .divide) := Parser.sound_chain rfl hpower
  cases goal with
  | expression => exact hexpression
  | additive => exact Parser.sound_additive hexpression
  | multiply => exact Parser.sound_chain rfl hdivide
  | divide => exact hdivide
  | power => exact hpower
  | single => exact hsingle
  | paren => exact Parser.sound_paren hexpression
  | function => exact Parser.sound_function hexpression
  | var => exact Parser.sound_var
  | number => exact Parser.sound_number

namespace Parser

/-! ## Rules -/

/-- A parser from whose trees expressions can be built, wherever it stands in a text. -/
def Builds (parser : Parser ParseTree) : Prop :=
  ∀ cursor tree later, cursor.Spelled → parser cursor = .ok tree later → tree.Builds

theorem builds_of_sound {goal : Nonterminal} {parser : Parser ParseTree} (h : Sound goal parser) :
    Builds parser := by
  intro cursor tree later hspelled hrun
  obtain ⟨full, hfull, rfl, hpending⟩ := h cursor tree later hrun
  -- the leaves are tokens ahead of the cursor
  obtain ⟨e, hbuild, -⟩ := hfull.denotes fun token hmem =>
    hspelled token (Cursor.mem_buffer_of_mem_pending (by rw [hpending]; simp [hmem]))
  exact ⟨e, hbuild⟩

theorem builds_rewinding {parser : Parser ParseTree} (h : Builds parser) :
    Builds (rewinding parser) :=
  fun cursor tree later hspelled hrun => h cursor tree later hspelled (rewinding_eq_ok.1 hrun)

theorem builds_firstOf {parsers : List (Parser ParseTree)} {lastResort : Parser ParseTree}
    (h : ∀ parser ∈ parsers, Advances parser ∧ Builds parser) (hlast : Builds lastResort) :
    Builds (firstOf parsers lastResort) := by
  induction parsers with
  | nil => exact hlast
  | cons parser parsers ih =>
      have hothers := ih fun other hmem => h other (List.mem_cons_of_mem _ hmem)
      obtain ⟨hadvances, hbuilds⟩ := h parser List.mem_cons_self
      intro cursor tree later hspelled hrun
      have hreach := hadvances cursor
      cases hfirst : parser cursor with
      | ok value middle =>
          simp only [firstOf, hfirst] at hrun
          cases hrun
          exact hbuilds cursor tree later hspelled hfirst
      | error failure middle =>
          rw [hfirst] at hreach
          simp only [firstOf, hfirst] at hrun
          split at hrun
          · cases hrun
          · -- the next alternative starts where the failed one ended, in the same text
            exact hothers middle tree later (hspelled.of_buffer_eq hreach.buffer_eq) hrun

theorem builds_wholeExpression : Builds wholeExpression := by
  intro cursor tree later hspelled hrun
  obtain ⟨hrun, -⟩ := wholeExpression_eq_ok.1 hrun
  exact builds_of_sound sound_expression cursor tree later hspelled hrun

theorem advances_nothingLeft : Advances nothingLeft := by
  intro cursor
  unfold nothingLeft
  split
  · exact .refl cursor
  · exact .refl cursor

theorem advances_wholeExpression : Advances wholeExpression :=
  advances_bind (advances_rewinding advances_expression) fun _ =>
    advances_bind advances_nothingLeft fun _ => advances_pure _

theorem advances_next (rule : Rule) : Advances (next rule) := by
  intro cursor
  unfold next
  split
  · rename_i token later hnext
    exact .of_next? hnext
  · exact .refl cursor

end Parser

/-! ## Scripts -/

mutual

/-- The trees in a reply. -/
def Reply.trees : Reply → List ParseTree
  | .tree found => [found]
  | .group replies _ => Reply.treesOfList replies
  | .token _ => []
  | .look _ => []
  | .span _ => []
  | .failure _ => []

/-- The trees in the replies to a script. -/
def Reply.treesOfList : List (Reply × Option Nat) → List ParseTree
  | [] => []
  | (reply, _) :: replies => reply.trees ++ Reply.treesOfList replies

end

namespace Step

/-- What running steps keeps: the cursor stays in its text, and expressions can be built from the
trees it has found. -/
def Keeps (cursor : Cursor) (trees : List ParseTree) (later : Cursor) : Prop :=
  later.buffer = cursor.buffer ∧ ∀ tree ∈ trees, tree.Builds

/-- The reply of a parser keeps what it should if the parser stays in the text and expressions can
be built from what it finds. -/
theorem reply_keeps {α : Type} {parser : Parser α} {wrap : α → Reply} {cursor : Cursor}
    (hadvances : Parser.Advances parser)
    (htrees : ∀ value later, parser cursor = .ok value later →
      ∀ tree ∈ (wrap value).trees, tree.Builds) :
    Keeps cursor (reply wrap (parser cursor)).1.trees (reply wrap (parser cursor)).2 := by
  have hreach := hadvances cursor
  cases hrun : parser cursor with
  | ok value later =>
      rw [hrun] at hreach
      exact ⟨hreach.buffer_eq, htrees value later hrun⟩
  | error failure later =>
      rw [hrun] at hreach
      refine ⟨hreach.buffer_eq, fun tree hmem => ?_⟩
      simp [reply, Reply.trees] at hmem

theorem reply_tree_keeps {parser : Parser ParseTree} (hadvances : Parser.Advances parser)
    (hbuilds : Parser.Builds parser) {cursor : Cursor} (hspelled : cursor.Spelled) :
    Keeps cursor (reply .tree (parser cursor)).1.trees (reply .tree (parser cursor)).2 := by
  refine reply_keeps hadvances fun found later hrun tree hmem => ?_
  rw [Reply.trees, List.mem_singleton] at hmem
  exact hmem ▸ hbuilds cursor found later hspelled hrun

theorem alternatives_keeps (goals : List Nonterminal) {cursor : Cursor}
    (hspelled : cursor.Spelled) :
    Keeps cursor (reply .tree (alternatives goals cursor)).1.trees
      (reply .tree (alternatives goals cursor)).2 := by
  have hrules : ∀ parser ∈ goals.map fun goal => Parser.rewinding goal.parser,
      Parser.Advances parser ∧ Parser.Builds parser := by
    intro parser hmem
    obtain ⟨goal, -, rfl⟩ := List.mem_map.1 hmem
    exact ⟨Parser.advances_rewinding goal.advances_parser,
      Parser.builds_rewinding (Parser.builds_of_sound goal.sound_parser)⟩
  refine reply_tree_keeps (Parser.advances_firstOf (fun parser hmem => (hrules parser hmem).1) ?_)
    (Parser.builds_firstOf hrules ?_) hspelled
  · exact fun cursor => .refl cursor
  · intro cursor tree later _ hrun
    cases hrun

mutual

/-- **What one step keeps.** -/
theorem perform_keeps {cursor : Cursor} (hspelled : cursor.Spelled) (step : Step) :
    Keeps cursor (step.perform cursor).1.trees (step.perform cursor).2 := by
  -- a step that only looks answers without a tree and moves nothing
  have hlook : ∀ {answer : Reply}, answer.trees = [] → Keeps cursor answer.trees cursor :=
    fun hnone => ⟨rfl, by simp [hnone]⟩
  match step with
  | .attempt goal =>
      rw [perform]
      exact reply_tree_keeps (Parser.advances_rewinding goal.advances_parser)
        (Parser.builds_rewinding (Parser.builds_of_sound goal.sound_parser)) hspelled
  | .run goal =>
      rw [perform]
      exact reply_tree_keeps goal.advances_parser (Parser.builds_of_sound goal.sound_parser)
        hspelled
  | .whole =>
      rw [perform]
      exact reply_tree_keeps Parser.advances_wholeExpression Parser.builds_wholeExpression hspelled
  | .firstOf goals =>
      rw [perform]
      exact alternatives_keeps goals hspelled
  | .peek | .current | .span | .endSpan =>
      rw [perform]
      exact hlook (by rw [Reply.trees])
  | .raise how rule cause =>
      rw [perform]
      exact hlook (by rw [Reply.trees])
  | .next rule =>
      rw [perform]
      exact reply_keeps (Parser.advances_next rule) fun _ _ _ => by simp [Reply.trees]
  | .expect rule kinds =>
      rw [perform]
      exact reply_keeps (Parser.advances_expect rule kinds) fun _ _ _ => by simp [Reply.trees]
  | .group steps fails =>
      obtain ⟨hbuffer, htrees⟩ := runAll_keeps hspelled steps
      rw [perform]
      -- a group that is taken back ends where it started
      cases fails with
      | true => exact ⟨rfl, by simpa [Reply.trees] using htrees⟩
      | false => exact ⟨hbuffer, by simpa [Reply.trees] using htrees⟩

/-- **What a script keeps.** -/
theorem runAll_keeps {cursor : Cursor} (hspelled : cursor.Spelled) (steps : List Step) :
    Keeps cursor (Reply.treesOfList (runAll cursor steps).1) (runAll cursor steps).2 := by
  match steps with
  | [] =>
      rw [runAll]
      exact ⟨rfl, by simp [Reply.treesOfList]⟩
  | step :: steps =>
      obtain ⟨hbuffer, htrees⟩ := perform_keeps hspelled step
      obtain ⟨hbuffer', htrees'⟩ := runAll_keeps (hspelled.of_buffer_eq hbuffer) steps
      rw [runAll]
      refine ⟨hbuffer'.trans hbuffer, fun tree hmem => ?_⟩
      rw [Reply.treesOfList] at hmem
      rcases List.mem_append.1 hmem with hmem | hmem
      · exact htrees tree hmem
      · exact htrees' tree hmem

end

end Step

/-- **The builder accepts every tree of the parser.** However the parser was driven through a text,
if a rule succeeds where it stands, or an expression with nothing but blanks after it, then an
expression can be built from the tree; the same holds of the trees found on the way. So the failures
of reading a text are those of parsing it. -/
theorem parser_trees_build (text : String) :
    (∀ steps (goal : Nonterminal) tree later,
      goal.parser (Step.runAll (Cursor.ofText text) steps).2 = .ok tree later →
        ∃ e, tree.build = .ok e) ∧
    (∀ steps tree later,
      Parser.wholeExpression (Step.runAll (Cursor.ofText text) steps).2 = .ok tree later →
        ∃ e, tree.build = .ok e) ∧
    (∀ steps, ∀ tree ∈ Reply.treesOfList (Step.runAll (Cursor.ofText text) steps).1,
      ∃ e, tree.build = .ok e) ∧
    (∀ failure, parse text = .error failure ↔
      ∃ cause, failure = .parse cause ∧ parseTree text = .error cause) ∧
    ∀ failure, parse text ≠ .error (.build failure) := by
  have hspelled := Cursor.spelled_ofText text
  have hkeeps := Step.runAll_keeps hspelled
  have hplace : ∀ steps, (Step.runAll (Cursor.ofText text) steps).2.Spelled :=
    fun steps => hspelled.of_buffer_eq (hkeeps steps).1
  have hfailure : ∀ failure, parse text = .error failure ↔
      ∃ cause, failure = .parse cause ∧ parseTree text = .error cause := by
    intro failure
    unfold parse
    cases htree : parseTree text with
    | error cause => simp [eq_comm]
    | ok tree =>
        obtain ⟨later, hrun⟩ := parseTree_eq_ok.1 htree
        obtain ⟨e, hbuild⟩ := Parser.builds_wholeExpression _ tree later hspelled hrun
        simp [hbuild]
  refine ⟨fun steps goal tree later hrun => ?_, fun steps tree later hrun => ?_,
    fun steps tree hmem => (hkeeps steps).2 tree hmem, hfailure, fun failure hbuild => ?_⟩
  · exact Parser.builds_of_sound goal.sound_parser _ tree later (hplace steps) hrun
  · exact Parser.builds_wholeExpression _ tree later (hplace steps) hrun
  · obtain ⟨cause, hcause, -⟩ := (hfailure _).1 hbuild
    cases hcause

/-- In `x - (2.5` the parenthesis is not closed, so reading fails as parsing does. A number can be
read behind the parenthesis all the same, and expressions can be built from it and from the variable
before it. -/
theorem parser_trees_build_midway :
    (Reply.treesOfList (Step.runAll (Cursor.ofText "x - (2.5")
        [.run .var, .whole, .next .single, .expect .paren [.openParen], .run .number]).1 =
      [⟨.var, ⟨0, 1⟩, [.token ⟨.name, "x", ⟨0, 1⟩⟩]⟩,
        ⟨.decimal, ⟨5, 8⟩, [.token ⟨.float, "2.5", ⟨5, 8⟩⟩]⟩] ∧
      ∀ tree ∈ [(⟨.var, ⟨0, 1⟩, [.token ⟨.name, "x", ⟨0, 1⟩⟩]⟩ : ParseTree),
        ⟨.decimal, ⟨5, 8⟩, [.token ⟨.float, "2.5", ⟨5, 8⟩⟩]⟩], ∃ e, tree.build = .ok e) ∧
    parse "x - (2.5" =
      .error (.parse ⟨.paren, [⟨4, 5⟩, ⟨8, 8⟩], true, .unclosedParenthesis⟩) := by
  obtain ⟨-, -, hreplies, hfailure, -⟩ := parser_trees_build "x - (2.5"
  have htrees : Reply.treesOfList (Step.runAll (Cursor.ofText "x - (2.5")
      [.run .var, .whole, .next .single, .expect .paren [.openParen], .run .number]).1 =
        [⟨.var, ⟨0, 1⟩, [.token ⟨.name, "x", ⟨0, 1⟩⟩]⟩,
          ⟨.decimal, ⟨5, 8⟩, [.token ⟨.float, "2.5", ⟨5, 8⟩⟩]⟩] := by cbv
  have hparse : parseTree "x - (2.5" =
      .error ⟨.paren, [⟨4, 5⟩, ⟨8, 8⟩], true, .unclosedParenthesis⟩ := by cbv
  refine ⟨⟨htrees, fun tree hmem => ?_⟩, (hfailure _).2 ⟨_, rfl, hparse⟩⟩
  exact hreplies _ tree (htrees ▸ hmem)

end AlgebraText
