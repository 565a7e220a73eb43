import AlgebraText.Proofs.Grammar.Losslessness
import AlgebraText.Proofs.Grammar.Soundness

/-!
# Where a match ends

Blanks are skipped when a token is taken and never after it, so a rule that succeeds leaves the
cursor directly behind the last token it took. That token is the last leaf of its tree, and the
leaves are exactly the significant tokens between the two cursors.

## What this module delivers

* `Cursor.BehindToken`, and `Parser.EndsBehindToken` with one lemma for each rule, which are put
  together in `Nonterminal.endsBehindToken`;
* `Parser.leaves_of_sound`: what a sound rule passed are the leaves of its tree, the last one
  directly behind the cursor.
-/

set_option autoImplicit false

namespace AlgebraText

/-- The token directly behind the cursor is significant. -/
def Cursor.BehindToken (cursor : Cursor) : Prop :=
  ∃ token ∈ cursor.behind.head?, token.isBlank = false

/-- A token that was taken stands directly behind the cursor. -/
theorem Cursor.behindToken_of_next? {cursor later : Cursor} {token : Token}
    (h : cursor.next? = some (token, later)) : later.BehindToken := by
  rcases hrest : cursor.significant with _ | ⟨first, rest⟩
  · simp [next?, hrest] at h
  · have hfirst := isBlank_of_significant hrest
    simp only [next?, hrest, Option.some.injEq, Prod.mk.injEq] at h
    obtain ⟨-, rfl⟩ := h
    exact ⟨first, rfl, hfirst⟩

namespace Parser

variable {α β : Type}

/-- A parser whose successes end directly behind a significant token. -/
def EndsBehindToken (parser : Parser α) : Prop :=
  ∀ cursor a later, parser cursor = .ok a later → later.BehindToken

/-- A parser whose successes end directly behind a significant token if it was started there. -/
def StaysBehindToken (parser : Parser α) : Prop :=
  ∀ cursor, cursor.BehindToken → ∀ a later, parser cursor = .ok a later → later.BehindToken

/-! ## Ways of combining parsers -/

theorem staysBehindToken_pure (a : α) : StaysBehindToken (pure a : Parser α) := by
  intro cursor h a' later hrun
  obtain ⟨-, rfl⟩ := pure_eq_ok.1 hrun
  exact h

theorem staysBehindToken_record (event : Event) : StaysBehindToken (record event) := by
  intro cursor h a later hrun
  cases hrun
  exact h

theorem staysBehindToken_noPointAfter (number : Token) :
    StaysBehindToken (noPointAfter number) := by
  intro cursor h a later hrun
  unfold noPointAfter at hrun
  split at hrun
  · split at hrun
    · cases hrun
    · cases hrun
      exact h
  · cases hrun
    exact h

theorem staysBehindToken_bind {x : Parser α} {f : α → Parser β} (hx : StaysBehindToken x)
    (hf : ∀ a, StaysBehindToken (f a)) : StaysBehindToken (x >>= f) := by
  intro cursor h b later hrun
  obtain ⟨a, middle, hfirst, hrun⟩ := bind_eq_ok.1 hrun
  exact hf a middle (hx cursor h a middle hfirst) b later hrun

/-- A sequence ends behind a token if its first step does and the rest stays there. -/
theorem endsBehindToken_bind {x : Parser α} {f : α → Parser β} (hx : EndsBehindToken x)
    (hf : ∀ a, StaysBehindToken (f a)) : EndsBehindToken (x >>= f) := by
  intro cursor b later hrun
  obtain ⟨a, middle, hfirst, hrun⟩ := bind_eq_ok.1 hrun
  exact hf a middle (hx cursor a middle hfirst) b later hrun

/-- A sequence ends behind a token if its last step does, whatever comes before. -/
theorem endsBehindToken_last {x : Parser α} {f : α → Parser β}
    (hf : ∀ a, EndsBehindToken (f a)) : EndsBehindToken (x >>= f) := by
  intro cursor b later hrun
  obtain ⟨a, middle, -, hrun⟩ := bind_eq_ok.1 hrun
  exact hf a middle b later hrun

theorem endsBehindToken_expect (rule : Rule) (kinds : List TokenKind) :
    EndsBehindToken (expect rule kinds) :=
  fun _ _ _ hrun => Cursor.behindToken_of_next? (expect_eq_ok.1 hrun).1

theorem endsBehindToken_rewinding {parser : Parser α} (h : EndsBehindToken parser) :
    EndsBehindToken (rewinding parser) :=
  fun cursor a later hrun => h cursor a later (rewinding_eq_ok.1 hrun)

theorem endsBehindToken_firstOf {parsers : List (Parser α)} {lastResort : Parser α}
    (h : ∀ parser ∈ parsers, EndsBehindToken parser) (hlast : EndsBehindToken lastResort) :
    EndsBehindToken (firstOf parsers lastResort) := by
  induction parsers with
  | nil => exact hlast
  | cons parser parsers ih =>
      have hothers := ih fun other hmem => h other (List.mem_cons_of_mem _ hmem)
      intro cursor a later hrun
      simp only [firstOf] at hrun
      split at hrun
      · rename_i value middle hfirst
        cases hrun
        exact h parser List.mem_cons_self cursor a later hfirst
      · split at hrun
        · cases hrun
        · exact hothers _ a later hrun

/-! ## The rules -/

theorem endsBehindToken_closing (rule : Rule) (kind : TokenKind) (cause : ParseCause)
    (opening : Token) : EndsBehindToken (closing rule kind cause opening) := by
  intro cursor token later hrun
  unfold closing at hrun
  split at hrun
  · rename_i token' later' hexpect
    cases hrun
    exact endsBehindToken_expect rule [kind] cursor token later hexpect
  · cases hrun

theorem endsBehindToken_paren (expression : Parser ParseTree) :
    EndsBehindToken (paren expression) :=
  endsBehindToken_last fun _ => endsBehindToken_last fun _ => endsBehindToken_last fun _ =>
    endsBehindToken_bind (endsBehindToken_closing _ _ _ _) fun _ => staysBehindToken_pure _

theorem endsBehindToken_function (expression : Parser ParseTree) :
    EndsBehindToken (function expression) :=
  endsBehindToken_last fun _ => endsBehindToken_last fun _ => endsBehindToken_last fun _ =>
    endsBehindToken_last fun _ =>
      endsBehindToken_bind (endsBehindToken_closing _ _ _ _) fun _ => staysBehindToken_pure _

theorem endsBehindToken_var : EndsBehindToken var :=
  endsBehindToken_bind (endsBehindToken_expect _ _) fun _ =>
    staysBehindToken_bind (staysBehindToken_record _) fun _ => staysBehindToken_pure _

theorem endsBehindToken_number : EndsBehindToken number :=
  endsBehindToken_bind (endsBehindToken_expect _ _) fun _ =>
    staysBehindToken_bind (staysBehindToken_record _) fun _ =>
      staysBehindToken_bind (staysBehindToken_noPointAfter _) fun _ => staysBehindToken_pure _

theorem endsBehindToken_atom (expression : Parser ParseTree) :
    EndsBehindToken (atom expression) := by
  apply endsBehindToken_firstOf
  · intro parser hmem
    simp only [List.mem_cons, List.not_mem_nil, or_false] at hmem
    rcases hmem with rfl | rfl | rfl | rfl
    · exact endsBehindToken_rewinding (endsBehindToken_paren expression)
    · exact endsBehindToken_rewinding (endsBehindToken_function expression)
    · exact endsBehindToken_rewinding endsBehindToken_var
    · exact endsBehindToken_rewinding endsBehindToken_number
  · exact fun cursor tree later hrun => absurd hrun not_noOperand_ok

theorem endsBehindToken_single (expression : Parser ParseTree) :
    EndsBehindToken (single expression) :=
  endsBehindToken_last fun _ => endsBehindToken_last fun _ =>
    endsBehindToken_bind (endsBehindToken_atom expression) fun _ => staysBehindToken_pure _

/-- The loop of a chain ends behind the last operand it read, or where it started. -/
theorem staysBehindToken_chainRest {operand : Parser ParseTree} (rule : Rule)
    (h : EndsBehindToken operand) : StaysBehindToken (chainRest rule operand) := by
  rw [chainRest_eq_recurse]
  intro cursor
  refine recurse_induction (fun start result => start.BehindToken →
    ∀ elements later, result = .ok elements later → later.BehindToken) ?_ ?_ cursor
  · intro start _ elements later hrun
    cases hrun
  · intro again hagain start hstart elements later hrun
    obtain ⟨found, taken, hfound, hrun⟩ := bind_eq_ok.1 hrun
    rcases accept_cases rule rule.operators start with ⟨hstay, -⟩ | ⟨operator, after, htake, -⟩
    · rw [hstay] at hfound
      cases hfound
      obtain ⟨-, rfl⟩ := pure_eq_ok.1 hrun
      exact hstart
    · rw [htake] at hfound
      cases hfound
      obtain ⟨_, noted, -, hrun⟩ := bind_eq_ok.1 hrun
      obtain ⟨right, passed, hright, hrun⟩ := bind_eq_ok.1 hrun
      obtain ⟨rest, ended, hrest, hrun⟩ := bind_eq_ok.1 hrun
      obtain ⟨-, rfl⟩ := pure_eq_ok.1 hrun
      exact hagain passed (h noted right passed hright) rest ended hrest

theorem endsBehindToken_chain {operand : Parser ParseTree} (rule : Rule)
    (h : EndsBehindToken operand) : EndsBehindToken (chain rule operand) := by
  refine endsBehindToken_bind h fun first =>
    staysBehindToken_bind (staysBehindToken_chainRest rule h) fun rest => ?_
  cases rest with
  | nil => exact staysBehindToken_pure _
  | cons child rest => exact staysBehindToken_pure _

theorem endsBehindToken_additive (expression : Parser ParseTree) :
    EndsBehindToken (additive expression) :=
  endsBehindToken_chain _ (endsBehindToken_chain _ (endsBehindToken_chain _
    (endsBehindToken_chain _ (endsBehindToken_single expression))))

theorem endsBehindToken_expression : EndsBehindToken expression := by
  rw [expression_eq]
  exact endsBehindToken_last fun _ => endsBehindToken_additive expression

/-! ## The leaves of a match -/

/-- **What a sound rule passed are the leaves of its tree.** The last of them stands directly behind
the cursor. -/
theorem leaves_of_sound {goal : Nonterminal} {parser : Parser ParseTree}
    (hsound : Sound goal parser) (hadvances : Advances parser) (hends : EndsBehindToken parser)
    {cursor later : Cursor} {tree : ParseTree} (hrun : parser cursor = .ok tree later) :
    ∃ passed, cursor.ahead = passed ++ later.ahead ∧
      later.behind = passed.reverse ++ cursor.behind ∧
      tree.leaves = significantTokens passed ∧ tree.leaves.getLast? = later.behind.head? := by
  obtain ⟨full, hfull, rfl, hpending⟩ := hsound cursor tree later hrun
  obtain ⟨passed, hahead, hbehind⟩ := hadvances.of_ok hrun
  obtain ⟨last, hlast, hblank⟩ := hends cursor full.collapse later hrun
  have hleaves : full.leaves = significantTokens passed := by
    have hsplit : cursor.pending = significantTokens passed ++ later.pending := by
      simp [Cursor.pending, hahead, significantTokens]
    exact List.append_cancel_right (hpending.symm.trans hsplit)
  have hcollapse : full.collapse.leaves = significantTokens passed :=
    full.leaves_collapse.trans hleaves
  refine ⟨passed, hahead, hbehind, hcollapse, ?_⟩
  rw [hcollapse]
  -- a rule that passed no token would have no leaves, so the token behind is one that was passed
  rcases List.eq_nil_or_concat passed with rfl | ⟨front, token, rfl⟩
  · exact absurd hcollapse hfull.covers_collapse.1
  · obtain rfl : token = last := by simpa [hbehind] using hlast
    simp [hbehind, significantTokens, hblank]

end Parser

/-- Every rule ends directly behind a significant token. -/
theorem Nonterminal.endsBehindToken (goal : Nonterminal) :
    Parser.EndsBehindToken goal.parser := by
  have hsingle := Parser.endsBehindToken_single Parser.expression
  have hpower := Parser.endsBehindToken_chain .power hsingle
  have hdivide := Parser.endsBehindToken_chain .divide hpower
  cases goal with
  | expression => exact Parser.endsBehindToken_expression
  | additive => exact Parser.endsBehindToken_additive Parser.expression
  | multiply => exact Parser.endsBehindToken_chain .multiply hdivide
  | divide => exact hdivide
  | power => exact hpower
  | single => exact hsingle
  | paren => exact Parser.endsBehindToken_paren Parser.expression
  | function => exact Parser.endsBehindToken_function Parser.expression
  | var => exact Parser.endsBehindToken_var
  | number => exact Parser.endsBehindToken_number

end AlgebraText
