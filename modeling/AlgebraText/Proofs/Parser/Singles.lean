import AlgebraText.Proofs.Grammar.ViablePrefix
import AlgebraText.Proofs.Parser.Entries
import AlgebraText.Proofs.Token.Spans

/-!
# No operand is tried twice at the same place

The parser goes back, but not over operands: an attempt that fails softly has not got to an operand,
and after one that fails fatally nothing else is attempted. So the places at which operands are
tried stand in the order of the text, each of them once, and reading a text enters no more rules
than ten for each of its tokens.

The places from a cursor on are the significant tokens ahead and the end of the text
(`Cursor.places`). What a run does to them is said in one way for all rules: the operands it tries
are some of the places it passes, in their order (`Parser.Tried`). A bracket is passed before the
operands inside it are tried, so a rule that starts with a token leaves the first place out.

## What this module delivers

* `singleSpans`, the places of the operands in a log, and `Cursor.places`;
* `Parser.Tried` with its ways of combining parsers, and `Entered.tried`;
* `pairwise_places_ofText`: the places of a text rise;
* `singles_rise`: the operands tried in a run, and the number of rules it enters.
-/

set_option autoImplicit false

namespace AlgebraText

/-! ## Operands in a log -/

/-- The place of an operand that is tried. -/
def Event.singleSpan? : Event → Option Span
  | .single span => some span
  | _ => none

/-- The places at which operands are tried, in the order of the events. -/
def singleSpans (events : List Event) : List Span := events.filterMap Event.singleSpan?

@[simp]
theorem singleSpans_nil : singleSpans [] = [] := rfl

@[simp]
theorem singleSpans_append (events more : List Event) :
    singleSpans (events ++ more) = singleSpans events ++ singleSpans more :=
  List.filterMap_append

theorem singleSpans_cons_single (span : Span) (events : List Event) :
    singleSpans (.single span :: events) = span :: singleSpans events := rfl

theorem singleSpans_cons_of_none {event : Event} (h : event.singleSpan? = none)
    (events : List Event) : singleSpans (event :: events) = singleSpans events :=
  List.filterMap_cons_none h

/-! ## Places -/

namespace Cursor

variable {cursor later : Cursor}

/-- The places from a cursor on: the significant tokens ahead, and the end of the text. -/
def places (cursor : Cursor) : List Span := cursor.pending.map Token.span ++ [cursor.endSpan]

/-- The cursor stands at the first of its places. -/
theorem places_eq_cons (cursor : Cursor) : cursor.places = cursor.span :: cursor.places.tail := by
  rw [places, span, peek?_eq]
  cases cursor.pending <;> rfl

theorem places_noting (cursor : Cursor) (event : Event) :
    (cursor.noting event).places = cursor.places := rfl

theorem events_noting (cursor : Cursor) (event : Event) :
    (cursor.noting event).events = cursor.events ++ [event] := by
  simp [events, noting]

/-- The places are passed in their order. -/
theorem Reaches.exists_places (h : cursor.Reaches later) :
    ∃ passed, cursor.places = passed ++ later.places := by
  obtain ⟨tokens, hahead, -⟩ := id h
  refine ⟨(significantTokens tokens).map Token.span, ?_⟩
  have hpending : cursor.pending = significantTokens tokens ++ later.pending := by
    simp [pending, hahead, significantTokens]
  rw [places, places, hpending, h.endSpan_eq, List.map_append, List.append_assoc]

/-- Taking a token passes one place. -/
theorem places_of_next? {token : Token} (h : cursor.next? = some (token, later)) :
    cursor.places = token.span :: later.places := by
  rw [places, places, pending_of_next? h, (Reaches.of_next? h).endSpan_eq]
  rfl

theorem events_of_next? {token : Token} (h : cursor.next? = some (token, later)) :
    later.events = cursor.events := by
  rw [events, events, log_of_next? h]

end Cursor

/-- The places of a text rise. -/
theorem pairwise_places_ofText (text : String) :
    (Cursor.ofText text).places.Pairwise fun earlier later => earlier.start < later.start := by
  rw [Cursor.places, Cursor.pending_ofText, List.pairwise_append]
  refine ⟨?_, by simp, ?_⟩
  · rw [List.pairwise_map]
    refine (pairwise_significantTokens text).imp_of_mem fun {earlier later} hmem _ hle => ?_
    exact Nat.lt_of_lt_of_le (within_of_mem_significantTokens hmem).1 hle
  · intro earlier hmem later hend
    obtain ⟨token, htoken, rfl⟩ := List.mem_map.1 hmem
    obtain rfl := List.mem_singleton.1 hend
    obtain ⟨hlt, hwithin⟩ := within_of_mem_significantTokens htoken
    rw [Cursor.endSpan_ofText]
    exact Nat.lt_of_lt_of_le hlt hwithin

namespace Parser

variable {α β : Type} {spare : Nat} {cursor middle later : Cursor} {noted more : List Event}

/-! ## What a run tries -/

/-- What an outcome comes to that was reached from a cursor by noting some events: their operands
were tried at places that were passed, in their order and without the first so many of them. -/
def Tried (spare : Nat) (cursor : Cursor) (noted : List Event) :
    EStateM.Result ParseFailure Cursor α → Prop
  | .ok _ later =>
    later.events = cursor.events ++ noted ∧
      ∃ passed, cursor.places = passed ++ later.places ∧ spare ≤ passed.length ∧
        (singleSpans noted).Sublist (passed.drop spare)
  | .error _ later =>
    later.events = cursor.events ++ noted ∧
      (singleSpans noted).Sublist (cursor.places.drop spare)

/-- An outcome that was reached without noting anything. -/
theorem tried_of_quiet {result : EStateM.Result ParseFailure Cursor α}
    (hreach : cursor.Reaches (endCursor result)) (hlog : (endCursor result).log = cursor.log) :
    Tried 0 cursor [] result := by
  have hevents : (endCursor result).events = cursor.events ++ [] := by
    rw [List.append_nil, Cursor.events, hlog, Cursor.events]
  cases result with
  | ok value later =>
      obtain ⟨passed, hplaces⟩ := hreach.exists_places
      exact ⟨hevents, passed, hplaces, Nat.zero_le _, by simp⟩
  | error failure later => exact ⟨hevents, by simp⟩

theorem tried_pure (a : α) (cursor : Cursor) : Tried 0 cursor [] ((pure a : Parser α) cursor) :=
  tried_of_quiet (.refl cursor) rfl

namespace Tried

variable {result : EStateM.Result ParseFailure Cursor α} {x : Parser α} {f : α → Parser β}

theorem events (h : Tried spare cursor noted result) :
    (endCursor result).events = cursor.events ++ noted := by
  cases result with
  | ok value later => exact h.1
  | error failure later => exact h.1

/-- Whatever the outcome, the operands were tried at places from the cursor on. -/
theorem sublist_places (h : Tried spare cursor noted result) :
    (singleSpans noted).Sublist (cursor.places.drop spare) := by
  cases result with
  | ok value later =>
      obtain ⟨-, passed, hplaces, hspare, hsingles⟩ := h
      rw [hplaces, List.drop_append_of_le_length hspare]
      exact hsingles.trans (List.sublist_append_left _ _)
  | error failure later => exact h.2

/-- Fewer places may be left out. -/
theorem weaken (h : Tried spare cursor noted result) : Tried 0 cursor noted result := by
  cases result with
  | ok value later =>
      obtain ⟨hevents, passed, hplaces, -, hsingles⟩ := h
      exact ⟨hevents, passed, hplaces, Nat.zero_le _, hsingles.trans (List.drop_sublist _ _)⟩
  | error failure later => exact ⟨h.1, h.2.trans (List.drop_sublist _ _)⟩

/-- A token that is taken first is a place that is left out. -/
theorem after_token {token : Token} (hnext : cursor.next? = some (token, later))
    (h : Tried 0 later noted result) : Tried 1 cursor noted result := by
  have hplaces := Cursor.places_of_next? hnext
  have hstart := Cursor.events_of_next? hnext
  cases result with
  | ok value last =>
      obtain ⟨hevents, passed, hpassed, -, hsingles⟩ := h
      refine ⟨hstart ▸ hevents, token.span :: passed, ?_, by simp, hsingles⟩
      rw [hplaces, hpassed, List.cons_append]
  | error failure last =>
      refine ⟨hstart ▸ h.1, ?_⟩
      rw [hplaces]
      exact h.2

/-- An event that is noted first is no place. -/
theorem after_event {event : Event} (hevent : event.singleSpan? = none)
    (h : Tried spare (cursor.noting event) noted result) :
    Tried spare cursor (event :: noted) result := by
  cases result with
  | ok value last =>
      obtain ⟨hevents, hpassed⟩ := h
      rw [Cursor.events_noting, List.append_assoc] at hevents
      rw [Tried, singleSpans_cons_of_none hevent]
      exact ⟨hevents, hpassed⟩
  | error failure last =>
      obtain ⟨hevents, hsingles⟩ := h
      rw [Cursor.events_noting, List.append_assoc] at hevents
      rw [Tried, singleSpans_cons_of_none hevent]
      exact ⟨hevents, hsingles⟩

/-- An operand that is tried fills the place that is left out behind it. -/
theorem after_single (h : Tried 1 (cursor.noting (.single cursor.span)) noted result) :
    Tried 0 cursor (.single cursor.span :: noted) result := by
  have hfirst := cursor.places_eq_cons
  cases result with
  | ok value last =>
      obtain ⟨hevents, passed, hpassed, hspare, hsingles⟩ := h
      rw [Cursor.events_noting, List.append_assoc] at hevents
      rw [Cursor.places_noting] at hpassed
      refine ⟨hevents, passed, hpassed, Nat.zero_le _, ?_⟩
      cases passed with
      | nil => simp at hspare
      | cons place passed =>
          -- the first place that is passed is the one at which the operand was tried
          obtain rfl : cursor.span = place := by
            rw [hfirst, List.cons_append] at hpassed
            exact (List.cons.inj hpassed).1
          exact hsingles.cons_cons _
  | error failure last =>
      obtain ⟨hevents, hsingles⟩ := h
      rw [Cursor.events_noting, List.append_assoc] at hevents
      refine ⟨hevents, ?_⟩
      rw [Cursor.places_noting, List.drop_one] at hsingles
      rw [List.drop_zero, hfirst]
      exact hsingles.cons_cons _

/-- A run that goes on tries more places behind those it has passed. -/
theorem bind_ok {a : α} (hrun : x cursor = .ok a middle) (hx : Tried spare cursor noted (x cursor))
    (hf : Tried 0 middle more (f a middle)) :
    Tried spare cursor (noted ++ more) ((x >>= f) cursor) := by
  rw [hrun] at hx
  rw [bind_of_ok hrun]
  obtain ⟨hevents, passed, hplaces, hspare, hsingles⟩ := hx
  cases hrest : f a middle with
  | ok b last =>
      rw [hrest] at hf
      obtain ⟨hevents', passed', hplaces', -, hsingles'⟩ := hf
      refine ⟨?_, passed ++ passed', ?_, ?_, ?_⟩
      · rw [hevents', hevents, List.append_assoc]
      · rw [hplaces, hplaces', List.append_assoc]
      · rw [List.length_append]
        omega
      · rw [singleSpans_append, List.drop_append_of_le_length hspare]
        exact hsingles.append hsingles'
  | error failure last =>
      rw [hrest] at hf
      obtain ⟨hevents', hsingles'⟩ := hf
      refine ⟨?_, ?_⟩
      · rw [hevents', hevents, List.append_assoc]
      · rw [singleSpans_append, hplaces, List.drop_append_of_le_length hspare]
        exact hsingles.append hsingles'

theorem bind_error {failure : ParseFailure} (hrun : x cursor = .error failure later)
    (hx : Tried spare cursor noted (x cursor)) :
    Tried spare cursor noted ((x >>= f) cursor) := by
  rw [hrun] at hx
  rw [bind_of_error hrun]
  exact hx

/-- Steps that note nothing may follow. -/
theorem bind_quiet (hx : Tried spare cursor noted (x cursor))
    (hf : ∀ a middle, Tried 0 middle [] (f a middle)) :
    Tried spare cursor noted ((x >>= f) cursor) := by
  cases hrun : x cursor with
  | ok a middle =>
      have h := bind_ok hrun hx (hf a middle)
      rwa [List.append_nil] at h
  | error failure later => exact bind_error hrun hx

theorem rewinding (hx : Tried spare cursor noted (x cursor)) :
    Tried spare cursor noted (rewinding x cursor) := by
  unfold Parser.rewinding
  cases hrun : x cursor with
  | ok a later =>
      rw [hrun] at hx
      exact hx
  | error failure later =>
      rw [hrun] at hx
      exact hx

theorem fatally (hx : Tried spare cursor noted (x cursor)) :
    Tried spare cursor noted (fatally x cursor) := by
  unfold Parser.fatally
  cases hrun : x cursor with
  | ok a later =>
      rw [hrun] at hx
      exact hx
  | error failure later =>
      rw [hrun] at hx
      exact hx

end Tried

/-! ## Steps that note nothing -/

theorem log_of_expect (rule : Rule) (kinds : List TokenKind) (cursor : Cursor) :
    (endCursor (expect rule kinds cursor)).log = cursor.log := by
  unfold expect
  cases hnext : cursor.next? with
  | none => rfl
  | some taken =>
      by_cases hkind : taken.1.kind ∈ kinds
      · simp only [hkind, if_true]
        exact Cursor.log_of_next? hnext
      · simp only [hkind, if_false]
        rfl

theorem log_of_expect_error {rule : Rule} {kinds : List TokenKind} {failure : ParseFailure}
    (h : expect rule kinds cursor = .error failure later) : later.log = cursor.log := by
  have hlog := log_of_expect rule kinds cursor
  rw [h] at hlog
  exact hlog

theorem tried_closing (rule : Rule) (kind : TokenKind) (cause : ParseCause) (opening : Token)
    (cursor : Cursor) : Tried 0 cursor [] (closing rule kind cause opening cursor) := by
  refine tried_of_quiet (advances_closing rule kind cause opening cursor) ?_
  have hlog := log_of_expect rule [kind] cursor
  unfold closing
  cases hrun : expect rule [kind] cursor with
  | ok token later =>
      rw [hrun] at hlog
      exact hlog
  | error failure later =>
      rw [hrun] at hlog
      exact hlog

theorem tried_noPointAfter (number : Token) (cursor : Cursor) :
    Tried 0 cursor [] (noPointAfter number cursor) := by
  refine tried_of_quiet (advances_noPointAfter number cursor) ?_
  unfold noPointAfter
  split
  · split <;> rfl
  · rfl

theorem tried_noOperand (cursor : Cursor) : Tried 1 cursor [] (noOperand cursor) := by
  unfold noOperand
  split
  · exact ⟨by simp, by simp⟩
  · split
    · exact ⟨by simp, by simp⟩
    · exact ⟨by simp, by simp⟩

theorem tried_nothingLeft (cursor : Cursor) : Tried 0 cursor [] (nothingLeft cursor) := by
  unfold nothingLeft
  split
  · exact tried_of_quiet (.refl cursor) rfl
  · exact tried_of_quiet (.refl cursor) rfl

/-- An expected token that is not there is not missed in the log. -/
theorem tried_expect_error {rule : Rule} {kinds : List TokenKind} {failure : ParseFailure}
    (h : expect rule kinds cursor = .error failure later) :
    Tried spare cursor [] (expect rule kinds cursor) := by
  rw [h, Tried, Cursor.events, log_of_expect_error h]
  simp [Cursor.events]

/-! ## Operands without their sign -/

theorem tried_paren {opening : Token} {inside : Cursor}
    (hopen : expect .paren [.openParen] cursor = .ok opening inside)
    (h : Tried 0 (inside.noting (.paren opening.span)) noted
      (expression (inside.noting (.paren opening.span)))) :
    Tried 1 cursor (.paren opening.span :: noted) (paren expression cursor) := by
  unfold paren
  rw [bind_of_ok hopen, bind_of_ok (record_apply _ inside)]
  refine .after_token (expect_eq_ok.1 hopen).1 (.after_event rfl ?_)
  exact .bind_quiet h.rewinding.fatally fun _ middle =>
    .bind_quiet (tried_closing _ _ _ _ middle) fun _ => tried_pure _

theorem tried_function {name opening : Token} {named inside : Cursor}
    (hname : expect .function [.name] cursor = .ok name named)
    (hopen : expect .function [.openSquare] named = .ok opening inside)
    (h : Tried 0 (inside.noting (.function name.lexeme name.span)) noted
      (expression (inside.noting (.function name.lexeme name.span)))) :
    Tried 1 cursor (.function name.lexeme name.span :: noted) (function expression cursor) := by
  unfold function
  rw [bind_of_ok hname, bind_of_ok hopen, bind_of_ok (record_apply _ inside)]
  refine .after_token (expect_eq_ok.1 hname).1 ?_
  -- the bracket leaves out a second place, which nothing needs
  apply Tried.weaken
  refine .after_token (expect_eq_ok.1 hopen).1 (.after_event rfl ?_)
  exact .bind_quiet h.rewinding.fatally fun _ middle =>
    .bind_quiet (tried_closing _ _ _ _ middle) fun _ => tried_pure _

theorem tried_var (cursor : Cursor) :
    ∃ noted, Tried 1 cursor noted (var cursor) ∧ singleSpans noted = [] := by
  unfold var
  cases hname : expect .var [.name] cursor with
  | error failure later => exact ⟨[], .bind_error hname (tried_expect_error hname), rfl⟩
  | ok name later =>
      rw [bind_of_ok hname, bind_of_ok (record_apply _ later)]
      exact ⟨_, .after_token (expect_eq_ok.1 hname).1 (.after_event rfl (tried_pure _ _)), rfl⟩

theorem tried_number (cursor : Cursor) :
    ∃ noted, Tried 1 cursor noted (number cursor) ∧ singleSpans noted = [] := by
  unfold number
  cases hdigits : expect .integer [.int, .float] cursor with
  | error failure later => exact ⟨[], .bind_error hdigits (tried_expect_error hdigits), rfl⟩
  | ok digits later =>
      rw [bind_of_ok hdigits, bind_of_ok (record_apply _ later)]
      exact ⟨_, .after_token (expect_eq_ok.1 hdigits).1 (.after_event rfl
        (.bind_quiet (tried_noPointAfter digits _) fun _ => tried_pure _)), rfl⟩

/-- A sequence whose first step fails has failed there. -/
theorem error_of_first_step {x : Parser α} {f : α → Parser β} {failure failure' : ParseFailure}
    {missed : Cursor} (hx : x cursor = .error failure' missed)
    (hrun : (x >>= f) cursor = .error failure later) : failure' = failure ∧ missed = later := by
  rw [bind_of_error hx] at hrun
  cases hrun
  exact ⟨rfl, rfl⟩

/-- A rule that starts with a token and fails softly has noted nothing. -/
theorem log_of_soft {goal : Nonterminal} {failure : ParseFailure} (hatom : goal.isAtom = true)
    (hrun : goal.parser cursor = .error failure later) (hsoft : failure.fatal = false) :
    later.log = cursor.log := by
  -- with its first tokens there the rule would have failed fatally
  cases goal with
  | paren =>
      cases hopen : expect .paren [.openParen] cursor with
      | error failure' missed =>
          obtain ⟨rfl, rfl⟩ := error_of_first_step hopen hrun
          exact log_of_expect_error hopen
      | ok opening inside =>
          obtain ⟨hpending, hkind⟩ := pending_of_expect hopen
          have hfatal := fatal_of_paren_error hpending (List.mem_singleton.1 hkind) _ _ hrun
          simp [hsoft] at hfatal
  | function =>
      cases hname : expect .function [.name] cursor with
      | error failure' missed =>
          obtain ⟨rfl, rfl⟩ := error_of_first_step hname hrun
          exact log_of_expect_error hname
      | ok name named =>
          cases hopen : expect .function [.openSquare] named with
          | error failure' missed =>
              have hrest := (bind_of_ok hname).symm.trans hrun
              obtain ⟨rfl, rfl⟩ := error_of_first_step hopen hrest
              exact (log_of_expect_error hopen).trans
                (Cursor.log_of_next? (expect_eq_ok.1 hname).1)
          | ok opening inside =>
              obtain ⟨hpending, hkind⟩ := pending_of_expect hname
              obtain ⟨hpending', hkind'⟩ := pending_of_expect hopen
              rw [hpending'] at hpending
              have hfatal := fatal_of_function_error hpending (List.mem_singleton.1 hkind)
                (List.mem_singleton.1 hkind') _ _ hrun
              simp [hsoft] at hfatal
  | var =>
      cases hname : expect .var [.name] cursor with
      | error failure' missed =>
          obtain ⟨rfl, rfl⟩ := error_of_first_step hname hrun
          exact log_of_expect_error hname
      | ok name named =>
          have hrest := (bind_of_ok hname).symm.trans hrun
          rw [bind_of_ok (record_apply _ named)] at hrest
          cases hrest
  | number =>
      cases hdigits : expect .integer [.int, .float] cursor with
      | error failure' missed =>
          obtain ⟨rfl, rfl⟩ := error_of_first_step hdigits hrun
          exact log_of_expect_error hdigits
      | ok digits counted =>
          obtain ⟨hpending, hkind⟩ := pending_of_expect hdigits
          have hfatal := fatal_of_number_error hpending hkind _ _ hrun
          simp [hsoft] at hfatal
  | expression | additive | multiply | divide | power | single => cases hatom

/-! ## Operands and chains -/

theorem tried_single {signed : Cursor} {minus : Option Token}
    (hminus : accept .single [.sub] (cursor.noting (.single cursor.span)) = .ok minus signed)
    (h : Tried 1 signed noted (atom expression signed)) :
    Tried 0 cursor (.single cursor.span :: noted) (single expression cursor) := by
  have hrest := Tried.bind_quiet h (f := fun operand => (pure (.ofChildren .single
    ((minus.map Element.token).toList ++ [.node operand])) : Parser ParseTree))
    fun _ => tried_pure _
  unfold single
  rw [bind_of_ok (recordHere_apply _ cursor)]
  refine .after_single ?_
  rw [show ({ cursor with log := .single cursor.span :: cursor.log } : Cursor) =
    cursor.noting (.single cursor.span) from rfl, bind_of_ok hminus]
  rcases accept_cases .single [.sub] (cursor.noting (.single cursor.span)) with
    ⟨hstay, -⟩ | ⟨token, taken, htake, hexpect⟩
  · rw [hstay] at hminus
    cases hminus
    exact hrest
  · -- the sign leaves out the first place, and the operand the one after it
    rw [htake] at hminus
    cases hminus
    exact .after_token (expect_eq_ok.1 hexpect).1 hrest.weaken

/-- What a chain makes of its operands and operators notes nothing. -/
theorem tried_links (rule : Rule) (first : ParseTree) (links : List Element) (cursor : Cursor) :
    Tried 0 cursor [] ((match links with
      | [] => return first
      | rest => return .ofChildren rule (.node first :: rest) : Parser ParseTree) cursor) := by
  cases links with
  | nil => exact tried_pure _ cursor
  | cons link links => exact tried_pure _ cursor

theorem tried_chain_ok {rule : Rule} {operand : Parser ParseTree} {first : ParseTree}
    (hrun : operand cursor = .ok first middle) (hfirst : Tried 0 cursor noted (operand cursor))
    (hrest : Tried 0 middle more (chainRest rule operand middle)) :
    Tried 0 cursor (noted ++ more) (chain rule operand cursor) :=
  .bind_ok hrun hfirst (.bind_quiet hrest fun links => tried_links rule first links)

/-- The part of a turn of a chain that follows its operator. -/
theorem tried_chainRest {rule : Rule} {operand : Parser ParseTree} {operator : Token}
    {taken : Cursor} (hadvances : Advances operand)
    (htake : accept rule rule.operators cursor = .ok (some operator) taken)
    (h : Tried 0 (taken.noting (.operator rule operator.lexeme operator.span)) noted
      ((do
        let right ← operand
        let rest ← chainRest rule operand
        return .token operator :: .node right :: rest : Parser (List Element))
          (taken.noting (.operator rule operator.lexeme operator.span)))) :
    Tried 0 cursor (.operator rule operator.lexeme operator.span :: noted)
      (chainRest rule operand cursor) := by
  rcases accept_cases rule rule.operators cursor with
    ⟨hstay, -⟩ | ⟨operator', taken', htake', hexpect⟩
  · rw [hstay] at htake
    cases htake
  · rw [htake'] at htake
    cases htake
    rw [chainRest_eq rule hadvances, chainTurn, bind_of_ok htake']
    exact (Tried.after_token (expect_eq_ok.1 hexpect).1 (.after_event rfl h)).weaken

end Parser

/-! ## Whole runs -/

/-- What a task comes to that noted some events. Attempts start with a token, and so do the rules
that operands are attempted as. -/
def Task.Tries (task : Task) (cursor : Cursor) (noted : List Event) : Prop :=
  match task with
  | .rule goal => Parser.Tried goal.isAtom.toNat cursor noted (goal.parser cursor)
  | .links goal => ∀ rule operand, goal.chain? = some (rule, operand) →
    Parser.Tried 0 cursor noted (Parser.chainRest rule operand.parser cursor)
  | .alternatives goals => (∀ goal ∈ goals, goal.isAtom = true) →
    Parser.Tried 1 cursor noted (Parser.firstOf
      (goals.map fun goal => Parser.rewinding goal.parser) Parser.noOperand cursor)

theorem Nonterminal.isAtom_of_chain? {goal operand : Nonterminal} {rule : Rule}
    (h : goal.chain? = some (rule, operand)) : goal.isAtom = false ∧ operand.isAtom = false := by
  cases goal <;> simp [chain?] at h
  all_goals
    obtain ⟨rfl, rfl⟩ := h
    decide

/-- After an attempt that fails softly the cursor is what it was. -/
theorem Parser.rewoundTo_of_soft {goal : Nonterminal} {cursor later : Cursor}
    {failure : ParseFailure} (hatom : goal.isAtom = true)
    (hrun : goal.parser cursor = .error failure later) (hsoft : failure.fatal = false) :
    later.rewoundTo cursor = cursor := by
  have hlog := log_of_soft hatom hrun hsoft
  obtain ⟨behind, ahead, log⟩ := later
  obtain rfl : log = cursor.log := hlog
  rfl

/-- **The operands that are entered are tried at different places.** They are those that the run
notes. The induction is on the rules that are entered. -/
theorem Entered.tries {task : Task} {cursor : Cursor} {entered : List Nonterminal}
    (h : Entered task cursor entered) :
    ∃ noted, task.Tries cursor noted ∧ (singleSpans noted).length = entered.count .single := by
  induction h with
  | @expression cursor entered _ ih =>
      obtain ⟨noted, htried, hcount⟩ := ih
      refine ⟨.expression cursor.span :: noted, ?_, ?_⟩
      · show Parser.Tried 0 cursor _ (Parser.expression cursor)
        rw [Parser.expression_eq]
        exact .after_event rfl htried
      · rw [singleSpans_cons_of_none rfl, hcount, List.count_cons_of_ne (by decide)]
  | @chainFailed goal operand rule cursor later failure entered hgoal hrun _ ih =>
      obtain ⟨noted, htried, hcount⟩ := ih
      obtain ⟨hatom, hatom'⟩ := Nonterminal.isAtom_of_chain? hgoal
      refine ⟨noted, ?_, ?_⟩
      · simp only [Task.Tries, hatom, hatom', Nonterminal.parser_of_chain? hgoal] at htried ⊢
        exact .bind_error hrun htried
      · rw [hcount, List.count_cons_of_ne (Nonterminal.headroom_of_chain? hgoal).1]
  | @chain goal operand rule cursor later tree entered others hgoal hrun _ _ ih ihLinks =>
      obtain ⟨noted, htried, hcount⟩ := ih
      obtain ⟨more, hlinks, hmore⟩ := ihLinks
      obtain ⟨hatom, hatom'⟩ := Nonterminal.isAtom_of_chain? hgoal
      refine ⟨noted ++ more, ?_, ?_⟩
      · simp only [Task.Tries, hatom, hatom', Nonterminal.parser_of_chain? hgoal] at htried ⊢
        exact Parser.tried_chain_ok hrun htried (hlinks rule operand hgoal)
      · rw [singleSpans_append, List.length_append, hcount, hmore,
          List.count_cons_of_ne (Nonterminal.headroom_of_chain? hgoal).1, List.count_append]
  | @linksDone goal operand rule cursor hgoal hstay =>
      refine ⟨[], fun rule' operand' hgoal' => ?_, rfl⟩
      obtain ⟨rfl, rfl⟩ : rule = rule' ∧ operand = operand' := by simpa [hgoal] using hgoal'
      rw [Parser.chainRest_eq rule operand.advances_parser, Parser.chainTurn,
        Parser.bind_of_ok hstay]
      exact Parser.tried_pure _ cursor
  | @linksFailed goal operand rule cursor taken later operator failure entered hgoal htake hrun _
      ih =>
      obtain ⟨noted, htried, hcount⟩ := ih
      refine ⟨.operator rule operator.lexeme operator.span :: noted,
        fun rule' operand' hgoal' => ?_, ?_⟩
      · obtain ⟨rfl, rfl⟩ : rule = rule' ∧ operand = operand' := by simpa [hgoal] using hgoal'
        exact Parser.tried_chainRest operand.advances_parser htake (.bind_error hrun htried.weaken)
      · rw [singleSpans_cons_of_none rfl, hcount]
  | @links goal operand rule cursor taken later operator tree entered others hgoal htake hrun _ _
      ih ihLinks =>
      obtain ⟨noted, htried, hcount⟩ := ih
      obtain ⟨more, hlinks, hmore⟩ := ihLinks
      refine ⟨.operator rule operator.lexeme operator.span :: (noted ++ more),
        fun rule' operand' hgoal' => ?_, ?_⟩
      · obtain ⟨rfl, rfl⟩ : rule = rule' ∧ operand = operand' := by simpa [hgoal] using hgoal'
        refine Parser.tried_chainRest operand.advances_parser htake (.bind_ok hrun htried.weaken ?_)
        exact .bind_quiet (hlinks rule operand hgoal) fun _ => Parser.tried_pure _
      · rw [singleSpans_cons_of_none rfl, singleSpans_append, List.length_append, hcount, hmore,
          List.count_append]
  | @single cursor signed minus entered hminus _ ih =>
      obtain ⟨noted, htried, hcount⟩ := ih
      refine ⟨_ :: noted, Parser.tried_single hminus (htried (by decide)), ?_⟩
      rw [singleSpans_cons_single, List.length_cons, hcount, List.count_cons_self]
  | @exhausted cursor => exact ⟨[], fun _ => Parser.tried_noOperand cursor, rfl⟩
  | @decided goal goals entered cursor hdecided _ ih =>
      obtain ⟨noted, htried, hcount⟩ := ih
      refine ⟨noted, fun hatoms => ?_, hcount⟩
      have hatom := hatoms goal List.mem_cons_self
      rw [List.map_cons, Parser.firstOf_of_decided _ _ (Parser.fatal_of_rewinding hdecided)]
      simp only [Task.Tries, hatom] at htried
      exact htried.rewinding
  | @soft goal goals entered others cursor later failure hrun hsoft _ _ ih ihOthers =>
      obtain ⟨noted, htried, hcount⟩ := ih
      obtain ⟨more, hmore, hcount'⟩ := ihOthers
      refine ⟨noted ++ more, fun hatoms => ?_, ?_⟩
      · have hatom := hatoms goal List.mem_cons_self
        have hback := Parser.rewoundTo_of_soft hatom hrun hsoft
        -- nothing was noted by the attempt that failed
        obtain rfl : noted = [] := by
          have hevents := htried.events
          rw [hrun, Parser.endCursor, Cursor.events, Parser.log_of_soft hatom hrun hsoft] at hevents
          exact List.self_eq_append_right.1 hevents
        have hfail := Parser.rewinding_of_error hrun
        rw [hback] at hfail hmore
        rw [List.map_cons, Parser.firstOf_of_soft _ _ hfail hsoft]
        exact hmore fun other hmem => hatoms other (List.mem_cons_of_mem _ hmem)
      · rw [singleSpans_append, List.length_append, hcount, hcount', List.count_append]
  | @parenOutside cursor later failure hopen =>
      exact ⟨[], .bind_error hopen (Parser.tried_expect_error hopen), rfl⟩
  | @parenInside cursor inside opening entered hopen _ ih =>
      obtain ⟨noted, htried, hcount⟩ := ih
      refine ⟨_ :: noted, Parser.tried_paren hopen htried, ?_⟩
      rw [singleSpans_cons_of_none rfl, hcount, List.count_cons_of_ne (by decide)]
  | @functionOutside cursor later failure hname =>
      exact ⟨[], .bind_error hname (Parser.tried_expect_error hname), rfl⟩
  | @functionUnopened cursor named later name failure hname hopen =>
      refine ⟨[], ?_, rfl⟩
      show Parser.Tried 1 cursor [] (Parser.function Parser.expression cursor)
      unfold Parser.function
      rw [Parser.bind_of_ok hname]
      exact .after_token (Parser.expect_eq_ok.1 hname).1
        (.bind_error hopen (Parser.tried_expect_error hopen))
  | @functionInside cursor named inside name opening entered hname hopen _ ih =>
      obtain ⟨noted, htried, hcount⟩ := ih
      refine ⟨_ :: noted, Parser.tried_function hname hopen htried, ?_⟩
      rw [singleSpans_cons_of_none rfl, hcount, List.count_cons_of_ne (by decide)]
  | @var cursor =>
      obtain ⟨noted, htried, hnone⟩ := Parser.tried_var cursor
      exact ⟨noted, htried, by rw [hnone]; rfl⟩
  | @number cursor =>
      obtain ⟨noted, htried, hnone⟩ := Parser.tried_number cursor
      exact ⟨noted, htried, by rw [hnone]; rfl⟩

theorem runParser_events (text : String) :
    (runParser text).2 =
      (Parser.endCursor (Parser.wholeExpression (Cursor.ofText text))).events := by
  unfold runParser
  cases Parser.wholeExpression (Cursor.ofText text) <;> rfl

/-- The operands that a run tries are those that it enters, at places of its text in their order. -/
theorem singleSpans_runParser {text : String} {entered : List Nonterminal}
    (h : Entered (.rule .expression) (Cursor.ofText text) entered) :
    (singleSpans (runParser text).2).Sublist (Cursor.ofText text).places ∧
      (singleSpans (runParser text).2).length = entered.count .single := by
  obtain ⟨noted, htried, hcount⟩ := h.tries
  have hwhole : Parser.Tried 0 (Cursor.ofText text) noted
      (Parser.wholeExpression (Cursor.ofText text)) :=
    .bind_quiet (.rewinding htried) fun _ middle =>
      .bind_quiet (Parser.tried_nothingLeft middle) fun _ => Parser.tried_pure _
  have hnoted : (runParser text).2 = noted := (runParser_events text).trans hwhole.events
  rw [hnoted]
  exact ⟨hwhole.sublist_places, hcount⟩

/-- **The parser tries no operand twice.** Whether a text is read or not, the operands that are
tried in the run stand further and further on, each at another significant token or at the end of
the text. So there is at most one for each significant token and one for the end, and the run enters
at most ten rules for each of these places, attempts that come to nothing included. -/
theorem singles_rise (text : String) :
    ((singleSpans (runParser text).2).Pairwise fun earlier later => earlier.start < later.start) ∧
      (singleSpans (runParser text).2).Sublist
        ((significantTokens (tokenize text)).map Token.span ++ [Span.point text.utf8ByteSize]) ∧
      (singleSpans (runParser text).2).length ≤ (significantTokens (tokenize text)).length + 1 ∧
      (∃ entered, Entered (.rule .expression) (Cursor.ofText text) entered) ∧
      ∀ entered, Entered (.rule .expression) (Cursor.ofText text) entered →
        entered.count .single = (singleSpans (runParser text).2).length ∧
          entered.length ≤ 10 * ((significantTokens (tokenize text)).length + 1) := by
  obtain ⟨_, hsome⟩ := exists_entered (Cursor.ofText text)
  obtain ⟨hsublist, -⟩ := singleSpans_runParser hsome
  have hplaces : (Cursor.ofText text).places =
      (significantTokens (tokenize text)).map Token.span ++ [Span.point text.utf8ByteSize] := by
    rw [Cursor.places, Cursor.pending_ofText, Cursor.endSpan_ofText]
  have hlength : (singleSpans (runParser text).2).length ≤
      (significantTokens (tokenize text)).length + 1 := by
    have hle := hsublist.length_le
    rwa [hplaces, List.length_append, List.length_map] at hle
  refine ⟨(pairwise_places_ofText text).sublist hsublist, hplaces ▸ hsublist, hlength,
    ⟨_, hsome⟩, fun entered hentered => ?_⟩
  obtain ⟨-, hcount⟩ := singleSpans_runParser hentered
  have hbound : entered.length + 0 ≤ 10 * entered.count .single + 0 := hentered.length_le
  exact ⟨hcount.symm, by omega⟩

end AlgebraText
