import AlgebraText.Proofs.Parser.Recursion

/-!
# The log plays no part in what the parser does

The parser only ever adds to its log. A run from a cursor with more events in its log is the same
run, with the earlier events still below the new ones; so where two cursors stand at the same place,
the same parsers answer the same from both.

## What this module delivers

* `Cursor.above`, a cursor with earlier events below its own, and `Parser.Appends` with one lemma
  for each way of combining parsers, up to `Nonterminal.appends`;
* `Cursor.SamePlace`, cursors that differ in their logs at most, and `Parser.Appends.samePlace`:
  from the same place a parser gives the same result and ends at the same place.
-/

set_option autoImplicit false

namespace AlgebraText

namespace Cursor

/-- The same place, with earlier events below the events so far. -/
def above (cursor : Cursor) (earlier : List Event) : Cursor :=
  { cursor with log := cursor.log ++ earlier }

@[simp]
theorem ahead_above (cursor : Cursor) (earlier : List Event) :
    (cursor.above earlier).ahead = cursor.ahead := rfl

@[simp]
theorem peek?_above (cursor : Cursor) (earlier : List Event) :
    (cursor.above earlier).peek? = cursor.peek? := rfl

@[simp]
theorem current?_above (cursor : Cursor) (earlier : List Event) :
    (cursor.above earlier).current? = cursor.current? := rfl

@[simp]
theorem next?_above (cursor : Cursor) (earlier : List Event) :
    (cursor.above earlier).next? =
      cursor.next?.map fun taken => (taken.1, taken.2.above earlier) := by
  unfold next?
  rw [show (cursor.above earlier).significant = cursor.significant from rfl]
  cases cursor.significant <;> rfl

end Cursor

namespace Parser

variable {α β : Type}

/-- The same outcome, with earlier events below the events so far. -/
def outcomeAbove (earlier : List Event) :
    EStateM.Result ParseFailure Cursor α → EStateM.Result ParseFailure Cursor α
  | .ok value later => .ok value (later.above earlier)
  | .error failure later => .error failure (later.above earlier)

@[simp]
theorem outcomeAbove_ok (earlier : List Event) (value : α) (later : Cursor) :
    outcomeAbove earlier (.ok value later) = .ok value (later.above earlier) := rfl

@[simp]
theorem outcomeAbove_error (earlier : List Event) (failure : ParseFailure) (later : Cursor) :
    outcomeAbove (α := α) earlier (.error failure later) =
      .error failure (later.above earlier) := rfl

/-- A parser that adds to the log and does not depend on it. -/
def Appends (parser : Parser α) : Prop :=
  ∀ cursor earlier, parser (cursor.above earlier) = outcomeAbove earlier (parser cursor)

/-! ## Ways of combining parsers -/

theorem appends_pure (a : α) : Appends (pure a : Parser α) := fun _ _ => rfl

theorem appends_bind {x : Parser α} {f : α → Parser β} (hx : Appends x)
    (hf : ∀ a, Appends (f a)) : Appends (x >>= f) := by
  intro cursor earlier
  have hfirst := hx cursor earlier
  cases hrun : x cursor with
  | ok a middle =>
      rw [hrun] at hfirst
      rw [bind_of_ok hfirst, bind_of_ok hrun]
      exact hf a middle earlier
  | error failure middle =>
      rw [hrun] at hfirst
      rw [bind_of_error hfirst, bind_of_error hrun]
      rfl

theorem appends_record (event : Event) : Appends (record event) := fun _ _ => rfl

theorem appends_recordHere (event : Span → Event) : Appends (recordHere event) := fun _ _ => rfl

theorem appends_next (rule : Rule) : Appends (next rule) := by
  intro cursor earlier
  unfold next
  rw [Cursor.next?_above]
  cases cursor.next? <;> rfl

theorem appends_expect (rule : Rule) (kinds : List TokenKind) : Appends (expect rule kinds) := by
  intro cursor earlier
  unfold expect
  rw [Cursor.next?_above]
  cases cursor.next? with
  | none => rfl
  | some taken =>
      by_cases hkind : taken.1.kind ∈ kinds <;> simp [hkind]

theorem appends_accept (rule : Rule) (kinds : List TokenKind) : Appends (accept rule kinds) := by
  intro cursor earlier
  unfold accept
  rw [appends_expect rule kinds cursor earlier]
  cases expect rule kinds cursor <;> rfl

theorem appends_rewinding {parser : Parser α} (h : Appends parser) :
    Appends (rewinding parser) := by
  intro cursor earlier
  unfold rewinding
  rw [h cursor earlier]
  cases parser cursor <;> rfl

theorem appends_fatally {parser : Parser α} (h : Appends parser) : Appends (fatally parser) := by
  intro cursor earlier
  unfold fatally
  rw [h cursor earlier]
  cases parser cursor <;> rfl

theorem appends_firstOf {parsers : List (Parser α)} {lastResort : Parser α}
    (h : ∀ parser ∈ parsers, Appends parser) (hlast : Appends lastResort) :
    Appends (firstOf parsers lastResort) := by
  induction parsers with
  | nil => exact hlast
  | cons parser parsers ih =>
      have hothers := ih fun other hmem => h other (List.mem_cons_of_mem _ hmem)
      intro cursor earlier
      simp only [firstOf, h parser List.mem_cons_self cursor earlier]
      cases hrun : parser cursor with
      | ok a later => rfl
      | error failure later =>
          by_cases hfatal : failure.fatal = true
          · simp [hfatal]
          · simpa [hfatal] using hothers later earlier

/-- A recursion appends if its body does around every call that does. -/
theorem appends_recurse {body : Parser α → Parser α}
    (h : ∀ again, Appends again → Appends (body again)) : Appends (recurse body) := by
  intro cursor earlier
  induction hn : cursor.ahead.length using Nat.strongRecOn generalizing cursor earlier with
  | ind n ih =>
      rw [recurse, recurse]
      refine h _ (fun later log => ?_) cursor earlier
      simp only [Cursor.ahead_above]
      -- the guard compares numbers of tokens, so it lets the same calls through
      by_cases hlt : later.ahead.length < cursor.ahead.length
      · simp only [hlt, if_true]
        exact ih later.ahead.length (hn ▸ hlt) later log rfl
      · simp only [hlt, if_false]
        rfl

/-! ## The rules -/

theorem appends_closing (rule : Rule) (kind : TokenKind) (cause : ParseCause) (opening : Token) :
    Appends (closing rule kind cause opening) := by
  intro cursor earlier
  unfold closing
  rw [appends_expect rule [kind] cursor earlier]
  cases expect rule [kind] cursor <;> rfl

theorem appends_noPointAfter (number : Token) : Appends (noPointAfter number) := by
  intro cursor earlier
  unfold noPointAfter
  rw [Cursor.current?_above]
  split
  · split <;> rfl
  · rfl

theorem appends_noOperand : Appends noOperand := by
  intro cursor earlier
  unfold noOperand
  rw [Cursor.peek?_above]
  split
  · rfl
  · split <;> rfl

/-- Every rule adds to the log and does not depend on it. -/
theorem compositional_appends : Compositional Appends where
  pure := appends_pure
  bind := appends_bind
  record := appends_record
  recordHere := appends_recordHere
  expect := appends_expect
  accept := appends_accept
  rewinding := appends_rewinding
  fatally := appends_fatally
  firstOf := appends_firstOf
  recurse := appends_recurse
  closing := appends_closing
  noPointAfter := appends_noPointAfter
  noOperand := appends_noOperand

theorem appends_nothingLeft : Appends nothingLeft := by
  intro cursor earlier
  unfold nothingLeft
  rw [Cursor.peek?_above]
  cases cursor.peek? <;> rfl

theorem appends_wholeExpression : Appends wholeExpression :=
  appends_bind (appends_rewinding compositional_appends.expression) fun _ =>
    appends_bind appends_nothingLeft fun _ => appends_pure _

end Parser

/-! ## Cursors at the same place -/

namespace Cursor

/-- Cursors between the same two tokens, whatever was noted on the way. -/
structure SamePlace (cursor other : Cursor) : Prop where
  behind : cursor.behind = other.behind
  ahead : cursor.ahead = other.ahead

namespace SamePlace

theorem refl (cursor : Cursor) : SamePlace cursor cursor := ⟨rfl, rfl⟩

theorem rewoundTo (cursor earlier : Cursor) : SamePlace (cursor.rewoundTo earlier) earlier :=
  ⟨rfl, rfl⟩

/-- Cursors at the same place are one cursor with an empty log, each above its own events. -/
theorem exists_above {cursor other : Cursor} (h : SamePlace cursor other) :
    ∃ bare : Cursor, cursor = bare.above cursor.log ∧ other = bare.above other.log := by
  obtain ⟨behind, ahead, log⟩ := cursor
  obtain ⟨behind', ahead', log'⟩ := other
  obtain ⟨rfl, rfl⟩ := h
  exact ⟨⟨behind, ahead, []⟩, rfl, rfl⟩

end SamePlace

end Cursor

namespace Parser

variable {α : Type}

/-- What a run answers, with the cursor at which it ended. -/
def outcome : EStateM.Result ParseFailure Cursor α → Except ParseFailure α × Cursor
  | .ok value later => (.ok value, later)
  | .error failure later => (.error failure, later)

/-- **From the same place a parser gives the same result and ends at the same place.** -/
theorem Appends.samePlace {parser : Parser α} (h : Appends parser) {cursor other : Cursor}
    (hplace : cursor.SamePlace other) :
    (outcome (parser cursor)).1 = (outcome (parser other)).1 ∧
      (outcome (parser cursor)).2.SamePlace (outcome (parser other)).2 := by
  obtain ⟨bare, hcursor, hother⟩ := hplace.exists_above
  rw [hcursor, hother, h bare cursor.log, h bare other.log]
  cases parser bare with
  | ok value later => exact ⟨rfl, rfl, rfl⟩
  | error failure later => exact ⟨rfl, rfl, rfl⟩

end Parser

end AlgebraText
