import AlgebraText.Parser.Grammar

/-!
# What the steps of a parser do

The grammar sees a cursor only through its pending tokens, the tokens ahead without the blank ones
(`Cursor.pending`). This module says once what each step does to them, so that later proofs about
rules cite these lemmas and never open a step again.

## What this module delivers

* `significantTokens` and `Cursor.pending`, with `Cursor.next?_cases`: the next token is the first
  pending one;
* `Parser.bind_eq_ok` and `Parser.bind_of_ok`, which take a sequence of steps apart and run it;
* `Parser.expect_eq_ok`, `Parser.expect_of_pending`, `Parser.accept_cases`: taking a token;
* `Parser.rewinding_eq_ok`, `Parser.fatally_eq_ok`, `Parser.firstOf_of_soft`: going back and
  trying alternatives.
-/

set_option autoImplicit false

namespace AlgebraText

/-- The tokens of a list that mean something, which are those that are not blank. -/
def significantTokens (tokens : List Token) : List Token :=
  tokens.filter fun token => !token.isBlank

@[simp]
theorem significantTokens_nil : significantTokens [] = [] := rfl

/-- Skipping blanks loses no significant token. -/
theorem significantTokens_dropWhile_isBlank (tokens : List Token) :
    significantTokens (tokens.dropWhile Token.isBlank) = significantTokens tokens := by
  induction tokens with
  | nil => rfl
  | cons token rest ih =>
      by_cases h : token.isBlank = true
      · rw [List.dropWhile_cons_of_pos h, ih]
        simp [significantTokens, h]
      · rw [List.dropWhile_cons_of_neg h]

/-- A list of significant tokens is left as it is. -/
theorem significantTokens_eq_self {tokens : List Token}
    (h : ∀ token ∈ tokens, token.isBlank = false) : significantTokens tokens = tokens := by
  apply List.filter_eq_self.2
  intro token hmem
  simp [h token hmem]

namespace Cursor

/-- The significant tokens ahead of a cursor. -/
def pending (cursor : Cursor) : List Token := significantTokens cursor.ahead

/-- Blanks that are skipped were not pending. -/
theorem pending_eq_significant (cursor : Cursor) :
    cursor.pending = significantTokens cursor.significant :=
  (significantTokens_dropWhile_isBlank cursor.ahead).symm

/-- No blank is left where blanks were skipped. -/
theorem isBlank_of_significant {cursor : Cursor} {token : Token} {rest : List Token}
    (h : cursor.significant = token :: rest) : token.isBlank = false := by
  have hfirst := List.head?_dropWhile_not Token.isBlank cursor.ahead
  rw [show cursor.ahead.dropWhile Token.isBlank = token :: rest from h] at hfirst
  simpa using hfirst

/-- The next token is the first pending one, and the tokens after it stay pending. -/
theorem next?_cases (cursor : Cursor) :
    (cursor.next? = none ∧ cursor.pending = []) ∨
      ∃ token later, cursor.next? = some (token, later) ∧
        cursor.pending = token :: later.pending ∧ token.isBlank = false := by
  cases hrest : cursor.significant with
  | nil =>
      refine Or.inl ⟨?_, ?_⟩
      · simp [next?, hrest]
      · rw [pending_eq_significant, hrest, significantTokens_nil]
  | cons token rest =>
      have hhead := isBlank_of_significant hrest
      refine Or.inr ⟨token, _, by simp only [next?, hrest]; rfl, ?_, hhead⟩
      rw [pending_eq_significant, hrest]
      simp [pending, significantTokens, hhead]

theorem pending_of_next? {cursor later : Cursor} {token : Token}
    (h : cursor.next? = some (token, later)) : cursor.pending = token :: later.pending := by
  rcases next?_cases cursor with ⟨hnone, -⟩ | ⟨token', later', hsome, hpending, -⟩
  · rw [hnone] at h
    cases h
  · rw [hsome] at h
    cases h
    exact hpending

theorem exists_next?_of_pending {cursor : Cursor} {token : Token} {rest : List Token}
    (h : cursor.pending = token :: rest) :
    ∃ later, cursor.next? = some (token, later) ∧ later.pending = rest := by
  rcases next?_cases cursor with ⟨-, hnil⟩ | ⟨token', later, hsome, hpending, -⟩
  · rw [hnil] at h
    cases h
  · rw [hpending] at h
    cases h
    exact ⟨later, hsome, rfl⟩

/-- Looking at the next significant token is looking at the first pending one. -/
theorem peek?_eq (cursor : Cursor) : cursor.peek? = cursor.pending.head? := by
  rw [pending_eq_significant]
  cases hrest : cursor.significant with
  | nil => simp [peek?, hrest]
  | cons token rest =>
      have hhead := isBlank_of_significant hrest
      simp [peek?, hrest, significantTokens, hhead]

/-- A significant token that stands directly ahead is the first pending one. -/
theorem pending_head?_of_current? {cursor : Cursor} {token : Token}
    (h : cursor.current? = some token) (hblank : token.isBlank = false) :
    cursor.pending.head? = some token := by
  cases hahead : cursor.ahead with
  | nil => simp [current?, hahead] at h
  | cons first rest =>
      obtain rfl : first = token := by simpa [current?, hahead] using h
      simp [pending, significantTokens, hahead, hblank]

/-- Events leave the pending tokens as they are. -/
theorem pending_of_log (cursor : Cursor) (log : List Event) :
    ({ cursor with log := log } : Cursor).pending = cursor.pending := rfl

end Cursor

namespace Parser

variable {α β : Type}

/-! ## Sequences of steps -/

/-- A sequence of two steps succeeds exactly if both do, the second where the first ended. -/
theorem bind_eq_ok {x : Parser α} {f : α → Parser β} {cursor later : Cursor} {b : β} :
    (x >>= f) cursor = .ok b later ↔
      ∃ a middle, x cursor = .ok a middle ∧ f a middle = .ok b later := by
  show EStateM.bind x f cursor = .ok b later ↔ _
  unfold EStateM.bind
  cases hx : x cursor with
  | ok a middle =>
      -- the first step has one outcome, so the intermediate cursor is not a choice
      constructor
      · intro h
        exact ⟨a, middle, rfl, h⟩
      · rintro ⟨a', middle', heq, h⟩
        cases heq
        exact h
  | error failure middle => simp

/-- After a step that succeeds the sequence goes on. -/
theorem bind_of_ok {x : Parser α} {f : α → Parser β} {cursor middle : Cursor} {a : α}
    (h : x cursor = .ok a middle) : (x >>= f) cursor = f a middle := by
  show EStateM.bind x f cursor = f a middle
  unfold EStateM.bind
  rw [h]

/-- After a step that fails the sequence has failed. -/
theorem bind_of_error {x : Parser α} {f : α → Parser β} {cursor later : Cursor}
    {failure : ParseFailure} (h : x cursor = .error failure later) :
    (x >>= f) cursor = .error failure later := by
  show EStateM.bind x f cursor = .error failure later
  unfold EStateM.bind
  rw [h]

theorem pure_apply (a : α) (cursor : Cursor) : (pure a : Parser α) cursor = .ok a cursor := rfl

theorem pure_eq_ok {a b : α} {cursor later : Cursor} :
    (pure a : Parser α) cursor = .ok b later ↔ a = b ∧ cursor = later := by
  rw [pure_apply]
  simp

/-- Noting an event succeeds and moves nothing. -/
theorem record_apply (event : Event) (cursor : Cursor) :
    record event cursor = .ok () { cursor with log := event :: cursor.log } := rfl

theorem recordHere_apply (event : Span → Event) (cursor : Cursor) :
    recordHere event cursor = .ok () { cursor with log := event cursor.span :: cursor.log } := rfl

/-! ## Taking a token -/

/-- An expected token is the next one and of an expected kind. -/
theorem expect_eq_ok {rule : Rule} {kinds : List TokenKind} {cursor later : Cursor}
    {token : Token} :
    expect rule kinds cursor = .ok token later ↔
      cursor.next? = some (token, later) ∧ token.kind ∈ kinds := by
  unfold expect
  cases hnext : cursor.next? with
  | none => simp
  | some pair =>
      obtain ⟨first, rest⟩ := pair
      by_cases hkind : first.kind ∈ kinds
      · simp only [hkind, if_true, EStateM.Result.ok.injEq, Option.some.injEq, Prod.mk.injEq]
        constructor
        · rintro ⟨rfl, rfl⟩
          exact ⟨⟨rfl, rfl⟩, hkind⟩
        · rintro ⟨h, -⟩
          exact h
      · simp only [hkind, if_false, Option.some.injEq, Prod.mk.injEq, reduceCtorEq, false_iff]
        rintro ⟨⟨rfl, rfl⟩, h⟩
        exact hkind h

theorem pending_of_expect {rule : Rule} {kinds : List TokenKind} {cursor later : Cursor}
    {token : Token} (h : expect rule kinds cursor = .ok token later) :
    cursor.pending = token :: later.pending ∧ token.kind ∈ kinds := by
  obtain ⟨hnext, hkind⟩ := expect_eq_ok.1 h
  exact ⟨Cursor.pending_of_next? hnext, hkind⟩

/-- A pending token of an expected kind is taken. -/
theorem expect_of_pending {cursor : Cursor} {token : Token} {rest : List Token} (rule : Rule)
    (kinds : List TokenKind) (h : cursor.pending = token :: rest) (hkind : token.kind ∈ kinds) :
    ∃ later, expect rule kinds cursor = .ok token later ∧ later.pending = rest := by
  obtain ⟨later, hnext, hrest⟩ := Cursor.exists_next?_of_pending h
  exact ⟨later, expect_eq_ok.2 ⟨hnext, hkind⟩, hrest⟩

/-- Where no token of an expected kind is pending, the step fails softly and stays. -/
theorem expect_error_of_pending {kinds : List TokenKind} {cursor : Cursor} (rule : Rule)
    (h : ∀ token ∈ cursor.pending.head?, token.kind ∉ kinds) :
    ∃ failure, expect rule kinds cursor = .error failure cursor ∧ failure.fatal = false := by
  unfold expect
  rcases Cursor.next?_cases cursor with ⟨hnone, -⟩ | ⟨token, later, hsome, hpending, -⟩
  · rw [hnone]
    exact ⟨_, rfl, rfl⟩
  · -- the token was looked at, but the cursor before it is what the failure keeps
    rw [hsome]
    have hkind : token.kind ∉ kinds := h token (by simp [hpending])
    simp only [hkind, if_false]
    exact ⟨_, rfl, rfl⟩

/-- Accepting a token takes it if it is of a given kind, and stays otherwise. -/
theorem accept_cases (rule : Rule) (kinds : List TokenKind) (cursor : Cursor) :
    (accept rule kinds cursor = .ok none cursor ∧
        ∀ token ∈ cursor.pending.head?, token.kind ∉ kinds) ∨
      ∃ token later, accept rule kinds cursor = .ok (some token) later ∧
        expect rule kinds cursor = .ok token later := by
  unfold accept
  rcases Cursor.next?_cases cursor with ⟨hnone, hnil⟩ | ⟨token, later, hsome, hpending, -⟩
  · refine Or.inl ⟨?_, by simp [hnil]⟩
    simp [expect, hnone]
  · by_cases hkind : token.kind ∈ kinds
    · have hexpect : expect rule kinds cursor = .ok token later := expect_eq_ok.2 ⟨hsome, hkind⟩
      exact Or.inr ⟨token, later, by rw [hexpect], hexpect⟩
    · refine Or.inl ⟨?_, by simpa [hpending] using hkind⟩
      simp [expect, hsome, hkind]

theorem accept_of_pending {cursor : Cursor} {token : Token} {rest : List Token} (rule : Rule)
    (kinds : List TokenKind) (h : cursor.pending = token :: rest) (hkind : token.kind ∈ kinds) :
    ∃ later, accept rule kinds cursor = .ok (some token) later ∧ later.pending = rest := by
  obtain ⟨later, hexpect, hrest⟩ := expect_of_pending rule kinds h hkind
  exact ⟨later, by simp [accept, hexpect], hrest⟩

theorem accept_none_of_pending {kinds : List TokenKind} {cursor : Cursor} (rule : Rule)
    (h : ∀ token ∈ cursor.pending.head?, token.kind ∉ kinds) :
    accept rule kinds cursor = .ok none cursor := by
  obtain ⟨failure, hexpect, -⟩ := expect_error_of_pending rule h
  simp [accept, hexpect]

/-! ## Going back and trying alternatives -/

theorem rewinding_eq_ok {parser : Parser α} {cursor later : Cursor} {a : α} :
    rewinding parser cursor = .ok a later ↔ parser cursor = .ok a later := by
  unfold rewinding
  cases parser cursor <;> simp

/-- A parser that fails under `rewinding` leaves the cursor where it started. -/
theorem ahead_of_rewinding_error {parser : Parser α} {cursor later : Cursor}
    {failure : ParseFailure} (h : rewinding parser cursor = .error failure later) :
    later.ahead = cursor.ahead := by
  unfold rewinding at h
  cases hp : parser cursor with
  | ok a middle =>
      rw [hp] at h
      cases h
  | error failure' middle =>
      rw [hp] at h
      cases h
      rfl

theorem rewinding_of_error {parser : Parser α} {cursor later : Cursor} {failure : ParseFailure}
    (h : parser cursor = .error failure later) :
    rewinding parser cursor = .error failure (later.rewoundTo cursor) := by
  simp [rewinding, h]

theorem fatally_eq_ok {parser : Parser α} {cursor later : Cursor} {a : α} :
    fatally parser cursor = .ok a later ↔ parser cursor = .ok a later := by
  unfold fatally
  cases parser cursor <;> simp

theorem fatal_of_fatally_error {parser : Parser α} {cursor later : Cursor}
    {failure : ParseFailure} (h : fatally parser cursor = .error failure later) :
    failure.fatal = true := by
  unfold fatally at h
  cases hp : parser cursor with
  | ok a middle =>
      rw [hp] at h
      cases h
  | error failure' middle =>
      rw [hp] at h
      cases h
      rfl

/-- An alternative that succeeds or fails fatally decides the choice. -/
theorem firstOf_of_decided {parser : Parser α} {cursor : Cursor} (parsers : List (Parser α))
    (lastResort : Parser α)
    (h : ∀ failure later, parser cursor = .error failure later → failure.fatal = true) :
    firstOf (parser :: parsers) lastResort cursor = parser cursor := by
  cases hp : parser cursor with
  | ok a later => simp only [firstOf, hp]
  | error failure later => simp only [firstOf, hp, h failure later hp, if_true]

/-- After an alternative that fails softly and stays the next one is tried. -/
theorem firstOf_of_soft {parser : Parser α} {cursor : Cursor} {failure : ParseFailure}
    (parsers : List (Parser α)) (lastResort : Parser α)
    (h : parser cursor = .error failure cursor) (hsoft : failure.fatal = false) :
    firstOf (parser :: parsers) lastResort cursor = firstOf parsers lastResort cursor := by
  simp [firstOf, h, hsoft]

end Parser

end AlgebraText
