import AlgebraText.Proofs.Parser.Steps

/-!
# Recursive parsers move forward and unfold

`Parser.recurse` lets a parser call itself only where fewer tokens are ahead. Two facts make this
guard invisible. Every parser of the grammar moves forward: wherever it ends, on success and on
failure alike, the tokens between are those it passed (`Parser.Advances`). And each recursive rule
calls itself only after it took a token, so what it makes of a cursor depends on what the inner
parser makes of shorter cursors alone; such a body is a fixed point of its own recursion
(`Parser.recurse_eq`).

## What this module delivers

* `Cursor.Reaches` and `Parser.Advances`, with one lemma for each way of combining parsers;
* `Parser.Compositional`: a property that all these ways keep is one of every rule;
* `Cursor.Reaches.buffer_eq` and `Cursor.Reaches.endSpan_eq`: what does not change on the way;
* `Parser.recurse_induction` and `Parser.recurse_induction_below`: what each turn of a recursion
  keeps, the recursion keeps;
* `Parser.chainRest_eq` and `Parser.expression_eq`, the rules without their guard.
-/

set_option autoImplicit false

namespace AlgebraText

namespace Cursor

/-- One cursor is reached from another by passing the tokens between them. -/
def Reaches (cursor later : Cursor) : Prop :=
  ∃ passed, cursor.ahead = passed ++ later.ahead ∧ later.behind = passed.reverse ++ cursor.behind

theorem Reaches.refl (cursor : Cursor) : Reaches cursor cursor := ⟨[], rfl, rfl⟩

theorem Reaches.trans {first second third : Cursor} (h₁ : Reaches first second)
    (h₂ : Reaches second third) : Reaches first third := by
  obtain ⟨passed₁, hahead₁, hbehind₁⟩ := h₁
  obtain ⟨passed₂, hahead₂, hbehind₂⟩ := h₂
  refine ⟨passed₁ ++ passed₂, ?_, ?_⟩
  · rw [hahead₁, hahead₂, List.append_assoc]
  · rw [hbehind₂, hbehind₁, List.reverse_append, List.append_assoc]

theorem Reaches.length_le {cursor later : Cursor} (h : Reaches cursor later) :
    later.ahead.length ≤ cursor.ahead.length := by
  obtain ⟨passed, hahead, -⟩ := h
  rw [hahead, List.length_append]
  omega

/-- Passing tokens changes none of them. -/
theorem Reaches.buffer_eq {cursor later : Cursor} (h : Reaches cursor later) :
    later.buffer = cursor.buffer := by
  obtain ⟨passed, hahead, hbehind⟩ := h
  rw [buffer, buffer, hbehind, hahead, List.reverse_append, List.reverse_reverse,
    List.append_assoc]

/-- The end of the text is the end of the last of all tokens. -/
theorem endOffset_eq (cursor : Cursor) :
    cursor.endOffset = (cursor.buffer.getLast?.map fun token => token.span.stop).getD 0 := by
  obtain ⟨behind, ahead, log⟩ := cursor
  rcases List.eq_nil_or_concat ahead with rfl | ⟨front, last, rfl⟩
  · cases behind <;> simp [endOffset, buffer]
  · simp [endOffset, buffer]

theorem Reaches.endSpan_eq {cursor later : Cursor} (h : Reaches cursor later) :
    later.endSpan = cursor.endSpan := by
  rw [endSpan, endSpan, endOffset_eq, endOffset_eq, h.buffer_eq]

/-- Events leave a cursor in its place. -/
theorem Reaches.of_log (cursor : Cursor) (log : List Event) :
    Reaches cursor { cursor with log := log } := ⟨[], rfl, rfl⟩

theorem Reaches.rewoundTo (cursor earlier : Cursor) :
    Reaches earlier (cursor.rewoundTo earlier) := ⟨[], rfl, rfl⟩

theorem Reaches.of_next? {cursor later : Cursor} {token : Token}
    (h : cursor.next? = some (token, later)) : Reaches cursor later := by
  have hwhole : cursor.ahead.takeWhile Token.isBlank ++ cursor.significant = cursor.ahead :=
    List.takeWhile_append_dropWhile
  unfold next? at h
  split at h
  · cases h
  · rename_i first rest hshape
    cases h
    -- the blanks that were skipped are passed along with the token
    refine ⟨cursor.ahead.takeWhile Token.isBlank ++ [token], ?_, ?_⟩
    · rw [hshape] at hwhole
      rw [List.append_assoc]
      exact hwhole.symm
    · simp

end Cursor

namespace Parser

variable {α β : Type}

/-- The cursor at which a run of a parser ended. -/
def endCursor : EStateM.Result ParseFailure Cursor α → Cursor
  | .ok _ later => later
  | .error _ later => later

/-- Wherever a parser ends, it got there by passing tokens. -/
def Advances (parser : Parser α) : Prop :=
  ∀ cursor, Cursor.Reaches cursor (endCursor (parser cursor))

theorem Advances.of_ok {parser : Parser α} (h : Advances parser) {cursor later : Cursor} {a : α}
    (hok : parser cursor = .ok a later) : Cursor.Reaches cursor later := by
  have hreach := h cursor
  rw [hok] at hreach
  exact hreach

/-! ## Ways of combining parsers -/

theorem advances_pure (a : α) : Advances (pure a : Parser α) := fun cursor => .refl cursor

theorem advances_bind {x : Parser α} {f : α → Parser β} (hx : Advances x)
    (hf : ∀ a, Advances (f a)) : Advances (x >>= f) := by
  intro cursor
  have hfirst := hx cursor
  cases hrun : x cursor with
  | ok a middle =>
      rw [hrun] at hfirst
      rw [bind_of_ok hrun]
      exact hfirst.trans (hf a middle)
  | error failure middle =>
      rw [hrun] at hfirst
      rw [bind_of_error hrun]
      exact hfirst

theorem advances_record (event : Event) : Advances (record event) :=
  fun cursor => .of_log cursor _

theorem advances_recordHere (event : Span → Event) : Advances (recordHere event) :=
  fun cursor => .of_log cursor _

theorem advances_expect (rule : Rule) (kinds : List TokenKind) : Advances (expect rule kinds) := by
  intro cursor
  unfold expect
  cases hnext : cursor.next? with
  | none => exact .refl cursor
  | some pair =>
      obtain ⟨token, later⟩ := pair
      by_cases hkind : token.kind ∈ kinds
      · simp only [hkind, if_true]
        exact .of_next? hnext
      · simp only [hkind, if_false]
        exact .refl cursor

theorem advances_accept (rule : Rule) (kinds : List TokenKind) : Advances (accept rule kinds) := by
  intro cursor
  rcases accept_cases rule kinds cursor with ⟨hstay, -⟩ | ⟨token, later, htake, hexpect⟩
  · rw [hstay]
    exact .refl cursor
  · rw [htake]
    exact (advances_expect rule kinds).of_ok hexpect

theorem advances_rewinding {parser : Parser α} (h : Advances parser) :
    Advances (rewinding parser) := by
  intro cursor
  cases hrun : parser cursor with
  | ok a later =>
      rw [rewinding_eq_ok.2 hrun]
      exact h.of_ok hrun
  | error failure later =>
      rw [rewinding_of_error hrun]
      exact .rewoundTo later cursor

theorem advances_fatally {parser : Parser α} (h : Advances parser) :
    Advances (fatally parser) := by
  intro cursor
  have hreach := h cursor
  unfold fatally
  cases hrun : parser cursor with
  | ok a later =>
      rw [hrun] at hreach
      exact hreach
  | error failure later =>
      rw [hrun] at hreach
      exact hreach

theorem advances_firstOf {parsers : List (Parser α)} {lastResort : Parser α}
    (h : ∀ parser ∈ parsers, Advances parser) (hlast : Advances lastResort) :
    Advances (firstOf parsers lastResort) := by
  induction parsers with
  | nil => exact hlast
  | cons parser parsers ih =>
      have hothers := ih fun other hmem => h other (List.mem_cons_of_mem _ hmem)
      intro cursor
      have hfirst := h parser List.mem_cons_self cursor
      cases hrun : parser cursor with
      | ok a later =>
          rw [hrun] at hfirst
          simpa only [firstOf, hrun] using hfirst
      | error failure later =>
          rw [hrun] at hfirst
          simp only [firstOf, hrun]
          by_cases hfatal : failure.fatal = true
          · simp only [hfatal, if_true]
            exact hfirst
          · -- the next alternative starts where the failed one ended
            simp only [hfatal]
            exact hfirst.trans (hothers later)

/-! ## Recursion -/

/-- **What each turn of a recursion keeps, the recursion keeps.** The turn may assume the property
of every call it makes. -/
theorem recurse_induction {body : Parser α → Parser α}
    (P : Cursor → EStateM.Result ParseFailure Cursor α → Prop)
    (hstray : ∀ cursor, P cursor (.error (cursor.failure .expression .unexpectedEof) cursor))
    (hbody : ∀ again : Parser α, (∀ cursor, P cursor (again cursor)) →
      ∀ cursor, P cursor (body again cursor)) :
    ∀ cursor, P cursor (recurse body cursor) := by
  intro cursor
  induction hn : cursor.ahead.length using Nat.strongRecOn generalizing cursor with
  | ind n ih =>
      rw [recurse]
      apply hbody
      intro later
      split
      · rename_i hlt
        exact ih later.ahead.length (hn ▸ hlt) later rfl
      · -- a call that took no token does not recurse: it fails on the spot
        exact hstray later

/-- What each turn of a recursion has if the calls it makes further on have it, the recursion has.
Unlike above, a call that takes no token need not have it. -/
theorem recurse_induction_below {body : Parser α → Parser α}
    (P : Cursor → EStateM.Result ParseFailure Cursor α → Prop)
    (hbody : ∀ (again : Parser α) (bound : Nat),
      (∀ cursor, cursor.ahead.length < bound → P cursor (again cursor)) →
        ∀ cursor, cursor.ahead.length ≤ bound → P cursor (body again cursor)) :
    ∀ cursor, P cursor (recurse body cursor) := by
  intro cursor
  induction hn : cursor.ahead.length using Nat.strongRecOn generalizing cursor with
  | ind n ih =>
      rw [recurse]
      refine hbody _ n (fun later hlt => ?_) cursor (Nat.le_of_eq hn)
      simp only [hn, hlt, if_true]
      exact ih later.ahead.length hlt later rfl

theorem advances_recurse {body : Parser α → Parser α}
    (h : ∀ again, Advances again → Advances (body again)) : Advances (recurse body) :=
  recurse_induction (fun cursor result => Cursor.Reaches cursor (endCursor result))
    (fun cursor => .refl cursor) h

/-- Two parsers do the same wherever fewer tokens than the bound are ahead. -/
def AgreeBelow (bound : Nat) (p q : Parser α) : Prop :=
  ∀ cursor, cursor.ahead.length < bound → p cursor = q cursor

/-- **A recursion whose turns take a token first is a fixed point of its body.** -/
theorem recurse_eq {body : Parser α → Parser α} (hadvances : Advances (recurse body))
    (h : ∀ bound p q, Advances p → Advances q → AgreeBelow bound p q →
      AgreeBelow (bound + 1) (body p) (body q)) :
    recurse body = body (recurse body) := by
  funext cursor
  rw [recurse]
  -- the guarded call and the plain one agree on shorter cursors, and the body looks no further
  refine h cursor.ahead.length _ _ ?_ hadvances ?_ cursor (Nat.lt_succ_self _)
  · intro later
    by_cases hlt : later.ahead.length < cursor.ahead.length
    · simp only [hlt, if_true]
      exact hadvances later
    · simp only [hlt, if_false]
      exact .refl later
  · intro later hlt
    simp only [hlt, if_true]

/-- Sequences agree if their first steps do and their second steps do where the first ended. -/
theorem bind_congr {x y : Parser α} {f g : α → Parser β} {cursor : Cursor}
    (hx : x cursor = y cursor)
    (hf : ∀ a later, y cursor = .ok a later → f a later = g a later) :
    (x >>= f) cursor = (y >>= g) cursor := by
  cases hrun : y cursor with
  | ok a later => rw [bind_of_ok (hx.trans hrun), bind_of_ok hrun, hf a later hrun]
  | error failure later => rw [bind_of_error (hx.trans hrun), bind_of_error hrun]

theorem length_lt_of_expect {rule : Rule} {kinds : List TokenKind} {cursor later : Cursor}
    {token : Token} (h : expect rule kinds cursor = .ok token later) :
    later.ahead.length < cursor.ahead.length :=
  Cursor.ahead_length_lt_of_next? (expect_eq_ok.1 h).1

/-! ## Brackets -/

/-- An expression in brackets is read the same by two parsers that agree on shorter cursors. -/
theorem agreeBelow_fatally_rewinding {bound : Nat} {p q : Parser α} (h : AgreeBelow bound p q) :
    AgreeBelow bound (fatally (rewinding p)) (fatally (rewinding q)) := by
  intro cursor hlt
  simp only [fatally, rewinding, h cursor hlt]

theorem agreeBelow_rewinding {bound : Nat} {p q : Parser α} (h : AgreeBelow bound p q) :
    AgreeBelow bound (rewinding p) (rewinding q) := by
  intro cursor hlt
  simp only [rewinding, h cursor hlt]

theorem agreeBelow_paren {bound : Nat} {p q : Parser ParseTree} (h : AgreeBelow bound p q) :
    AgreeBelow (bound + 1) (paren p) (paren q) := by
  intro cursor hlt
  refine bind_congr rfl fun opening inside hopen => ?_
  -- the bracket is the token that brings the cursor below the bound
  have hshorter := length_lt_of_expect hopen
  refine bind_congr rfl fun _ noted hnoted => ?_
  cases hnoted
  exact bind_congr (agreeBelow_fatally_rewinding h _ (by show inside.ahead.length < bound; omega))
    fun _ _ _ => rfl

theorem agreeBelow_function {bound : Nat} {p q : Parser ParseTree} (h : AgreeBelow bound p q) :
    AgreeBelow (bound + 1) (function p) (function q) := by
  intro cursor hlt
  refine bind_congr rfl fun name named hname => ?_
  refine bind_congr rfl fun opening inside hopen => ?_
  have hshorter := length_lt_of_expect hname
  have hshortest := length_lt_of_expect hopen
  refine bind_congr rfl fun _ noted hnoted => ?_
  cases hnoted
  exact bind_congr (agreeBelow_fatally_rewinding h _ (by show inside.ahead.length < bound; omega))
    fun _ _ _ => rfl

/-- Alternatives that go back on failure agree if each of them does. -/
theorem firstOf_congr {p q : Parser α} {ps qs : List (Parser α)} {lastResort : Parser α}
    {cursor : Cursor} (hp : rewinding p cursor = rewinding q cursor)
    (hps : ∀ later : Cursor, later.ahead = cursor.ahead →
      firstOf ps lastResort later = firstOf qs lastResort later) :
    firstOf (rewinding p :: ps) lastResort cursor =
      firstOf (rewinding q :: qs) lastResort cursor := by
  cases hrun : rewinding q cursor with
  | ok a later => simp only [firstOf, hp, hrun]
  | error failure later =>
      have hstay := ahead_of_rewinding_error hrun
      simp only [firstOf, hp, hrun, hps later hstay]

theorem agreeBelow_atom {bound : Nat} {p q : Parser ParseTree} (h : AgreeBelow bound p q) :
    AgreeBelow (bound + 1) (atom p) (atom q) := by
  intro cursor hlt
  have hparen := agreeBelow_rewinding (agreeBelow_paren h)
  have hfunction := agreeBelow_rewinding (agreeBelow_function h)
  -- names and numbers hold no expression, so only the first two alternatives differ
  refine firstOf_congr (hparen cursor hlt) fun later hlater => ?_
  exact firstOf_congr (hfunction later (by rw [hlater]; exact hlt)) fun _ _ => rfl

theorem agreeBelow_single {bound : Nat} {p q : Parser ParseTree} (h : AgreeBelow bound p q) :
    AgreeBelow (bound + 1) (single p) (single q) := by
  intro cursor hlt
  refine bind_congr rfl fun _ noted hnoted => ?_
  cases hnoted
  refine bind_congr rfl fun minus later hminus => ?_
  have hle := ((advances_accept .single [.sub]).of_ok hminus).length_le
  exact bind_congr (agreeBelow_atom h later (Nat.lt_of_le_of_lt hle hlt)) fun _ _ _ => rfl

/-! ## The loop of a chain -/

/-- One turn of the loop over the operators and operands of a chain. -/
def chainTurn (rule : Rule) (operand : Parser ParseTree) (again : Parser (List Element)) :
    Parser (List Element) := do
  match ← accept rule rule.operators with
  | none => return []
  | some operator =>
    record (.operator rule operator.lexeme operator.span)
    let right ← operand
    let rest ← again
    return .token operator :: .node right :: rest

theorem chainRest_eq_recurse (rule : Rule) (operand : Parser ParseTree) :
    chainRest rule operand = recurse (chainTurn rule operand) := rfl

/-! ## Properties that every rule has -/

/-- A property of parsers that is kept by all the ways in which the rules combine them. -/
structure Compositional (P : ∀ {α : Type}, Parser α → Prop) : Prop where
  pure {α : Type} (a : α) : P (pure a : Parser α)
  bind {α β : Type} {x : Parser α} {f : α → Parser β} : P x → (∀ a, P (f a)) → P (x >>= f)
  record (event : Event) : P (Parser.record event)
  recordHere (event : Span → Event) : P (Parser.recordHere event)
  expect (rule : Rule) (kinds : List TokenKind) : P (Parser.expect rule kinds)
  accept (rule : Rule) (kinds : List TokenKind) : P (Parser.accept rule kinds)
  rewinding {α : Type} {parser : Parser α} : P parser → P (Parser.rewinding parser)
  fatally {α : Type} {parser : Parser α} : P parser → P (Parser.fatally parser)
  firstOf {α : Type} {parsers : List (Parser α)} {lastResort : Parser α} :
    (∀ parser ∈ parsers, P parser) → P lastResort → P (Parser.firstOf parsers lastResort)
  recurse {α : Type} {body : Parser α → Parser α} :
    (∀ again, P again → P (body again)) → P (Parser.recurse body)
  closing (rule : Rule) (kind : TokenKind) (cause : ParseCause) (opening : Token) :
    P (Parser.closing rule kind cause opening)
  noPointAfter (number : Token) : P (Parser.noPointAfter number)
  noOperand : P Parser.noOperand

namespace Compositional

variable {P : ∀ {α : Type}, Parser α → Prop} {p : Parser ParseTree}

theorem paren (h : Compositional P) (hp : P p) : P (Parser.paren p) :=
  h.bind (h.expect _ _) fun _ => h.bind (h.record _) fun _ =>
    h.bind (h.fatally (h.rewinding hp)) fun _ =>
      h.bind (h.closing _ _ _ _) fun _ => h.pure _

theorem function (h : Compositional P) (hp : P p) : P (Parser.function p) :=
  h.bind (h.expect _ _) fun _ => h.bind (h.expect _ _) fun _ =>
    h.bind (h.record _) fun _ => h.bind (h.fatally (h.rewinding hp)) fun _ =>
      h.bind (h.closing _ _ _ _) fun _ => h.pure _

theorem var (h : Compositional P) : P Parser.var :=
  h.bind (h.expect _ _) fun _ => h.bind (h.record _) fun _ => h.pure _

theorem number (h : Compositional P) : P Parser.number :=
  h.bind (h.expect _ _) fun _ => h.bind (h.record _) fun _ =>
    h.bind (h.noPointAfter _) fun _ => h.pure _

theorem atom (h : Compositional P) (hp : P p) : P (Parser.atom p) := by
  apply h.firstOf _ h.noOperand
  intro parser hmem
  simp only [List.mem_cons, List.not_mem_nil, or_false] at hmem
  rcases hmem with rfl | rfl | rfl | rfl
  · exact h.rewinding (h.paren hp)
  · exact h.rewinding (h.function hp)
  · exact h.rewinding h.var
  · exact h.rewinding h.number

theorem single (h : Compositional P) (hp : P p) : P (Parser.single p) :=
  h.bind (h.recordHere _) fun _ => h.bind (h.accept _ _) fun _ =>
    h.bind (h.atom hp) fun _ => h.pure _

theorem chainRest (h : Compositional P) (rule : Rule) (hp : P p) :
    P (Parser.chainRest rule p) := by
  rw [chainRest_eq_recurse]
  refine h.recurse fun again hagain => ?_
  refine h.bind (h.accept _ _) fun found => ?_
  cases found with
  | none => exact h.pure _
  | some operator =>
      exact h.bind (h.record _) fun _ => h.bind hp fun _ => h.bind hagain fun _ => h.pure _

theorem chain (h : Compositional P) (rule : Rule) (hp : P p) : P (Parser.chain rule p) := by
  refine h.bind hp fun first => h.bind (h.chainRest rule hp) fun rest => ?_
  cases rest with
  | nil => exact h.pure _
  | cons child rest => exact h.pure _

theorem additive (h : Compositional P) (hp : P p) : P (Parser.additive p) :=
  h.chain _ (h.chain _ (h.chain _ (h.chain _ (h.single hp))))

theorem expression (h : Compositional P) : P Parser.expression :=
  h.recurse fun _ hp => h.bind (h.recordHere _) fun _ => h.additive hp

/-- **A property that all ways of combining parsers keep is one of every rule.** -/
theorem parser (h : Compositional P) (goal : Nonterminal) : P goal.parser := by
  have hsingle := h.single h.expression
  have hpower := h.chain .power hsingle
  have hdivide := h.chain .divide hpower
  cases goal with
  | expression => exact h.expression
  | additive => exact h.additive h.expression
  | multiply => exact h.chain .multiply hdivide
  | divide => exact hdivide
  | power => exact hpower
  | single => exact hsingle
  | paren => exact h.paren h.expression
  | function => exact h.function h.expression
  | var => exact h.var
  | number => exact h.number

end Compositional

/-! ## Every rule advances -/

theorem advances_closing (rule : Rule) (kind : TokenKind) (cause : ParseCause) (opening : Token) :
    Advances (closing rule kind cause opening) := by
  intro cursor
  have hreach := advances_expect rule [kind] cursor
  unfold closing
  cases hrun : expect rule [kind] cursor with
  | ok token later =>
      rw [hrun] at hreach
      exact hreach
  | error failure later =>
      rw [hrun] at hreach
      exact hreach

theorem advances_noPointAfter (number : Token) : Advances (noPointAfter number) := by
  intro cursor
  unfold noPointAfter
  split
  · split
    · exact .refl cursor
    · exact .refl cursor
  · exact .refl cursor

theorem advances_noOperand : Advances noOperand := by
  intro cursor
  unfold noOperand
  split
  · exact .refl cursor
  · split
    · exact .refl cursor
    · exact .refl cursor

/-- Wherever a rule ends, it got there by passing tokens. -/
theorem compositional_advances : Compositional Advances where
  pure := advances_pure
  bind := advances_bind
  record := advances_record
  recordHere := advances_recordHere
  expect := advances_expect
  accept := advances_accept
  rewinding := advances_rewinding
  fatally := advances_fatally
  firstOf := advances_firstOf
  recurse := advances_recurse
  closing := advances_closing
  noPointAfter := advances_noPointAfter
  noOperand := advances_noOperand

theorem advances_single {p : Parser ParseTree} (h : Advances p) : Advances (single p) :=
  compositional_advances.single h

theorem advances_chainRest {operand : Parser ParseTree} (rule : Rule) (h : Advances operand) :
    Advances (chainRest rule operand) := compositional_advances.chainRest rule h

theorem advances_chain {operand : Parser ParseTree} (rule : Rule) (h : Advances operand) :
    Advances (chain rule operand) := compositional_advances.chain rule h

theorem advances_expression : Advances expression := compositional_advances.expression

/-! ## Chains -/

/-- Two turns agree if their operands do and their continuations do on shorter cursors. -/
theorem chainTurn_congr {p q : Parser ParseTree} {again again' : Parser (List Element)}
    (rule : Rule) {bound : Nat} (hq : Advances q) (hpq : AgreeBelow bound p q) {cursor : Cursor}
    (hlt : cursor.ahead.length < bound)
    (hagain : AgreeBelow cursor.ahead.length again again') :
    chainTurn rule p again cursor = chainTurn rule q again' cursor := by
  refine bind_congr rfl fun found later hfound => ?_
  cases found with
  | none => rfl
  | some operator =>
      -- the operator was taken, so whatever follows it runs on a shorter cursor
      have hshorter : later.ahead.length < cursor.ahead.length := by
        rcases accept_cases rule rule.operators cursor with ⟨hstay, -⟩ | ⟨_, _, htake, hexpect⟩
        · rw [hstay] at hfound
          cases hfound
        · rw [htake] at hfound
          cases hfound
          exact length_lt_of_expect hexpect
      refine bind_congr rfl fun _ noted hnoted => ?_
      cases hnoted
      refine bind_congr (hpq _ (by show later.ahead.length < bound; omega))
        fun right after hright => ?_
      have hle : after.ahead.length ≤ later.ahead.length := (hq.of_ok hright).length_le
      exact bind_congr (hagain after (by omega)) fun _ _ _ => rfl

/-- **The operators and operands of a chain, one turn unfolded.** -/
theorem chainRest_eq {operand : Parser ParseTree} (rule : Rule) (h : Advances operand) :
    chainRest rule operand = chainTurn rule operand (chainRest rule operand) := by
  have hadvances := advances_chainRest rule h
  rw [chainRest_eq_recurse] at hadvances ⊢
  refine recurse_eq hadvances fun bound p q _ _ hpq cursor hlt => ?_
  refine chainTurn_congr rule h (fun _ _ => rfl) hlt fun later hlater => ?_
  exact hpq later (by omega)

theorem agreeBelow_chainRest {p q : Parser ParseTree} (rule : Rule) {bound : Nat}
    (hp : Advances p) (hq : Advances q) (hpq : AgreeBelow bound p q) :
    AgreeBelow bound (chainRest rule p) (chainRest rule q) := by
  intro cursor hlt
  -- induction on the tokens ahead: each turn of both loops takes the same operator
  induction hn : cursor.ahead.length using Nat.strongRecOn generalizing cursor with
  | ind n ih =>
      rw [chainRest_eq rule hp, chainRest_eq rule hq]
      refine chainTurn_congr rule hq hpq hlt fun later hlater => ?_
      exact ih later.ahead.length (hn ▸ hlater) later (by omega) rfl

theorem agreeBelow_chain {p q : Parser ParseTree} (rule : Rule) {bound : Nat}
    (hp : Advances p) (hq : Advances q) (hpq : AgreeBelow bound p q) :
    AgreeBelow bound (chain rule p) (chain rule q) := by
  intro cursor hlt
  refine bind_congr (hpq cursor hlt) fun first later hfirst => ?_
  have hle := (hq.of_ok hfirst).length_le
  exact bind_congr (agreeBelow_chainRest rule hp hq hpq later (by omega)) fun _ _ _ => rfl

/-! ## Expressions -/

theorem agreeBelow_additive {p q : Parser ParseTree} {bound : Nat} (hp : Advances p)
    (hq : Advances q) (hpq : AgreeBelow bound p q) :
    AgreeBelow (bound + 1) (additive p) (additive q) := by
  -- the bound grows by one at the operand and is handed up the four layers unchanged
  have hsingle := agreeBelow_single hpq
  have hpower := agreeBelow_chain .power (advances_single hp) (advances_single hq) hsingle
  have hdivide := agreeBelow_chain .divide (advances_chain _ (advances_single hp))
    (advances_chain _ (advances_single hq)) hpower
  have hmultiply := agreeBelow_chain .multiply
    (advances_chain _ (advances_chain _ (advances_single hp)))
    (advances_chain _ (advances_chain _ (advances_single hq))) hdivide
  exact agreeBelow_chain .additive
    (advances_chain _ (advances_chain _ (advances_chain _ (advances_single hp))))
    (advances_chain _ (advances_chain _ (advances_chain _ (advances_single hq)))) hmultiply

/-- **An expression is an additive chain whose brackets hold expressions.** -/
theorem expression_eq : expression = expressionBody expression := by
  refine recurse_eq advances_expression fun bound p q hp hq hpq cursor hlt => ?_
  refine bind_congr rfl fun _ noted hnoted => ?_
  cases hnoted
  exact agreeBelow_additive hp hq hpq _ hlt

end Parser

end AlgebraText
