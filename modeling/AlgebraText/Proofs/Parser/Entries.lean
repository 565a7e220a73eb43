import AlgebraText.Proofs.Grammar.Exactness

/-!
# The rules that a run enters

A run of the parser enters rules one inside the other. Which ones is decided by the outcomes on the
way: whether a rule succeeds decides if the rule around it goes on, and whether it fails fatally
decides if another alternative is tried. `Entered` follows a run from outcome to outcome and lists
the rules in the order in which they are entered, those of attempts that come to nothing included.

Every run has such a list (`exists_entered`), and a proof about the list can go by its cases: they
are the ways in which each rule can go.

## What this module delivers

* `Task` and `Entered`;
* `exists_entered`: the rules that a run enters can be listed;
* `Entered.length_le`: of ten rules that are entered at least one is an operand.
-/

set_option autoImplicit false

namespace AlgebraText

/-- The cursor after an event was noted. -/
def Cursor.noting (cursor : Cursor) (event : Event) : Cursor :=
  { cursor with log := event :: cursor.log }

/-- What the parser can have ahead of it. -/
inductive Task where
  /-- To enter a rule. -/
  | rule (goal : Nonterminal)
  /-- To go on with a chain: to read its operators, with an operand after each. -/
  | links (goal : Nonterminal)
  /-- To attempt rules in turn. -/
  | alternatives (goals : List Nonterminal)

/-- The rules that an operand is attempted as. -/
def atoms : List Nonterminal := [.paren, .function, .var, .number]

/-- The rules that are entered while the parser does a task from a cursor, in order. -/
inductive Entered : Task → Cursor → List Nonterminal → Prop
  /-- An expression is an additive chain. -/
  | expression {cursor : Cursor} {entered : List Nonterminal} :
      Entered (.rule .additive) (cursor.noting (.expression cursor.span)) entered →
      Entered (.rule .expression) cursor (.expression :: entered)
  /-- A chain fails with its first operand. -/
  | chainFailed {goal operand : Nonterminal} {rule : Rule} {cursor later : Cursor}
      {failure : ParseFailure} {entered : List Nonterminal} :
      goal.chain? = some (rule, operand) → operand.parser cursor = .error failure later →
      Entered (.rule operand) cursor entered →
      Entered (.rule goal) cursor (goal :: entered)
  /-- A chain goes on after its first operand. -/
  | chain {goal operand : Nonterminal} {rule : Rule} {cursor later : Cursor} {tree : ParseTree}
      {entered others : List Nonterminal} :
      goal.chain? = some (rule, operand) → operand.parser cursor = .ok tree later →
      Entered (.rule operand) cursor entered → Entered (.links goal) later others →
      Entered (.rule goal) cursor (goal :: (entered ++ others))
  /-- No operator of the chain follows. -/
  | linksDone {goal operand : Nonterminal} {rule : Rule} {cursor : Cursor} :
      goal.chain? = some (rule, operand) →
      Parser.accept rule rule.operators cursor = .ok none cursor →
      Entered (.links goal) cursor []
  /-- The operand after an operator fails. -/
  | linksFailed {goal operand : Nonterminal} {rule : Rule} {cursor taken later : Cursor}
      {operator : Token} {failure : ParseFailure} {entered : List Nonterminal} :
      goal.chain? = some (rule, operand) →
      Parser.accept rule rule.operators cursor = .ok (some operator) taken →
      operand.parser (taken.noting (.operator rule operator.lexeme operator.span)) =
        .error failure later →
      Entered (.rule operand) (taken.noting (.operator rule operator.lexeme operator.span))
        entered →
      Entered (.links goal) cursor entered
  /-- The chain goes on after another operand. -/
  | links {goal operand : Nonterminal} {rule : Rule} {cursor taken later : Cursor}
      {operator : Token} {tree : ParseTree} {entered others : List Nonterminal} :
      goal.chain? = some (rule, operand) →
      Parser.accept rule rule.operators cursor = .ok (some operator) taken →
      operand.parser (taken.noting (.operator rule operator.lexeme operator.span)) =
        .ok tree later →
      Entered (.rule operand) (taken.noting (.operator rule operator.lexeme operator.span))
        entered →
      Entered (.links goal) later others →
      Entered (.links goal) cursor (entered ++ others)
  /-- An operand is attempted in four ways, behind its sign if it has one. -/
  | single {cursor signed : Cursor} {minus : Option Token} {entered : List Nonterminal} :
      Parser.accept .single [.sub] (cursor.noting (.single cursor.span)) = .ok minus signed →
      Entered (.alternatives atoms) signed entered →
      Entered (.rule .single) cursor (.single :: entered)
  /-- No alternative is left. -/
  | exhausted {cursor : Cursor} : Entered (.alternatives []) cursor []
  /-- An alternative succeeds or fails fatally. -/
  | decided {goal : Nonterminal} {goals entered : List Nonterminal} {cursor : Cursor} :
      (∀ failure later, goal.parser cursor = .error failure later → failure.fatal = true) →
      Entered (.rule goal) cursor entered →
      Entered (.alternatives (goal :: goals)) cursor entered
  /-- After an alternative that fails softly the next one is attempted. -/
  | soft {goal : Nonterminal} {goals entered others : List Nonterminal} {cursor later : Cursor}
      {failure : ParseFailure} :
      goal.parser cursor = .error failure later → failure.fatal = false →
      Entered (.rule goal) cursor entered →
      Entered (.alternatives goals) (later.rewoundTo cursor) others →
      Entered (.alternatives (goal :: goals)) cursor (entered ++ others)
  /-- No parenthesis opens. -/
  | parenOutside {cursor later : Cursor} {failure : ParseFailure} :
      Parser.expect .paren [.openParen] cursor = .error failure later →
      Entered (.rule .paren) cursor [.paren]
  /-- An expression is read behind the opening parenthesis. -/
  | parenInside {cursor inside : Cursor} {opening : Token} {entered : List Nonterminal} :
      Parser.expect .paren [.openParen] cursor = .ok opening inside →
      Entered (.rule .expression) (inside.noting (.paren opening.span)) entered →
      Entered (.rule .paren) cursor (.paren :: entered)
  /-- No name is there to be that of a function. -/
  | functionOutside {cursor later : Cursor} {failure : ParseFailure} :
      Parser.expect .function [.name] cursor = .error failure later →
      Entered (.rule .function) cursor [.function]
  /-- No square bracket opens behind the name. -/
  | functionUnopened {cursor named later : Cursor} {name : Token} {failure : ParseFailure} :
      Parser.expect .function [.name] cursor = .ok name named →
      Parser.expect .function [.openSquare] named = .error failure later →
      Entered (.rule .function) cursor [.function]
  /-- An expression is read behind the opening square bracket. -/
  | functionInside {cursor named inside : Cursor} {name opening : Token}
      {entered : List Nonterminal} :
      Parser.expect .function [.name] cursor = .ok name named →
      Parser.expect .function [.openSquare] named = .ok opening inside →
      Entered (.rule .expression) (inside.noting (.function name.lexeme name.span)) entered →
      Entered (.rule .function) cursor (.function :: entered)
  /-- A variable enters no other rule. -/
  | var {cursor : Cursor} : Entered (.rule .var) cursor [.var]
  /-- A number enters no other rule. -/
  | number {cursor : Cursor} : Entered (.rule .number) cursor [.number]

/-! ## Every run enters some rules -/

section Existence

variable {bound : Nat}

/-- The rules that a rule enters can be listed wherever no more tokens than the bound are ahead. -/
def Lists (bound : Nat) (goal : Nonterminal) : Prop :=
  ∀ cursor : Cursor, cursor.ahead.length ≤ bound → ∃ entered, Entered (.rule goal) cursor entered

theorem lists_paren
    (h : ∀ cursor : Cursor, cursor.ahead.length < bound →
      ∃ entered, Entered (.rule .expression) cursor entered) : Lists bound .paren := by
  intro cursor hle
  cases hopen : Parser.expect .paren [.openParen] cursor with
  | error failure later => exact ⟨_, .parenOutside hopen⟩
  | ok opening inside =>
      have hshorter := Parser.length_lt_of_expect hopen
      obtain ⟨entered, hentered⟩ := h (inside.noting (.paren opening.span))
        (Nat.lt_of_lt_of_le hshorter hle)
      exact ⟨_, .parenInside hopen hentered⟩

theorem lists_function
    (h : ∀ cursor : Cursor, cursor.ahead.length < bound →
      ∃ entered, Entered (.rule .expression) cursor entered) : Lists bound .function := by
  intro cursor hle
  cases hname : Parser.expect .function [.name] cursor with
  | error failure later => exact ⟨_, .functionOutside hname⟩
  | ok name named =>
      cases hopen : Parser.expect .function [.openSquare] named with
      | error failure later => exact ⟨_, .functionUnopened hname hopen⟩
      | ok opening inside =>
          have hshorter := Parser.length_lt_of_expect hname
          have hshortest := Parser.length_lt_of_expect hopen
          obtain ⟨entered, hentered⟩ := h (inside.noting (.function name.lexeme name.span))
            (show inside.ahead.length < bound by omega)
          exact ⟨_, .functionInside hname hopen hentered⟩

/-- An attempt that fails goes back to where it started, so the next alternative is no further
behind. -/
theorem exists_entered_alternatives {goals : List Nonterminal}
    (h : ∀ goal ∈ goals, Lists bound goal) :
    ∀ cursor : Cursor, cursor.ahead.length ≤ bound →
      ∃ entered, Entered (.alternatives goals) cursor entered := by
  induction goals with
  | nil => exact fun cursor _ => ⟨[], .exhausted⟩
  | cons goal goals ih =>
      intro cursor hle
      obtain ⟨entered, hentered⟩ := h goal List.mem_cons_self cursor hle
      cases hrun : goal.parser cursor with
      | ok tree later => exact ⟨entered, .decided (by simp [hrun]) hentered⟩
      | error failure later =>
          cases hfatal : failure.fatal with
          | true => exact ⟨entered, .decided (by simp [hrun, hfatal]) hentered⟩
          | false =>
              obtain ⟨others, hothers⟩ :=
                ih (fun other hmem => h other (List.mem_cons_of_mem _ hmem))
                  (later.rewoundTo cursor) hle
              exact ⟨entered ++ others, .soft hrun hfatal hentered hothers⟩

theorem lists_single
    (h : ∀ cursor : Cursor, cursor.ahead.length < bound →
      ∃ entered, Entered (.rule .expression) cursor entered) : Lists bound .single := by
  intro cursor hle
  have hatoms : ∀ goal ∈ atoms, Lists bound goal := by
    intro goal hmem
    simp only [atoms, List.mem_cons, List.not_mem_nil, or_false] at hmem
    rcases hmem with rfl | rfl | rfl | rfl
    · exact lists_paren h
    · exact lists_function h
    · exact fun _ _ => ⟨_, .var⟩
    · exact fun _ _ => ⟨_, .number⟩
  obtain ⟨minus, signed, hminus⟩ : ∃ minus signed,
      Parser.accept .single [.sub] (cursor.noting (.single cursor.span)) = .ok minus signed := by
    rcases Parser.accept_cases .single [.sub] (cursor.noting (.single cursor.span)) with
      ⟨hstay, -⟩ | ⟨token, later, htake, -⟩
    · exact ⟨_, _, hstay⟩
    · exact ⟨_, _, htake⟩
  have hsigned : signed.ahead.length ≤ cursor.ahead.length :=
    ((Parser.advances_accept _ _).of_ok hminus).length_le
  obtain ⟨entered, hentered⟩ :=
    exists_entered_alternatives hatoms signed (Nat.le_trans hsigned hle)
  exact ⟨_, .single hminus hentered⟩

/-- Each turn of the loop of a chain takes an operator, so the induction is on the tokens ahead. -/
theorem exists_entered_links {goal operand : Nonterminal} {rule : Rule}
    (hgoal : goal.chain? = some (rule, operand)) (h : Lists bound operand) (cursor : Cursor)
    (hle : cursor.ahead.length ≤ bound) :
    ∃ entered, Entered (.links goal) cursor entered := by
  induction hn : cursor.ahead.length using Nat.strongRecOn generalizing cursor with
  | ind n ih =>
      rcases Parser.accept_cases rule rule.operators cursor with
        ⟨hstay, -⟩ | ⟨operator, taken, htake, hexpect⟩
      · exact ⟨[], .linksDone hgoal hstay⟩
      · have hshorter := Parser.length_lt_of_expect hexpect
        obtain ⟨entered, hentered⟩ :=
          h (taken.noting (.operator rule operator.lexeme operator.span))
            (show taken.ahead.length ≤ bound by omega)
        cases hrun : operand.parser
            (taken.noting (.operator rule operator.lexeme operator.span)) with
        | error failure later => exact ⟨entered, .linksFailed hgoal htake hrun hentered⟩
        | ok tree later =>
            have hlater : later.ahead.length ≤ taken.ahead.length :=
              (operand.advances_parser.of_ok hrun).length_le
            obtain ⟨others, hothers⟩ := ih later.ahead.length (by omega) later (by omega) rfl
            exact ⟨entered ++ others, .links hgoal htake hrun hentered hothers⟩

theorem lists_chain {goal operand : Nonterminal} {rule : Rule}
    (hgoal : goal.chain? = some (rule, operand)) (h : Lists bound operand) : Lists bound goal := by
  intro cursor hle
  obtain ⟨entered, hentered⟩ := h cursor hle
  cases hrun : operand.parser cursor with
  | error failure later => exact ⟨_, .chainFailed hgoal hrun hentered⟩
  | ok tree later =>
      have hlater := (operand.advances_parser.of_ok hrun).length_le
      obtain ⟨others, hothers⟩ := exists_entered_links hgoal h later (Nat.le_trans hlater hle)
      exact ⟨_, .chain hgoal hrun hentered hothers⟩

end Existence

/-- **The rules that an expression enters can be listed.** Brackets are entered behind their first
token, so the induction is on the tokens ahead. -/
theorem exists_entered (cursor : Cursor) :
    ∃ entered, Entered (.rule .expression) cursor entered := by
  induction hn : cursor.ahead.length using Nat.strongRecOn generalizing cursor with
  | ind n ih =>
      have hsingle : Lists n .single := lists_single fun later hlt => ih _ hlt later rfl
      have hadditive : Lists n .additive :=
        lists_chain rfl (lists_chain rfl (lists_chain rfl (lists_chain rfl hsingle)))
      obtain ⟨entered, hentered⟩ :=
        hadditive (cursor.noting (.expression cursor.span)) (Nat.le_of_eq hn)
      exact ⟨_, .expression hentered⟩

/-! ## Operands among the rules -/

/-- How many rules can be put around a rule before an expression is reached. -/
def Nonterminal.headroom : Nonterminal → Nat
  | expression => 0
  | additive => 1
  | multiply => 2
  | divide => 3
  | power => 4
  | single => 5
  | paren | function | var | number => 0

/-- How many rules are entered without an operand being entered. -/
def Nonterminal.allowance (goal : Nonterminal) : Nat := if goal.isAtom then 1 else 0

/-- The rules that can be put around those of a task. -/
def Task.headroom : Task → Nat
  | .rule goal => goal.headroom
  | .links _ | .alternatives _ => 0

/-- The rules of a task that are entered without an operand being entered. -/
def Task.allowance : Task → Nat
  | .rule goal => goal.allowance
  | .links _ => 0
  | .alternatives goals => goals.countP Nonterminal.isAtom

theorem Nonterminal.headroom_of_chain? {goal operand : Nonterminal} {rule : Rule}
    (h : goal.chain? = some (rule, operand)) :
    goal ≠ .single ∧ operand.headroom = goal.headroom + 1 ∧ goal.allowance = 0 ∧
      operand.allowance = 0 := by
  cases goal <;> simp [chain?] at h
  all_goals
    obtain ⟨rfl, rfl⟩ := h
    decide

/-- **Of ten rules that are entered at least one is an operand.** An operand is reached from an
expression through at most five others and attempts four. -/
theorem Entered.length_le {task : Task} {cursor : Cursor} {entered : List Nonterminal}
    (h : Entered task cursor entered) :
    entered.length + task.headroom ≤ 10 * entered.count .single + task.allowance := by
  induction h with
  | @expression _ entered _ ih =>
      rw [List.length_cons, List.count_cons_of_ne (by decide)]
      exact ih
  | chainFailed hgoal _ _ ih =>
      obtain ⟨hsingle, hhead, hnone, hoperand⟩ := Nonterminal.headroom_of_chain? hgoal
      rw [List.length_cons, List.count_cons_of_ne hsingle]
      simp only [Task.headroom, Task.allowance, hhead, hnone, hoperand] at ih ⊢
      omega
  | chain hgoal _ _ _ ih ihLinks =>
      obtain ⟨hsingle, hhead, hnone, hoperand⟩ := Nonterminal.headroom_of_chain? hgoal
      rw [List.length_cons, List.count_cons_of_ne hsingle, List.length_append, List.count_append]
      simp only [Task.headroom, Task.allowance, hhead, hnone, hoperand] at ih ihLinks ⊢
      omega
  | linksDone _ _ => exact Nat.zero_le _
  | linksFailed hgoal _ _ _ ih =>
      obtain ⟨-, -, -, hoperand⟩ := Nonterminal.headroom_of_chain? hgoal
      simp only [Task.headroom, Task.allowance, hoperand] at ih ⊢
      omega
  | links hgoal _ _ _ _ ih ihLinks =>
      obtain ⟨-, -, -, hoperand⟩ := Nonterminal.headroom_of_chain? hgoal
      rw [List.length_append, List.count_append]
      simp only [Task.headroom, Task.allowance, hoperand] at ih ihLinks ⊢
      omega
  | @single _ _ _ entered _ _ ih =>
      have hattempts : entered.length + 0 ≤ 10 * entered.count .single + 4 := ih
      rw [List.length_cons, List.count_cons_self]
      show entered.length + 1 + 5 ≤ 10 * (entered.count .single + 1) + 0
      omega
  | exhausted => exact Nat.zero_le _
  | decided _ _ ih =>
      -- the alternatives that are left are allowed what they do not use
      simp only [Task.headroom, Task.allowance, Nonterminal.allowance, List.countP_cons] at ih ⊢
      omega
  | soft _ _ _ _ ih ihOthers =>
      rw [List.length_append, List.count_append]
      simp only [Task.headroom, Task.allowance, Nonterminal.allowance, List.countP_cons]
        at ih ihOthers ⊢
      omega
  | parenOutside _ | functionOutside _ | functionUnopened _ _ | var | number =>
      exact Nat.le_refl 1
  | parenInside _ _ ih | functionInside _ _ _ ih =>
      rw [List.length_cons, List.count_cons_of_ne (by decide)]
      exact Nat.succ_le_succ ih

end AlgebraText
