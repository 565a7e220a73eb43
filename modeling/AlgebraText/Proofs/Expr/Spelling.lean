import AlgebraText.Expr.Printer
import AlgebraText.Proofs.Binary64.Literal

/-!
# The words of a printed expression

The words of a printed expression follow its structure: the words of an operand stand between the
operators of its sequence, in parentheses if the operand binds no tighter than the sequence. How
tightly an expression binds is a number, its level: the priority of the loosest operator that it
shows outside brackets, more than any priority for a negation, and most of all for what shows no
operator and no sign (`Expr.level`). An expression in a place that asks for a level is put in
parentheses exactly if its own level is lower (`Expr.wordsWithin`), and this one rule covers the
operands of sequences and of negations alike.

## What this module delivers

* `Expr.WellFormed`, the expressions that follow the rules on names, digits and sequences, and
  `Expr.decimals`, the numbers with a point in them;
* `Expr.level`, with `Expr.needsParens_eq` and `Expr.needsParensNegated_eq`;
* `Expr.words` and `Expr.wordsWithin`, with one equation for each kind of expression.
-/

set_option autoImplicit false

namespace AlgebraText

/-! ## Well-formed expressions -/

/-- The digits of a number without a superfluous zero in front. -/
def IsCanonical (digits : List Char) : Prop :=
  IsDigits digits ∧ (digits.head? = some '0' → digits = ['0'])

instance : DecidablePred IsCanonical := fun _ => inferInstanceAs (Decidable (_ ∧ (_ → _)))

/-- An operation with an operator of the given priority. -/
def Operation.HasPriority (priority : Nat) (operation : Operation) : Prop :=
  ∃ method, operation.method = some method ∧ method.priority = priority

/-- The expressions that follow the rules: names and digits are spelled as such, and a sequence has
a first operation without an operator, and further ones with operators of one priority. -/
inductive Expr.WellFormed : Expr → Prop
  /-- The digits of an integer are canonical. -/
  | integer {value : String} {origin : Option Origin} :
      IsCanonical value.toList → WellFormed (.integer value origin)
  /-- Any decimal. -/
  | decimal {value : Binary64} {origin : Option Origin} : WellFormed (.decimal value origin)
  /-- A variable has a name. -/
  | var {name : String} {origin : Option Origin} :
      IsName name.toList → WellFormed (.var name origin)
  /-- A function has a name. -/
  | app {name : String} {body : Expr} {origin : Option Origin} :
      IsName name.toList → WellFormed body → WellFormed (.app name body origin)
  /-- A negation. -/
  | neg {body : Expr} {origin : Option Origin} : WellFormed body → WellFormed (.neg body origin)
  /-- A sequence of one level. -/
  | seq {first : Operation} {rest : List Operation} {priority : Nat} {origin : Option Origin} :
      first.method = none → WellFormed first.operand →
      (∀ operation ∈ rest, operation.HasPriority priority) →
      (∀ operation ∈ rest, WellFormed operation.operand) →
      WellFormed (.seq (first :: rest) origin)

mutual

/-- The numbers with a point in an expression, from left to right. -/
def Expr.decimals : Expr → List Binary64
  | .decimal value _ => [value]
  | .app _ body _ => body.decimals
  | .neg body _ => body.decimals
  | .seq operations _ => Operation.decimals operations
  | _ => []

/-- The numbers with a point in some operations. -/
def Operation.decimals : List Operation → List Binary64
  | [] => []
  | ⟨_, operand, _⟩ :: rest => operand.decimals ++ Operation.decimals rest

end

@[simp]
theorem Operation.decimals_cons (operation : Operation) (rest : List Operation) :
    Operation.decimals (operation :: rest) =
      operation.operand.decimals ++ Operation.decimals rest := by
  cases operation
  rw [Operation.decimals]

theorem Operation.mem_decimals {operations : List Operation} {value : Binary64} :
    value ∈ Operation.decimals operations ↔
      ∃ operation ∈ operations, value ∈ operation.operand.decimals := by
  induction operations with
  | nil => simp [Operation.decimals]
  | cons operation rest ih => simp [ih]

/-! ## Levels -/

/-- How tightly an expression binds. -/
def Expr.level : Expr → Nat
  | .neg .. => 6
  | .seq operations _ => (Operation.priority? operations).getD 6
  | _ => 7

theorem Method.two_le_priority (method : Method) : 2 ≤ method.priority ∧ method.priority ≤ 5 := by
  cases method <;> decide

/-- The loosest operator has the priority of an operator. -/
theorem Operation.mem_of_loosest? {operations : List Operation} {priority : Nat}
    (h : Operation.loosest? operations = some priority) : 2 ≤ priority ∧ priority ≤ 5 := by
  have hmem := List.min?_mem h
  obtain ⟨method, -, rfl⟩ := List.mem_map.1 hmem
  exact method.two_le_priority

mutual

theorem Expr.two_le_priority? : ∀ (e : Expr) (priority : Nat), e.priority? = some priority →
    2 ≤ priority ∧ priority ≤ 5
  | .seq operations _, priority, h => Operation.two_le_priority? operations priority h
  | .integer .., _, h => by cases h
  | .decimal .., _, h => by cases h
  | .var .., _, h => by cases h
  | .app .., _, h => by cases h
  | .neg .., _, h => by cases h

theorem Operation.two_le_priority? : ∀ (operations : List Operation) (priority : Nat),
    Operation.priority? operations = some priority → 2 ≤ priority ∧ priority ≤ 5
  | [], _, h => by cases h
  | ⟨method, operand, origin⟩ :: rest, priority, h => by
      have hoperand := Expr.two_le_priority? operand priority
      rw [Operation.priority?] at h
      -- a priority is that of an operator of the sequence or else of its first operand
      rcases Option.or_eq_some_iff.1 h with hloosest | ⟨-, hfirst⟩
      · exact Operation.mem_of_loosest? hloosest
      · exact hoperand hfirst

end

namespace Expr

/-- The level of a sequence is its priority, or that of a sign if it shows no operator. -/
theorem level_of_priority? (e : Expr) :
    (∀ priority, e.priority? = some priority → e.level = priority) ∧
      (e.priority? = none → 6 ≤ e.level) := by
  cases e with
  | seq operations origin =>
      constructor
      · intro priority h
        rw [level, show Operation.priority? operations = some priority from h]
        rfl
      · intro h
        rw [level, show Operation.priority? operations = none from h]
        exact Nat.le_refl 6
  | integer | decimal | var | app | neg => exact ⟨nofun, fun _ => by simp [level]⟩

theorem level_bounds (e : Expr) : 2 ≤ e.level ∧ e.level ≤ 7 := by
  cases e with
  | seq operations origin =>
      rw [level]
      cases h : Operation.priority? operations with
      | none => decide
      | some priority =>
          have hbounds := Operation.two_le_priority? operations priority h
          rw [Option.getD_some]
          omega
  | integer | decimal | var | app | neg => simp [level]

/-- An operand is parenthesized in a sequence exactly if it binds no tighter. -/
theorem needsParens_eq (e : Expr) {enclosing : Nat} (h : enclosing ≤ 5) :
    e.needsParens (some enclosing) = decide (e.level < enclosing + 1) := by
  obtain ⟨hsome, hnone⟩ := e.level_of_priority?
  unfold needsParens
  cases hpriority : e.priority? with
  | none =>
      -- without an operator the level is above every priority
      have hlevel := hnone hpriority
      simp only [Bool.false_eq, decide_eq_false_iff_not]
      omega
  | some priority =>
      rw [hsome priority hpriority]
      simp only [decide_eq_decide]
      omega

/-- The body of a negation is parenthesized exactly if it shows an operator or a sign. -/
theorem needsParensNegated_eq (e : Expr) : e.needsParensNegated = decide (e.level < 7) := by
  cases e with
  | seq operations origin =>
      rw [needsParensNegated, level]
      cases h : Operation.priority? operations with
      | none => rfl
      | some priority =>
          have hbounds := Operation.two_le_priority? operations priority h
          rw [Option.getD_some, eq_comm, decide_eq_true_eq]
          omega
  | integer | decimal | var | app | neg => rfl

end Expr

/-! ## Words -/

namespace Word

/-- The word of an opening parenthesis. -/
def openParen : Word := ⟨.openParen, "("⟩

/-- The word of a closing parenthesis. -/
def closeParen : Word := ⟨.closeParen, ")"⟩

/-- The word of an opening square bracket. -/
def openSquare : Word := ⟨.openSquare, "["⟩

/-- The word of a closing square bracket. -/
def closeSquare : Word := ⟨.closeSquare, "]"⟩

/-- The word of a minus sign. -/
def minus : Word := ⟨.sub, "-"⟩

/-- Words in parentheses, if they are needed. -/
def bracketed (needed : Bool) (words : List Word) : List Word :=
  if needed then openParen :: (words ++ [closeParen]) else words

end Word

/-- The kind of token that stands for an operator. -/
def Method.kind : Method → TokenKind
  | power => .exp
  | divide => .div
  | multiply => .mul
  | add => .add
  | subtract => .sub

/-- The word of an operator. -/
def Method.word (method : Method) : Word := ⟨method.kind, method.symbol⟩

/-- The words of an operator, which the first operation of a sequence does without. -/
def Operation.methodWords (operation : Operation) : List Word :=
  (operation.method.map Method.word).toList

/-- The words of a printed expression. -/
def Expr.words (e : Expr) : List Word := AlgebraText.words e.print.toList

/-- The words of an expression in a place that asks for a level. -/
def Expr.wordsWithin (level : Nat) (e : Expr) : List Word :=
  Word.bracketed (e.level < level) e.words

theorem words_parenthesized (needed : Bool) (text : String) :
    words (parenthesized needed text).toList = Word.bracketed needed (words text.toList) := by
  cases needed with
  | false => rfl
  | true =>
      have hopen : ("(" ++ text ++ ")").toList = '(' :: (text.toList ++ [')']) := by simp
      rw [parenthesized, if_pos rfl, hopen, words_mark (by decide), words_append_mark (by decide),
        words_mark (by decide), words_nil]
      rfl

/-- An operator between two texts is a word between theirs. -/
theorem words_between (method : Method) (left right : List Char) :
    words (left ++ method.between.toList ++ right) =
      words left ++ method.word :: words right := by
  have hspaced : ∀ sign : Char, IsMark sign →
      words (left ++ [' ', sign, ' '] ++ right) =
        words left ++ ⟨markKind sign, String.singleton sign⟩ :: words right := by
    intro sign hmark
    rw [List.append_assoc]
    simp only [List.cons_append, List.nil_append]
    rw [words_append_space, words_mark hmark, words_blank_cons (by decide)]
  -- all operators but the power stand between spaces
  cases method with
  | power =>
      show words (left ++ ['^'] ++ right) = _
      rw [List.append_assoc, List.singleton_append, words_append_mark (by decide),
        words_mark (by decide)]
      rfl
  | divide => exact hspaced '/' (by decide)
  | multiply => exact hspaced '*' (by decide)
  | add => exact hspaced '+' (by decide)
  | subtract => exact hspaced '-' (by decide)

/-! ## The words of each kind of expression -/

/-- The words of an operation inside a sequence of the given priority. -/
def Operation.words (priority : Nat) (operation : Operation) : List Word :=
  operation.methodWords ++ operation.operand.wordsWithin (priority + 1)

namespace Operation

/-- Operations with operators of one priority and at least one operator have that priority. -/
theorem loosest?_eq {first : Operation} {rest : List Operation} {priority : Nat}
    (hfirst : first.method = none) (hrest : ∀ operation ∈ rest, operation.HasPriority priority)
    (hne : rest ≠ []) : loosest? (first :: rest) = some priority := by
  have hpriorities : ∀ found ∈ (methods (first :: rest)).map Method.priority,
      found = priority := by
    intro found hmem
    simp only [methods, List.filterMap_cons, hfirst, List.mem_map, List.mem_filterMap] at hmem
    obtain ⟨method, ⟨operation, hoperation, hmethod⟩, rfl⟩ := hmem
    obtain ⟨method', hmethod', hpriority⟩ := hrest operation hoperation
    rw [hmethod] at hmethod'
    cases hmethod'
    exact hpriority
  obtain ⟨operation, more, rfl⟩ := List.exists_cons_of_ne_nil hne
  obtain ⟨method, hmethod, hpriority⟩ := hrest operation List.mem_cons_self
  have hmem : priority ∈ (methods (first :: operation :: more)).map Method.priority := by
    refine List.mem_map.2 ⟨method, ?_, hpriority⟩
    simp [methods, hfirst, hmethod]
  refine List.min?_eq_some_iff.2 ⟨hmem, ?_⟩
  intro found hfound
  exact (hpriorities found hfound).ge

theorem loosest?_singleton {first : Operation} (hfirst : first.method = none) :
    loosest? [first] = none := by
  simp [loosest?, methods, hfirst]

/-- Later operations add their operators and operands to the words before them. -/
theorem words_printList {operations : List Operation} {priority : Nat} (hle : priority ≤ 5)
    (h : ∀ operation ∈ operations, operation.HasPriority priority) (text : List Char) :
    AlgebraText.words (text ++ (printList (some priority) operations).toList) =
      AlgebraText.words text ++ operations.flatMap (words priority) := by
  -- the text before grows by one operation at a time; its last character is cut off by a space or
  -- by the operator itself
  induction operations generalizing text with
  | nil => simp [printList]
  | cons operation rest ih =>
      obtain ⟨method, operand, origin⟩ := operation
      obtain ⟨method, rfl, -⟩ := h _ List.mem_cons_self
      have hoperand : AlgebraText.words
          (parenthesized (operand.needsParens (some priority)) operand.print).toList =
            operand.wordsWithin (priority + 1) := by
        rw [words_parenthesized, operand.needsParens_eq hle]
        rfl
      rw [printList, printWithin, String.toList_append, String.toList_append, ← List.append_assoc,
        ← List.append_assoc, List.append_assoc (_ ++ _), Option.map_some, Option.getD_some,
        words_between, ih (fun other hmem => h other (List.mem_cons_of_mem _ hmem)), hoperand]
      simp [words, methodWords]

end Operation

namespace Expr

theorem words_app {name : String} {body : Expr} {origin : Option Origin}
    (hname : IsName name.toList) :
    (app name body origin).words =
      ⟨.name, name⟩ :: Word.openSquare :: (body.words ++ [Word.closeSquare]) := by
  have htext : (app name body origin).print.toList =
      name.toList ++ '[' :: (body.print.toList ++ [']']) := by
    simp [print]
  rw [words, htext, words_append_mark (by decide), words_mark (by decide),
    words_append_mark (by decide), words_mark (by decide), words_nil, words_of_isName hname,
    String.ofList_toList]
  rfl

theorem words_neg {body : Expr} {origin : Option Origin} :
    (neg body origin).words = Word.minus :: body.wordsWithin 7 := by
  have htext : (neg body origin).print.toList =
      '-' :: (parenthesized body.needsParensNegated body.print).toList := by
    simp [print]
  rw [words, htext, words_mark (by decide), words_parenthesized, body.needsParensNegated_eq]
  rfl

/-- A sequence of one operation is written as its operand. -/
theorem words_seq_singleton {first : Operation} {origin : Option Origin}
    (hfirst : first.method = none) : (seq [first] origin).words = first.operand.words := by
  obtain ⟨method, operand, place⟩ := first
  obtain rfl : method = none := hfirst
  -- with no operator around it an operand needs no parentheses, however loosely it binds
  have hparens : operand.needsParens none = false := by
    unfold needsParens
    split <;> first | rfl | contradiction
  have htext : (seq [⟨none, operand, place⟩] origin).print = operand.print := by
    rw [print, Operation.loosest?_singleton rfl]
    simp [Operation.printList, Operation.printWithin, hparens, parenthesized]
  rw [words, htext]
  rfl

/-- A sequence of several operations is written as its operands with the operators between them. -/
theorem words_seq {first : Operation} {rest : List Operation} {priority : Nat}
    {origin : Option Origin} (hfirst : first.method = none)
    (hrest : ∀ operation ∈ rest, operation.HasPriority priority) (hne : rest ≠ []) :
    (seq (first :: rest) origin).words =
      first.operand.wordsWithin (priority + 1) ++ rest.flatMap (Operation.words priority) := by
  have hloosest := Operation.loosest?_eq hfirst hrest hne
  have hle := (Operation.mem_of_loosest? hloosest).2
  obtain ⟨method, operand, place⟩ := first
  obtain rfl : method = none := hfirst
  rw [words, print, hloosest, Operation.printList, Operation.printWithin, String.toList_append,
    Operation.words_printList hle hrest]
  simp only [Option.map_none, Option.getD_none, String.empty_append]
  rw [words_parenthesized, operand.needsParens_eq hle]
  rfl

/-- The level of a sequence of several operations is the priority of its operators. -/
theorem level_seq {first : Operation} {rest : List Operation} {priority : Nat}
    {origin : Option Origin} (hfirst : first.method = none)
    (hrest : ∀ operation ∈ rest, operation.HasPriority priority) (hne : rest ≠ []) :
    (seq (first :: rest) origin).level = priority := by
  have hloosest := Operation.loosest?_eq hfirst hrest hne
  obtain ⟨method, operand, place⟩ := first
  rw [level, Operation.priority?, hloosest]
  rfl

/-- A sequence of one operation binds as its operand does, but no tighter than a sign. -/
theorem level_seq_singleton {first : Operation} {origin : Option Origin}
    (hfirst : first.method = none) :
    (seq [first] origin).level = min 6 first.operand.level := by
  obtain ⟨method, operand, place⟩ := first
  obtain ⟨hsome, hnone⟩ := operand.level_of_priority?
  rw [level, Operation.priority?, Operation.loosest?_singleton hfirst, Option.none_or]
  cases hpriority : operand.priority? with
  | none =>
      have hlevel := hnone hpriority
      simp only [Option.getD_none]
      omega
  | some priority =>
      have hbounds := operand.two_le_priority? priority hpriority
      simp only [Option.getD_some, hsome priority hpriority]
      omega

theorem words_of_isDigits {value : String} {origin : Option Origin} (h : IsDigits value.toList) :
    (integer value origin).words = [⟨.int, value⟩] := by
  rw [words, print, AlgebraText.words_of_isDigits h, String.ofList_toList]

theorem words_of_isName {name : String} {origin : Option Origin} (h : IsName name.toList) :
    (var name origin).words = [⟨.name, name⟩] := by
  rw [words, print, AlgebraText.words_of_isName h, String.ofList_toList]

/-- A literal is one word, a number with a point. -/
theorem words_of_isLiteral {value : Binary64} {origin : Option Origin}
    (h : value.isLiteral = true) : (decimal value origin).words = [⟨.float, value.literal⟩] := by
  obtain ⟨rank, rfl⟩ := Binary64.exists_rank_of_isLiteral h
  rw [words, print, words_of_isPointed (Binary64.isPointed_literal rank), String.ofList_toList]

/-- An infinity is one word as well, but a name. -/
theorem words_infinite {origin : Option Origin} :
    (decimal (.infinite false) origin).words = [⟨.name, "inf"⟩] := by
  have hname : IsName "inf".toList := by decide
  rw [words, print]
  exact AlgebraText.words_of_isName hname

end Expr

end AlgebraText
