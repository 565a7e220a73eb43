import AlgebraText.Expr.Equality
import AlgebraText.Proofs.Expr.Spelling

/-!
# Equal expressions are written alike

Where an expression was built from takes no part in its equality or in its text, so both can be
studied on expressions without origins (`Expr.bare`). Equality on these is identity except for
decimals, where the two zeros count as equal; and a negative zero is written with a sign.

That origins are not written is a case of a more general fact. A name takes the place of a number
wherever an expression is written, so what counts is only how either is spelled (`Expr.relabel`).

## What this module delivers

* `Expr.relabel` with `Expr.print_relabel`: changes of origins, and names for decimals;
* `Expr.bare`, the expression without its origins, with `Expr.print_bare`;
* `Expr.bare_eq_of_equal`: equal expressions without a negative zero are bare the same;
* `Expr.equal_of_bare_eq`: the converse, for expressions whose decimals are numbers;
* `Expr.print_eq_of_equal`: equal expressions without a negative zero have one text.
-/

set_option autoImplicit false

namespace AlgebraText

/-! ## Changes that are not written -/

mutual

/-- The expression with other origins, and with names in the place of some decimals. The names are
spelled as these decimals are written. -/
def Expr.relabel (named : Binary64 → Bool) (place : Option Origin → Option Origin) : Expr → Expr
  | .integer value origin => .integer value (place origin)
  | .decimal value origin =>
    if named value then .var value.literal (place origin) else .decimal value (place origin)
  | .var name origin => .var name (place origin)
  | .app name body origin => .app name (body.relabel named place) (place origin)
  | .neg body origin => .neg (body.relabel named place) (place origin)
  | .seq operations origin => .seq (Operation.relabelList named place operations) (place origin)

/-- Operations with their expressions and their origins changed in this way. -/
def Operation.relabelList (named : Binary64 → Bool) (place : Option Origin → Option Origin) :
    List Operation → List Operation
  | [] => []
  | ⟨method, operand, origin⟩ :: rest =>
    ⟨method, operand.relabel named place, place origin⟩ :: Operation.relabelList named place rest

end

section Relabel

variable (named : Binary64 → Bool) (place : Option Origin → Option Origin)

theorem Operation.relabelList_eq_map (operations : List Operation) :
    Operation.relabelList named place operations = operations.map fun operation =>
      ⟨operation.method, operation.operand.relabel named place, place operation.origin⟩ := by
  induction operations with
  | nil => rw [Operation.relabelList, List.map_nil]
  | cons operation rest ih =>
      obtain ⟨method, operand, origin⟩ := operation
      rw [Operation.relabelList, ih, List.map_cons]

theorem Operation.loosest?_relabelList (operations : List Operation) :
    Operation.loosest? (Operation.relabelList named place operations) =
      Operation.loosest? operations := by
  have hmethods : Operation.methods (Operation.relabelList named place operations) =
      Operation.methods operations := by
    rw [Operation.relabelList_eq_map]
    unfold Operation.methods
    rw [List.filterMap_map]
    rfl
  rw [Operation.loosest?, hmethods, Operation.loosest?]

mutual

theorem Expr.priority?_relabel : ∀ e : Expr, (e.relabel named place).priority? = e.priority?
  | .integer .. => rfl
  | .decimal value origin => by
      rw [Expr.relabel]
      split <;> rfl
  | .var .. => rfl
  | .app .. => rfl
  | .neg .. => rfl
  | .seq operations _ => Operation.priority?_relabelList operations

theorem Operation.priority?_relabelList : ∀ operations : List Operation,
    Operation.priority? (Operation.relabelList named place operations) =
      Operation.priority? operations
  | [] => rfl
  | ⟨method, operand, origin⟩ :: rest => by
      -- an operator decides, and where there is none the first operand does
      have hloosest :=
        Operation.loosest?_relabelList named place (⟨method, operand, origin⟩ :: rest)
      rw [Operation.relabelList] at hloosest ⊢
      rw [Operation.priority?, hloosest, Expr.priority?_relabel operand, Operation.priority?]

end

theorem Expr.needsParensNegated_relabel (e : Expr) :
    (e.relabel named place).needsParensNegated = e.needsParensNegated := by
  cases e with
  | decimal value origin =>
      rw [Expr.relabel]
      split <;> rfl
  | integer | var | app | neg | seq => rfl

theorem Expr.needsParens_relabel (enclosing : Option Nat) (e : Expr) :
    (e.relabel named place).needsParens enclosing = e.needsParens enclosing := by
  unfold Expr.needsParens
  rw [Expr.priority?_relabel]

mutual

/-- **The text of an expression stays the same under such changes.** -/
theorem Expr.print_relabel : ∀ e : Expr, (e.relabel named place).print = e.print
  | .integer .. => rfl
  | .decimal value origin => by
      rw [Expr.relabel]
      split <;> rfl
  | .var .. => rfl
  | .app name body _ => by
      rw [Expr.relabel, Expr.print, Expr.print_relabel body, Expr.print]
  | .neg body _ => by
      rw [Expr.relabel, Expr.print, Expr.print_relabel body, Expr.needsParensNegated_relabel,
        Expr.print]
  | .seq operations _ => by
      rw [Expr.relabel, Expr.print, Operation.loosest?_relabelList,
        Operation.printList_relabelList, Expr.print]

theorem Operation.printList_relabelList (enclosing : Option Nat) : ∀ operations : List Operation,
    Operation.printList enclosing (Operation.relabelList named place operations) =
      Operation.printList enclosing operations
  | [] => rfl
  | ⟨method, operand, _⟩ :: rest => by
      rw [Operation.relabelList, Operation.printList, Operation.printWithin,
        Expr.print_relabel operand, Expr.needsParens_relabel,
        Operation.printList_relabelList enclosing rest, Operation.printList, Operation.printWithin]

end

end Relabel

/-! ## Origins are not written -/

mutual

/-- An expression without its origins. -/
def Expr.bare : Expr → Expr
  | .integer value _ => .integer value none
  | .decimal value _ => .decimal value none
  | .var name _ => .var name none
  | .app name body _ => .app name body.bare none
  | .neg body _ => .neg body.bare none
  | .seq operations _ => .seq (Operation.bareList operations) none

/-- Operations without their origins. -/
def Operation.bareList : List Operation → List Operation
  | [] => []
  | ⟨method, operand, _⟩ :: rest => ⟨method, operand.bare, none⟩ :: Operation.bareList rest

end

mutual

theorem Expr.bare_eq_relabel : ∀ e : Expr, e.bare = e.relabel (fun _ => false) fun _ => none
  | .integer .. => rfl
  | .decimal .. => rfl
  | .var .. => rfl
  | .app name body _ => by
      rw [Expr.bare, Expr.bare_eq_relabel body, Expr.relabel]
  | .neg body _ => by
      rw [Expr.bare, Expr.bare_eq_relabel body, Expr.relabel]
  | .seq operations _ => by
      rw [Expr.bare, Operation.bareList_eq_relabelList operations, Expr.relabel]

theorem Operation.bareList_eq_relabelList : ∀ operations : List Operation,
    Operation.bareList operations =
      Operation.relabelList (fun _ => false) (fun _ => none) operations
  | [] => rfl
  | ⟨method, operand, _⟩ :: rest => by
      rw [Operation.bareList, Expr.bare_eq_relabel operand,
        Operation.bareList_eq_relabelList rest, Operation.relabelList]

end

theorem Operation.bareList_eq_map (operations : List Operation) :
    Operation.bareList operations =
      operations.map fun operation => ⟨operation.method, operation.operand.bare, none⟩ := by
  induction operations with
  | nil => rw [Operation.bareList, List.map_nil]
  | cons operation rest ih =>
      obtain ⟨method, operand, origin⟩ := operation
      rw [Operation.bareList, ih, List.map_cons]

mutual

/-- Other origins make no difference where there are to be none. -/
theorem Expr.bare_relabel (place : Option Origin → Option Origin) : ∀ e : Expr,
    (e.relabel (fun _ => false) place).bare = e.bare
  | .integer .. => rfl
  | .decimal .. => rfl
  | .var .. => rfl
  | .app name body _ => by
      rw [Expr.relabel, Expr.bare, Expr.bare_relabel place body, Expr.bare]
  | .neg body _ => by
      rw [Expr.relabel, Expr.bare, Expr.bare_relabel place body, Expr.bare]
  | .seq operations _ => by
      rw [Expr.relabel, Expr.bare, Operation.bareList_relabelList place operations, Expr.bare]

theorem Operation.bareList_relabelList (place : Option Origin → Option Origin) :
    ∀ operations : List Operation,
      Operation.bareList (Operation.relabelList (fun _ => false) place operations) =
        Operation.bareList operations
  | [] => rfl
  | ⟨method, operand, _⟩ :: rest => by
      rw [Operation.relabelList, Operation.bareList, Expr.bare_relabel place operand,
        Operation.bareList_relabelList place rest, Operation.bareList]

end

/-- The text of an expression does not depend on its origins. -/
theorem Expr.print_bare (e : Expr) : e.bare.print = e.print := by
  rw [e.bare_eq_relabel, Expr.print_relabel]

/-! ## Equality without origins -/

theorem Binary64.magnitudes_pos : 0 < magnitudes := by
  decide

/-- The negative zero, which equals the positive one and is written differently. -/
def Binary64.negativeZero : Binary64 := .finite true ⟨0, magnitudes_pos⟩

/-- Numeric equality is identity, but for the negative zero. -/
theorem Binary64.eq_of_equal {a b : Binary64} (h : a.equal b = true) (ha : a ≠ negativeZero)
    (hb : b ≠ negativeZero) : a = b := by
  cases a with
  | nan => cases h
  | infinite negative =>
      cases b with
      | infinite negative' => rw [beq_iff_eq.1 h]
      | nan => cases h
      | finite => cases h
  | finite negative rank =>
      cases b with
      | nan => cases h
      | infinite => cases h
      | finite negative' rank' =>
          rw [Binary64.equal, Bool.and_eq_true, Bool.or_eq_true, beq_iff_eq, beq_iff_eq,
            beq_iff_eq] at h
          obtain ⟨rfl, hsign | hzero⟩ := h
          · rw [hsign]
          · -- both zeros are here only if one of them is the negative one
            obtain rfl : rank = ⟨0, magnitudes_pos⟩ := Fin.ext hzero
            have hpositive : negative = false := by
              cases negative with
              | false => rfl
              | true => exact absurd rfl ha
            have hpositive' : negative' = false := by
              cases negative' with
              | false => rfl
              | true => exact absurd rfl hb
            rw [hpositive, hpositive']

mutual

/-- **Equal expressions without a negative zero differ in their origins only.** -/
theorem Expr.bare_eq_of_equal : ∀ a b : Expr, a.equal b = true →
    Binary64.negativeZero ∉ a.decimals → Binary64.negativeZero ∉ b.decimals → a.bare = b.bare := by
  intro a b h ha hb
  match a, b with
  | .integer value _, .integer value' _ =>
      rw [Expr.bare, Expr.bare, beq_iff_eq.1 h]
  | .decimal value _, .decimal value' _ =>
      rw [Expr.bare, Expr.bare, Binary64.eq_of_equal h (by rintro rfl; simp [Expr.decimals] at ha)
        (by rintro rfl; simp [Expr.decimals] at hb)]
  | .var name _, .var name' _ =>
      rw [Expr.bare, Expr.bare, beq_iff_eq.1 h]
  | .app name body _, .app name' body' _ =>
      rw [Expr.equal, Bool.and_eq_true, beq_iff_eq] at h
      rw [Expr.bare, Expr.bare, h.1, Expr.bare_eq_of_equal body body' h.2 ha hb]
  | .neg body _, .neg body' _ =>
      rw [Expr.bare, Expr.bare, Expr.bare_eq_of_equal body body' h ha hb]
  | .seq operations _, .seq operations' _ =>
      rw [Expr.bare, Expr.bare, Operation.bareList_eq_of_equal operations operations' h ha hb]

theorem Operation.bareList_eq_of_equal : ∀ xs ys : List Operation,
    Operation.equalList xs ys = true → Binary64.negativeZero ∉ Operation.decimals xs →
    Binary64.negativeZero ∉ Operation.decimals ys →
    Operation.bareList xs = Operation.bareList ys := by
  intro xs ys h hxs hys
  match xs, ys with
  | [], [] => rfl
  | ⟨method, operand, _⟩ :: rest, ⟨method', operand', _⟩ :: rest' =>
      rw [Operation.equalList, Operation.equal, Bool.and_eq_true, Bool.and_eq_true,
        beq_iff_eq] at h
      rw [Operation.decimals, List.mem_append, not_or] at hxs hys
      rw [Operation.bareList, Operation.bareList, h.1.1,
        Expr.bare_eq_of_equal operand operand' h.1.2 hxs.1 hys.1,
        Operation.bareList_eq_of_equal rest rest' h.2 hxs.2 hys.2]

end

theorem Binary64.equal_refl {value : Binary64} (h : value ≠ .nan) : value.equal value = true := by
  cases value with
  | nan => exact absurd rfl h
  | infinite negative => simp [Binary64.equal]
  | finite negative rank => simp [Binary64.equal]

mutual

/-- Expressions that differ in their origins only are equal, unless they hold what is not equal to
itself. -/
theorem Expr.equal_of_bare_eq : ∀ a b : Expr, a.bare = b.bare → Binary64.nan ∉ a.decimals →
    a.equal b = true := by
  intro a b h ha
  match a, b with
  | .integer value _, .integer value' _ =>
      rw [Expr.bare, Expr.bare, Expr.integer.injEq] at h
      exact beq_iff_eq.2 h.1
  | .decimal value _, .decimal value' _ =>
      rw [Expr.bare, Expr.bare, Expr.decimal.injEq] at h
      rw [Expr.equal, ← h.1]
      exact Binary64.equal_refl fun hnan => ha (by simp [Expr.decimals, hnan])
  | .var name _, .var name' _ =>
      rw [Expr.bare, Expr.bare, Expr.var.injEq] at h
      exact beq_iff_eq.2 h.1
  | .app name body _, .app name' body' _ =>
      rw [Expr.bare, Expr.bare, Expr.app.injEq] at h
      rw [Expr.equal, Expr.equal_of_bare_eq body body' h.2.1 ha, h.1]
      simp
  | .neg body _, .neg body' _ =>
      rw [Expr.bare, Expr.bare, Expr.neg.injEq] at h
      exact Expr.equal_of_bare_eq body body' h.1 ha
  | .seq operations _, .seq operations' _ =>
      rw [Expr.bare, Expr.bare, Expr.seq.injEq] at h
      exact Operation.equalList_of_bareList_eq operations operations' h.1 ha

theorem Operation.equalList_of_bareList_eq : ∀ xs ys : List Operation,
    Operation.bareList xs = Operation.bareList ys → Binary64.nan ∉ Operation.decimals xs →
    Operation.equalList xs ys = true := by
  intro xs ys h hxs
  match xs, ys with
  | [], [] => rfl
  | [], ⟨_, _, _⟩ :: _ => cases h
  | ⟨_, _, _⟩ :: _, [] => cases h
  | ⟨method, operand, _⟩ :: rest, ⟨method', operand', _⟩ :: rest' =>
      rw [Operation.bareList, Operation.bareList, List.cons.injEq, Operation.mk.injEq] at h
      rw [Operation.decimals, List.mem_append, not_or] at hxs
      rw [Operation.equalList, Operation.equal,
        Expr.equal_of_bare_eq operand operand' h.1.2.1 hxs.1,
        Operation.equalList_of_bareList_eq rest rest' h.2 hxs.2, h.1.1]
      simp

end

/-- **Equal expressions without a negative zero are written alike.** -/
theorem Expr.print_eq_of_equal {a b : Expr} (h : a.equal b = true)
    (ha : Binary64.negativeZero ∉ a.decimals) (hb : Binary64.negativeZero ∉ b.decimals) :
    a.print = b.print := by
  rw [← a.print_bare, Expr.bare_eq_of_equal a b h ha hb, b.print_bare]

end AlgebraText
