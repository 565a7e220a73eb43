import AlgebraText.Proofs.Latex.Flat
import AlgebraText.Walk.Place
import Mathlib.Data.List.Forall2

/-!
# The laws of equality

Two expressions are equal exactly if they have one representative, the expression without origins
and with a positive zero in the place of every negative one, and hold no not-a-number
(`Expr.equal_iff`). The comparison of two trees is thereby an identity of trees, with one condition
on the numbers in them, and its laws need no induction of their own: it is symmetric and transitive,
and an expression equals itself unless not-a-number occurs in it.

The nodes of equal expressions correspond to each other one by one, at the same places.

## What this module delivers

* `Binary64.representative` and `Expr.representative`, with `Expr.equal_iff`;
* `Expr.equal_comm`, `Expr.equal_trans` and `Expr.equal_self_iff`;
* `Located.Matches`, with `Expr.matches_preorderAt`: equal expressions have equal nodes;
* `equal_laws`: all laws of equality together.
-/

set_option autoImplicit false

namespace AlgebraText

/-! ## Representatives -/

/-- The number itself, but zero without its sign. -/
def Binary64.representative : Binary64 → Binary64
  | .finite negative rank => .finite (negative && rank.val != 0) rank
  | number => number

@[simp]
theorem Binary64.representative_eq_nan {value : Binary64} :
    value.representative = nan ↔ value = nan := by
  cases value <;> simp [representative]

/-- Numbers are equal if they have one representative, except that not-a-number equals nothing. -/
theorem Binary64.equal_iff {a b : Binary64} :
    a.equal b = true ↔ a.representative = b.representative ∧ a ≠ nan := by
  cases a with
  | nan => simp [equal]
  | infinite negative => cases b <;> simp [equal, representative]
  | finite negative rank =>
      cases b with
      | nan => simp [equal, representative]
      | infinite negative' => simp [equal, representative]
      | finite negative' rank' =>
          -- the signs count unless the rank, which both share, is that of zero
          by_cases hrank : rank = rank'
          · subst hrank
            by_cases hzero : rank.val = 0
            · simp [equal, representative, hzero]
            · simp [equal, representative, hzero, bne_iff_ne.2 hzero]
          · simp [equal, representative, hrank]

mutual

/-- The expression without its origins, and with no negative zero. -/
def Expr.representative : Expr → Expr
  | .integer value _ => .integer value none
  | .decimal value _ => .decimal value.representative none
  | .var name _ => .var name none
  | .app name body _ => .app name body.representative none
  | .neg body _ => .neg body.representative none
  | .seq operations _ => .seq (Operation.representatives operations) none

/-- Operations without their origins, and with no negative zero. -/
def Operation.representatives : List Operation → List Operation
  | [] => []
  | ⟨method, operand, _⟩ :: rest =>
    ⟨method, operand.representative, none⟩ :: Operation.representatives rest

end

mutual

/-- **Equal expressions are those with one representative**, provided that no number in them is
unequal to itself. -/
theorem Expr.equal_iff : ∀ a b : Expr,
    a.equal b = true ↔ a.representative = b.representative ∧ Binary64.nan ∉ a.decimals := by
  intro a b
  cases a with
  | integer value origin => cases b <;> simp [Expr.equal, Expr.representative, Expr.decimals]
  | decimal value origin =>
      cases b with
      | decimal value' origin' =>
          rw [Expr.equal, Binary64.equal_iff]
          simp [Expr.representative, Expr.decimals, ne_comm]
      | _ => simp [Expr.equal, Expr.representative]
  | var name origin => cases b <;> simp [Expr.equal, Expr.representative, Expr.decimals]
  | app name body origin =>
      cases b with
      | app name' body' origin' =>
          simp [Expr.equal, Expr.representative, Expr.decimals, Expr.equal_iff body body',
            and_assoc]
      | _ => simp [Expr.equal, Expr.representative]
  | neg body origin =>
      cases b with
      | neg body' origin' =>
          simp [Expr.equal, Expr.representative, Expr.decimals, Expr.equal_iff body body']
      | _ => simp [Expr.equal, Expr.representative]
  | seq operations origin =>
      cases b with
      | seq operations' origin' =>
          simp [Expr.equal, Expr.representative, Expr.decimals,
            Operation.equalList_iff operations operations']
      | _ => simp [Expr.equal, Expr.representative]

theorem Operation.equalList_iff : ∀ xs ys : List Operation,
    Operation.equalList xs ys = true ↔
      Operation.representatives xs = Operation.representatives ys ∧
        Binary64.nan ∉ Operation.decimals xs := by
  intro xs ys
  match xs, ys with
  | [], [] => simp [Operation.equalList, Operation.decimals]
  | [], ⟨_, _, _⟩ :: _ => simp [Operation.equalList, Operation.representatives]
  | ⟨_, _, _⟩ :: _, [] => simp [Operation.equalList, Operation.representatives]
  | ⟨method, operand, _⟩ :: rest, ⟨method', operand', _⟩ :: rest' =>
      have hoperand := Expr.equal_iff operand operand'
      have hrest := Operation.equalList_iff rest rest'
      simp only [Operation.equalList, Operation.equal, Bool.and_eq_true, beq_iff_eq, hoperand,
        hrest, Operation.representatives, List.cons.injEq, Operation.mk.injEq, and_true,
        Operation.decimals, List.mem_append, not_or]
      tauto

end

mutual

theorem Expr.decimals_representative : ∀ e : Expr,
    e.representative.decimals = e.decimals.map Binary64.representative
  | .integer .. => rfl
  | .decimal .. => rfl
  | .var .. => rfl
  | .app _ body _ => by
      rw [Expr.representative, Expr.decimals, Expr.decimals_representative body, Expr.decimals]
  | .neg body _ => by
      rw [Expr.representative, Expr.decimals, Expr.decimals_representative body, Expr.decimals]
  | .seq operations _ => by
      rw [Expr.representative, Expr.decimals, Operation.decimals_representatives operations,
        Expr.decimals]

theorem Operation.decimals_representatives : ∀ operations : List Operation,
    Operation.decimals (Operation.representatives operations) =
      (Operation.decimals operations).map Binary64.representative
  | [] => rfl
  | ⟨_, operand, _⟩ :: rest => by
      rw [Operation.representatives, Operation.decimals, Expr.decimals_representative operand,
        Operation.decimals_representatives rest, Operation.decimals, List.map_append]

end

mutual

/-- Origins make no difference to the representative. -/
theorem Expr.representative_bare : ∀ e : Expr, e.bare.representative = e.representative
  | .integer .. => rfl
  | .decimal .. => rfl
  | .var .. => rfl
  | .app _ body _ => by
      rw [Expr.bare, Expr.representative, Expr.representative_bare body, Expr.representative]
  | .neg body _ => by
      rw [Expr.bare, Expr.representative, Expr.representative_bare body, Expr.representative]
  | .seq operations _ => by
      rw [Expr.bare, Expr.representative, Operation.representatives_bareList operations,
        Expr.representative]

theorem Operation.representatives_bareList : ∀ operations : List Operation,
    Operation.representatives (Operation.bareList operations) =
      Operation.representatives operations
  | [] => rfl
  | ⟨_, operand, _⟩ :: rest => by
      rw [Operation.bareList, Operation.representatives, Expr.representative_bare operand,
        Operation.representatives_bareList rest, Operation.representatives]

end

/-! ## The laws -/

namespace Expr

/-- Not-a-number occurs in an expression exactly if it occurs in the representative. -/
theorem nan_mem_decimals_representative {e : Expr} :
    Binary64.nan ∈ e.representative.decimals ↔ Binary64.nan ∈ e.decimals := by
  simp [decimals_representative]

/-- **Equality is symmetric.** -/
theorem equal_comm (a b : Expr) : a.equal b = b.equal a := by
  rw [Bool.eq_iff_iff, equal_iff, equal_iff, ← nan_mem_decimals_representative (e := a),
    ← nan_mem_decimals_representative (e := b)]
  constructor
  · rintro ⟨hsame, hnan⟩
    exact ⟨hsame.symm, hsame ▸ hnan⟩
  · rintro ⟨hsame, hnan⟩
    exact ⟨hsame.symm, hsame ▸ hnan⟩

/-- **Equality is transitive.** -/
theorem equal_trans {a b c : Expr} (hab : a.equal b = true) (hbc : b.equal c = true) :
    a.equal c = true := by
  obtain ⟨hab, hnan⟩ := (equal_iff a b).1 hab
  obtain ⟨hbc, -⟩ := (equal_iff b c).1 hbc
  exact (equal_iff a c).2 ⟨hab.trans hbc, hnan⟩

/-- **An expression equals itself unless not-a-number occurs in it.** -/
theorem equal_self_iff (e : Expr) : e.equal e = true ↔ Binary64.nan ∉ e.decimals := by
  simp [equal_iff]

/-- Where expressions were built from makes no difference. -/
theorem equal_congr_bare {a a' b b' : Expr} (ha : a.bare = a'.bare) (hb : b.bare = b'.bare) :
    a.equal b = a'.equal b' := by
  have hrepresentative : ∀ {e e' : Expr}, e.bare = e'.bare →
      e.representative = e'.representative := by
    intro e e' h
    rw [← e.representative_bare, h, e'.representative_bare]
  rw [Bool.eq_iff_iff, equal_iff, equal_iff, hrepresentative ha, hrepresentative hb,
    ← nan_mem_decimals_representative (e := a), hrepresentative ha,
    nan_mem_decimals_representative]

/-- Equal expressions without a negative zero are typeset alike. -/
theorem latex_eq_of_equal {a b : Expr} (h : a.equal b = true)
    (ha : Binary64.negativeZero ∉ a.decimals) (hb : Binary64.negativeZero ∉ b.decimals) :
    a.latex = b.latex := by
  rw [← a.latex_bare, bare_eq_of_equal a b h ha hb, b.latex_bare]

end Expr

/-! ## The nodes of equal expressions -/

/-- Two nodes that stand at one place, are of one kind and are equal. -/
structure Located.Matches (x y : Located) : Prop where
  place : x.place = y.place
  kind : x.kind = y.kind
  equal : x.node.equal y.node = true

theorem Expr.kind_eq_of_equal {a b : Expr} (h : a.equal b = true) : a.kind = b.kind := by
  cases a <;> cases b <;> first | rfl | cases h

/-- Equal expressions at one place match. -/
theorem Expr.matches_of_equal {a b : Expr} (h : a.equal b = true) (place : Place) :
    Located.Matches ⟨place, .expr a⟩ ⟨place, .expr b⟩ :=
  ⟨rfl, Expr.kind_eq_of_equal h, h⟩

mutual

/-- **Equal expressions have equal nodes, in the same order and at the same places.** -/
theorem Expr.matches_preorderAt : ∀ (a b : Expr) (place : Place), a.equal b = true →
    List.Forall₂ Located.Matches (a.preorderAt place) (b.preorderAt place) := by
  intro a b place h
  have hroot := Expr.matches_of_equal h place
  match a, b with
  | .integer .., .integer .. => exact .cons hroot .nil
  | .decimal .., .decimal .. => exact .cons hroot .nil
  | .var .., .var .. => exact .cons hroot .nil
  | .app name body _, .app name' body' _ =>
      rw [Expr.equal, Bool.and_eq_true] at h
      exact .cons hroot (Expr.matches_preorderAt body body' _ h.2)
  | .neg body _, .neg body' _ => exact .cons hroot (Expr.matches_preorderAt body body' _ h)
  | .seq operations _, .seq operations' _ =>
      exact .cons hroot (Operation.matches_preorderAtList operations operations' place 0 h)

theorem Operation.matches_preorderAtList : ∀ (xs ys : List Operation) (place : Place)
    (position : Nat), Operation.equalList xs ys = true →
    List.Forall₂ Located.Matches (Operation.preorderAtList place position xs)
      (Operation.preorderAtList place position ys) := by
  intro xs ys place position h
  match xs, ys with
  | [], [] => exact .nil
  | ⟨method, operand, _⟩ :: rest, ⟨method', operand', _⟩ :: rest' =>
      rw [Operation.equalList, Bool.and_eq_true] at h
      obtain ⟨hfirst, hrest⟩ := h
      have hoperand := hfirst
      rw [Operation.equal, Bool.and_eq_true] at hoperand
      exact List.rel_append
        (.cons ⟨rfl, rfl, hfirst⟩ (Expr.matches_preorderAt operand operand' _ hoperand.2))
        (Operation.matches_preorderAtList rest rest' place (position + 1) hrest)

end

/-- **The laws of equality.** Origins make no difference to it. It is symmetric and transitive, and
an expression equals itself exactly if not-a-number does not occur in it. The nodes of equal
expressions, each listed before the nodes below it, are as many on both sides, and one by one they
are equal and of one kind. Seen as nodes, expressions are equal exactly if they are. Equal
expressions without a negative zero have one text and one LaTeX text. -/
theorem equal_laws (a b c : Expr) :
    (∀ a' b' : Expr, a.bare = a'.bare → b.bare = b'.bare → a.equal b = a'.equal b') ∧
    a.equal b = b.equal a ∧
    (a.equal b = true → b.equal c = true → a.equal c = true) ∧
    (a.equal a = true ↔ Binary64.nan ∉ a.decimals) ∧
    (a.equal b = true → ∀ tree,
      (Located.root tree a).preorder.length = (Located.root tree b).preorder.length ∧
        List.Forall₂ Located.Matches (Located.root tree a).preorder
          (Located.root tree b).preorder) ∧
    ((Node.expr a).equal (.expr b) = true ↔ a.equal b = true) ∧
    (a.equal b = true → Binary64.negativeZero ∉ a.decimals → Binary64.negativeZero ∉ b.decimals →
      a.print = b.print ∧ a.latex = b.latex) := by
  refine ⟨fun a' b' => Expr.equal_congr_bare, Expr.equal_comm a b, Expr.equal_trans,
    Expr.equal_self_iff a, fun h tree => ?_, Iff.rfl, fun h ha hb => ?_⟩
  · have hnodes := Expr.matches_preorderAt a b (Place.root tree) h
    exact ⟨hnodes.length_eq, hnodes⟩
  · exact ⟨Expr.print_eq_of_equal h ha hb, Expr.latex_eq_of_equal h ha hb⟩

/-- A sequence whose first operation has an operator and whose second has none, once with a negative
zero, once with a positive one and once with that and an origin: the first equals the second, the
second the third, and so the first the third, whose five nodes it has one by one. The text of the
negative zero has a sign all the same. -/
theorem equal_laws_zeros :
    let signed : Expr := .seq [⟨some .add, .decimal .negativeZero none, none⟩,
      ⟨none, .var "x" none, none⟩] none
    let plain : Expr := .seq [⟨some .add, .decimal .zero none, none⟩,
      ⟨none, .var "x" none, none⟩] none
    let placed : Expr := .seq [⟨some .add, .decimal .zero (some ⟨.decimal, ⟨2, 5⟩⟩), none⟩,
      ⟨none, .var "x" (some ⟨.var, ⟨5, 6⟩⟩), none⟩] none
    (signed.equal plain = true ∧ plain.equal placed = true ∧ signed.equal placed = true) ∧
      (Located.root 0 signed).preorder.length = 5 ∧
      List.Forall₂ Located.Matches (Located.root 0 signed).preorder
        (Located.root 0 placed).preorder ∧
      plain.print = placed.print ∧ signed.print ≠ plain.print := by
  intro signed plain placed
  have hfirst : signed.equal plain = true := by decide
  have hsecond : plain.equal placed = true := by decide
  have hthird := (equal_laws signed plain placed).2.2.1 hfirst hsecond
  have hnodes := ((equal_laws signed placed plain).2.2.2.2.1 hthird 0).2
  have htext := (equal_laws plain placed signed).2.2.2.2.2.2 hsecond (by decide) (by decide)
  exact ⟨⟨hfirst, hsecond, hthird⟩, by decide, hnodes, htext.1, by cbv⟩

end AlgebraText
