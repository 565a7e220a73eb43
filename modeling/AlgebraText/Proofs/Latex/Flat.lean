import AlgebraText.Expr.Latex
import AlgebraText.Proofs.Expr.Equality
import AlgebraText.Proofs.Expr.RoundTrip

/-!
# Fractions in numerators

A chain of divisions is typeset as fractions, each in the numerator of the next. So is a division
whose first operand is such a chain in parentheses, for a numerator needs no parentheses. The two
are different expressions with one text. An expression is flat if no division has a chain of
divisions as its first operand, and every expression has a flat form (`Expr.flat`), which is typeset
like itself.

## What this module delivers

* `Expr.Proper`, the expressions that follow all rules on nodes, with an induction over them;
* `Expr.latex_bare`: origins are not typeset;
* `Operation.merge` and `Expr.flat`;
* `Expr.flat_flat`: a flat form has nothing left to merge;
* `latex_flat`: the flat form has the same text;
* `latex_eq_of_equal_flat`: expressions whose flat forms are equal have one text.
-/

set_option autoImplicit false

namespace AlgebraText

/-! ## Proper expressions -/

/-- An expression whose nodes follow all rules: names and digits are spelled as such, decimals are
literals, and a sequence has at least two operations at one level, all but the first with an
operator. -/
structure Expr.Proper (e : Expr) : Prop where
  /-- The rules on names, digits and sequences. -/
  wellFormed : e.WellFormed
  /-- No sequence has a single operation. -/
  collapsed : e.isCollapsed = true
  /-- Decimals are finite and not negative. -/
  literals : ∀ value ∈ e.decimals, value.isLiteral = true

/-- An induction over proper expressions. -/
theorem Expr.Proper.induction {motive : (e : Expr) → e.Proper → Prop}
    (integer : ∀ value origin h, IsCanonical value.toList → motive (.integer value origin) h)
    (decimal : ∀ value origin h, value.isLiteral = true → motive (.decimal value origin) h)
    (var : ∀ name origin h, IsName name.toList → motive (.var name origin) h)
    (app : ∀ name body origin h, IsName name.toList → (hbody : body.Proper) → motive body hbody →
      motive (.app name body origin) h)
    (neg : ∀ body origin h, (hbody : body.Proper) → motive body hbody →
      motive (.neg body origin) h)
    (seq : ∀ operand place rest priority origin h, rest ≠ [] →
      (∀ operation ∈ rest, operation.HasPriority priority) →
      (hoperand : operand.Proper) → motive operand hoperand →
      (hrest : ∀ operation ∈ rest, operation.operand.Proper) →
      (∀ operation hmem, motive operation.operand (hrest operation hmem)) →
      motive (.seq (⟨none, operand, place⟩ :: rest) origin) h)
    (e : Expr) (h : e.Proper) : motive e h := by
  have hwellFormed := h.wellFormed
  induction hwellFormed with
  | integer hcanonical => exact integer _ _ h hcanonical
  | decimal => exact decimal _ _ h (h.literals _ List.mem_cons_self)
  | var hname => exact var _ _ h hname
  | app hname hbody ih => exact app _ _ _ h hname ⟨hbody, h.collapsed, h.literals⟩ (ih _)
  | neg hbody ih => exact neg _ _ h ⟨hbody, h.collapsed, h.literals⟩ (ih _)
  | @seq first rest priority origin hmethod hfirst hpriority hrest ihfirst ihrest =>
      obtain ⟨method, operand, place⟩ := first
      obtain rfl : method = none := hmethod
      have hcollapsed := h.collapsed
      have hliterals := h.literals
      rw [Expr.isCollapsed, Bool.and_eq_true, decide_eq_true_eq,
        Operation.areCollapsed_eq_true, List.forall_mem_cons] at hcollapsed
      simp only [Expr.decimals, Operation.mem_decimals] at hliterals
      refine seq operand place rest priority origin h ?_ hpriority
        ⟨hfirst, hcollapsed.2.1, fun value hvalue =>
          hliterals value ⟨_, List.mem_cons_self, hvalue⟩⟩ (ihfirst _)
        (fun operation hmem => ⟨hrest operation hmem, hcollapsed.2.2 operation hmem,
          fun value hvalue => hliterals value ⟨_, List.mem_cons_of_mem _ hmem, hvalue⟩⟩)
        fun operation hmem => ihrest operation hmem _
      -- a sequence has two operations
      rintro rfl
      simp at hcollapsed

/-! ## Origins are not typeset -/

section Relabel

variable (named : Binary64 → Bool) (place : Option Origin → Option Origin)

theorem Operation.method_head?_relabelList (operations : List Operation) :
    (Operation.relabelList named place operations).head?.bind Operation.method =
      operations.head?.bind Operation.method := by
  cases operations with
  | nil => rfl
  | cons operation rest =>
      obtain ⟨method, operand, origin⟩ := operation
      rw [Operation.relabelList]
      rfl

mutual

/-- The LaTeX text of an expression stays the same under changes that are not written. -/
theorem Expr.latex_relabel : ∀ e : Expr, (e.relabel named place).latex = e.latex
  | .integer .. => rfl
  | .decimal value origin => by
      rw [Expr.relabel]
      split <;> rfl
  | .var .. => rfl
  | .app name body _ => by
      rw [Expr.relabel, Expr.latex, Expr.latex_relabel body, Expr.latex]
  | .neg body _ => by
      rw [Expr.relabel, Expr.latex, Expr.latex_relabel body, Expr.needsParensNegated_relabel,
        Expr.latex]
  | .seq operations _ => by
      rw [Expr.relabel, Expr.latex, Operation.loosest?_relabelList,
        Operation.latexFirst_relabelList, Expr.latex]

theorem Operation.latexFirst_relabelList (enclosing : Option Nat) :
    ∀ operations : List Operation,
      Operation.latexFirst enclosing (Operation.relabelList named place operations) =
        Operation.latexFirst enclosing operations
  | [] => rfl
  | ⟨method, operand, _⟩ :: rest => by
      rw [Operation.relabelList, Operation.latexFirst, Operation.method_head?_relabelList,
        Expr.latex_relabel operand, Expr.needsParens_relabel,
        Operation.latexRest_relabelList enclosing _ _ rest, Operation.latexFirst]

theorem Operation.latexRest_relabelList (enclosing : Option Nat) (soFar : String)
    (previous : Option Method) : ∀ operations : List Operation,
      Operation.latexRest enclosing soFar previous
          (Operation.relabelList named place operations) =
        Operation.latexRest enclosing soFar previous operations
  | [] => rfl
  | ⟨method, operand, _⟩ :: rest => by
      rw [Operation.relabelList, Operation.latexRest, Expr.latex_relabel operand,
        Expr.needsParens_relabel, Operation.latexRest_relabelList enclosing _ _ rest,
        Operation.latexRest]

end

end Relabel

/-- The LaTeX text of an expression does not depend on its origins. -/
theorem Expr.latex_bare (e : Expr) : e.bare.latex = e.latex := by
  rw [e.bare_eq_relabel, Expr.latex_relabel]

/-! ## The flat form -/

namespace Operation

/-- Whether operations are a chain of divisions: a first operand, and others divided by. -/
def areDivisions : List Operation → Bool
  | [] => false
  | first :: rest =>
    first.method.isNone && !rest.isEmpty && rest.all fun operation =>
      operation.method == some .divide

/-- The chain of divisions that stands as the first operand of another, merged into it. -/
def merge : List Operation → List Operation
  | ⟨method, .seq inner place, origin⟩ :: rest =>
    if areDivisions inner && areDivisions (⟨method, .seq inner place, origin⟩ :: rest) then
      inner ++ rest
    else ⟨method, .seq inner place, origin⟩ :: rest
  | operations => operations

theorem areDivisions_cons {first : Operation} {rest : List Operation} :
    areDivisions (first :: rest) = true ↔ first.method = none ∧ rest ≠ [] ∧
      ∀ operation ∈ rest, operation.method = some .divide := by
  simp [areDivisions, and_assoc]

/-- What a merge does: nothing, or it puts two chains of divisions together. -/
theorem merge_cases (operations : List Operation) :
    merge operations = operations ∨
      ∃ first more place origin rest,
        operations = ⟨none, .seq (first :: more) place, origin⟩ :: rest ∧
        merge operations = first :: (more ++ rest) ∧
        areDivisions (first :: more) = true ∧ areDivisions operations = true := by
  match operations with
  | [] => exact Or.inl rfl
  | ⟨method, .seq inner place, origin⟩ :: rest =>
      rw [merge]
      split
      · rename_i hboth
        rw [Bool.and_eq_true] at hboth
        obtain ⟨hinner, houter⟩ := hboth
        obtain rfl : method = none := (areDivisions_cons.1 houter).1
        cases inner with
        | nil => cases hinner
        | cons first more =>
            exact Or.inr ⟨first, more, place, origin, rest, rfl, rfl, hinner, houter⟩
      · exact Or.inl rfl
  | ⟨_, .integer .., _⟩ :: _ => exact Or.inl rfl
  | ⟨_, .decimal .., _⟩ :: _ => exact Or.inl rfl
  | ⟨_, .var .., _⟩ :: _ => exact Or.inl rfl
  | ⟨_, .app .., _⟩ :: _ => exact Or.inl rfl
  | ⟨_, .neg .., _⟩ :: _ => exact Or.inl rfl

/-- Two chains of divisions are put together. -/
theorem merge_of_areDivisions {inner rest : List Operation} {place origin : Option Origin}
    (hinner : areDivisions inner = true)
    (houter : areDivisions (⟨none, .seq inner place, origin⟩ :: rest) = true) :
    merge (⟨none, .seq inner place, origin⟩ :: rest) = inner ++ rest := by
  rw [merge, hinner, houter]
  rfl

/-- A merge looks at the first operand only, so it can be done before the last divisions. -/
theorem merge_append {first second : Operation} {rest : List Operation}
    (h : areDivisions [first, second] = true)
    (h' : areDivisions (first :: second :: rest) = true) :
    merge (first :: second :: rest) = merge [first, second] ++ rest := by
  obtain ⟨method, operand, origin⟩ := first
  cases operand with
  | seq inner place =>
      rw [merge, merge, h, h', Bool.and_true]
      split
      · rw [List.append_assoc, List.singleton_append]
      · rfl
  | integer | decimal | var | app | neg => rfl

/-- Anything but a chain of divisions stays as it is. -/
theorem merge_eq_self {operations : List Operation} (h : areDivisions operations = false) :
    merge operations = operations := by
  rcases merge_cases operations with hself | ⟨_, _, _, _, _, _, _, _, houter⟩
  · exact hself
  · rw [h] at houter
    cases houter

end Operation

mutual

/-- The expression with every chain of divisions that stands as the first operand of another merged
into this other one. -/
def Expr.flat : Expr → Expr
  | .app name body origin => .app name body.flat origin
  | .neg body origin => .neg body.flat origin
  | .seq operations origin => .seq (Operation.merge (Operation.flatList operations)) origin
  | e => e

/-- Operations with flat operands. -/
def Operation.flatList : List Operation → List Operation
  | [] => []
  | ⟨method, operand, origin⟩ :: rest =>
    ⟨method, operand.flat, origin⟩ :: Operation.flatList rest

end

theorem Operation.flatList_eq_map (operations : List Operation) :
    flatList operations = operations.map fun operation =>
      ⟨operation.method, operation.operand.flat, operation.origin⟩ := by
  induction operations with
  | nil => rw [flatList, List.map_nil]
  | cons operation rest ih =>
      obtain ⟨method, operand, origin⟩ := operation
      rw [flatList, ih, List.map_cons]

theorem Operation.method_head?_flatList (operations : List Operation) :
    (flatList operations).head?.bind Operation.method =
      operations.head?.bind Operation.method := by
  rw [flatList_eq_map]
  cases operations <;> rfl

/-- The priority decides on parentheses. -/
theorem Expr.needsParens_eq_of_priority? {e e' : Expr} (enclosing : Option Nat)
    (h : e.priority? = e'.priority?) : e.needsParens enclosing = e'.needsParens enclosing := by
  unfold Expr.needsParens
  rw [h]

theorem Expr.needsParensNegated_flat (e : Expr) :
    e.flat.needsParensNegated = e.needsParensNegated := by
  cases e <;> rfl

/-! ## What the flat form keeps -/

namespace Operation

/-- The loosest operator of a chain of divisions is the division. -/
theorem loosest?_of_areDivisions {operations : List Operation}
    (h : areDivisions operations = true) :
    loosest? operations = some Method.divide.priority := by
  cases operations with
  | nil => cases h
  | cons first rest =>
      obtain ⟨hfirst, hne, hrest⟩ := areDivisions_cons.1 h
      exact loosest?_eq hfirst (fun operation hmem => ⟨_, hrest operation hmem, rfl⟩) hne

/-- Two chains of divisions together are one. -/
theorem areDivisions_append {first second : Operation} {more rest : List Operation}
    (h : areDivisions (first :: more) = true) (h' : areDivisions (second :: rest) = true) :
    areDivisions (first :: (more ++ rest)) = true := by
  obtain ⟨hfirst, hmore, hmethods⟩ := areDivisions_cons.1 h
  obtain ⟨-, -, hmethods'⟩ := areDivisions_cons.1 h'
  exact areDivisions_cons.2 ⟨hfirst, List.append_ne_nil_of_left_ne_nil hmore rest,
    List.forall_mem_append.2 ⟨hmethods, hmethods'⟩⟩

theorem priority?_of_loosest? {operations : List Operation} {priority : Nat}
    (h : loosest? operations = some priority) : priority? operations = some priority := by
  cases operations with
  | nil => cases h
  | cons operation rest =>
      obtain ⟨method, operand, origin⟩ := operation
      rw [priority?, h]
      rfl

theorem loosest?_merge (operations : List Operation) :
    loosest? (merge operations) = loosest? operations := by
  rcases merge_cases operations with h | ⟨first, more, place, origin, rest, rfl, h, hinner, houter⟩
  · rw [h]
  · rw [h, loosest?_of_areDivisions (areDivisions_append hinner houter),
      loosest?_of_areDivisions houter]

/-- A chain of divisions stays one. -/
theorem areDivisions_merge {operations : List Operation} (h : areDivisions operations = true) :
    areDivisions (merge operations) = true := by
  rcases merge_cases operations with
    hself | ⟨first, more, place, origin, rest, rfl, hmerge, hinner, -⟩
  · rwa [hself]
  · rw [hmerge]
    exact areDivisions_append hinner h

theorem areDivisions_bareList (operations : List Operation) :
    areDivisions (bareList operations) = areDivisions operations := by
  cases operations with
  | nil => rfl
  | cons first rest =>
      rw [bareList_eq_map, List.map_cons, areDivisions, areDivisions, List.all_map,
        List.isEmpty_map]
      rfl

/-- A merge does not look at origins. -/
theorem bareList_merge (operations : List Operation) :
    bareList (merge operations) = merge (bareList operations) := by
  match operations with
  | [] => rfl
  | ⟨method, .seq inner place, origin⟩ :: rest =>
      have houter := areDivisions_bareList (⟨method, .seq inner place, origin⟩ :: rest)
      rw [bareList, Expr.bare] at houter ⊢
      rw [merge, merge, areDivisions_bareList, houter]
      split
      · rw [bareList_eq_map, bareList_eq_map, bareList_eq_map, List.map_append]
      · rw [bareList, Expr.bare]
  | ⟨_, .integer .., _⟩ :: _ => rfl
  | ⟨_, .decimal .., _⟩ :: _ => rfl
  | ⟨_, .var .., _⟩ :: _ => rfl
  | ⟨_, .app .., _⟩ :: _ => rfl
  | ⟨_, .neg .., _⟩ :: _ => rfl

theorem loosest?_flatList (operations : List Operation) :
    loosest? (flatList operations) = loosest? operations := by
  have hmethods : methods (flatList operations) = methods operations := by
    rw [flatList_eq_map]
    unfold methods
    rw [List.filterMap_map]
    rfl
  rw [loosest?, hmethods, loosest?]

theorem decimals_merge (operations : List Operation) :
    decimals (merge operations) = decimals operations := by
  have happend : ∀ xs ys : List Operation, decimals (xs ++ ys) = decimals xs ++ decimals ys := by
    intro xs ys
    induction xs with
    | nil => rfl
    | cons x xs ih => rw [List.cons_append, decimals_cons, decimals_cons, ih, List.append_assoc]
  rcases merge_cases operations with h | ⟨first, more, place, origin, rest, rfl, h, -, -⟩
  · rw [h]
  · rw [h, ← List.cons_append, happend]
    exact (decimals_cons ⟨none, .seq (first :: more) place, origin⟩ rest).symm

end Operation

mutual

theorem Expr.decimals_flat : ∀ e : Expr, e.flat.decimals = e.decimals
  | .integer .. => rfl
  | .decimal .. => rfl
  | .var .. => rfl
  | .app name body _ => by
      rw [Expr.flat, Expr.decimals, Expr.decimals_flat body, Expr.decimals]
  | .neg body _ => by
      rw [Expr.flat, Expr.decimals, Expr.decimals_flat body, Expr.decimals]
  | .seq operations _ => by
      rw [Expr.flat, Expr.decimals, Operation.decimals_merge,
        Operation.decimals_flatList operations, Expr.decimals]

theorem Operation.decimals_flatList : ∀ operations : List Operation,
    Operation.decimals (Operation.flatList operations) = Operation.decimals operations
  | [] => rfl
  | ⟨method, operand, _⟩ :: rest => by
      rw [Operation.flatList, Operation.decimals, Expr.decimals_flat operand,
        Operation.decimals_flatList rest, Operation.decimals]

end

/-! ## Nothing is left to merge -/

namespace Operation

theorem flatList_append (operations more : List Operation) :
    flatList (operations ++ more) = flatList operations ++ flatList more := by
  rw [flatList_eq_map, flatList_eq_map, flatList_eq_map, List.map_append]

/-- A chain of divisions with nothing to merge has nothing to merge with further divisions. -/
theorem merge_append_eq_self {first : Operation} {more rest : List Operation}
    (h : areDivisions (first :: more) = true) (hself : merge (first :: more) = first :: more) :
    merge (first :: (more ++ rest)) = first :: (more ++ rest) := by
  obtain ⟨method, operand, origin⟩ := first
  cases operand with
  | seq inner place =>
      have hinner : areDivisions inner = false := by
        rw [Bool.eq_false_iff]
        intro hinner
        obtain rfl : method = none := (areDivisions_cons.1 h).1
        rw [merge_of_areDivisions hinner h] at hself
        -- a chain of divisions has two operations, and the merge would have put them for one
        have hlength := congrArg List.length hself
        cases inner with
        | nil => cases hinner
        | cons _ links =>
            have hlinks := List.length_pos_of_ne_nil (areDivisions_cons.1 hinner).2.1
            simp only [List.length_append, List.length_cons] at hlength
            omega
      rw [merge, hinner]
      rfl
  | integer | decimal | var | app | neg => rfl

end Operation

mutual

/-- The flat form of an expression is its own flat form. -/
theorem Expr.flat_flat : ∀ e : Expr, e.flat.flat = e.flat
  | .integer .. => rfl
  | .decimal .. => rfl
  | .var .. => rfl
  | .app name body _ => by
      rw [Expr.flat, Expr.flat, Expr.flat_flat body]
  | .neg body _ => by
      rw [Expr.flat, Expr.flat, Expr.flat_flat body]
  | .seq operations origin => by
      obtain ⟨hflat, hself⟩ := Operation.merge_flatList operations
      rw [Expr.flat, Expr.flat, hflat, hself]

theorem Operation.flatList_flatList : ∀ operations : List Operation,
    Operation.flatList (Operation.flatList operations) = Operation.flatList operations
  | [] => rfl
  | ⟨method, operand, _⟩ :: rest => by
      rw [Operation.flatList, Operation.flatList, Expr.flat_flat operand,
        Operation.flatList_flatList rest]

/-- After a merge of flat operations all operands are flat, and there is nothing to merge. -/
theorem Operation.merge_flatList : ∀ operations : List Operation,
    Operation.flatList (Operation.merge (Operation.flatList operations)) =
        Operation.merge (Operation.flatList operations) ∧
      Operation.merge (Operation.merge (Operation.flatList operations)) =
        Operation.merge (Operation.flatList operations)
  | [] => ⟨rfl, rfl⟩
  | ⟨method, operand, origin⟩ :: rest => by
      have hoperand := Expr.flat_flat operand
      have hrest := Operation.flatList_flatList rest
      have hoperands : Operation.flatList (Operation.flatList (⟨method, operand, origin⟩ :: rest)) =
          Operation.flatList (⟨method, operand, origin⟩ :: rest) := by
        rw [Operation.flatList, Operation.flatList, hoperand, hrest]
      rcases Operation.merge_cases (Operation.flatList (⟨method, operand, origin⟩ :: rest)) with
        hself | ⟨first, more, _, _, _, hsplit, hmerge, hinner, -⟩
      · rw [hself]
        exact ⟨hoperands, hself⟩
      · -- the operations that were put together come from a sequence
        rw [Operation.flatList, List.cons.injEq, Operation.mk.injEq] at hsplit
        obtain ⟨⟨-, hseq, -⟩, rfl⟩ := hsplit
        cases operand with
        | seq operations place =>
            obtain ⟨hflat, hself⟩ := Operation.merge_flatList operations
            rw [Expr.flat, Expr.seq.injEq] at hseq
            rw [hseq.1] at hflat hself
            rw [hmerge, ← List.cons_append, Operation.flatList_append, hflat, hrest]
            exact ⟨rfl, Operation.merge_append_eq_self hinner hself⟩
        | integer | decimal | var | app | neg => cases hseq

end

/-! ## The flat form is typeset alike -/

/-- The text of a fraction. -/
def fraction (numerator denominator : String) : String :=
  "\\frac" ++ braced numerator ++ braced denominator

namespace Operation

/-- A chain of divisions is typeset as fractions in the numerators of fractions. -/
theorem latexRest_of_divisions (enclosing : Option Nat) {operations : List Operation}
    (h : ∀ operation ∈ operations, operation.method = some .divide) (soFar : String)
    (previous : Option Method) :
    latexRest enclosing soFar previous operations =
      operations.foldl (fun soFar operation => fraction soFar operation.operand.latex) soFar := by
  induction operations generalizing soFar previous with
  | nil => rfl
  | cons operation rest ih =>
      obtain ⟨method, operand, origin⟩ := operation
      obtain ⟨hmethod, hrest⟩ := List.forall_mem_cons.1 h
      obtain rfl : method = some .divide := hmethod
      rw [latexRest, ih hrest, List.foldl_cons]
      rfl

theorem latexFirst_of_areDivisions (enclosing : Option Nat) {first : Operation}
    {rest : List Operation} (h : areDivisions (first :: rest) = true) :
    latexFirst enclosing (first :: rest) =
      rest.foldl (fun soFar operation => fraction soFar operation.operand.latex)
        first.operand.latex := by
  obtain ⟨method, operand, origin⟩ := first
  obtain ⟨-, hne, hrest⟩ := areDivisions_cons.1 h
  obtain ⟨second, more, rfl⟩ := List.exists_cons_of_ne_nil hne
  have hsecond : (second :: more).head?.bind Operation.method = some .divide :=
    hrest second List.mem_cons_self
  rw [latexFirst, hsecond, latexRest_of_divisions enclosing hrest]
  rfl

/-- A merge puts fractions into numerators, which is where they were typeset already. -/
theorem latexFirst_merge (enclosing : Option Nat) (operations : List Operation) :
    latexFirst enclosing (merge operations) = latexFirst enclosing operations := by
  rcases merge_cases operations with h | ⟨first, more, place, origin, rest, rfl, h, hinner, houter⟩
  · rw [h]
  · rw [h, latexFirst_of_areDivisions enclosing (areDivisions_append hinner houter),
      latexFirst_of_areDivisions enclosing houter, Expr.latex,
      latexFirst_of_areDivisions _ hinner, List.foldl_append]

/-- Operations whose operands have the same text and need the same parentheses. -/
theorem latexRest_flatList (enclosing : Option Nat) {operations : List Operation}
    (h : ∀ operation ∈ operations, operation.operand.flat.latex = operation.operand.latex ∧
      operation.operand.flat.priority? = operation.operand.priority?) (soFar : String)
    (previous : Option Method) :
    latexRest enclosing soFar previous (flatList operations) =
      latexRest enclosing soFar previous operations := by
  induction operations generalizing soFar previous with
  | nil => rfl
  | cons operation rest ih =>
      obtain ⟨method, operand, origin⟩ := operation
      obtain ⟨⟨hlatex, hpriority⟩, hrest⟩ := List.forall_mem_cons.1 h
      rw [flatList, latexRest, ih hrest, hlatex,
        Expr.needsParens_eq_of_priority? enclosing hpriority, latexRest]

end Operation

/-- **The flat form of a proper expression has the text of the expression.** It binds as tightly, so
it is put in parentheses in the same places. -/
theorem latex_flat {e : Expr} (h : e.Proper) :
    e.flat.latex = e.latex ∧ e.flat.priority? = e.priority? := by
  induction e, h using Expr.Proper.induction with
  | integer | decimal | var => exact ⟨rfl, rfl⟩
  | app name body origin _ hname _ ih =>
      rw [Expr.flat, Expr.latex, ih.1, Expr.latex]
      exact ⟨rfl, rfl⟩
  | neg body origin _ _ ih =>
      rw [Expr.flat, Expr.latex, ih.1, body.needsParensNegated_flat, Expr.latex]
      exact ⟨rfl, rfl⟩
  | seq operand place rest priority origin _ hne hpriority _ ihoperand _ ihrest =>
      have hloosest := @Operation.loosest?_eq ⟨none, operand, place⟩ rest priority rfl hpriority hne
      rw [Expr.flat]
      -- neither flat operands nor a merge change the loosest operator, which decides on groups
      constructor
      · rw [Expr.latex, Operation.loosest?_merge, Operation.loosest?_flatList,
          Operation.latexFirst_merge, Operation.flatList, Operation.latexFirst,
          Operation.method_head?_flatList, ihoperand.1,
          Expr.needsParens_eq_of_priority? _ ihoperand.2,
          Operation.latexRest_flatList _ ihrest, Expr.latex, Operation.latexFirst]
      · have hflat := (Operation.loosest?_merge _).trans
          ((Operation.loosest?_flatList _).trans hloosest)
        rw [Expr.priority?, Expr.priority?, Operation.priority?_of_loosest? hflat,
          Operation.priority?_of_loosest? hloosest]

/-- Expressions whose flat forms are equal have one text. -/
theorem latex_eq_of_equal_flat {a b : Expr} (ha : a.Proper) (hb : b.Proper)
    (h : a.flat.equal b.flat = true) : a.latex = b.latex := by
  have hzero : ∀ {e : Expr}, e.Proper → Binary64.negativeZero ∉ e.flat.decimals := by
    intro e he hmem
    rw [e.decimals_flat] at hmem
    exact absurd (he.literals _ hmem) (by decide)
  rw [← (latex_flat ha).1, ← (latex_flat hb).1, ← a.flat.latex_bare, ← b.flat.latex_bare,
    Expr.bare_eq_of_equal _ _ h (hzero ha) (hzero hb)]

end AlgebraText
