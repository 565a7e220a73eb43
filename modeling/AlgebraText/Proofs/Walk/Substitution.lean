import AlgebraText.Proofs.Expr.RoundTrip
import AlgebraText.Proofs.Walk.Calls
import AlgebraText.Walk.Place
import AlgebraText.Walk.Transformer

/-!
# Substitution of leaves

A transformer that leaves all nodes but the leaves to the defaults rebuilds the tree around what it
makes of the leaves. What it makes of them is a map over the list of the leaves from left to right,
in which the state of the hooks goes along, and the new tree is the old one with the results in the
places of the leaves.

Such a substitution cannot break the rules on nodes. It does not look at operators, and in every
operator context the printer sets parentheses around the results where they are needed, so what is
made of an expression can be read back.

## What this module delivers

* `Expr.leaves` and `Expr.substitute`;
* `Expr.transform_ofLeaves`: the transformation is a map over the leaves;
* `Expr.Legible`, the expressions that can be read back, with `Expr.Legible.substitute`;
* `Expr.isCollapsed_substitute`: a substitution makes no sequence of a single operation;
* `transform_substitutes_leaves`: calls, results and texts of the transformation.
-/

set_option autoImplicit false

namespace AlgebraText

/-! ## Leaves -/

/-- Whether nodes of a kind are leaves. -/
def NodeKind.isLeaf : NodeKind → Bool
  | .integer | .decimal | .var => true
  | _ => false

mutual

/-- The leaves of an expression, from left to right. -/
def Expr.leaves : Expr → List Expr
  | .app _ body _ => body.leaves
  | .neg body _ => body.leaves
  | .seq operations _ => Operation.leaves operations
  | leaf => [leaf]

/-- The leaves of operations. -/
def Operation.leaves : List Operation → List Expr
  | [] => []
  | ⟨_, operand, _⟩ :: rest => operand.leaves ++ Operation.leaves rest

end

mutual

/-- The leaves are those of the nodes that have the kind of a leaf. -/
theorem Expr.leaves_eq (place : Place) : ∀ e : Expr,
    ((e.preorderAt place).filter (·.kind.isLeaf)).map Located.node = e.leaves.map Node.expr
  | .integer .. => rfl
  | .decimal .. => rfl
  | .var .. => rfl
  | .app _ body _ => Expr.leaves_eq (place.child 0) body
  | .neg body _ => Expr.leaves_eq (place.child 0) body
  | .seq operations _ => Operation.leaves_eq place 0 operations

theorem Operation.leaves_eq (place : Place) (position : Nat) : ∀ operations : List Operation,
    ((Operation.preorderAtList place position operations).filter (·.kind.isLeaf)).map
      Located.node = (Operation.leaves operations).map Node.expr
  | [] => rfl
  | ⟨method, operand, origin⟩ :: rest => by
      have hoperand := Expr.leaves_eq ((place.child position).child 0) operand
      rw [Operation.preorderAtList, List.filter_append, List.map_append,
        Operation.leaves_eq place (position + 1) rest, Operation.leaves, List.map_append,
        ← hoperand]
      rfl

end

/-! ## Substitution -/

mutual

/-- The expression with results in the places of its leaves, from left to right. All names,
operators and origins stay as they are. -/
def Expr.substitute (results : List Expr) : Expr → Expr
  | .app name body origin => .app name (body.substitute results) origin
  | .neg body origin => .neg (body.substitute results) origin
  | .seq operations origin => .seq (Operation.substituteList results operations) origin
  | leaf => results.headD leaf

/-- Operations with results in the places of their leaves. -/
def Operation.substituteList (results : List Expr) : List Operation → List Operation
  | [] => []
  | ⟨method, operand, origin⟩ :: rest =>
    ⟨method, operand.substitute (results.take operand.leaves.length), origin⟩ ::
      Operation.substituteList (results.drop operand.leaves.length) rest

end

mutual

/-- Leaves in their own places change nothing. -/
theorem Expr.substitute_leaves : ∀ e : Expr, e.substitute e.leaves = e
  | .integer .. => rfl
  | .decimal .. => rfl
  | .var .. => rfl
  | .app _ body _ => by rw [Expr.substitute, Expr.leaves, Expr.substitute_leaves body]
  | .neg body _ => by rw [Expr.substitute, Expr.leaves, Expr.substitute_leaves body]
  | .seq operations _ => by
      rw [Expr.substitute, Expr.leaves, Operation.substituteList_leaves operations]

theorem Operation.substituteList_leaves : ∀ operations : List Operation,
    Operation.substituteList (Operation.leaves operations) operations = operations
  | [] => rfl
  | ⟨_, operand, _⟩ :: rest => by
      rw [Operation.substituteList, Operation.leaves, List.take_left, List.drop_left,
        Expr.substitute_leaves operand, Operation.substituteList_leaves rest]

end

mutual

/-- The leaves of a substitution are those of the results, one after another. -/
theorem Expr.leaves_substitute : ∀ (e : Expr) (results : List Expr),
    results.length = e.leaves.length → (e.substitute results).leaves = results.flatMap Expr.leaves
  | .integer .., results, h => by
      obtain ⟨result, rfl⟩ := List.length_eq_one_iff.1 h
      exact (List.append_nil _).symm
  | .decimal .., results, h => by
      obtain ⟨result, rfl⟩ := List.length_eq_one_iff.1 h
      exact (List.append_nil _).symm
  | .var .., results, h => by
      obtain ⟨result, rfl⟩ := List.length_eq_one_iff.1 h
      exact (List.append_nil _).symm
  | .app _ body _, results, h => Expr.leaves_substitute body results h
  | .neg body _, results, h => Expr.leaves_substitute body results h
  | .seq operations _, results, h => Operation.leaves_substituteList operations results h

theorem Operation.leaves_substituteList : ∀ (operations : List Operation) (results : List Expr),
    results.length = (Operation.leaves operations).length →
      Operation.leaves (Operation.substituteList results operations) =
        results.flatMap Expr.leaves
  | [], results, h => by
      obtain rfl := List.length_eq_zero_iff.1 h
      rfl
  | ⟨method, operand, origin⟩ :: rest, results, h => by
      rw [Operation.leaves, List.length_append] at h
      rw [Operation.substituteList, Operation.leaves, Expr.leaves_substitute operand,
        Operation.leaves_substituteList rest, ← List.flatMap_append, List.take_append_drop]
      · rw [List.length_drop]
        omega
      · rw [List.length_take]
        omega

end

/-! ## Transformers of leaves -/

section Transformers

variable {m : Type → Type} [Monad m]

/-- What a transformer makes of a leaf. -/
def Transformer.leaf (transformer : Transformer m) : Expr → m Expr
  | .integer value origin => transformer.integer value origin
  | .decimal value origin => transformer.decimal value origin
  | .var name origin => transformer.var name origin
  | e => pure e

/-- The transformer that makes of leaves what a function says and leaves the other nodes to the
defaults. -/
def Transformer.ofLeaves (hook : Expr → m Expr) : Transformer m where
  integer value origin := hook (.integer value origin)
  decimal value origin := hook (.decimal value origin)
  var name origin := hook (.var name origin)

end Transformers

variable {σ : Type}

mutual

/-- **The transformation is a map over the leaves.** -/
theorem Expr.transform_ofLeaves (hook : Expr → StateM σ Expr) (state : σ) : ∀ e : Expr,
    e.transform (.ofLeaves hook) state =
      (e.substitute (e.leaves.mapM hook state).1, (e.leaves.mapM hook state).2)
  | .integer .. => rfl
  | .decimal .. => rfl
  | .var .. => rfl
  | .app name body origin => by
      change (Expr.app name (body.transform (.ofLeaves hook) state).1 origin,
        (body.transform (.ofLeaves hook) state).2) = _
      rw [Expr.transform_ofLeaves hook state body]
      rfl
  | .neg body origin => by
      change (Expr.neg (body.transform (.ofLeaves hook) state).1 origin,
        (body.transform (.ofLeaves hook) state).2) = _
      rw [Expr.transform_ofLeaves hook state body]
      rfl
  | .seq operations origin => by
      change (Expr.seq (Operation.transformList (.ofLeaves hook) operations state).1 origin,
        (Operation.transformList (.ofLeaves hook) operations state).2) = _
      rw [Operation.transformList_ofLeaves hook state operations]
      rfl

theorem Operation.transformList_ofLeaves (hook : Expr → StateM σ Expr) (state : σ) :
    ∀ operations : List Operation,
      Operation.transformList (.ofLeaves hook) operations state =
        (Operation.substituteList ((Operation.leaves operations).mapM hook state).1 operations,
          ((Operation.leaves operations).mapM hook state).2)
  | [] => rfl
  | ⟨method, operand, origin⟩ :: rest => by
      -- the first results, as many as the operand has leaves, are those of the operand
      have hlength := length_mapM hook operand.leaves state
      change (⟨method, (operand.transform (.ofLeaves hook) state).1, origin⟩ ::
          (Operation.transformList (.ofLeaves hook) rest
            (operand.transform (.ofLeaves hook) state).2).1,
        (Operation.transformList (.ofLeaves hook) rest
          (operand.transform (.ofLeaves hook) state).2).2) = _
      rw [Expr.transform_ofLeaves hook state operand, Operation.transformList_ofLeaves hook _ rest,
        Operation.leaves, mapM_append, Operation.substituteList, List.take_left' hlength,
        List.drop_left' hlength]

end

/-- Without any hook of its own a transformer changes nothing. -/
theorem Expr.transform_default (e : Expr) (state : σ) :
    e.transform ({} : Transformer (StateM σ)) state = (e, state) := by
  have hpure : e.leaves.mapM (pure : Expr → StateM σ Expr) state = (e.leaves, state) := by
    have hmap := List.mapM_pure (m := StateM σ) (l := e.leaves) (f := id)
    rw [List.map_id] at hmap
    exact congrFun hmap state
  have htransform := e.transform_ofLeaves pure state
  rw [hpure, e.substitute_leaves] at htransform
  exact htransform

/-! ## Rules on nodes -/

/-- A result takes the place of a leaf, or the leaf stays. -/
theorem headD_of_forall_mem (motive : Expr → Prop) {results : List Expr} {leaf : Expr}
    (hleaf : motive leaf) (hresults : ∀ result ∈ results, motive result) :
    motive (results.headD leaf) := by
  cases results with
  | nil => exact hleaf
  | cons result rest => exact hresults result List.mem_cons_self

/-- Operations keep their operators and origins, and their operands are filled from the results. -/
theorem Operation.exists_of_mem_substituteList {results : List Expr} {operations : List Operation}
    {operation : Operation} (h : operation ∈ Operation.substituteList results operations) :
    ∃ before ∈ operations, ∃ part, part ⊆ results ∧
      operation = ⟨before.method, before.operand.substitute part, before.origin⟩ := by
  induction operations generalizing results with
  | nil => cases h
  | cons first rest ih =>
      obtain ⟨method, operand, origin⟩ := first
      rw [Operation.substituteList, List.mem_cons] at h
      rcases h with rfl | h
      · exact ⟨_, List.mem_cons_self, _, List.take_subset _ _, rfl⟩
      · obtain ⟨before, hbefore, part, hpart, heq⟩ := ih h
        exact ⟨before, List.mem_cons_of_mem _ hbefore, part,
          List.Subset.trans hpart (List.drop_subset _ _), heq⟩

theorem Operation.length_substituteList (results : List Expr) (operations : List Operation) :
    (Operation.substituteList results operations).length = operations.length := by
  induction operations generalizing results with
  | nil => rfl
  | cons first rest ih =>
      obtain ⟨method, operand, origin⟩ := first
      rw [Operation.substituteList, List.length_cons, ih, List.length_cons]

/-- Results that follow the rules on names, digits and sequences break none of them. -/
theorem Expr.WellFormed.substitute {e : Expr} {results : List Expr} (h : e.WellFormed)
    (hresults : ∀ result ∈ results, result.WellFormed) : (e.substitute results).WellFormed := by
  induction h generalizing results with
  | integer hcanonical => exact headD_of_forall_mem Expr.WellFormed (.integer hcanonical) hresults
  | decimal => exact headD_of_forall_mem Expr.WellFormed .decimal hresults
  | var hname => exact headD_of_forall_mem Expr.WellFormed (.var hname) hresults
  | app hname _ ih => exact .app hname (ih hresults)
  | neg _ ih => exact .neg (ih hresults)
  | @seq first rest priority origin hmethod _ hpriority _ ihfirst ihrest =>
      obtain ⟨method, operand, place⟩ := first
      rw [Expr.substitute, Operation.substituteList]
      refine @Expr.WellFormed.seq _ _ priority _ hmethod ?_ ?_ ?_
      · apply ihfirst
        intro result hresult
        exact hresults result (List.mem_of_mem_take hresult)
      · intro operation hmem
        obtain ⟨before, hbefore, part, -, rfl⟩ := Operation.exists_of_mem_substituteList hmem
        exact hpriority before hbefore
      · intro operation hmem
        obtain ⟨before, hbefore, part, hpart, rfl⟩ := Operation.exists_of_mem_substituteList hmem
        apply ihrest before hbefore
        intro result hresult
        exact hresults result (List.mem_of_mem_drop (hpart hresult))

mutual

/-- There are no decimals but those of the expression and of the results. -/
theorem Expr.forall_decimals_substitute {p : Binary64 → Prop} {results : List Expr}
    (hresults : ∀ result ∈ results, ∀ value ∈ result.decimals, p value) :
    ∀ e : Expr, (∀ value ∈ e.decimals, p value) →
      ∀ value ∈ (e.substitute results).decimals, p value
  | .integer .., h => headD_of_forall_mem (∀ value ∈ Expr.decimals ·, p value) h hresults
  | .decimal .., h => headD_of_forall_mem (∀ value ∈ Expr.decimals ·, p value) h hresults
  | .var .., h => headD_of_forall_mem (∀ value ∈ Expr.decimals ·, p value) h hresults
  | .app _ body _, h => Expr.forall_decimals_substitute hresults body h
  | .neg body _, h => Expr.forall_decimals_substitute hresults body h
  | .seq operations _, h => Operation.forall_decimals_substituteList hresults operations h

theorem Operation.forall_decimals_substituteList {p : Binary64 → Prop} {results : List Expr}
    (hresults : ∀ result ∈ results, ∀ value ∈ result.decimals, p value) :
    ∀ operations : List Operation, (∀ value ∈ Operation.decimals operations, p value) →
      ∀ value ∈ Operation.decimals (Operation.substituteList results operations), p value
  | [], h => h
  | ⟨method, operand, origin⟩ :: rest, h => by
      rw [Operation.decimals, List.forall_mem_append] at h
      rw [Operation.substituteList, Operation.decimals, List.forall_mem_append]
      constructor
      · apply Expr.forall_decimals_substitute _ operand h.1
        intro result hresult
        exact hresults result (List.mem_of_mem_take hresult)
      · apply Operation.forall_decimals_substituteList _ rest h.2
        intro result hresult
        exact hresults result (List.mem_of_mem_drop hresult)

end

mutual

/-- Where all sequences have several operations, so have those of the substitution. -/
theorem Expr.isCollapsed_substitute {results : List Expr}
    (hresults : ∀ result ∈ results, result.isCollapsed = true) :
    ∀ e : Expr, e.isCollapsed = true → (e.substitute results).isCollapsed = true
  | .integer .., h => headD_of_forall_mem (·.isCollapsed = true) h hresults
  | .decimal .., h => headD_of_forall_mem (·.isCollapsed = true) h hresults
  | .var .., h => headD_of_forall_mem (·.isCollapsed = true) h hresults
  | .app _ body _, h => Expr.isCollapsed_substitute hresults body h
  | .neg body _, h => Expr.isCollapsed_substitute hresults body h
  | .seq operations _, h => by
      rw [Expr.isCollapsed, Bool.and_eq_true] at h
      rw [Expr.substitute, Expr.isCollapsed, Bool.and_eq_true, Operation.length_substituteList]
      exact ⟨h.1, Operation.areCollapsed_substituteList hresults operations h.2⟩

theorem Operation.areCollapsed_substituteList {results : List Expr}
    (hresults : ∀ result ∈ results, result.isCollapsed = true) :
    ∀ operations : List Operation, Operation.areCollapsed operations = true →
      Operation.areCollapsed (Operation.substituteList results operations) = true
  | [], h => h
  | ⟨method, operand, origin⟩ :: rest, h => by
      rw [Operation.areCollapsed, Bool.and_eq_true] at h
      rw [Operation.substituteList, Operation.areCollapsed, Bool.and_eq_true]
      constructor
      · apply Expr.isCollapsed_substitute _ operand h.1
        intro result hresult
        exact hresults result (List.mem_of_mem_take hresult)
      · apply Operation.areCollapsed_substituteList _ rest h.2
        intro result hresult
        exact hresults result (List.mem_of_mem_drop hresult)

end

/-- An expression that can be read back, up to sequences of a single operation: names and digits are
spelled as such, a sequence has a first operation without an operator and further ones, if any, with
operators of one priority, and decimals are finite and not negative. -/
structure Expr.Legible (e : Expr) : Prop where
  /-- The rules on names, digits and sequences. -/
  wellFormed : e.WellFormed
  /-- The rule on decimals. -/
  literals : ∀ value ∈ e.decimals, value.isLiteral = true

/-- **A legible expression with legible results in the places of its leaves is legible.** -/
theorem Expr.Legible.substitute {e : Expr} {results : List Expr} (h : e.Legible)
    (hresults : ∀ result ∈ results, result.Legible) : (e.substitute results).Legible where
  wellFormed := h.wellFormed.substitute fun result hresult => (hresults result hresult).wellFormed
  literals := Expr.forall_decimals_substitute
    (fun result hresult => (hresults result hresult).literals) e h.literals

/-- What is printed for a legible expression is read as the expression, up to sequences of a single
operation. -/
theorem Expr.Legible.parse_print {e : Expr} (h : e.Legible) :
    ∃ again, parse e.print = .ok again ∧ again.equal e.collapse = true :=
  parse_of_writes ((h.wellFormed.spells h.literals).expression (words_tokenize e.print))

/-! ## The transformation -/

/-- **A transformer that overrides the hooks of leaves only is a substitution.** Its hooks, which
may carry a state, are called for the leaves, each once and from left to right. What comes out is
the expression with their results in the places of the leaves. Without any hook this is the same
expression, origins included. If the expression and the results are legible, so is what comes out,
and its text is read as it up to sequences of a single operation, which come back as their operands;
if there are none in the expression and the results, nothing changes. -/
theorem transform_substitutes_leaves {σ : Type} (integer : String → Option Origin → StateM σ Expr)
    (decimal : Binary64 → Option Origin → StateM σ Expr)
    (var : String → Option Origin → StateM σ Expr) (e : Expr) (state : σ) :
    let transformer : Transformer (StateM σ) := { integer, decimal, var }
    (∀ tree, ((Located.root tree e).preorder.filter (·.kind.isLeaf)).map Located.node =
      e.leaves.map Node.expr) ∧
    e.transform ({} : Transformer (StateM σ)) state = (e, state) ∧
    ∃ results final, e.leaves.mapM transformer.leaf state = (results, final) ∧
      results.length = e.leaves.length ∧
      (e.substitute results).leaves = results.flatMap Expr.leaves ∧
      e.transform transformer state = (e.substitute results, final) ∧
      e.transform (.ofLeaves (noting transformer.leaf)) ([], state) =
        (e.substitute results, e.leaves, final) ∧
      (e.Legible → (∀ result ∈ results, result.Legible) →
        (e.substitute results).Legible ∧
        ∃ again, parse (e.substitute results).print = .ok again ∧
          again.equal (e.substitute results).collapse = true ∧
          (e.isCollapsed = true → (∀ result ∈ results, result.isCollapsed = true) →
            again.equal (e.substitute results) = true)) := by
  intro transformer
  -- the transformer is that of its own hooks for leaves
  have hleaves := e.transform_ofLeaves transformer.leaf state
  have hlength := length_mapM transformer.leaf e.leaves state
  refine ⟨fun tree => e.leaves_eq (.root tree), e.transform_default state, _, _, rfl, hlength,
    e.leaves_substitute _ hlength, hleaves, ?_, ?_⟩
  · rw [Expr.transform_ofLeaves, mapM_noting, List.nil_append]
    rfl
  · intro he hresults
    have hlegible := he.substitute hresults
    obtain ⟨again, hparse, hequal⟩ := hlegible.parse_print
    refine ⟨hlegible, again, hparse, hequal, ?_⟩
    intro hcollapsed hcollapsed'
    rw [Expr.collapse_eq_self _ (e.isCollapsed_substitute hcollapsed' hcollapsed)] at hequal
    exact hequal

/-- A variable that is the one operand of a sequence is written alone, and so it comes back as a
variable. -/
theorem transform_lone_variable :
    let e : Expr := .seq [⟨none, .var "x" none, none⟩] none
    let transformer : Transformer (StateM Unit) := {}
    let result := (e.transform transformer ()).1
    e.Legible ∧ (∀ leaf ∈ e.leaves, (transformer.leaf leaf ()).1.Legible) ∧
      ∃ again, parse result.print = .ok again ∧ again.equal result = false := by
  intro e transformer result
  have hx : Expr.Legible (.var "x" none) := ⟨.var (by decide), List.forall_mem_nil _⟩
  refine ⟨⟨?_, List.forall_mem_nil _⟩, ?_, .var "x" (some ⟨.var, ⟨0, 1⟩⟩), by cbv, rfl⟩
  · exact @Expr.WellFormed.seq _ _ 0 _ rfl hx.wellFormed (List.forall_mem_nil _)
      (List.forall_mem_nil _)
  · intro leaf hleaf
    obtain rfl := List.mem_singleton.1 hleaf
    exact hx

/-- A sum in the place of a factor: it is written in parentheses. -/
theorem transform_substitutes_leaves_sum :
    let e : Expr := .chain (.var "x" none) [(.multiply, .integer "2" none)]
    let sum : Expr := .chain (.var "a" none) [(.add, .integer "1" none)]
    let transformer : Transformer (StateM Nat) := { var := fun _ _ calls => (sum, calls + 1) }
    e.Legible ∧ sum.Legible ∧ e.transform transformer 0 =
      (.chain sum [(.multiply, .integer "2" none)], 1) ∧
      ∃ again, parse (e.transform transformer 0).1.print = .ok again ∧
        again.equal (e.transform transformer 0).1 = true := by
  intro e sum transformer
  have he : e.Legible := by
    refine ⟨@Expr.WellFormed.seq _ _ 3 _ rfl (.var (by decide)) ?_ ?_, by decide⟩
    · exact List.forall_mem_singleton.2 ⟨.multiply, rfl, rfl⟩
    · exact List.forall_mem_singleton.2 (.integer (by decide))
  have hsum : sum.Legible := by
    refine ⟨@Expr.WellFormed.seq _ _ 2 _ rfl (.var (by decide)) ?_ ?_, by decide⟩
    · exact List.forall_mem_singleton.2 ⟨.add, rfl, rfl⟩
    · exact List.forall_mem_singleton.2 (.integer (by decide))
  have htwo : Expr.Legible (.integer "2" none) := ⟨.integer (by decide), List.forall_mem_nil _⟩
  obtain ⟨-, -, results, final, hresults, -, -, -, -, hreads⟩ :=
    transform_substitutes_leaves transformer.integer transformer.decimal transformer.var e 0
  obtain ⟨rfl, rfl⟩ := Prod.mk.inj hresults
  obtain ⟨-, again, hparse, -, hequal⟩ :=
    hreads he (List.forall_mem_cons.2 ⟨hsum, List.forall_mem_singleton.2 htwo⟩)
  exact ⟨he, hsum, rfl, again, hparse, hequal rfl (by decide)⟩

end AlgebraText
