import AlgebraText.Json.Expr
import AlgebraText.Proofs.Expr.Spelling

/-!
# Stored expressions read back

Storing an expression loses nothing but the value of a number that is not finite: such a number is
stored as `null`, which no reader of numbers takes. So the stored form of an expression is read as
that very expression, origins and absent operators included, or not at all, and which of the two it
is can be told from its decimals (`Expr.expr?_toJson`). This holds of every expression, whatever
its sequences look like.

A written record has all its fields, and what may be absent is `null` in it. A reader of optional
values takes `null` for an absent one, so nothing that is there may be written as `null`
(`Json.optional_ofOption`).

## What this module delivers

* `Origin.ofJson?_toJson` and the like for rules, spans and operators: names and places read back;
* `Json.expr?_integer` and the like: the reader of expressions, one equation for each kind;
* `Expr.ofJson?_toJson` and `ofJson?_toJson_iff`: which stored expressions read back, and that the
  others are not read;
* `Expr.reread?_eq_some_iff`: the same for the text of a stored expression, which must not be nested
  too deep.
-/

set_option autoImplicit false

namespace AlgebraText

/-! ## Values that may be absent -/

namespace Json

/-- A value that may be absent is read as it was written, if no value that is there is written as
`null`. -/
theorem optional_ofOption {α : Type} {write : α → Json} {read : Json → Option α}
    (hread : ∀ value, read (write value) = some value) (hnull : ∀ value, write value ≠ null)
    (value : Option α) : optional read (some (ofOption write value)) = some value := by
  cases value with
  | none => rfl
  | some value =>
      unfold optional
      rw [ofOption]
      split
      · rename_i hshape
        cases hshape
      · rename_i hshape
        exact absurd (Option.some.inj hshape) (hnull value)
      · rename_i shown hshape
        obtain rfl := Option.some.inj hshape
        rw [hread, Option.map_some]

end Json

/-! ## Names and places -/

theorem Rule.ofJson?_toJson (rule : Rule) : Rule.ofJson? rule.toJson = some rule := by
  cases rule <;> rfl

theorem Method.ofJson?_toJson (method : Method) : Method.ofJson? method.toJson = some method := by
  cases method <;> rfl

theorem Span.ofJson?_toJson (span : Span) : Span.ofJson? span.toJson = some span := by
  simp [Span.ofJson?, Span.toJson, Span.fields, Json.field?, Json.natural?, Json.isClosed,
    List.lookup]

/-- **Origins read back.** -/
theorem Origin.ofJson?_toJson (origin : Origin) : Origin.ofJson? origin.toJson = some origin := by
  simp [Origin.ofJson?, Origin.toJson, Json.field?, List.lookup, Rule.ofJson?_toJson,
    Span.ofJson?_toJson]

namespace Json

theorem optional_method (method : Option Method) :
    optional Method.ofJson? (some (ofOption Method.toJson method)) = some method :=
  optional_ofOption Method.ofJson?_toJson (fun _ => Json.noConfusion) method

theorem optional_origin (origin : Option Origin) :
    optional Origin.ofJson? (some (ofOption Origin.toJson origin)) = some origin :=
  optional_ofOption Origin.ofJson?_toJson (fun _ => Json.noConfusion) origin

/-- **A number is read as it was written if it is finite, and not at all otherwise.** -/
theorem number?_ofNumber (value : Binary64) :
    (ofNumber value).number? = if value.isFinite then some value else none := by
  unfold ofNumber
  split
  · rename_i hfinite
    rw [number?, if_pos hfinite]
  · rfl

/-- The origin of a record is read as it was written, whichever its other fields are. -/
theorem origin?_object {entries : List (String × Json)} {origin : Option Origin}
    (fields : List String)
    (h : entries.lookup "provenance" = some (ofOption Origin.toJson origin)) :
    (object entries).origin? fields = some origin := by
  rw [origin?, field?, h, optional_origin]

/-! ## One equation for each kind of expression -/

section Kinds

variable {data body : Json} {items : List Json}

theorem expr?_integer : (object [("Integer", data)]).expr? = data.integer? := by
  rw [expr?]
  simp [tagged?]

theorem expr?_decimal : (object [("Decimal", data)]).expr? = data.decimal? := by
  rw [expr?]
  simp [tagged?]

theorem expr?_var : (object [("Variable", data)]).expr? = data.var? := by
  rw [expr?]
  simp [tagged?]

theorem expr?_app (h : data.field? appFields "body" = some body) :
    (object [("Function", data)]).expr? = (do
      let name ← (data.field? appFields "name").bind text?
      let argument ← body.expr?
      let origin ← data.origin? appFields
      some (.app name argument origin)) := by
  rw [expr?]
  simp only [tagged?, String.reduceEq, ↓reduceIte, Option.bind_eq_bind]
  split <;> simp_all

theorem expr?_neg (h : data.field? negFields "body" = some body) :
    (object [("Negation", data)]).expr? = (do
      let negated ← body.expr?
      let origin ← data.origin? negFields
      some (.neg negated origin)) := by
  rw [expr?]
  simp only [tagged?, String.reduceEq, ↓reduceIte, Option.bind_eq_bind]
  split <;> simp_all

theorem expr?_seq (h : data.field? seqFields "operations" = some (array items)) :
    (object [("Sequence", data)]).expr? = (do
      let operations ← operations? items
      let origin ← data.origin? seqFields
      some (.seq operations origin)) := by
  rw [expr?]
  simp only [tagged?, String.reduceEq, ↓reduceIte, Option.bind_eq_bind]
  split <;> simp_all

theorem operation?_eq (h : data.field? operationFields "operand" = some body) :
    data.operation? = (do
      let method ← optional Method.ofJson? (data.field? operationFields "method")
      let operand ← body.expr?
      let origin ← data.origin? operationFields
      some ⟨method, operand, origin⟩) := by
  rw [operation?]
  split <;> simp_all

end Kinds

end Json

/-! ## Expressions -/

mutual

/-- **The stored form of an expression is read as the expression, or not at all.** -/
theorem Expr.expr?_toJson : ∀ e : Expr,
    e.toJson.expr? = if e.decimals.all Binary64.isFinite then some e else none
  | .integer value origin => by
      rw [Expr.toJson, Json.expr?_integer, Json.integer?, Json.origin?_object numberFields rfl]
      rfl
  | .decimal value origin => by
      have hvalue : (Expr.decimal value origin).decimals.all Binary64.isFinite = value.isFinite := by
        rw [Expr.decimals, List.all_cons, List.all_nil, Bool.and_true]
      rw [Expr.toJson, Json.expr?_decimal, Json.decimal?, Json.origin?_object numberFields rfl,
        hvalue]
      show (Json.number? (Json.ofNumber value)).bind (fun value =>
        (some origin).bind fun origin => some (Expr.decimal value origin)) = _
      rw [Json.number?_ofNumber]
      split <;> rfl
  | .var name origin => by
      rw [Expr.toJson, Json.expr?_var, Json.var?, Json.origin?_object varFields rfl]
      rfl
  | .app name body origin => by
      have hbody := Expr.expr?_toJson body
      rw [Expr.toJson, Json.expr?_app rfl, hbody, Json.origin?_object appFields rfl, Expr.decimals]
      split <;> rfl
  | .neg body origin => by
      have hbody := Expr.expr?_toJson body
      rw [Expr.toJson, Json.expr?_neg rfl, hbody, Json.origin?_object negFields rfl, Expr.decimals]
      split <;> rfl
  | .seq operations origin => by
      have hoperations := Operation.operations?_toJsonList operations
      rw [Expr.toJson, Json.expr?_seq rfl, hoperations, Json.origin?_object seqFields rfl,
        Expr.decimals]
      split <;> rfl

/-- The stored forms of operations are read as the operations, or not at all. -/
theorem Operation.operations?_toJsonList : ∀ operations : List Operation,
    Json.operations? (Operation.toJsonList operations) =
      if (Operation.decimals operations).all Binary64.isFinite then some operations else none
  | [] => by
      rw [Operation.toJsonList, Json.operations?]
      rfl
  | ⟨method, operand, origin⟩ :: rest => by
      have hoperand := Expr.expr?_toJson operand
      have hrest := Operation.operations?_toJsonList rest
      have hmethod : Json.optional Method.ofJson?
          ((Operation.toJson ⟨method, operand, origin⟩).field? operationFields "method") =
            some method := Json.optional_method method
      rw [Operation.toJsonList, Json.operations?, hrest, Json.operation?_eq rfl, hmethod, hoperand,
        Operation.toJson, Json.origin?_object operationFields rfl, Operation.decimals,
        List.all_append]
      -- an operation is read if its operand is, and then the remaining ones decide
      cases operand.decimals.all Binary64.isFinite with
      | true =>
          rw [Bool.true_and, if_pos rfl]
          split <;> rfl
      | false => rfl

end

/-- The stored form of an expression reads back as long as all its decimals are finite. -/
theorem Expr.ofJson?_toJson (e : Expr) :
    Expr.ofJson? e.toJson =
      if ∀ value ∈ e.decimals, value.isFinite = true then some e else none := by
  rw [Expr.ofJson?, e.expr?_toJson]
  simp only [List.all_eq_true]

/-- **A stored expression reads back exactly if all its decimals are finite.** Every kind, name,
digit, bit, operator and origin is then as it was, whether the expression is well formed or not; with
an infinity or not-a-number anywhere in it, the stored form is not read at all. -/
theorem ofJson?_toJson_iff (e : Expr) :
    (Expr.ofJson? e.toJson = some e ↔ ∀ value ∈ e.decimals, value.isFinite = true) ∧
      (Expr.ofJson? e.toJson = none ↔ ∃ value ∈ e.decimals, value.isFinite = false) := by
  rw [e.ofJson?_toJson]
  split
  · rename_i hfinite
    refine ⟨iff_of_true rfl hfinite, iff_of_false nofun ?_⟩
    rintro ⟨value, hmem, hother⟩
    rw [hfinite value hmem] at hother
    cases hother
  · rename_i hother
    refine ⟨iff_of_false nofun hother, iff_of_true rfl ?_⟩
    simpa using hother

/-- Through a text the same expressions read back, as long as their stored form is not nested too
deep for a reader of texts. -/
theorem Expr.reread?_eq_some_iff (e : Expr) :
    e.reread? = some e ↔
      e.toJson.depth ≤ Json.nestingLimit ∧ ∀ value ∈ e.decimals, value.isFinite = true := by
  rw [Expr.reread?, Json.throughText?]
  split
  · rename_i hdepth
    rw [Option.bind_some, e.ofJson?_toJson, and_iff_right hdepth]
    split
    · rename_i hfinite
      exact iff_of_true rfl hfinite
    · rename_i hother
      exact iff_of_false nofun hother
  · rename_i hdepth
    exact iff_of_false nofun fun h => hdepth h.1

end AlgebraText
