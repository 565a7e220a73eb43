import AlgebraText.Proofs.Latex.Signs

/-!
# LaTeX texts are unambiguous

The LaTeX text of an expression can be read back, up to fractions in numerators: its signs are read
as its flat form (`Expr.Proper.readable`). Reading goes from left to right and never back, by one
sign of look-ahead, so that signs start with one expression only (`TakesExpr.unique`). Groups,
braces and fractions show where they end, and a sum, a product or a power ends where no operator of
its level follows.

## What this module delivers

* `TakesExpr`, what it means to read an expression, with `TakesExpr.unique`;
* `ReadsAt` and `ReadsPrimary`, with one lemma for each way of putting signs together;
* `Expr.Proper.readable`: the signs of an expression are read as its flat form;
* `latex_eq_iff`: two expressions have one text exactly if their flat forms are equal.
-/

set_option autoImplicit false

namespace AlgebraText

/-! ## Putting expressions together -/

namespace Expr

/-- A first operand with further links. -/
def ofLinks (first : Expr) : List Operation → Expr
  | [] => first
  | links => .seq (⟨none, first, none⟩ :: links) none

/-- A fraction. One with a chain of divisions for its numerator is a longer chain. -/
def dividedBy (numerator denominator : Expr) : Expr :=
  .seq (Operation.merge [⟨none, numerator, none⟩, ⟨some .divide, denominator, none⟩]) none

/-- A chain of powers with one more exponent. -/
def raised (base exponent : Expr) : Expr :=
  match base with
  | .seq operations origin => .seq (operations ++ [⟨some .power, exponent, none⟩]) origin
  | base => base

end Expr

/-! ## Reading signs -/

/-- The operator of a level that a sign stands for. -/
def LatexSign.operator? (level : Nat) : LatexSign → Option Method
  | plus => if level = 2 then some .add else none
  | minus => if level = 2 then some .subtract else none
  | times => if level = 3 then some .multiply else none
  | _ => none

mutual

/-- Signs that start with an expression in a place that asks for a level, the expression, and the
signs after it. A sum is asked for at level 2, a product at level 3, and at level 4 what may stand
in a product. -/
inductive TakesExpr : Nat → List LatexSign → Expr → List LatexSign → Prop
  /-- A first operand, and further ones as long as there are operators of the level. -/
  | links {level : Nat} {signs middle rest : List LatexSign} {first : Expr}
      {links : List Operation} :
      level < 4 → TakesExpr (level + 1) signs first middle → TakesLinks level middle links rest →
      TakesExpr level signs (.ofLinks first links) rest
  /-- What shows its end itself, without a superscript after it. -/
  | primary {signs rest : List LatexSign} {e : Expr} :
      TakesPrimary signs e rest → .superscript ∉ rest.head? → TakesExpr 4 signs e rest
  /-- A power with its first exponent. -/
  | power {signs middle rest : List LatexSign} {base exponent : Expr} :
      TakesPrimary signs base (.superscript :: middle) →
      TakesExpr 2 middle exponent (.endBrace :: rest) →
      TakesExpr 4 signs (.ofLinks base [⟨some .power, exponent, none⟩]) rest

/-- Signs that start with further operands, each after an operator of a level. -/
inductive TakesLinks : Nat → List LatexSign → List Operation → List LatexSign → Prop
  /-- There is no operator of the level. -/
  | done {level : Nat} {signs : List LatexSign} :
      (∀ sign ∈ signs.head?, sign.operator? level = none) → TakesLinks level signs [] signs
  /-- An operator and its operand. -/
  | link {level : Nat} {sign : LatexSign} {method : Method} {signs middle rest : List LatexSign}
      {operand : Expr} {links : List Operation} :
      sign.operator? level = some method → TakesExpr (level + 1) signs operand middle →
      TakesLinks level middle links rest →
      TakesLinks level (sign :: signs) (⟨some method, operand, none⟩ :: links) rest

/-- Signs that start with what shows its end itself. -/
inductive TakesPrimary : List LatexSign → Expr → List LatexSign → Prop
  /-- A number without a point. -/
  | integer {digits : String} {rest : List LatexSign} :
      TakesPrimary (.int digits :: rest) (.integer digits none) rest
  /-- A number with a point. -/
  | decimal {digits : String} {value : Binary64} {rest : List LatexSign} :
      Binary64.read? digits.toList = some value →
      TakesPrimary (.float digits :: rest) (.decimal value none) rest
  /-- A variable. -/
  | var {name : String} {rest : List LatexSign} :
      TakesPrimary (.var name :: rest) (.var name none) rest
  /-- A sign in front of its body. -/
  | neg {signs rest : List LatexSign} {body : Expr} :
      TakesPrimary signs body rest → TakesPrimary (.minus :: signs) (.neg body none) rest
  /-- A group. -/
  | group {signs rest : List LatexSign} {e : Expr} :
      TakesExpr 2 signs e (.endGroup :: rest) → TakesPrimary (.group :: signs) e rest
  /-- A function with its argument. -/
  | call {name : String} {signs rest : List LatexSign} {body : Expr} :
      TakesExpr 2 signs body (.endGroup :: rest) →
      TakesPrimary (.call name :: signs) (.app name body none) rest
  /-- A fraction. -/
  | fraction {signs middle rest : List LatexSign} {numerator denominator : Expr} :
      TakesExpr 2 signs numerator (.endBrace :: .brace :: middle) →
      TakesExpr 2 middle denominator (.endBrace :: rest) →
      TakesPrimary (.fraction :: signs) (numerator.dividedBy denominator) rest
  /-- A chain of powers in braces, and one more exponent. -/
  | tower {signs middle rest : List LatexSign} {base exponent : Expr} :
      TakesExpr 2 signs base (.endBrace :: .superscript :: middle) →
      TakesExpr 2 middle exponent (.endBrace :: rest) →
      TakesPrimary (.brace :: signs) (base.raised exponent) rest

end

mutual

/-- Signs start with one expression only. -/
theorem TakesExpr.unique {level : Nat} {signs rest rest' : List LatexSign} {e e' : Expr} :
    TakesExpr level signs e rest → TakesExpr level signs e' rest' → e = e' ∧ rest = rest'
  | .links hlevel hfirst hlinks, h' => by
      cases h' with
      | links _ hfirst' hlinks' =>
          obtain ⟨rfl, rfl⟩ := hfirst.unique hfirst'
          obtain ⟨rfl, rfl⟩ := hlinks.unique hlinks'
          exact ⟨rfl, rfl⟩
      | primary | power => exact absurd hlevel (by decide)
  | .primary hprimary hend, h' => by
      cases h' with
      | links hlevel => exact absurd hlevel (by decide)
      | primary hprimary' => exact hprimary.unique hprimary'
      | power hbase =>
          -- a power has a superscript where the other reading stops
          obtain ⟨-, rfl⟩ := hprimary.unique hbase
          exact absurd rfl hend
  | .power hbase hexponent, h' => by
      cases h' with
      | links hlevel => exact absurd hlevel (by decide)
      | primary hprimary hend =>
          obtain ⟨-, rfl⟩ := hbase.unique hprimary
          exact absurd rfl hend
      | power hbase' hexponent' =>
          obtain ⟨rfl, hmiddle⟩ := hbase.unique hbase'
          cases hmiddle
          obtain ⟨rfl, hrest⟩ := hexponent.unique hexponent'
          cases hrest
          exact ⟨rfl, rfl⟩

theorem TakesLinks.unique {level : Nat} {signs rest rest' : List LatexSign}
    {links links' : List Operation} :
    TakesLinks level signs links rest → TakesLinks level signs links' rest' →
      links = links' ∧ rest = rest'
  | .done hend, h' => by
      cases h' with
      | done => exact ⟨rfl, rfl⟩
      | link hmethod =>
          -- the sign is an operator of the level or it is not
          rw [hend _ rfl] at hmethod
          cases hmethod
  | .link hmethod hoperand hlinks, h' => by
      cases h' with
      | done hend =>
          rw [hend _ rfl] at hmethod
          cases hmethod
      | link hmethod' hoperand' hlinks' =>
          obtain rfl := Option.some.inj (hmethod.symm.trans hmethod')
          obtain ⟨rfl, rfl⟩ := hoperand.unique hoperand'
          obtain ⟨rfl, rfl⟩ := hlinks.unique hlinks'
          exact ⟨rfl, rfl⟩

theorem TakesPrimary.unique {signs rest rest' : List LatexSign} {e e' : Expr} :
    TakesPrimary signs e rest → TakesPrimary signs e' rest' → e = e' ∧ rest = rest'
  | .integer, h' => by
      cases h'
      exact ⟨rfl, rfl⟩
  | .decimal hread, h' => by
      cases h' with
      | decimal hread' =>
          obtain rfl := Option.some.inj (hread.symm.trans hread')
          exact ⟨rfl, rfl⟩
  | .var, h' => by
      cases h'
      exact ⟨rfl, rfl⟩
  | .neg hbody, h' => by
      cases h' with
      | neg hbody' =>
          obtain ⟨rfl, rfl⟩ := hbody.unique hbody'
          exact ⟨rfl, rfl⟩
  | .group h, h' => by
      cases h' with
      | group h' =>
          obtain ⟨rfl, hrest⟩ := h.unique h'
          cases hrest
          exact ⟨rfl, rfl⟩
  | .call hbody, h' => by
      cases h' with
      | call hbody' =>
          obtain ⟨rfl, hrest⟩ := hbody.unique hbody'
          cases hrest
          exact ⟨rfl, rfl⟩
  | .fraction hnumerator hdenominator, h' => by
      cases h' with
      | fraction hnumerator' hdenominator' =>
          obtain ⟨rfl, hmiddle⟩ := hnumerator.unique hnumerator'
          cases hmiddle
          obtain ⟨rfl, hrest⟩ := hdenominator.unique hdenominator'
          cases hrest
          exact ⟨rfl, rfl⟩
  | .tower hbase hexponent, h' => by
      cases h' with
      | tower hbase' hexponent' =>
          obtain ⟨rfl, hmiddle⟩ := hbase.unique hbase'
          cases hmiddle
          obtain ⟨rfl, hrest⟩ := hexponent.unique hexponent'
          cases hrest
          exact ⟨rfl, rfl⟩

end

/-! ## What ends an expression -/

/-- Signs that go on with nothing in a place that asks for a level. -/
def Concludes (level : Nat) (signs : List LatexSign) : Prop :=
  ∀ sign ∈ signs.head?, sign ≠ .superscript ∧ ∀ other, level ≤ other → sign.operator? other = none

namespace Concludes

theorem nil (level : Nat) : Concludes level [] := nofun

theorem mono {level other : Nat} {signs : List LatexSign} (h : Concludes level signs)
    (hle : level ≤ other) : Concludes other signs :=
  fun sign hmem => ⟨(h sign hmem).1, fun next hnext => (h sign hmem).2 next (hle.trans hnext)⟩

theorem endBrace (level : Nat) (rest : List LatexSign) : Concludes level (.endBrace :: rest) := by
  rintro sign ⟨⟩
  exact ⟨nofun, fun _ _ => rfl⟩

theorem endGroup (level : Nat) (rest : List LatexSign) : Concludes level (.endGroup :: rest) := by
  rintro sign ⟨⟩
  exact ⟨nofun, fun _ _ => rfl⟩

/-- An operator ends what binds more tightly. -/
theorem operator {method : Method} (h : method.priority < 4) (rest : List LatexSign) :
    Concludes (method.priority + 1) (method.latexSign :: rest) := by
  rintro sign ⟨⟩
  cases method with
  | power | divide => exact absurd h (by decide)
  | multiply | add | subtract =>
      refine ⟨nofun, fun other hle => if_neg ?_⟩
      rintro rfl
      exact absurd hle (by decide)

/-- Without an operator there are no further links. -/
theorem takesLinks {level : Nat} {signs : List LatexSign} (h : Concludes level signs) :
    TakesLinks level signs [] signs :=
  .done fun sign hmem => (h sign hmem).2 level (Nat.le_refl level)

end Concludes

/-! ## Reading signs that were put together -/

/-- Signs that are read as an expression in a place that asks for a level. -/
def ReadsAt (level : Nat) (signs : List LatexSign) (e : Expr) : Prop :=
  ∀ rest, Concludes level rest → TakesExpr level (signs ++ rest) e rest

/-- Signs that are read as an expression whatever follows them. -/
def ReadsPrimary (signs : List LatexSign) (e : Expr) : Prop :=
  ∀ rest, TakesPrimary (signs ++ rest) e rest

namespace ReadsAt

variable {level : Nat} {signs signs' : List LatexSign} {e e' : Expr}

/-- What binds tightly may stand where less is asked for. -/
theorem loosen (hlevel : level < 4) (h : ReadsAt (level + 1) signs e) : ReadsAt level signs e :=
  fun rest hconcludes =>
    .links hlevel (h rest (hconcludes.mono (Nat.le_succ level))) hconcludes.takesLinks

theorem of_le {low : Nat} (h : ReadsAt level signs e) (hlevel : level ≤ 4) (hle : low ≤ level) :
    ReadsAt low signs e := by
  induction hle with
  | refl => exact h
  | step hle ih => exact ih (h.loosen (by omega)) (by omega)

theorem group (h : ReadsAt 2 signs e) : ReadsPrimary (.group :: (signs ++ [.endGroup])) e := by
  intro rest
  rw [List.cons_append, List.append_assoc]
  exact .group (h _ (.endGroup 2 rest))

theorem call (name : String) (h : ReadsAt 2 signs e) :
    ReadsPrimary (.call name :: (signs ++ [.endGroup])) (.app name e none) := by
  intro rest
  rw [List.cons_append, List.append_assoc]
  exact .call (h _ (.endGroup 2 rest))

theorem fraction (h : ReadsAt 2 signs e) (h' : ReadsAt 2 signs' e') :
    ReadsPrimary (.fraction :: (signs ++ .endBrace :: LatexSign.braced signs'))
      (e.dividedBy e') := by
  intro rest
  rw [LatexSign.braced]
  simp only [List.cons_append, List.append_assoc, List.nil_append]
  exact .fraction (h _ (.endBrace 2 _)) (h' _ (.endBrace 2 rest))

/-- A chain of powers in braces gets one more exponent. -/
theorem tower (h : ReadsAt 2 signs e) (h' : ReadsAt 2 signs' e') :
    ReadsPrimary (LatexSign.braced signs ++ .superscript :: (signs' ++ [.endBrace]))
      (e.raised e') := by
  intro rest
  rw [LatexSign.braced]
  simp only [List.cons_append, List.append_assoc, List.nil_append]
  exact .tower (h _ (.endBrace 2 _)) (h' _ (.endBrace 2 rest))

end ReadsAt

namespace ReadsPrimary

variable {signs signs' : List LatexSign} {e e' : Expr}

/-- What shows its end itself may stand everywhere. -/
theorem readsAt (h : ReadsPrimary signs e) : ReadsAt 4 signs e :=
  fun rest hconcludes => .primary (h rest) fun hmem => (hconcludes _ hmem).1 rfl

theorem negated (h : ReadsPrimary signs e) : ReadsPrimary (.minus :: signs) (.neg e none) :=
  fun rest => .neg (h rest)

theorem power (h : ReadsPrimary signs e) (h' : ReadsAt 2 signs' e') :
    ReadsAt 4 (signs ++ .superscript :: (signs' ++ [.endBrace]))
      (.ofLinks e [⟨some .power, e', none⟩]) := by
  intro rest _
  simp only [List.cons_append, List.append_assoc, List.nil_append]
  exact .power (h _) (h' _ (.endBrace 2 rest))

end ReadsPrimary

/-! ## Reading sequences -/

/-- An operation with a flat operand, and without origins. -/
def Operation.flatBare (operation : Operation) : Operation :=
  ⟨operation.method, operation.operand.flat.bare, none⟩

/-- The operators of sums and products are told by their signs. -/
theorem LatexSign.operator?_latexSign {method : Method} (h : method.priority < 4) :
    operator? method.priority method.latexSign = some method := by
  cases method with
  | power | divide => exact absurd h (by decide)
  | multiply | add | subtract => rfl

section Sequences

variable {priority : Nat} {operations : List Operation}

/-- An operand of a sum or a product ends where the next operator or the end of the whole is. -/
theorem Concludes.links (hlow : priority < 4)
    (h : ∀ operation ∈ operations, operation.HasPriority priority) {rest : List LatexSign}
    (hrest : Concludes priority rest) :
    Concludes (priority + 1) (operations.flatMap (Operation.linkSigns priority) ++ rest) := by
  cases operations with
  | nil => exact hrest.mono (Nat.le_succ priority)
  | cons operation operations =>
      obtain ⟨method, operand, origin⟩ := operation
      obtain ⟨method, rfl, rfl⟩ := h _ List.mem_cons_self
      exact .operator hlow _

/-- The further links of a sum or a product are read one after another. -/
theorem takesLinks_linkSigns (hlow : priority < 4)
    (h : ∀ operation ∈ operations, operation.HasPriority priority)
    (hoperands : ∀ operation ∈ operations, ReadsAt (priority + 1)
      (operation.operand.latexSignsWithin (priority + 1)) operation.operand.flat.bare)
    {rest : List LatexSign} (hrest : Concludes priority rest) :
    TakesLinks priority (operations.flatMap (Operation.linkSigns priority) ++ rest)
      (operations.map Operation.flatBare) rest := by
  induction operations with
  | nil => exact hrest.takesLinks
  | cons operation operations ih =>
      obtain ⟨method, operand, origin⟩ := operation
      obtain ⟨⟨method, rfl, rfl⟩, hmore⟩ := List.forall_mem_cons.1 h
      obtain ⟨hoperand, hlater⟩ := List.forall_mem_cons.1 hoperands
      rw [List.flatMap_cons, List.append_assoc]
      exact .link (LatexSign.operator?_latexSign hlow) (hoperand _ (.links hlow hmore hrest))
        (ih hmore hlater)

/-- Sums and products are read with their links. -/
theorem ReadsAt.chain (hlow : priority < 4)
    (h : ∀ operation ∈ operations, operation.HasPriority priority)
    (hoperands : ∀ operation ∈ operations, ReadsAt (priority + 1)
      (operation.operand.latexSignsWithin (priority + 1)) operation.operand.flat.bare)
    {signs : List LatexSign} {e : Expr} (hfirst : ReadsAt (priority + 1) signs e) :
    ReadsAt priority (signs ++ operations.flatMap (Operation.linkSigns priority))
      (.ofLinks e (operations.map Operation.flatBare)) := by
  intro rest hrest
  rw [List.append_assoc]
  exact .links hlow (hfirst _ (.links hlow h hrest)) (takesLinks_linkSigns hlow h hoperands hrest)

/-- Every division is read as a fraction with what was read before as its numerator. -/
theorem ReadsAt.fractions (hne : operations ≠ [])
    (h : ∀ operation ∈ operations, operation.method = some .divide)
    (hoperands : ∀ operation ∈ operations,
      ReadsAt 2 operation.operand.latexSigns operation.operand.flat.bare)
    {soFar : List LatexSign} {e : Expr} (hfirst : ReadsAt 2 soFar e) (enclosing : Option Nat)
    (previous : Option Method) :
    ReadsPrimary (Operation.signsRest enclosing soFar previous operations)
      (operations.foldl (fun e operation => e.dividedBy operation.operand.flat.bare) e) := by
  induction operations generalizing soFar e previous with
  | nil => exact absurd rfl hne
  | cons operation operations ih =>
      obtain ⟨method, operand, origin⟩ := operation
      obtain ⟨hmethod, hmore⟩ := List.forall_mem_cons.1 h
      obtain ⟨hoperand, hlater⟩ := List.forall_mem_cons.1 hoperands
      obtain rfl : method = some .divide := hmethod
      have hfraction := hfirst.fraction hoperand
      cases operations with
      | nil => exact hfraction
      | cons next operations =>
          -- a fraction may stand in the numerator of the next
          exact ih (by simp) hmore hlater (hfraction.readsAt.of_le (by decide) (by decide)) _

/-- Every power after the first is read as one more exponent of what was read before. -/
theorem ReadsAt.powers (h : ∀ operation ∈ operations, operation.method = some .power)
    (hoperands : ∀ operation ∈ operations,
      ReadsAt 2 operation.operand.latexSigns operation.operand.flat.bare)
    {soFar : List LatexSign} {e : Expr} (hfirst : ReadsAt 4 soFar e) (enclosing : Option Nat) :
    ReadsAt 4 (Operation.signsRest enclosing soFar (some .power) operations)
      (operations.foldl (fun e operation => e.raised operation.operand.flat.bare) e) := by
  induction operations generalizing soFar e with
  | nil => exact hfirst
  | cons operation operations ih =>
      obtain ⟨method, operand, origin⟩ := operation
      obtain ⟨hmethod, hmore⟩ := List.forall_mem_cons.1 h
      obtain ⟨hoperand, hlater⟩ := List.forall_mem_cons.1 hoperands
      obtain rfl : method = some .power := hmethod
      exact ih hmore hlater
        ((hfirst.of_le (Nat.le_refl 4) (by decide)).tower hoperand).readsAt

end Sequences

/-! ## Flat forms of sequences -/

theorem Expr.flat_bare_seq (operand : Expr) (place origin : Option Origin)
    (rest : List Operation) :
    (Expr.seq (⟨none, operand, place⟩ :: rest) origin).flat.bare =
      .seq (Operation.merge (⟨none, operand.flat.bare, none⟩ :: rest.map Operation.flatBare))
        none := by
  rw [Expr.flat, Expr.bare, Operation.bareList_merge, Operation.flatList, Operation.bareList,
    Operation.flatList_eq_map, Operation.bareList_eq_map, List.map_map]
  rfl

open Operation in
/-- Fractions in numerators are one chain of divisions. -/
theorem Expr.foldl_dividedBy {operations : List Operation} (hne : operations ≠ [])
    (h : ∀ operation ∈ operations, operation.method = some .divide) (e : Expr) :
    operations.foldl (fun e operation => e.dividedBy operation.operand.flat.bare) e =
      .seq (Operation.merge (⟨none, e, none⟩ :: operations.map Operation.flatBare)) none := by
  induction operations generalizing e with
  | nil => exact absurd rfl hne
  | cons operation operations ih =>
      obtain ⟨method, operand, origin⟩ := operation
      obtain ⟨hmethod, hmore⟩ := List.forall_mem_cons.1 h
      obtain rfl : method = some .divide := hmethod
      cases operations with
      | nil => rfl
      | cons next operations =>
          have hpair : areDivisions [⟨none, e, none⟩, flatBare ⟨some .divide, operand, origin⟩] =
              true := areDivisions_cons.2 ⟨rfl, by simp, by simp [flatBare]⟩
          have hmethods : ∀ link ∈ (next :: operations).map flatBare, link.method = some .divide :=
            List.forall_mem_map.2 hmore
          have hread : e.dividedBy operand.flat.bare =
              .seq (merge [⟨none, e, none⟩, flatBare ⟨some .divide, operand, origin⟩]) none := rfl
          have hchain : areDivisions (⟨none, e, none⟩ :: flatBare ⟨some .divide, operand, origin⟩ ::
              (next :: operations).map flatBare) = true :=
            areDivisions_cons.2 ⟨rfl, by simp, List.forall_mem_cons.2 ⟨rfl, hmethods⟩⟩
          -- what was read is a chain of divisions, so it is merged with the divisions to come
          rw [List.foldl_cons, ih (by simp) hmore, hread,
            merge_of_areDivisions (areDivisions_merge hpair)
              (areDivisions_cons.2 ⟨rfl, by simp, hmethods⟩), ← merge_append hpair hchain]
          rfl

/-- Exponents are put on one after another. -/
theorem Expr.foldl_raised {operations : List Operation}
    (h : ∀ operation ∈ operations, operation.method = some .power) (links : List Operation) :
    operations.foldl (fun (e : Expr) operation => e.raised operation.operand.flat.bare)
        (Expr.seq links none) =
      .seq (links ++ operations.map Operation.flatBare) none := by
  induction operations generalizing links with
  | nil => rw [List.foldl_nil, List.map_nil, List.append_nil]
  | cons operation operations ih =>
      obtain ⟨method, operand, origin⟩ := operation
      obtain ⟨hmethod, hmore⟩ := List.forall_mem_cons.1 h
      obtain rfl : method = some .power := hmethod
      have hraised : (Expr.seq links none).raised operand.flat.bare =
          .seq (links ++ [Operation.flatBare ⟨some .power, operand, origin⟩]) none := rfl
      rw [List.foldl_cons, hraised, ih hmore, List.map_cons, List.append_assoc]
      rfl

/-! ## Reading expressions -/

/-- An expression whose signs are read as its flat form. -/
structure Expr.Readable (e : Expr) : Prop where
  /-- In every place that asks for no more than the expression gives. -/
  readsAt : ∀ level, level ≤ 4 → level ≤ e.level → ReadsAt level e.latexSigns e.flat.bare
  /-- Whatever follows it, if it shows no operator. -/
  readsPrimary : 6 ≤ e.level → ReadsPrimary e.latexSigns e.flat.bare

namespace Expr.Readable

variable {e : Expr}

theorem of_readsPrimary (h : ReadsPrimary e.latexSigns e.flat.bare) : e.Readable :=
  ⟨fun _ hlevel _ => h.readsAt.of_le (Nat.le_refl 4) hlevel, fun _ => h⟩

theorem of_readsAt {level : Nat} (h : ReadsAt level e.latexSigns e.flat.bare) (hlevel : level ≤ 4)
    (hlow : e.level ≤ 5) (hle : min 4 e.level ≤ level) : e.Readable :=
  ⟨fun _ _ _ => h.of_le hlevel (by omega), fun _ => by omega⟩

/-- The signs of an expression on its own, as in braces or in a group. -/
theorem whole (h : e.Readable) : ReadsAt 2 e.latexSigns e.flat.bare :=
  h.readsAt 2 (by decide) e.level_bounds.1

/-- The signs of an operand of a sum or a product. -/
theorem within (h : e.Readable) {level : Nat} (hlevel : level ≤ 4) :
    ReadsAt level (e.latexSignsWithin level) e.flat.bare := by
  by_cases hlow : e.level < level
  · rw [latexSignsWithin, decide_eq_true hlow]
    exact h.whole.group.readsAt.of_le (Nat.le_refl 4) hlevel
  · rw [latexSignsWithin, decide_eq_false hlow]
    exact h.readsAt level hlevel (by omega)

/-- The signs of a base or of the body of a sign. -/
theorem tight (h : e.Readable) {level : Nat} (hlevel : 6 ≤ level) :
    ReadsPrimary (e.latexSignsWithin level) e.flat.bare := by
  by_cases hlow : e.level < level
  · rw [latexSignsWithin, decide_eq_true hlow]
    exact h.whole.group
  · rw [latexSignsWithin, decide_eq_false hlow]
    exact h.readsPrimary (by omega)

end Expr.Readable

/-! ## Reading sequences as a whole -/

namespace Operation.HasPriority

variable {operation : Operation} {priority : Nat}

theorem divide (h : operation.HasPriority 4) : operation.method = some .divide := by
  obtain ⟨method, hmethod, hpriority⟩ := h
  cases method <;> first | exact hmethod | cases hpriority

theorem power (h : operation.HasPriority 5) : operation.method = some .power := by
  obtain ⟨method, hmethod, hpriority⟩ := h
  cases method <;> first | exact hmethod | cases hpriority

end Operation.HasPriority

section Sequences

variable {operand : Expr} {place origin : Option Origin} {rest : List Operation} {priority : Nat}

/-- Sequences of other operators are not merged. -/
theorem Expr.flat_bare_seq_of_ne (hne : rest ≠ [])
    (h : ∀ operation ∈ rest, operation.HasPriority priority) (hpriority : priority ≠ 4) :
    (Expr.seq (⟨none, operand, place⟩ :: rest) origin).flat.bare =
      .seq (⟨none, operand.flat.bare, none⟩ :: rest.map Operation.flatBare) none := by
  rw [Expr.flat_bare_seq, Operation.merge_eq_self]
  rw [Bool.eq_false_iff, Ne, Operation.areDivisions_cons]
  rintro ⟨-, -, hdivisions⟩
  -- the first operator is not a division
  obtain ⟨operation, more, rfl⟩ := List.exists_cons_of_ne_nil hne
  obtain ⟨method, hmethod, rfl⟩ := h operation List.mem_cons_self
  have hdivision : operation.method = some .divide :=
    hdivisions operation.flatBare (List.mem_map_of_mem List.mem_cons_self)
  obtain rfl : method = .divide := Option.some.inj (hmethod.symm.trans hdivision)
  exact hpriority rfl

/-- Sums and products. -/
theorem Expr.Readable.chain (hne : rest ≠ [])
    (h : ∀ operation ∈ rest, operation.HasPriority priority) (hlow : priority < 4)
    (hoperand : operand.Readable) (hrest : ∀ operation ∈ rest, operation.operand.Readable) :
    (Expr.seq (⟨none, operand, place⟩ :: rest) origin).Readable := by
  have hreads := ReadsAt.chain hlow h
    (fun operation hmem => (hrest operation hmem).within (Nat.succ_le_of_lt hlow))
    (hoperand.within (Nat.succ_le_of_lt hlow))
  have hlinks : Expr.ofLinks operand.flat.bare (rest.map Operation.flatBare) =
      .seq (⟨none, operand.flat.bare, none⟩ :: rest.map Operation.flatBare) none := by
    obtain ⟨operation, more, rfl⟩ := List.exists_cons_of_ne_nil hne
    rfl
  rw [hlinks, ← Expr.flat_bare_seq_of_ne hne h (by omega),
    ← Operation.signsRest_of_priority_lt hlow h _ none] at hreads
  have hsigns := @Expr.latexSigns_seq operand place origin rest priority hne h
  rw [if_neg (by omega)] at hsigns
  rw [← hsigns] at hreads
  have hlevel := @Expr.level_seq ⟨none, operand, place⟩ rest priority origin rfl h hne
  exact .of_readsAt hreads (by omega) (by omega) (by omega)

/-- Divisions. -/
theorem Expr.Readable.fractions (hne : rest ≠ [])
    (h : ∀ operation ∈ rest, operation.HasPriority 4) (hoperand : operand.Readable)
    (hrest : ∀ operation ∈ rest, operation.operand.Readable) :
    (Expr.seq (⟨none, operand, place⟩ :: rest) origin).Readable := by
  have hdivide := fun operation hmem => (h operation hmem).divide
  have hreads := ReadsAt.fractions hne hdivide (fun operation hmem => (hrest operation hmem).whole)
    hoperand.whole (some 4) none
  rw [Expr.foldl_dividedBy hne hdivide, ← Expr.flat_bare_seq operand place origin] at hreads
  refine .of_readsPrimary ?_
  rw [Expr.latexSigns_seq hne h, if_pos rfl]
  exact hreads

/-- Powers. -/
theorem Expr.Readable.powers (hne : rest ≠ [])
    (h : ∀ operation ∈ rest, operation.HasPriority 5) (hoperand : operand.Readable)
    (hrest : ∀ operation ∈ rest, operation.operand.Readable) :
    (Expr.seq (⟨none, operand, place⟩ :: rest) origin).Readable := by
  have hlevel := @Expr.level_seq ⟨none, operand, place⟩ rest 5 origin rfl h hne
  have hsigns := @Expr.latexSigns_seq operand place origin rest 5 hne h
  have hflat := @Expr.flat_bare_seq_of_ne operand place origin rest 5 hne h (by decide)
  obtain ⟨⟨method, second, place'⟩, more, rfl⟩ := List.exists_cons_of_ne_nil hne
  obtain ⟨hsecond, hmore⟩ := List.forall_mem_cons.1 fun operation hmem => (h operation hmem).power
  obtain ⟨hexponent, hlater⟩ := List.forall_mem_cons.1 hrest
  obtain rfl : method = some .power := hsecond
  -- the first exponent stands on the base, and every other one on all before it in braces
  have hfirst := (hoperand.tight (Nat.le_refl 6)).power hexponent.whole
  have hreads := hfirst.powers hmore (fun operation hmem => (hlater operation hmem).whole) (some 5)
  have hpower : Expr.ofLinks operand.flat.bare [⟨some .power, second.flat.bare, none⟩] =
      .seq [⟨none, operand.flat.bare, none⟩, ⟨some .power, second.flat.bare, none⟩] none := rfl
  rw [hpower, Expr.foldl_raised hmore] at hreads
  refine .of_readsAt ?_ (Nat.le_refl 4) hlevel.le (by omega)
  rw [hflat, hsigns]
  exact hreads

end Sequences

/-- **The signs of a proper expression are read as its flat form.** -/
theorem Expr.Proper.readable {e : Expr} (h : e.Proper) : e.Readable := by
  induction e, h using Expr.Proper.induction with
  | integer value origin =>
      exact .of_readsPrimary fun rest => .integer
  | decimal value origin _ hliteral =>
      obtain ⟨rank, rfl⟩ := Binary64.exists_rank_of_isLiteral hliteral
      exact .of_readsPrimary fun rest => .decimal (Binary64.read?_literal rank)
  | var name origin =>
      exact .of_readsPrimary fun rest => .var
  | app name body origin _ _ _ ih =>
      exact .of_readsPrimary (ih.whole.call name)
  | neg body origin _ _ ih =>
      have hbody := (ih.tight (show 6 ≤ 7 by decide)).negated
      rw [Expr.latexSignsWithin, ← body.needsParensNegated_eq] at hbody
      exact .of_readsPrimary hbody
  | seq operand place rest priority origin _ hne hpriority _ ihoperand _ ihrest =>
      have hbounds := Operation.mem_of_loosest?
        (@Operation.loosest?_eq ⟨none, operand, place⟩ rest priority rfl hpriority hne)
      -- sums and products, divisions, powers
      obtain hlow | rfl | rfl : priority < 4 ∨ priority = 4 ∨ priority = 5 := by omega
      · exact .chain hne hpriority hlow ihoperand ihrest
      · exact .fractions hne hpriority ihoperand ihrest
      · exact .powers hne hpriority ihoperand ihrest

/-! ## Unambiguity -/

/-- **LaTeX texts are unambiguous up to fractions in numerators.** Two proper expressions have one
text exactly if their flat forms are equal. -/
theorem latex_eq_iff {a b : Expr} (ha : a.Proper) (hb : b.Proper) :
    a.latex = b.latex ↔ a.flat.equal b.flat = true := by
  constructor
  · intro h
    have ha' := ha.readable.whole [] (.nil 2)
    rw [latexSigns_eq_of_latex_eq ha hb h] at ha'
    -- the same signs are read as both flat forms
    have hbare := (ha'.unique (hb.readable.whole [] (.nil 2))).1
    refine Expr.equal_of_bare_eq a.flat b.flat hbare fun hmem => ?_
    rw [a.decimals_flat] at hmem
    exact absurd (ha.literals _ hmem) (by decide)
  · exact latex_eq_of_equal_flat ha hb

/-- The fraction `(1/2)/3` has the text of `1/2/3`. -/
theorem latex_eq_iff_nested_fraction :
    ∃ half nested straight : Expr,
      half = .chain (.integer "1" none) [(.divide, .integer "2" none)] ∧
      nested = .chain half [(.divide, .integer "3" none)] ∧
      straight = .chain (.integer "1" none)
        [(.divide, .integer "2" none), (.divide, .integer "3" none)] ∧
      nested.Proper ∧ straight.Proper ∧ nested.equal straight = false ∧
      (nested.latex = straight.latex ↔ nested.flat.equal straight.flat = true) ∧
      nested.flat.equal straight.flat = true := by
  have hhalf : (Expr.chain (.integer "1" none) [(.divide, .integer "2" none)]).WellFormed :=
    @Expr.WellFormed.seq _ _ 4 _ rfl (.integer (by decide))
      (List.forall_mem_singleton.2 ⟨.divide, rfl, rfl⟩)
      (List.forall_mem_singleton.2 (.integer (by decide)))
  have hnested : (Expr.chain (.chain (.integer "1" none) [(.divide, .integer "2" none)])
      [(.divide, .integer "3" none)]).Proper :=
    ⟨@Expr.WellFormed.seq _ _ 4 _ rfl hhalf (List.forall_mem_singleton.2 ⟨.divide, rfl, rfl⟩)
      (List.forall_mem_singleton.2 (.integer (by decide))), by decide, by decide⟩
  have hstraight : (Expr.chain (.integer "1" none)
      [(.divide, .integer "2" none), (.divide, .integer "3" none)]).Proper :=
    ⟨@Expr.WellFormed.seq _ _ 4 _ rfl (.integer (by decide))
      (List.forall_mem_cons.2 ⟨⟨.divide, rfl, rfl⟩,
        List.forall_mem_singleton.2 ⟨.divide, rfl, rfl⟩⟩)
      (List.forall_mem_cons.2 ⟨.integer (by decide),
        List.forall_mem_singleton.2 (.integer (by decide))⟩), by decide, by decide⟩
  exact ⟨_, _, _, rfl, rfl, rfl, hnested, hstraight, by decide, latex_eq_iff hnested hstraight,
    by decide⟩

end AlgebraText
