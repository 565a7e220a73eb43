import AlgebraText.Proofs.Expr.Decimals
import AlgebraText.Proofs.Expr.Parentheses

/-!
# Printing what was read is a normal form

A text that can be read has a normal form, which is what is printed for it. The normal form can be
read, and it is its own normal form. For expressions whose decimals are literals this is a matter of
reading back what was printed. A decimal that overflowed is printed as `inf`, which comes back as a
variable; so the expression that is read back is another one, and yet it is written the same. It is
the expression with names in the place of these decimals (`Expr.named`).

Nothing else can get in the way, since the builder makes no sequence of a single operation, which
would come back as its operand.

## What this module delivers

* `Built.isCollapsed`: in what is built every sequence has several operations;
* `Expr.named`, with its decimals and its text;
* `print_idempotent`: printing after reading is idempotent.
-/

set_option autoImplicit false

namespace AlgebraText

/-! ## What is built has no sequence of a single operation -/

/-- **In what is built every sequence has several operations.** -/
theorem Built.isCollapsed {tree : ParseTree} {e : Expr} (h : Built tree e) :
    e.isCollapsed = true := by
  induction h with
  | integer | decimal | var => rfl
  | function _ _ ih => exact ih
  | paren _ ih => exact ih
  | plain _ ih => exact ih
  | negated _ _ ih => exact ih
  | @chain rule span first operand links _ _ hne _ _ ihfirst ihlinks =>
      have hlength := List.length_pos_iff.2 hne
      rw [Expr.isCollapsed, Bool.and_eq_true, Operation.areCollapsed_eq_true, decide_eq_true_eq,
        List.length_cons, List.length_map]
      exact ⟨by omega, List.forall_mem_cons.2 ⟨ihfirst, List.forall_mem_map.2 ihlinks⟩⟩

/-! ## Names for decimals that overflowed -/

section Relabel

variable (named : Binary64 → Bool) (place : Option Origin → Option Origin)

mutual

theorem Expr.decimals_relabel : ∀ e : Expr,
    (e.relabel named place).decimals = e.decimals.filter fun value => !named value
  | .integer .. => rfl
  | .decimal value origin => by
      rw [Expr.relabel, Expr.decimals]
      cases hvalue : named value <;> simp [Expr.decimals, hvalue]
  | .var .. => rfl
  | .app name body _ => by
      rw [Expr.relabel, Expr.decimals, Expr.decimals_relabel body, Expr.decimals]
  | .neg body _ => by
      rw [Expr.relabel, Expr.decimals, Expr.decimals_relabel body, Expr.decimals]
  | .seq operations _ => by
      rw [Expr.relabel, Expr.decimals, Operation.decimals_relabelList operations, Expr.decimals]

theorem Operation.decimals_relabelList : ∀ operations : List Operation,
    Operation.decimals (Operation.relabelList named place operations) =
      (Operation.decimals operations).filter fun value => !named value
  | [] => rfl
  | ⟨method, operand, _⟩ :: rest => by
      rw [Operation.relabelList, Operation.decimals, Expr.decimals_relabel operand,
        Operation.decimals_relabelList rest, Operation.decimals, List.filter_append]

end

mutual

theorem Expr.isCollapsed_relabel : ∀ e : Expr,
    (e.relabel named place).isCollapsed = e.isCollapsed
  | .integer .. => rfl
  | .decimal value origin => by
      rw [Expr.relabel]
      split <;> rfl
  | .var .. => rfl
  | .app name body _ => by
      rw [Expr.relabel, Expr.isCollapsed, Expr.isCollapsed_relabel body, Expr.isCollapsed]
  | .neg body _ => by
      rw [Expr.relabel, Expr.isCollapsed, Expr.isCollapsed_relabel body, Expr.isCollapsed]
  | .seq operations _ => by
      rw [Expr.relabel, Expr.isCollapsed, Operation.areCollapsed_relabelList operations,
        Operation.relabelList_eq_map, List.length_map, Expr.isCollapsed]

theorem Operation.areCollapsed_relabelList : ∀ operations : List Operation,
    Operation.areCollapsed (Operation.relabelList named place operations) =
      Operation.areCollapsed operations
  | [] => rfl
  | ⟨method, operand, _⟩ :: rest => by
      rw [Operation.relabelList, Operation.areCollapsed, Expr.isCollapsed_relabel operand,
        Operation.areCollapsed_relabelList rest, Operation.areCollapsed]

end

/-- The rules are kept if decimals are replaced by what is spelled as a name. -/
theorem Expr.WellFormed.relabel {e : Expr} (h : e.WellFormed)
    (hnamed : ∀ value, named value = true → IsName value.literal.toList) :
    (e.relabel named place).WellFormed := by
  induction h with
  | integer hcanonical => exact .integer hcanonical
  | @decimal value origin =>
      rw [Expr.relabel]
      split
      · rename_i hvalue
        exact .var (hnamed value hvalue)
      · exact .decimal
  | var hname => exact .var hname
  | app hname _ ih => exact .app hname ih
  | neg _ ih => exact .neg ih
  | @seq first rest priority origin hmethod _ hpriority _ ihfirst ihrest =>
      rw [Expr.relabel, Operation.relabelList_eq_map, List.map_cons]
      refine @Expr.WellFormed.seq _ _ priority _ hmethod ihfirst ?_ ?_
      · intro operation hmem
        obtain ⟨before, hbefore, rfl⟩ := List.mem_map.1 hmem
        exact hpriority before hbefore
      · intro operation hmem
        obtain ⟨before, hbefore, rfl⟩ := List.mem_map.1 hmem
        exact ihrest before hbefore

end Relabel

/-- The expression with the name `inf` in the place of every decimal that overflowed. -/
def Expr.named (e : Expr) : Expr := e.relabel (fun value => decide (value = .infinite false)) id

theorem Expr.print_named (e : Expr) : e.named.print = e.print := e.print_relabel _ _

theorem Expr.WellFormed.named {e : Expr} (h : e.WellFormed) : e.named.WellFormed := by
  refine h.relabel _ _ fun value hvalue => ?_
  rw [of_decide_eq_true hvalue]
  decide

/-- The decimals that are left of what was read are literals. -/
theorem isLiteral_of_mem_decimals_named {text : String} {e : Expr} (h : parse text = .ok e) :
    ∀ value ∈ e.named.decimals, value.isLiteral = true := by
  intro value hmem
  rw [Expr.named, Expr.decimals_relabel, List.mem_filter] at hmem
  obtain ⟨hmem, hfinite⟩ := hmem
  refine (decimal_of_parse h value hmem).resolve_right fun hinfinite => ?_
  simp [hinfinite] at hfinite

theorem isCollapsed_of_parse {text : String} {e : Expr} (h : parse text = .ok e) :
    e.isCollapsed = true := by
  unfold parse at h
  split at h
  · cases h
  · rename_i tree htree
    split at h
    · cases h
    · rename_i built hbuild
      cases h
      exact (tree.built_of_build e hbuild).isCollapsed

/-! ## Normal forms -/

/-- **Printing after reading is idempotent.** What is printed for a text that was read can be read,
and the same text is printed for it. This holds although a decimal that overflowed comes back as a
variable. -/
theorem print_idempotent {text : String} {e : Expr} (h : parse text = .ok e) :
    ∃ result, parse e.print = .ok result ∧ result.print = e.print := by
  have hliteral := isLiteral_of_mem_decimals_named h
  have hcollapsed : e.named.isCollapsed = true :=
    (e.isCollapsed_relabel _ _).trans (isCollapsed_of_parse h)
  have hspells := (denotes_of_parse h).wellFormed.named.spells hliteral
  obtain ⟨result, hparse, hequal⟩ :=
    parse_of_writes (hspells.expression (words_tokenize e.named.print))
  rw [e.named.collapse_eq_self hcollapsed] at hequal
  rw [e.print_named] at hparse
  -- neither side has a negative zero, so equal expressions are written alike
  have hzero : Binary64.negativeZero ∉ e.named.decimals :=
    fun hmem => absurd (hliteral _ hmem) (by decide)
  refine ⟨result, hparse, ?_⟩
  rw [Expr.print_eq_of_equal hequal (negativeZero_not_mem_decimals hparse) hzero, e.print_named]

/-- The normal form of a power of ten that overflows. -/
theorem print_idempotent_powerOfTen :
    ∃ e, parse (String.ofList (powerOfTen 309)) = .ok e ∧ .infinite false ∈ e.decimals ∧
      ∃ result, parse e.print = .ok result ∧ result.print = e.print := by
  obtain ⟨e, hparse, hmem⟩ := parse_powerOfTen (Nat.le_refl 309)
  exact ⟨e, hparse, hmem, print_idempotent hparse⟩

end AlgebraText
