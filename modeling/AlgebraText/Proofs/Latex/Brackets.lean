import AlgebraText.Expr.Latex
import AlgebraText.Proofs.Binary64.Literal

/-!
# Brackets in LaTeX texts

Two pairs of brackets group the parts of a LaTeX text: braces, and the growing parentheses
`\left(` and `\right)`. In the text of an expression they are always well nested, whatever the
expression: nothing is asked of its sequences, only of the names and digits in it, which must not
bring in brackets of their own.

A text is put together from pieces. A piece that ends in the middle of a bracket would make another
bracket of what follows it; no piece of an expression's text does (`Bears`), and so the brackets of
a text are those of its pieces, one after another.

## What this module delivers

* `bracketMarks`, the brackets of a text in order, and `Nested`, the well-nested words of brackets;
* `WellBracketed`, with one lemma for each way in which texts are put together;
* `Expr.texts`, the names and digits in an expression;
* `latex_nested`: the LaTeX text of every node is well bracketed.
-/

set_option autoImplicit false

namespace AlgebraText

/-! ## Words of brackets -/

/-- The pairs of brackets in LaTeX texts. -/
inductive LatexBracket where
  /-- The two braces. -/
  | brace
  /-- The growing parentheses `\left(` and `\right)`. -/
  | group
deriving DecidableEq

/-- One bracket in a text. -/
inductive BracketMark where
  /-- The opening one of a pair. -/
  | opening (bracket : LatexBracket)
  /-- The closing one of a pair. -/
  | closing (bracket : LatexBracket)
  /-- A parenthesis that does not grow. -/
  | stray
deriving DecidableEq

/-- The brackets of a text, in order. -/
def bracketMarks : List Char → List BracketMark
  | [] => []
  | '\\' :: 'l' :: 'e' :: 'f' :: 't' :: '(' :: rest => .opening .group :: bracketMarks rest
  | '\\' :: 'r' :: 'i' :: 'g' :: 'h' :: 't' :: ')' :: rest => .closing .group :: bracketMarks rest
  | '\x7b' :: rest => .opening .brace :: bracketMarks rest
  | '\x7d' :: rest => .closing .brace :: bracketMarks rest
  | '(' :: rest => .stray :: bracketMarks rest
  | ')' :: rest => .stray :: bracketMarks rest
  | _ :: rest => bracketMarks rest

/-- The well-nested words: every opening bracket is followed by a well-nested word, by the closing
bracket of its pair, and by another well-nested word. -/
inductive Nested : List BracketMark → Prop
  | nil : Nested []
  | pair (bracket : LatexBracket) {inner rest : List BracketMark} :
      Nested inner → Nested rest → Nested (.opening bracket :: (inner ++ .closing bracket :: rest))

theorem Nested.append {xs ys : List BracketMark} (hxs : Nested xs) (hys : Nested ys) :
    Nested (xs ++ ys) := by
  induction hxs with
  | nil => exact hys
  | pair bracket hinner _ _ ih =>
      rw [List.cons_append, List.append_assoc, List.cons_append]
      exact .pair bracket hinner ih

/-! ## Pieces of a text -/

/-- The characters that make brackets. -/
def bracketChars : List Char := ['\x7b', '\x7d', '(', ')', '\\']

/-- A text that brings in no brackets. -/
def IsPlain (text : String) : Prop := ∀ c ∈ text.toList, c ∉ bracketChars

/-- A piece of a text that has some brackets, whatever follows it. -/
def Bears (piece : List Char) (marks : List BracketMark) : Prop :=
  ∀ rest, bracketMarks (piece ++ rest) = marks ++ bracketMarks rest

theorem bracketMarks_nil : bracketMarks [] = [] := rfl

theorem bracketMarks_cons {c : Char} (h : c ∉ bracketChars) (rest : List Char) :
    bracketMarks (c :: rest) = bracketMarks rest := by
  simp only [bracketChars, List.mem_cons, List.not_mem_nil, or_false, not_or] at h
  obtain ⟨h1, h2, h3, h4, h5⟩ := h
  rw [bracketMarks] <;> simp_all

namespace Bears

variable {xs ys : List Char} {ms ns : List BracketMark}

theorem append (hxs : Bears xs ms) (hys : Bears ys ns) : Bears (xs ++ ys) (ms ++ ns) := by
  intro rest
  rw [List.append_assoc, hxs, hys, List.append_assoc]

/-- A piece without the characters of brackets has no brackets. -/
theorem plain (h : ∀ c ∈ xs, c ∉ bracketChars) : Bears xs [] := by
  induction xs with
  | nil => exact fun rest => rfl
  | cons c cs ih =>
      obtain ⟨hc, hcs⟩ := List.forall_mem_cons.1 h
      intro rest
      rw [List.cons_append, bracketMarks_cons hc, ih hcs]

/-- A bracket around a piece, whose signs are pieces themselves. -/
theorem pair {opening closing : List Char} {bracket : LatexBracket}
    (hopening : Bears opening [.opening bracket]) (hclosing : Bears closing [.closing bracket])
    (hxs : Bears xs ms) :
    Bears (opening ++ xs ++ closing) (.opening bracket :: (ms ++ .closing bracket :: [])) :=
  (hopening.append hxs).append hclosing

end Bears

/-- A text whose brackets are well nested, and stay so whatever follows it. -/
def WellBracketed (text : String) : Prop := ∃ marks, Bears text.toList marks ∧ Nested marks

namespace WellBracketed

variable {text text' : String}

theorem nested (h : WellBracketed text) : Nested (bracketMarks text.toList) := by
  obtain ⟨marks, hbears, hnested⟩ := h
  have hmarks := hbears []
  rw [List.append_nil, bracketMarks_nil, List.append_nil] at hmarks
  rwa [hmarks]

theorem append (h : WellBracketed text) (h' : WellBracketed text') :
    WellBracketed (text ++ text') := by
  obtain ⟨marks, hbears, hnested⟩ := h
  obtain ⟨marks', hbears', hnested'⟩ := h'
  refine ⟨marks ++ marks', ?_, hnested.append hnested'⟩
  rw [String.toList_append]
  exact hbears.append hbears'

theorem plain (h : IsPlain text) : WellBracketed text := ⟨[], .plain h, .nil⟩

theorem empty : WellBracketed "" := ⟨[], fun _ => rfl, .nil⟩

theorem times : WellBracketed " \\cdot " := ⟨[], fun _ => rfl, .nil⟩

theorem frac : WellBracketed "\\frac" := ⟨[], fun _ => rfl, .nil⟩

theorem mathrm : WellBracketed "\\mathrm" := ⟨[], fun _ => rfl, .nil⟩

theorem braced (h : WellBracketed text) : WellBracketed (AlgebraText.braced text) := by
  obtain ⟨marks, hbears, hnested⟩ := h
  refine ⟨_, ?_, .pair .brace hnested .nil⟩
  rw [AlgebraText.braced, String.toList_append, String.toList_append]
  exact .pair (fun _ => rfl) (fun _ => rfl) hbears

theorem grouped (needed : Bool) (h : WellBracketed text) :
    WellBracketed (AlgebraText.grouped needed text) := by
  cases needed with
  | false => exact h
  | true =>
      obtain ⟨marks, hbears, hnested⟩ := h
      refine ⟨_, ?_, .pair .group hnested .nil⟩
      rw [AlgebraText.grouped, if_pos rfl, String.toList_append, String.toList_append]
      exact .pair (fun _ => rfl) (fun _ => rfl) hbears

/-- **A link of a sequence keeps brackets well nested**, with any operator or none, after any. -/
theorem link {soFar plain group : String} (hsoFar : WellBracketed soFar)
    (hplain : WellBracketed plain) (hgroup : WellBracketed group)
    (previous method : Option Method) :
    WellBracketed (latexLink soFar previous method plain group) := by
  have hblank : WellBracketed " " := .plain (by simp [IsPlain, bracketChars])
  have hsum : ∀ symbol, IsPlain symbol →
      WellBracketed (soFar ++ " " ++ symbol ++ " " ++ group) := fun symbol hsymbol =>
    (((hsoFar.append hblank).append (.plain hsymbol)).append hblank).append hgroup
  cases method with
  | none => exact hsoFar.append hgroup
  | some method =>
      cases method with
      | power =>
          have hbase : WellBracketed
              (if previous = some .power then AlgebraText.braced soFar else soFar) := by
            split
            · exact hsoFar.braced
            · exact hsoFar
          exact (hbase.append (.plain (by simp [IsPlain, bracketChars]))).append hplain.braced
      | divide => exact (frac.append hsoFar.braced).append hplain.braced
      | multiply => exact (hsoFar.append times).append hgroup
      | add => exact hsum "+" (by simp [IsPlain, bracketChars])
      | subtract => exact hsum "-" (by simp [IsPlain, bracketChars])

end WellBracketed

/-! ## The texts of expressions -/

/-- No number has brackets in its text, be it finite or not. -/
theorem Binary64.isPlain_literal (value : Binary64) : IsPlain value.literal := by
  have hdigit : ∀ c : Char, c.isDigit = true → c ∉ bracketChars := by
    intro c hc hmem
    simp only [bracketChars, List.mem_cons, List.not_mem_nil, or_false] at hmem
    rcases hmem with rfl | rfl | rfl | rfl | rfl <;> simp at hc
  cases value with
  | nan => simp [IsPlain, literal, text, bracketChars]
  | infinite negative =>
      cases negative <;> simp [IsPlain, literal, text, signText, bracketChars]
  | finite negative rank =>
      obtain ⟨whole, fraction, hwhole, hfraction, hliteral⟩ := isPointed_literal rank
      -- a sign makes no difference
      have hpositive : IsPlain (finite false rank).literal := by
        intro c hmem
        rw [hliteral, List.mem_append, List.mem_cons] at hmem
        rcases hmem with hmem | rfl | hmem
        · exact hdigit c (hwhole.2 c hmem)
        · decide
        · exact hdigit c (hfraction.2 c hmem)
      cases negative with
      | false => exact hpositive
      | true =>
          have hsigned : (finite true rank).literal = "-" ++ (finite false rank).literal := by
            simp [literal, signText]
          intro c hmem
          rw [hsigned, String.toList_append, List.mem_append] at hmem
          rcases hmem with hmem | hmem
          · obtain rfl : c = '-' := by simpa using hmem
            decide
          · exact hpositive c hmem

mutual

/-- The names and the digits of integers in an expression, in order. -/
def Expr.texts : Expr → List String
  | .integer value _ => [value]
  | .decimal .. => []
  | .var name _ => [name]
  | .app name body _ => name :: body.texts
  | .neg body _ => body.texts
  | .seq operations _ => Operation.texts operations

/-- The names and the digits of integers in some operations. -/
def Operation.texts : List Operation → List String
  | [] => []
  | ⟨_, operand, _⟩ :: rest => operand.texts ++ Operation.texts rest

end

/-- The names and the digits of integers at a node and below it. -/
def Node.texts : Node → List String
  | .expr e => e.texts
  | .operation o => o.operand.texts

mutual

/-- **The LaTeX text of an expression is well bracketed.** -/
theorem Expr.wellBracketed_latex : ∀ e : Expr, (∀ text ∈ e.texts, IsPlain text) →
    WellBracketed e.latex
  | .integer value _, h => .plain (h value List.mem_cons_self)
  | .decimal value _, _ => .plain value.isPlain_literal
  | .var name _, h => .plain (h name List.mem_cons_self)
  | .app name body _, h => by
      obtain ⟨hname, hbody⟩ := List.forall_mem_cons.1 h
      have hupright := WellBracketed.mathrm.append (WellBracketed.plain hname).braced
      exact hupright.append ((Expr.wellBracketed_latex body hbody).grouped true)
  | .neg body _, h => by
      have hbody := Expr.wellBracketed_latex body h
      exact (WellBracketed.plain (by simp [IsPlain, bracketChars])).append (hbody.grouped _)
  | .seq operations _, h => Operation.wellBracketed_latexFirst _ operations h

theorem Operation.wellBracketed_latexFirst (enclosing : Option Nat) :
    ∀ operations : List Operation, (∀ text ∈ Operation.texts operations, IsPlain text) →
      WellBracketed (Operation.latexFirst enclosing operations)
  | [], _ => .empty
  | ⟨_, operand, _⟩ :: rest, h => by
      obtain ⟨hoperand, hrest⟩ := List.forall_mem_append.1 h
      have hfirst := Expr.wellBracketed_latex operand hoperand
      exact Operation.wellBracketed_latexRest enclosing _ none rest (hfirst.grouped _) hrest

/-- The invariant is on the text of the links so far, which the next link may wrap. -/
theorem Operation.wellBracketed_latexRest (enclosing : Option Nat) (soFar : String)
    (previous : Option Method) : ∀ operations : List Operation, WellBracketed soFar →
      (∀ text ∈ Operation.texts operations, IsPlain text) →
        WellBracketed (Operation.latexRest enclosing soFar previous operations)
  | [], hsoFar, _ => hsoFar
  | ⟨method, operand, _⟩ :: rest, hsoFar, h => by
      obtain ⟨hoperand, hrest⟩ := List.forall_mem_append.1 h
      have hplain := Expr.wellBracketed_latex operand hoperand
      exact Operation.wellBracketed_latexRest enclosing _ method rest
        (hsoFar.link hplain (hplain.grouped _) previous method) hrest

end

theorem Operation.wellBracketed_latex {operation : Operation}
    (h : ∀ text ∈ operation.operand.texts, IsPlain text) : WellBracketed operation.latex := by
  obtain ⟨method, operand, origin⟩ := operation
  have hoperand : WellBracketed operand.latex := Expr.wellBracketed_latex operand h
  have hsigned : ∀ symbol, IsPlain symbol →
      WellBracketed (" " ++ symbol ++ " " ++ operand.latex) := by
    intro symbol hsymbol
    have hblank : WellBracketed " " := .plain (by simp [IsPlain, bracketChars])
    exact ((hblank.append (.plain hsymbol)).append hblank).append hoperand
  cases method with
  | none => exact hoperand
  | some method =>
      cases method with
      | power =>
          have hsign : WellBracketed "^" := .plain (by simp [IsPlain, bracketChars])
          exact hsign.append hoperand.braced
      | multiply => exact WellBracketed.times.append hoperand
      | divide => exact hsigned "/" (by simp [IsPlain, bracketChars])
      | add => exact hsigned "+" (by simp [IsPlain, bracketChars])
      | subtract => exact hsigned "-" (by simp [IsPlain, bracketChars])

/-- **LaTeX texts are well bracketed.** The brackets in the text of an expression, or of an
operation on its own, are well nested, and no parenthesis is without its command. Sequences may be
of any form; only the names and the digits of integers must be free of the characters of which
brackets are made. -/
theorem latex_nested (node : Node) (h : ∀ text ∈ node.texts, IsPlain text) :
    Nested (bracketMarks node.latex.toList) := by
  cases node with
  | expr e => exact (Expr.wellBracketed_latex e h).nested
  | operation operation => exact (Operation.wellBracketed_latex h).nested

/-- A sequence with a first operator, with a link that has none and with operators of all levels in
any order, and one of its operations on its own: the brackets of both texts are well nested, though
fractions, superscripts and groups alternate. -/
theorem latex_nested_mixed :
    let x : Expr := .var "x" none
    let sum : Expr := .seq [⟨none, x, none⟩, ⟨some .add, .integer "2" none, none⟩] none
    let call : Expr := .app "f" (.neg sum none) none
    let mixed : Expr := .seq [⟨some .add, sum, none⟩, ⟨some .power, call, none⟩,
      ⟨some .power, x, none⟩, ⟨some .divide, sum, none⟩, ⟨none, .seq [] none, none⟩,
      ⟨some .multiply, sum, none⟩] none
    mixed.latex =
        "\\frac\x7b\x7b\\left(x + 2\\right)^\x7b\\mathrm\x7bf\x7d\\left(-\\left(x + 2\\right)" ++
          "\\right)\x7d\x7d^\x7bx\x7d\x7d\x7bx + 2\x7d \\cdot \\left(x + 2\\right)" ∧
      Nested (bracketMarks mixed.latex.toList) ∧
      Nested (bracketMarks (Operation.latex ⟨some .power, mixed, none⟩).toList) := by
  intro x sum call mixed
  have htexts : ∀ text ∈ mixed.texts, IsPlain text := by
    simp [mixed, call, sum, x, Expr.texts, Operation.texts, IsPlain, bracketChars]
  refine ⟨by cbv, latex_nested (.expr mixed) htexts, ?_⟩
  exact latex_nested (.operation ⟨some .power, mixed, none⟩) htexts

end AlgebraText
