import AlgebraText.Proofs.Latex.Flat

/-!
# The signs of a LaTeX text

The LaTeX text of an expression is made of a few signs: names and numbers, the operators, and what
opens and closes groups, superscripts, fractions and the arguments of functions. Each sign is a run
of words, such as the three of `\left(`, and a text has the words of its signs one after another. No
sign starts with the words of another one, so the signs can be told from the words and hence from
the text.

The signs of an expression follow its structure (`Expr.latexSigns`), link by link for a sequence, as
its text does.

## What this module delivers

* `LatexSign`, with `LatexSign.flatMap_words_injective`: words determine signs;
* `Expr.latexSigns`, with `Expr.Proper.typeset`: a text has the words of its expression's signs;
* `latexSigns_eq_of_latex_eq`: expressions with one text have the same signs.
-/

set_option autoImplicit false

namespace AlgebraText

/-! ## Signs -/

/-- The signs that LaTeX texts of expressions are made of. -/
inductive LatexSign where
  /-- A number without a point. -/
  | int (digits : String)
  /-- A number with a point. -/
  | float (digits : String)
  /-- The name of a variable. -/
  | var (name : String)
  /-- The operator `+`. -/
  | plus
  /-- The operator or the sign `-`. -/
  | minus
  /-- The operator `\cdot`. -/
  | times
  /-- The start of a superscript, `^` and a brace. -/
  | superscript
  /-- The start of a fraction, `\frac` and the brace of the numerator. -/
  | fraction
  /-- A brace on its own. -/
  | brace
  /-- A closing brace. -/
  | endBrace
  /-- The opening parenthesis of a group. -/
  | group
  /-- The closing parenthesis of a group or of an argument. -/
  | endGroup
  /-- The upright name of a function, and the opening parenthesis of its argument. -/
  | call (name : String)
deriving DecidableEq

namespace LatexSign

/-- The word of a single character. -/
def mark (c : Char) : Word := ⟨markKind c, String.singleton c⟩

/-- The words of a command. -/
def command (name : String) : List Word := [mark '\\', ⟨.name, name⟩]

/-- The words of a sign. -/
def words : LatexSign → List Word
  | int digits => [⟨.int, digits⟩]
  | float digits => [⟨.float, digits⟩]
  | var name => [⟨.name, name⟩]
  | plus => [mark '+']
  | minus => [mark '-']
  | times => command "cdot"
  | superscript => [mark '^', mark '\x7b']
  | fraction => command "frac" ++ [mark '\x7b']
  | brace => [mark '\x7b']
  | endBrace => [mark '\x7d']
  | group => command "left" ++ [mark '(']
  | endGroup => command "right" ++ [mark ')']
  | call name => command "mathrm" ++ mark '\x7b' :: ⟨.name, name⟩ :: mark '\x7d' ::
      (command "left" ++ [mark '('])

/-- The first sign of a text, and the words after it. -/
def first? : List Word → Option (LatexSign × List Word)
  | ⟨.int, digits⟩ :: rest => some (int digits, rest)
  | ⟨.float, digits⟩ :: rest => some (float digits, rest)
  | ⟨.name, name⟩ :: rest => some (var name, rest)
  | ⟨.add, _⟩ :: rest => some (plus, rest)
  | ⟨.sub, _⟩ :: rest => some (minus, rest)
  | ⟨.exp, _⟩ :: _ :: rest => some (superscript, rest)
  | ⟨.symbol, "\x7b"⟩ :: rest => some (brace, rest)
  | ⟨.symbol, "\x7d"⟩ :: rest => some (endBrace, rest)
  | _ :: ⟨_, "cdot"⟩ :: rest => some (times, rest)
  | _ :: ⟨_, "frac"⟩ :: _ :: rest => some (fraction, rest)
  | _ :: ⟨_, "left"⟩ :: _ :: rest => some (group, rest)
  | _ :: ⟨_, "right"⟩ :: _ :: rest => some (endGroup, rest)
  | _ :: ⟨_, "mathrm"⟩ :: _ :: ⟨_, name⟩ :: _ :: _ :: _ :: _ :: rest => some (call name, rest)
  | _ => none

theorem first?_words (sign : LatexSign) (rest : List Word) :
    first? (sign.words ++ rest) = some (sign, rest) := by
  cases sign <;> rfl

/-- **No sign starts with the words of another.** -/
theorem words_prefixFree {x y : LatexSign} {xs ys : List Word}
    (h : x.words ++ xs = y.words ++ ys) : x = y ∧ xs = ys := by
  have hfirst := first?_words x xs
  rw [h, first?_words, Option.some.injEq, Prod.mk.injEq] at hfirst
  exact ⟨hfirst.1.symm, hfirst.2.symm⟩

theorem words_ne_nil (sign : LatexSign) : sign.words ≠ [] := by
  cases sign <;> simp [words, command]

/-- The words of a text determine its signs. -/
theorem flatMap_words_injective {xs ys : List LatexSign} (h : xs.flatMap words = ys.flatMap words) :
    xs = ys := by
  induction xs generalizing ys with
  | nil =>
      cases ys with
      | nil => rfl
      | cons y ys =>
          rw [List.flatMap_nil, List.flatMap_cons, List.nil_eq_append_iff] at h
          exact absurd h.1 y.words_ne_nil
  | cons x xs ih =>
      cases ys with
      | nil =>
          rw [List.flatMap_nil, List.flatMap_cons, List.append_eq_nil_iff] at h
          exact absurd h.1 x.words_ne_nil
      | cons y ys =>
          rw [List.flatMap_cons, List.flatMap_cons] at h
          obtain ⟨rfl, hrest⟩ := words_prefixFree h
          rw [ih hrest]

/-- Signs in braces. -/
def braced (signs : List LatexSign) : List LatexSign := brace :: (signs ++ [endBrace])

/-- Signs in a group, if it is needed. -/
def grouped (needed : Bool) (signs : List LatexSign) : List LatexSign :=
  if needed then group :: (signs ++ [endGroup]) else signs

/-- The signs of the links so far with one more link after it. -/
def link (soFar : List LatexSign) (previous method : Option Method)
    (plain inGroup : List LatexSign) : List LatexSign :=
  match method with
  | some .power =>
    (if previous = some .power then braced soFar else soFar) ++ superscript :: (plain ++ [endBrace])
  | some .divide => fraction :: (soFar ++ endBrace :: braced plain)
  | some .multiply => soFar ++ times :: inGroup
  | some .add => soFar ++ plus :: inGroup
  | some .subtract => soFar ++ minus :: inGroup
  | none => soFar ++ inGroup

end LatexSign

mutual

/-- The signs of the LaTeX text of an expression. -/
def Expr.latexSigns : Expr → List LatexSign
  | .integer value _ => [.int value]
  | .decimal value _ => [.float value.literal]
  | .var name _ => [.var name]
  | .app name body _ => .call name :: (body.latexSigns ++ [.endGroup])
  | .neg body _ => .minus :: LatexSign.grouped body.needsParensNegated body.latexSigns
  | .seq operations _ => Operation.signsFirst (Operation.loosest? operations) operations

/-- The signs of a sequence. -/
def Operation.signsFirst (enclosing : Option Nat) : List Operation → List LatexSign
  | [] => []
  | ⟨_, operand, _⟩ :: rest =>
    let numerator := rest.head?.bind Operation.method == some .divide
    Operation.signsRest enclosing
      (LatexSign.grouped (!numerator && operand.needsParens enclosing) operand.latexSigns) none rest

/-- The signs of a sequence, given those of its links so far and the last operator. -/
def Operation.signsRest (enclosing : Option Nat) (soFar : List LatexSign)
    (previous : Option Method) : List Operation → List LatexSign
  | [] => soFar
  | ⟨method, operand, _⟩ :: rest =>
    Operation.signsRest enclosing
      (LatexSign.link soFar previous method operand.latexSigns
        (LatexSign.grouped (operand.needsParens enclosing) operand.latexSigns))
      method rest

end

/-! ## Texts and their signs -/

/-- A mark in a text is a sign of one word. -/
theorem words_append_cons_mark {c : Char} (h : IsMark c) (xs ys : List Char) :
    words (xs ++ c :: ys) = words xs ++ LatexSign.mark c :: words ys :=
  words_append_mark_cons h xs ys

/-- A command is a backslash and a name, which the next mark ends. -/
theorem words_command {name : List Char} (hname : IsName name) {c : Char} (hc : IsMark c)
    (xs ys : List Char) :
    words (xs ++ '\\' :: (name ++ c :: ys)) =
      words xs ++ LatexSign.command (.ofList name) ++ LatexSign.mark c :: words ys := by
  rw [words_append_cons_mark (by decide), words_append_cons_mark hc,
    AlgebraText.words_of_isName hname]
  simp [LatexSign.command]

/-- A text with the words of some signs. -/
def Typeset (text : String) (signs : List LatexSign) : Prop :=
  words text.toList = signs.flatMap LatexSign.words

namespace Typeset

variable {text text' : String} {signs signs' : List LatexSign}

theorem words_eq (h : Typeset text signs) : words text.toList = signs.flatMap LatexSign.words := h

theorem braced (h : Typeset text signs) :
    Typeset (AlgebraText.braced text) (LatexSign.braced signs) := by
  have htext : (AlgebraText.braced text).toList =
      [] ++ '\x7b' :: (text.toList ++ '\x7d' :: []) := by
    simp [AlgebraText.braced]
  rw [Typeset, htext, words_append_cons_mark (by decide), words_append_cons_mark (by decide),
    words_nil, h.words_eq]
  simp [LatexSign.braced, LatexSign.words]

theorem grouped (needed : Bool) (h : Typeset text signs) :
    Typeset (AlgebraText.grouped needed text) (LatexSign.grouped needed signs) := by
  cases needed with
  | false => exact h
  | true =>
      have htext : (AlgebraText.grouped true text).toList =
          [] ++ '\\' :: ("left".toList ++ '(' ::
            (text.toList ++ '\\' :: ("right".toList ++ ')' :: []))) := by
        simp [AlgebraText.grouped]
      rw [Typeset, htext, words_command (by decide) (by decide),
        words_command (by decide) (by decide), words_nil, h.words_eq]
      simp [LatexSign.grouped, LatexSign.words]

/-- A text with a superscript. -/
theorem superscript (h : Typeset text signs) (h' : Typeset text' signs') :
    Typeset (text ++ "^" ++ AlgebraText.braced text')
      (signs ++ .superscript :: (signs' ++ [.endBrace])) := by
  have htext : (text ++ "^" ++ AlgebraText.braced text').toList =
      text.toList ++ '^' :: ([] ++ '\x7b' :: (text'.toList ++ '\x7d' :: [])) := by
    simp [AlgebraText.braced]
  rw [Typeset, htext, words_append_cons_mark (by decide), words_append_cons_mark (by decide),
    words_append_cons_mark (by decide), words_nil, h.words_eq, h'.words_eq]
  simp [LatexSign.words]

theorem fraction (h : Typeset text signs) (h' : Typeset text' signs') :
    Typeset (AlgebraText.fraction text text')
      (.fraction :: (signs ++ .endBrace :: LatexSign.braced signs')) := by
  have htext : (AlgebraText.fraction text text').toList =
      [] ++ '\\' :: ("frac".toList ++ '\x7b' :: (text.toList ++ '\x7d' ::
        ([] ++ '\x7b' :: (text'.toList ++ '\x7d' :: [])))) := by
    simp [AlgebraText.fraction, AlgebraText.braced]
  rw [Typeset, htext, words_command (by decide) (by decide),
    words_append_cons_mark (by decide), words_append_cons_mark (by decide),
    words_append_cons_mark (by decide), words_nil, h.words_eq, h'.words_eq]
  simp [LatexSign.braced, LatexSign.words]

/-- A product. Its operator is a command with blanks around it. -/
theorem times (h : Typeset text signs) (h' : Typeset text' signs') :
    Typeset (text ++ " \\cdot " ++ text') (signs ++ .times :: signs') := by
  have htext : (text ++ " \\cdot " ++ text').toList =
      text.toList ++ ' ' :: ([] ++ '\\' :: ("cdot".toList ++ ' ' :: text'.toList)) := by
    simp
  have hname : words "cdot".toList = [⟨.name, "cdot"⟩] := words_of_isName (by decide)
  rw [Typeset, htext, words_append_space, words_append_cons_mark (by decide),
    words_append_space, hname, words_nil, h.words_eq, h'.words_eq]
  simp [LatexSign.words, LatexSign.command]

/-- A sum. Its operators are those of plain texts. -/
theorem between {method : Method} {sign : LatexSign} (hsign : sign.words = [method.word])
    (h : Typeset text signs) (h' : Typeset text' signs') :
    Typeset (text ++ method.between ++ text') (signs ++ sign :: signs') := by
  rw [Typeset, String.toList_append, String.toList_append, words_between, h.words_eq,
    h'.words_eq, List.flatMap_append, List.flatMap_cons, hsign, List.singleton_append]

/-- A link adds its signs to those before it. -/
theorem link {plain inGroup : String} {signsPlain signsInGroup : List LatexSign}
    (hsoFar : Typeset text signs) (hplain : Typeset plain signsPlain)
    (hgroup : Typeset inGroup signsInGroup) (previous : Option Method) (method : Method) :
    Typeset (latexLink text previous (some method) plain inGroup)
      (LatexSign.link signs previous (some method) signsPlain signsInGroup) := by
  cases method with
  | power =>
      rw [latexLink, LatexSign.link]
      split
      · exact hsoFar.braced.superscript hplain
      · exact hsoFar.superscript hplain
  | divide => exact hsoFar.fraction hplain
  | multiply => exact hsoFar.times hgroup
  | add =>
      have htext : latexLink text previous (some .add) plain inGroup =
          text ++ Method.add.between ++ inGroup := by
        simp [latexLink, Method.between, String.append_assoc]
      rw [htext]
      exact @between _ _ _ _ .add .plus rfl hsoFar hgroup
  | subtract =>
      have htext : latexLink text previous (some .subtract) plain inGroup =
          text ++ Method.subtract.between ++ inGroup := by
        simp [latexLink, Method.between, String.append_assoc]
      rw [htext]
      exact @between _ _ _ _ .subtract .minus rfl hsoFar hgroup

/-- Further links add their signs one after another. -/
theorem rest (enclosing : Option Nat) {priority : Nat} {operations : List Operation}
    (hmethods : ∀ operation ∈ operations, operation.HasPriority priority)
    (hoperands : ∀ operation ∈ operations,
      Typeset operation.operand.latex operation.operand.latexSigns)
    (h : Typeset text signs) (previous : Option Method) :
    Typeset (Operation.latexRest enclosing text previous operations)
      (Operation.signsRest enclosing signs previous operations) := by
  induction operations generalizing text signs previous with
  | nil => exact h
  | cons operation rest ih =>
      obtain ⟨method, operand, origin⟩ := operation
      obtain ⟨⟨method, rfl, -⟩, hmore⟩ := List.forall_mem_cons.1 hmethods
      obtain ⟨hoperand, hlater⟩ := List.forall_mem_cons.1 hoperands
      exact ih hmore hlater
        (h.link hoperand (hoperand.grouped (operand.needsParens enclosing)) previous method) _

end Typeset

/-- **The LaTeX text of a proper expression has the words of its signs.** -/
theorem Expr.Proper.typeset {e : Expr} (h : e.Proper) : Typeset e.latex e.latexSigns := by
  induction e, h using Expr.Proper.induction with
  | integer value origin _ hcanonical =>
      rw [Typeset, Expr.latex, AlgebraText.words_of_isDigits hcanonical.1, String.ofList_toList]
      rfl
  | decimal value origin _ hliteral =>
      obtain ⟨rank, rfl⟩ := Binary64.exists_rank_of_isLiteral hliteral
      rw [Typeset, Expr.latex, words_of_isPointed (Binary64.isPointed_literal rank),
        String.ofList_toList]
      rfl
  | var name origin _ hname =>
      rw [Typeset, Expr.latex, AlgebraText.words_of_isName hname, String.ofList_toList]
      rfl
  | app name body origin _ hname _ ih =>
      have htext : (Expr.app name body origin).latex.toList =
          [] ++ '\\' :: ("mathrm".toList ++ '\x7b' :: (name.toList ++ '\x7d' ::
            (grouped true body.latex).toList)) := by
        simp [Expr.latex, braced]
      -- the argument is in a group, needed or not
      rw [Typeset, htext, words_command (by decide) (by decide),
        words_append_cons_mark (by decide), AlgebraText.words_of_isName hname, words_nil,
        (ih.grouped true).words_eq, String.ofList_toList]
      simp [Expr.latexSigns, LatexSign.grouped, LatexSign.words]
  | neg body origin _ _ ih =>
      have htext : (Expr.neg body origin).latex.toList =
          [] ++ '-' :: (grouped body.needsParensNegated body.latex).toList := by
        simp [Expr.latex]
      rw [Typeset, htext, words_append_cons_mark (by decide), words_nil,
        (ih.grouped _).words_eq]
      rfl
  | seq operand place rest priority origin _ _ hpriority _ ihoperand _ ihrest =>
      exact (ihoperand.grouped _).rest _ hpriority ihrest none

/-- Proper expressions with one LaTeX text have the same signs. -/
theorem latexSigns_eq_of_latex_eq {a b : Expr} (ha : a.Proper) (hb : b.Proper)
    (h : a.latex = b.latex) : a.latexSigns = b.latexSigns := by
  refine LatexSign.flatMap_words_injective ?_
  rw [← ha.typeset.words_eq, ← hb.typeset.words_eq, h]

/-! ## The signs of each kind of sequence -/

/-- The signs of an expression in a place that asks for a level. -/
def Expr.latexSignsWithin (level : Nat) (e : Expr) : List LatexSign :=
  LatexSign.grouped (e.level < level) e.latexSigns

/-- The sign of an operator. -/
def Method.latexSign : Method → LatexSign
  | power => .superscript
  | divide => .fraction
  | multiply => .times
  | add => .plus
  | subtract => .minus

namespace Operation

/-- The signs of a further link in a sum or a product. -/
def linkSigns (priority : Nat) (operation : Operation) : List LatexSign :=
  (operation.method.map Method.latexSign).toList ++
    operation.operand.latexSignsWithin (priority + 1)

/-- Sums and products are typeset as their operands with the operators between them. -/
theorem signsRest_of_priority_lt {priority : Nat} (hlow : priority < 4)
    {operations : List Operation} (h : ∀ operation ∈ operations, operation.HasPriority priority)
    (soFar : List LatexSign) (previous : Option Method) :
    signsRest (some priority) soFar previous operations =
      soFar ++ operations.flatMap (linkSigns priority) := by
  induction operations generalizing soFar previous with
  | nil => rw [signsRest, List.flatMap_nil, List.append_nil]
  | cons operation rest ih =>
      obtain ⟨method, operand, origin⟩ := operation
      obtain ⟨⟨method, rfl, rfl⟩, hrest⟩ := List.forall_mem_cons.1 h
      have hlink : LatexSign.link soFar previous (some method) operand.latexSigns
          (LatexSign.grouped (operand.needsParens (some method.priority)) operand.latexSigns) =
          soFar ++ linkSigns method.priority ⟨some method, operand, origin⟩ := by
        -- an operand is in a group if it binds no tighter than the operator
        rw [operand.needsParens_eq (by omega)]
        cases method with
        | power | divide => exact absurd hlow (by decide)
        | multiply | add | subtract => rfl
      rw [signsRest, hlink, ih hrest, List.flatMap_cons, List.append_assoc]

end Operation

/-- A sequence starts with its first operand, which is in a group if it binds no tighter than the
sequence, but not in a numerator. -/
theorem Expr.latexSigns_seq {operand : Expr} {place origin : Option Origin}
    {rest : List Operation} {priority : Nat} (hne : rest ≠ [])
    (hpriority : ∀ operation ∈ rest, operation.HasPriority priority) :
    (Expr.seq (⟨none, operand, place⟩ :: rest) origin).latexSigns =
      Operation.signsRest (some priority)
        (if priority = 4 then operand.latexSigns else operand.latexSignsWithin (priority + 1))
        none rest := by
  have hloosest := @Operation.loosest?_eq ⟨none, operand, place⟩ rest priority rfl hpriority hne
  have hle := (Operation.mem_of_loosest? hloosest).2
  obtain ⟨operation, more, rfl⟩ := List.exists_cons_of_ne_nil hne
  obtain ⟨method, hmethod, rfl⟩ := hpriority operation List.mem_cons_self
  rw [Expr.latexSigns, hloosest, Operation.signsFirst, List.head?_cons, Option.bind_some, hmethod,
    operand.needsParens_eq hle]
  congr 1
  cases method <;> rfl

end AlgebraText
