import AlgebraText.Proofs.Parser.Steps
import AlgebraText.Token.Lexer
import Mathlib

/-!
# The words of a text

The grammar sees neither blanks nor places, so a text matters only through its words: the kinds and
lexemes of its significant tokens. A character that continues no lexeme cuts a text in two
(`munch_append_of_ends`), which is what allows the words of a printed text to be computed piece by
piece. A name, a run of digits and two runs of digits around a point are one word each, and the
lexer gives these kinds to nothing else.

## What this module delivers

* `IsName`, `IsDigits` and `IsPointed`, the shapes of the lexemes that carry a value, and
  `TokenKind.Matches`, the lexemes of every kind;
* `words`, with `words_append_mark` and `words_append_blank`;
* `words_of_isName`, `words_of_isDigits`, `words_of_isPointed`, and the converses
  `matches_of_mem_tokenize` and `spelled_of_mem_tokenize`;
* `countP_openParen_tokenize`: the parentheses of a text are its characters of that sign.
-/

set_option autoImplicit false

namespace AlgebraText

/-! ## Shapes of lexemes -/

/-- A letter followed by letters, digits and underscores. -/
def IsName : List Char → Prop
  | [] => False
  | c :: cs => c.isAlpha = true ∧ ∀ part ∈ cs, isNamePart part = true

/-- A run of digits that is not empty. -/
def IsDigits (cs : List Char) : Prop := cs ≠ [] ∧ ∀ c ∈ cs, c.isDigit = true

/-- Two runs of digits with a point between them. -/
def IsPointed (cs : List Char) : Prop :=
  ∃ whole fraction, IsDigits whole ∧ IsDigits fraction ∧ cs = whole ++ '.' :: fraction

/-- The lexemes of a kind of token. -/
def TokenKind.Matches : TokenKind → List Char → Prop
  | whitespace, lexeme => lexeme ≠ [] ∧ ∀ c ∈ lexeme, isSpace c = true
  | newLine, lexeme => lexeme ≠ [] ∧ ∀ c ∈ lexeme, isLineBreak c = true
  | add, lexeme => lexeme = ['+']
  | sub, lexeme => lexeme = ['-']
  | mul, lexeme => lexeme = ['*']
  | div, lexeme => lexeme = ['/']
  | exp, lexeme => lexeme = ['^']
  | openParen, lexeme => lexeme = ['(']
  | closeParen, lexeme => lexeme = [')']
  | openSquare, lexeme => lexeme = ['[']
  | closeSquare, lexeme => lexeme = [']']
  | name, lexeme => IsName lexeme
  | int, lexeme => IsDigits lexeme
  | float, lexeme => IsPointed lexeme
  | dot, lexeme => lexeme = ['.']
  | symbol, lexeme => ∃ c, lexeme = [c] ∧ c ≠ '\n'

instance : DecidablePred IsName
  | [] => isFalse id
  | c :: cs =>
      decidable_of_iff (c.isAlpha = true ∧ cs.all isNamePart = true)
        (by rw [IsName, List.all_eq_true])

instance : DecidablePred IsDigits := fun cs =>
  decidable_of_iff (cs ≠ [] ∧ cs.all Char.isDigit = true) (by rw [IsDigits, List.all_eq_true])

/-! ## Classes of characters -/

/-- Letters are no blanks. -/
theorem isBlank_of_isAlpha {c : Char} (h : c.isAlpha = true) :
    isSpace c = false ∧ isLineBreak c = false := by
  have hne : ∀ blank : Char, blank.isAlpha = false → c ≠ blank := by
    rintro blank hblank rfl
    rw [h] at hblank
    cases hblank
  simp [isSpace, isLineBreak, hne ' ' (by decide), hne '\t' (by decide), hne '\r' (by decide),
    hne '\n' (by decide)]

/-- Digits are neither blanks nor letters. -/
theorem isAlpha_of_isDigit {c : Char} (h : c.isDigit = true) :
    isSpace c = false ∧ isLineBreak c = false ∧ c.isAlpha = false := by
  have hrange : 48 ≤ c.toNat ∧ c.toNat ≤ 57 := Char.isDigit_iff_toNat.1 h
  have hne : ∀ other : Char, other.isDigit = false → c ≠ other := by
    rintro other hother rfl
    rw [h] at hother
    cases hother
  refine ⟨?_, ?_, ?_⟩
  · simp [isSpace, hne ' ' (by decide), hne '\t' (by decide)]
  · simp [isLineBreak, hne '\r' (by decide), hne '\n' (by decide)]
  · -- letters are a range above the digits
    simp [Char.isAlpha, Char.isUpper, Char.isLower, UInt32.le_iff_toNat_le]
    omega

theorem isNamePart_of_isDigit {c : Char} (h : c.isDigit = true) : isNamePart c = true := by
  simp [isNamePart, Char.isAlphanum, h]

theorem isNamePart_of_isAlpha {c : Char} (h : c.isAlpha = true) : isNamePart c = true := by
  simp [isNamePart, Char.isAlphanum, h]

/-- A character that continues no name and no number. -/
def Ends (c : Char) : Prop := isNamePart c = false ∧ c ≠ '.'

/-- A character that is a token of its own and continues none. -/
def IsMark (c : Char) : Prop := Ends c ∧ isSpace c = false ∧ isLineBreak c = false

instance (c : Char) : Decidable (Ends c) := inferInstanceAs (Decidable (_ ∧ _))

instance (c : Char) : Decidable (IsMark c) := inferInstanceAs (Decidable (_ ∧ _))

theorem Ends.isDigit {c : Char} (h : Ends c) : c.isDigit = false := by
  by_contra hdigit
  rw [Bool.not_eq_false] at hdigit
  have hpart := isNamePart_of_isDigit hdigit
  rw [h.1] at hpart
  cases hpart

theorem Ends.isAlpha {c : Char} (h : Ends c) : c.isAlpha = false := by
  by_contra halpha
  rw [Bool.not_eq_false] at halpha
  have hpart := isNamePart_of_isAlpha halpha
  rw [h.1] at hpart
  cases hpart

/-! ## A character that cuts a text in two -/

theorem run_append_of_not {inClass : Char → Bool} {c : Char} (kind : TokenKind)
    (h : inClass c = false) (xs ys : List Char) :
    Cut.run kind inClass (xs ++ c :: ys) =
      { Cut.run kind inClass xs with rest := (Cut.run kind inClass xs).rest ++ c :: ys } := by
  induction xs with
  | nil => simp [Cut.run, h]
  | cons x xs ih =>
      by_cases hx : inClass x = true
      · simpa [Cut.run, hx] using ih
      · simp [Cut.run, hx]

theorem number_append_of_ends {c : Char} (h : Ends c) (xs ys : List Char) :
    Cut.number (xs ++ c :: ys) =
      { Cut.number xs with rest := (Cut.number xs).rest ++ c :: ys } := by
  have hrun := run_append_of_not .int h.isDigit xs ys
  simp only [Cut.run, Cut.mk.injEq, true_and] at hrun
  obtain ⟨htake, hdrop⟩ := hrun
  unfold Cut.number
  rw [htake, hdrop]
  -- the point and the digit after it decide, and `c` is neither
  rcases hrest : xs.dropWhile Char.isDigit with _ | ⟨x, rest⟩
  · simp [h.2]
  · by_cases hpoint : x = '.'
    · subst hpoint
      cases rest with
      | nil => simp [h.isDigit]
      | cons d rest =>
          have htail := run_append_of_not .int h.isDigit rest ys
          simp only [Cut.run, Cut.mk.injEq, true_and] at htail
          by_cases hd : d.isDigit = true
          · simp [hd, htail.1, htail.2]
          · simp [hd]
    · simp [hpoint]

/-- **A character that continues no lexeme cuts a text in two.** Whatever stands before it is cut as
if the text ended there, unless it goes on with a run of blanks. -/
theorem munch_append_of_ends {x c : Char} (h : Ends c)
    (hspace : isSpace x = true → isSpace c = false)
    (hbreak : isLineBreak x = true → isLineBreak c = false) (xs ys : List Char) :
    munch x (xs ++ c :: ys) = { munch x xs with rest := (munch x xs).rest ++ c :: ys } := by
  unfold munch
  split_ifs with hx₁ hx₂ hx₃ hx₄
  · exact run_append_of_not _ (hspace hx₁) xs ys
  · exact run_append_of_not _ (hbreak hx₂) xs ys
  · exact run_append_of_not _ h.1 xs ys
  · exact number_append_of_ends h xs ys
  · rfl

theorem isBlank_markKind (c : Char) : (markKind c).isBlank = false := by
  unfold markKind
  split <;> decide

/-- A mark is a lexeme on its own. -/
theorem munch_mark {c : Char} (h : IsMark c) (cs : List Char) :
    munch c cs = ⟨markKind c, [], cs⟩ := by
  unfold munch
  rw [h.2.1, h.2.2, h.1.isAlpha, h.1.isDigit]
  rfl

/-! ## Words -/

/-- A significant token without its place. -/
structure Word where
  /-- What sort of token it is. -/
  kind : TokenKind
  /-- The text of the token. -/
  lexeme : String
deriving DecidableEq, Repr

/-- A token without its place. -/
def Token.word (token : Token) : Word := ⟨token.kind, token.lexeme⟩

/-- The words of a text. -/
def words (cs : List Char) : List Word := (significantTokens (tokensFrom 0 cs)).map Token.word

/-- Texts are taken apart lexeme by lexeme. -/
theorem munch_induction {motive : List Char → Prop} (nil : motive [])
    (cons : ∀ c cs, motive (munch c cs).rest → motive (c :: cs)) (cs : List Char) : motive cs := by
  induction hlength : cs.length using Nat.strong_induction_on generalizing cs with
  | _ length ih =>
      cases cs with
      | nil => exact nil
      | cons c cs =>
          have hshorter := munch_rest_length_le c cs
          rw [List.length_cons] at hlength
          exact cons c cs (ih _ (by omega) _ rfl)

/-- What a lexeme adds to the words of a text. -/
def Cut.words (c : Char) (cut : Cut) : List Word :=
  if cut.kind.isBlank then [] else [⟨cut.kind, String.ofList (c :: cut.more)⟩]

theorem map_word_tokensFrom_cons (offset : Nat) (c : Char) (cs : List Char) :
    (significantTokens (tokensFrom offset (c :: cs))).map Token.word =
      (munch c cs).words c ++ (significantTokens (tokensFrom
        (offset + byteSize (c :: (munch c cs).more)) (munch c cs).rest)).map Token.word := by
  rw [tokensFrom_cons]
  by_cases hblank : (munch c cs).kind.isBlank = true
  · simp [significantTokens, Token.isBlank, hblank, Cut.words]
  · simp [significantTokens, Token.isBlank, hblank, Cut.words, Token.word]

/-- Words do not depend on where a text stands. -/
theorem map_word_tokensFrom (offset : Nat) (cs : List Char) :
    (significantTokens (tokensFrom offset cs)).map Token.word = words cs := by
  -- the offset goes into the spans only; both sides are computed lexeme by lexeme
  have hany : ∀ offset', (significantTokens (tokensFrom offset cs)).map Token.word =
      (significantTokens (tokensFrom offset' cs)).map Token.word := by
    induction cs using munch_induction generalizing offset with
    | nil => simp
    | cons c cs ih =>
        intro offset'
        rw [map_word_tokensFrom_cons, map_word_tokensFrom_cons, ih]
  exact hany 0

@[simp]
theorem words_nil : words [] = [] := by
  simp [words]

theorem words_cons (c : Char) (cs : List Char) :
    words (c :: cs) = (munch c cs).words c ++ words (munch c cs).rest := by
  rw [words, map_word_tokensFrom_cons, map_word_tokensFrom]

theorem words_tokenize (text : String) :
    (significantTokens (tokenize text)).map Token.word = words text.toList := rfl

/-- A mark cuts a text in two and starts the second part. -/
theorem words_append_mark {c : Char} (h : IsMark c) (xs ys : List Char) :
    words (xs ++ c :: ys) = words xs ++ words (c :: ys) := by
  induction xs using munch_induction with
  | nil => simp
  | cons x xs ih =>
      have hcut := munch_append_of_ends (x := x) h.1 (fun _ => h.2.1) (fun _ => h.2.2) xs ys
      rw [List.cons_append, words_cons, hcut, ih, words_cons x xs, List.append_assoc]
      rfl

theorem words_mark {c : Char} (h : IsMark c) (cs : List Char) :
    words (c :: cs) = ⟨markKind c, String.singleton c⟩ :: words cs := by
  rw [words_cons, munch_mark h, Cut.words]
  show (if (markKind c).isBlank then [] else _) ++ words cs = _
  rw [isBlank_markKind, if_neg Bool.false_ne_true]
  rfl

/-- A mark in a text is a word between the words on both sides of it. -/
theorem words_append_mark_cons {c : Char} (h : IsMark c) (xs ys : List Char) :
    words (xs ++ c :: ys) = words xs ++ ⟨markKind c, String.singleton c⟩ :: words ys := by
  rw [words_append_mark h, words_mark h]

/-! ## Blanks

Spaces and tabs form one sort of blank token, the ends of lines another. A run of either sort may go
on past a cut, but it adds no word on either side of it. -/

/-- A character of a blank token. -/
def IsBlank (c : Char) : Prop := isSpace c = true ∨ isLineBreak c = true

instance : DecidablePred IsBlank := fun _ => inferInstanceAs (Decidable (_ ∨ _))

/-- Blank characters are a space, a tab and the two ends of lines. -/
theorem isBlank_iff {c : Char} :
    IsBlank c ↔ (c = ' ' ∨ c = '\t') ∨ c = '\r' ∨ c = '\n' := by
  simp only [IsBlank, isSpace, isLineBreak, Bool.or_eq_true, beq_iff_eq]

/-- Blanks continue no name and no number. -/
theorem IsBlank.ends {c : Char} (h : IsBlank c) : Ends c := by
  obtain (rfl | rfl) | rfl | rfl := isBlank_iff.1 h <;> decide

/-- The ends of lines are no spaces. -/
theorem isSpace_of_isLineBreak {c : Char} (h : isLineBreak c = true) : isSpace c = false := by
  rw [isLineBreak, Bool.or_eq_true, beq_iff_eq, beq_iff_eq] at h
  obtain rfl | rfl := h <;> decide

theorem munch_of_isSpace {c : Char} (h : isSpace c = true) (cs : List Char) :
    munch c cs = Cut.run .whitespace isSpace cs := by
  simp only [munch, h, if_true]

theorem munch_of_isLineBreak {c : Char} (h : isLineBreak c = true) (cs : List Char) :
    munch c cs = Cut.run .newLine isLineBreak cs := by
  simp only [munch, isSpace_of_isLineBreak h, h, Bool.false_eq_true, if_false, if_true]

section Runs

variable {kind : TokenKind} {inClass : Char → Bool}

/-- A run of blanks of one sort at the head of a text adds no word. -/
theorem words_dropWhile (hkind : kind.isBlank = true)
    (hrun : ∀ x, inClass x = true → ∀ cs, munch x cs = Cut.run kind inClass cs)
    (cs : List Char) : words (cs.dropWhile inClass) = words cs := by
  cases cs with
  | nil => rfl
  | cons c cs =>
      by_cases hc : inClass c = true
      · rw [List.dropWhile_cons_of_pos hc, words_cons, hrun c hc, Cut.words]
        show words (cs.dropWhile inClass) = (if kind.isBlank then [] else _) ++ _
        rw [if_pos hkind]
        rfl
      · rw [List.dropWhile_cons_of_neg hc]

/-- A blank of one sort separates words and is none. -/
theorem words_append_of_run (hkind : kind.isBlank = true)
    (hrun : ∀ x, inClass x = true → ∀ cs, munch x cs = Cut.run kind inClass cs) {c : Char}
    (hc : inClass c = true)
    (hcut : ∀ x, inClass x = false → ∀ xs ys, munch x (xs ++ c :: ys) =
      { munch x xs with rest := (munch x xs).rest ++ c :: ys }) (xs ys : List Char) :
    words (xs ++ c :: ys) = words xs ++ words ys := by
  have hskip : ∀ x, inClass x = true → ∀ cs, words (x :: cs) = words (cs.dropWhile inClass) := by
    intro x hx cs
    rw [← words_dropWhile hkind hrun (x :: cs), List.dropWhile_cons_of_pos hx]
  induction xs using munch_induction with
  | nil => rw [List.nil_append, hskip c hc, words_dropWhile hkind hrun, words_nil, List.nil_append]
  | cons x xs ih =>
      by_cases hx : inClass x = true
      · -- the run may go on past the cut, where it adds no words either
        rw [hrun x hx] at ih
        change words (xs.dropWhile inClass ++ c :: ys) = words (xs.dropWhile inClass) ++ _ at ih
        rw [List.cons_append, hskip x hx, hskip x hx, List.dropWhile_append]
        split
        · rename_i hall
          rw [List.isEmpty_iff.1 hall, words_nil, List.nil_append, words_dropWhile hkind hrun,
            hskip c hc, words_dropWhile hkind hrun]
        · exact ih
      · rw [Bool.not_eq_true] at hx
        rw [List.cons_append, words_cons, hcut x hx, ih, words_cons x xs, List.append_assoc]
        rfl

end Runs

/-- **A blank in a text separates words and is none.** -/
theorem words_append_blank {c : Char} (h : IsBlank c) (xs ys : List Char) :
    words (xs ++ c :: ys) = words xs ++ words ys := by
  rcases h with hspace | hbreak
  · apply words_append_of_run rfl (fun x hx => munch_of_isSpace hx) hspace
    intro x hx xs ys
    apply munch_append_of_ends (IsBlank.ends (Or.inl hspace))
    · intro hx'
      rw [hx] at hx'
      cases hx'
    · intro _
      by_contra hbreak
      rw [isSpace_of_isLineBreak (Bool.not_eq_false _ ▸ hbreak)] at hspace
      cases hspace
  · apply words_append_of_run rfl (fun x hx => munch_of_isLineBreak hx) hbreak
    intro x hx xs ys
    apply munch_append_of_ends (IsBlank.ends (Or.inr hbreak))
    · intro _
      exact isSpace_of_isLineBreak hbreak
    · intro hx'
      rw [hx] at hx'
      cases hx'

theorem words_blank_cons {c : Char} (h : IsBlank c) (cs : List Char) :
    words (c :: cs) = words cs := by
  have hsplit := words_append_blank h [] cs
  rwa [words_nil, List.nil_append, List.nil_append] at hsplit

/-- The blank that printing uses. -/
theorem words_append_space (xs ys : List Char) :
    words (xs ++ ' ' :: ys) = words xs ++ words ys :=
  words_append_blank (by decide) xs ys

/-! ## Names and numbers are one word each -/

theorem run_of_all {inClass : Char → Bool} {kind : TokenKind} {cs : List Char}
    (h : ∀ c ∈ cs, inClass c = true) : Cut.run kind inClass cs = ⟨kind, cs, []⟩ := by
  simp only [Cut.run, Cut.mk.injEq, true_and]
  exact ⟨List.takeWhile_eq_self_iff.2 h, List.dropWhile_eq_nil_iff.2 h⟩

/-- A text that starts with a letter starts with a name. -/
theorem munch_of_isAlpha {c : Char} (h : c.isAlpha = true) (cs : List Char) :
    munch c cs = Cut.run .name isNamePart cs := by
  obtain ⟨hspace, hbreak⟩ := isBlank_of_isAlpha h
  simp only [munch, hspace, hbreak, h, Bool.false_eq_true, if_false, if_true]

theorem words_of_isName {cs : List Char} (h : IsName cs) : words cs = [⟨.name, .ofList cs⟩] := by
  cases cs with
  | nil => cases h
  | cons c cs =>
      obtain ⟨halpha, hparts⟩ := h
      rw [words_cons, munch_of_isAlpha halpha, run_of_all hparts, words_nil]
      rfl

/-- A text that starts with a digit starts with a number. -/
theorem munch_of_isDigit {c : Char} (h : c.isDigit = true) (cs : List Char) :
    munch c cs = Cut.number cs := by
  obtain ⟨hspace, hbreak, halpha⟩ := isAlpha_of_isDigit h
  simp [munch, hspace, hbreak, halpha, h]

theorem words_of_isDigits {cs : List Char} (h : IsDigits cs) : words cs = [⟨.int, .ofList cs⟩] := by
  obtain ⟨hne, hdigits⟩ := h
  cases cs with
  | nil => exact absurd rfl hne
  | cons c cs =>
      have htail : ∀ d ∈ cs, d.isDigit = true := fun d hd => hdigits d (List.mem_cons_of_mem _ hd)
      have hcut : munch c cs = ⟨.int, cs, []⟩ := by
        rw [munch_of_isDigit (hdigits c List.mem_cons_self), Cut.number,
          List.dropWhile_eq_nil_iff.2 htail, List.takeWhile_eq_self_iff.2 htail]
      rw [words_cons, hcut, words_nil]
      rfl

/-- A point ends a run of digits. -/
theorem digits_before_point {digits : List Char} (h : ∀ c ∈ digits, c.isDigit = true)
    (rest : List Char) :
    (digits ++ '.' :: rest).takeWhile Char.isDigit = digits ∧
      (digits ++ '.' :: rest).dropWhile Char.isDigit = '.' :: rest := by
  have hpoint : Char.isDigit '.' = false := by decide
  rw [List.takeWhile_append_of_pos h, List.dropWhile_append_of_pos h]
  simp [hpoint]

/-- A number takes in a point with a digit after it. -/
theorem number_pointed {cs rest : List Char} {d : Char}
    (h : cs.dropWhile Char.isDigit = '.' :: d :: rest) (hd : d.isDigit = true) :
    Cut.number cs = ⟨.float, cs.takeWhile Char.isDigit ++ '.' :: d :: rest.takeWhile Char.isDigit,
      rest.dropWhile Char.isDigit⟩ := by
  simp [Cut.number, h, hd]

theorem words_of_isPointed {cs : List Char} (h : IsPointed cs) :
    words cs = [⟨.float, .ofList cs⟩] := by
  obtain ⟨whole, fraction, ⟨hwhole, hdigits⟩, ⟨hfraction, hplaces⟩, rfl⟩ := h
  obtain ⟨c, more, rfl⟩ := List.exists_cons_of_ne_nil hwhole
  obtain ⟨d, rest, rfl⟩ := List.exists_cons_of_ne_nil hfraction
  obtain ⟨hc, hmore⟩ := List.forall_mem_cons.1 hdigits
  obtain ⟨hd, hrest⟩ := List.forall_mem_cons.1 hplaces
  have hcut : munch c (more ++ '.' :: d :: rest) = ⟨.float, more ++ '.' :: d :: rest, []⟩ := by
    obtain ⟨htake, hdrop⟩ := digits_before_point hmore (d :: rest)
    rw [munch_of_isDigit hc, number_pointed hdrop hd, htake, List.takeWhile_eq_self_iff.2 hrest,
      List.dropWhile_eq_nil_iff.2 hrest]
  rw [List.cons_append, words_cons, hcut, words_nil]
  rfl

/-! ## What the lexer makes of a text -/

/-- A token that carries a value is spelled as its kind says. -/
structure Token.Spelled (token : Token) : Prop where
  /-- A name is a letter with name parts after it. -/
  name : token.kind = .name → IsName token.lexeme.toList
  /-- A number without a point is digits. -/
  int : token.kind = .int → IsDigits token.lexeme.toList
  /-- A number with a point has digits on both sides of it. -/
  float : token.kind = .float → IsPointed token.lexeme.toList

theorem forall_mem_cons_takeWhile {inClass : Char → Bool} {c : Char} (h : inClass c = true)
    (cs : List Char) : ∀ d ∈ c :: cs.takeWhile inClass, inClass d = true := by
  intro d hmem
  rcases List.mem_cons.1 hmem with rfl | hmem
  · exact h
  · exact List.all_eq_true.1 List.all_takeWhile d hmem

theorem isDigits_cons_takeWhile {c : Char} (h : c.isDigit = true) (cs : List Char) :
    IsDigits (c :: cs.takeWhile Char.isDigit) :=
  ⟨List.cons_ne_nil _ _, forall_mem_cons_takeWhile h cs⟩

/-- A number is digits, or digits with a point among them. -/
theorem number_cases {c : Char} (h : c.isDigit = true) (cs : List Char) :
    ((Cut.number cs).kind = .int ∧ IsDigits (c :: (Cut.number cs).more)) ∨
      ((Cut.number cs).kind = .float ∧ IsPointed (c :: (Cut.number cs).more)) := by
  unfold Cut.number
  split
  · rename_i d rest hshape
    split
    · rename_i hd
      exact Or.inr ⟨rfl, _, _, isDigits_cons_takeWhile h cs, isDigits_cons_takeWhile hd rest, rfl⟩
    · exact Or.inl ⟨rfl, isDigits_cons_takeWhile h cs⟩
  · exact Or.inl ⟨rfl, isDigits_cons_takeWhile h cs⟩

theorem matches_markKind {c : Char} (h : isLineBreak c = false) : (markKind c).Matches [c] := by
  unfold markKind
  split
  case h_11 =>
    refine ⟨c, rfl, ?_⟩
    rintro rfl
    cases h
  all_goals rfl

/-- The first lexeme of a text is a lexeme of its kind. -/
theorem matches_munch (c : Char) (cs : List Char) :
    (munch c cs).kind.Matches (c :: (munch c cs).more) := by
  unfold munch
  split_ifs with hspace hbreak halpha hdigit
  · exact ⟨List.cons_ne_nil _ _, forall_mem_cons_takeWhile hspace cs⟩
  · exact ⟨List.cons_ne_nil _ _, forall_mem_cons_takeWhile hbreak cs⟩
  · exact ⟨halpha, List.all_eq_true.1 List.all_takeWhile⟩
  · rcases number_cases hdigit cs with ⟨hkind, hshape⟩ | ⟨hkind, hshape⟩ <;> rw [hkind]
    · exact hshape
    · exact hshape
  · exact matches_markKind (Bool.not_eq_true _ ▸ hbreak)

theorem matches_of_mem_tokensFrom (offset : Nat) (cs : List Char) :
    ∀ token ∈ tokensFrom offset cs, token.kind.Matches token.lexeme.toList := by
  induction cs using munch_induction generalizing offset with
  | nil => simp
  | cons c cs ih =>
      rw [tokensFrom_cons]
      intro token hmem
      rcases List.mem_cons.1 hmem with rfl | hmem
      · rw [String.toList_ofList]
        exact matches_munch c cs
      · exact ih _ token hmem

/-- **Every token of a text is a lexeme of its kind.** -/
theorem matches_of_mem_tokenize {text : String} {token : Token} (h : token ∈ tokenize text) :
    token.kind.Matches token.lexeme.toList :=
  matches_of_mem_tokensFrom 0 _ token h

theorem spelled_of_mem_tokensFrom (offset : Nat) (cs : List Char) :
    ∀ token ∈ tokensFrom offset cs, token.Spelled := by
  intro token hmem
  have hmatches := matches_of_mem_tokensFrom offset cs token hmem
  constructor <;> intro hkind <;> rw [hkind] at hmatches <;> exact hmatches

/-- **Every token of a text is spelled as its kind says.** -/
theorem spelled_of_mem_tokenize {text : String} {token : Token}
    (h : token ∈ significantTokens (tokenize text)) : token.Spelled :=
  spelled_of_mem_tokensFrom 0 _ token (List.mem_filter.1 h).1

/-! ## Parentheses -/

/-- No mark stands inside a lexeme. -/
theorem not_isMark_of_mem_more {c d : Char} {cs : List Char} (h : d ∈ (munch c cs).more) :
    ¬ IsMark d := by
  intro hd
  have hrun : ∀ {kind : TokenKind} {inClass : Char → Bool}, inClass d = false →
      d ∉ (Cut.run kind inClass cs).more := by
    intro kind inClass hclass hmem
    have hin := List.all_eq_true.1 List.all_takeWhile d hmem
    rw [hclass] at hin
    cases hin
  unfold munch at h
  split_ifs at h
  · exact hrun hd.2.1 h
  · exact hrun hd.2.2 h
  · exact hrun hd.1.1 h
  · -- besides digits a number holds a point, and a point is no mark
    have hdigits : ∀ {xs : List Char}, d ∉ xs.takeWhile Char.isDigit := by
      intro xs hmem
      have hin := List.all_eq_true.1 List.all_takeWhile d hmem
      rw [hd.1.isDigit] at hin
      cases hin
    unfold Cut.number at h
    split at h
    · split at h
      · rename_i x _ _ hx
        rcases List.mem_append.1 h with h | h
        · exact hdigits h
        · rcases List.mem_cons.1 h with h | h
          · exact hd.1.2 h
          · rcases List.mem_cons.1 h with rfl | h
            · rw [hd.1.isDigit] at hx
              cases hx
            · exact hdigits h
      · exact hdigits h
    · exact hdigits h
  · cases h

theorem munch_kind_eq_openParen (c : Char) (cs : List Char) :
    (munch c cs).kind = .openParen ↔ c = '(' := by
  constructor
  · intro h
    unfold munch at h
    split_ifs at h with hspace hbreak halpha hdigit
    · cases h
    · cases h
    · cases h
    · rcases number_cases hdigit cs with ⟨hkind, -⟩ | ⟨hkind, -⟩ <;> rw [hkind] at h <;> cases h
    · unfold markKind at h
      split at h <;> first | rfl | cases h
  · rintro rfl
    rw [munch_mark (by decide)]
    rfl

/-- **The opening parentheses of a text are its characters of that sign.** -/
theorem countP_openParen_tokensFrom (offset : Nat) (cs : List Char) :
    (tokensFrom offset cs).countP (fun token => token.kind == .openParen) = cs.count '(' := by
  induction cs using munch_induction generalizing offset with
  | nil => simp
  | cons c cs ih =>
      -- a parenthesis is the first character of its lexeme or does not occur in it
      have hmore : (munch c cs).more.count '(' = 0 :=
        List.count_eq_zero.2 fun hmem => not_isMark_of_mem_more hmem (by decide)
      have hsplit := congrArg (List.count '(') (munch_append c cs)
      rw [List.count_append, hmore, Nat.zero_add] at hsplit
      rw [tokensFrom_cons, List.countP_cons, ih, hsplit, List.count_cons]
      simp only [beq_iff_eq, munch_kind_eq_openParen]

theorem countP_openParen_tokenize (text : String) :
    (tokenize text).countP (fun token => token.kind == .openParen) = text.toList.count '(' :=
  countP_openParen_tokensFrom 0 text.toList

end AlgebraText
