import AlgebraText.Proofs.Token.Slices

/-!
# Tokens are longest matches

Every kind of token has its lexemes (`TokenKind.Matches`), and they compete at each place of a text:
`2` is a number where `2.5` is one, and a letter is a character like any other. The rule is that the
longest lexeme wins, and that among equally long ones the kind `symbol`, which has every character,
gives way. The lexer itself compares nothing. It looks at a first character and at what follows a
run of digits; so what it finds is shown to be the winner here, lexeme by lexeme.

The rule is about the text from a place on. The places are the boundaries between tokens, and a text
can be cut at any two of them without a change to the tokens in between.

## What this module delivers

* `TokenKind.LongestMatch`, with `longestMatch_munch`: the first lexeme of a text is the longest;
* `tokenize_of_matches`: a text that is a lexeme as a whole is one token;
* `boundary`, with `exists_slice_between`: what stands between two boundaries;
* `tokenize_longest_match`: what all this says about the tokens of a text.
-/

set_option autoImplicit false

namespace AlgebraText

/-! ## Longest matches -/

/-- A lexeme of a kind that wins against all other lexemes at the start of a text. -/
structure TokenKind.LongestMatch (kind : TokenKind) (lexeme text : List Char) : Prop where
  /-- It is a lexeme of the kind. -/
  matched : kind.Matches lexeme
  /-- The text starts with it. -/
  starts : lexeme <+: text
  /-- No lexeme of any kind with which the text starts is longer. -/
  longest : ∀ (other : TokenKind) (lexeme' : List Char), lexeme' <+: text →
    other.Matches lexeme' → lexeme'.length ≤ lexeme.length
  /-- Of all kinds that have this lexeme, a symbol alone gives way. -/
  preferred : ∀ other : TokenKind, other.Matches lexeme → other = kind ∨ other = .symbol
  /-- A symbol is found only where the text starts with a lexeme of no other kind. -/
  lastResort : kind = .symbol → ∀ (other : TokenKind) (lexeme' : List Char), lexeme' <+: text →
    other.Matches lexeme' → other = .symbol

/-- No kind has an empty lexeme. -/
theorem TokenKind.Matches.ne_nil {kind : TokenKind} {lexeme : List Char}
    (h : kind.Matches lexeme) : lexeme ≠ [] := by
  rintro rfl
  cases kind with
  | whitespace => exact h.1 rfl
  | newLine => exact h.1 rfl
  | name => exact h
  | int => exact h.1 rfl
  | float =>
      obtain ⟨whole, fraction, -, -, hshape⟩ := h
      exact List.append_ne_nil_of_right_ne_nil whole (List.cons_ne_nil _ _) hshape.symm
  | symbol =>
      obtain ⟨c, hshape, -⟩ := h
      exact List.cons_ne_nil c [] hshape.symm
  | add | sub | mul | div | exp | openParen | closeParen | openSquare | closeSquare | dot =>
      exact List.cons_ne_nil _ _ h.symm

/-- Digits with a point among them are more than digits. -/
theorem not_isDigits_of_isPointed {cs : List Char} (h : IsPointed cs) : ¬ IsDigits cs := by
  obtain ⟨whole, fraction, -, -, rfl⟩ := h
  intro hdigits
  have hpoint : Char.isDigit '.' = true :=
    hdigits.2 '.' (List.mem_append_right _ List.mem_cons_self)
  exact absurd hpoint (by decide)

/-- A run takes in every start of a text that is in its class. -/
theorem length_le_run {inClass : Char → Bool} (kind : TokenKind) {more cs : List Char}
    (hmore : more <+: cs) (h : ∀ c ∈ more, inClass c = true) :
    more.length ≤ (Cut.run kind inClass cs).more.length := by
  obtain ⟨tail, rfl⟩ := hmore
  show more.length ≤ ((more ++ tail).takeWhile inClass).length
  rw [List.takeWhile_append_of_pos h, List.length_append]
  exact Nat.le_add_right _ _

/-- A number takes in every digit with which a text starts. -/
theorem length_le_number {more cs : List Char} (hmore : more <+: cs)
    (h : ∀ c ∈ more, c.isDigit = true) : more.length ≤ (Cut.number cs).more.length := by
  apply Nat.le_trans (length_le_run .int hmore h)
  rw [Cut.run, Cut.number]
  split
  · split
    · rw [List.length_append]
      exact Nat.le_add_right _ _
    · exact Nat.le_refl _
  · exact Nat.le_refl _

/-- A number takes in a point with digits on both sides, and all of these digits. -/
theorem length_le_number_of_pointed {whole fraction cs : List Char}
    (hmore : whole ++ '.' :: fraction <+: cs) (hwhole : ∀ c ∈ whole, c.isDigit = true)
    (hfraction : IsDigits fraction) :
    (whole ++ '.' :: fraction).length ≤ (Cut.number cs).more.length := by
  obtain ⟨tail, rfl⟩ := hmore
  obtain ⟨hne, hdigits⟩ := hfraction
  obtain ⟨d, rest, rfl⟩ := List.exists_cons_of_ne_nil hne
  obtain ⟨hd, hrest⟩ := List.forall_mem_cons.1 hdigits
  obtain ⟨htake, hdrop⟩ := digits_before_point hwhole (d :: (rest ++ tail))
  rw [List.append_assoc, List.cons_append, List.cons_append, number_pointed hdrop hd, htake,
    List.takeWhile_append_of_pos hrest]
  simp only [List.length_append, List.length_cons]
  omega

/-- **No lexeme at the start of a text is longer than the first lexeme of the text.** -/
theorem length_le_munch {kind : TokenKind} {c : Char} {more cs : List Char}
    (h : kind.Matches (c :: more)) (hmore : more <+: cs) :
    more.length ≤ (munch c cs).more.length := by
  -- lexemes of one character have nothing to compare
  have hsingle : more = [] → more.length ≤ (munch c cs).more.length := by
    rintro rfl
    exact Nat.zero_le _
  cases kind with
  | whitespace =>
      obtain ⟨hc, hrest⟩ := List.forall_mem_cons.1 h.2
      rw [munch_of_isSpace hc]
      exact length_le_run _ hmore hrest
  | newLine =>
      obtain ⟨hc, hrest⟩ := List.forall_mem_cons.1 h.2
      rw [munch_of_isLineBreak hc]
      exact length_le_run _ hmore hrest
  | name =>
      obtain ⟨hc, hrest⟩ := h
      rw [munch_of_isAlpha hc]
      exact length_le_run _ hmore hrest
  | int =>
      obtain ⟨hc, hrest⟩ := List.forall_mem_cons.1 h.2
      rw [munch_of_isDigit hc]
      exact length_le_number hmore hrest
  | float =>
      obtain ⟨whole, fraction, ⟨hne, hwhole⟩, hfraction, hshape⟩ := h
      obtain ⟨first, whole, rfl⟩ := List.exists_cons_of_ne_nil hne
      rw [List.cons_append, List.cons.injEq] at hshape
      obtain ⟨rfl, rfl⟩ := hshape
      obtain ⟨hc, hrest⟩ := List.forall_mem_cons.1 hwhole
      rw [munch_of_isDigit hc]
      exact length_le_number_of_pointed hmore hrest hfraction
  | symbol =>
      obtain ⟨d, hshape, -⟩ := h
      exact hsingle (List.cons.inj hshape).2
  | add | sub | mul | div | exp | openParen | closeParen | openSquare | closeSquare | dot =>
      exact hsingle (List.cons.inj h).2

/-- The first lexeme of a text is a lexeme of no other kind, symbols apart. -/
theorem kind_eq_of_matches_munch {kind : TokenKind} {c : Char} {cs : List Char}
    (h : kind.Matches (c :: (munch c cs).more)) : kind = (munch c cs).kind ∨ kind = .symbol := by
  cases kind with
  | whitespace =>
      left
      rw [munch_of_isSpace (List.forall_mem_cons.1 h.2).1]
      rfl
  | newLine =>
      left
      rw [munch_of_isLineBreak (List.forall_mem_cons.1 h.2).1]
      rfl
  | name =>
      left
      rw [munch_of_isAlpha h.1]
      rfl
  | int =>
      left
      have hc := (List.forall_mem_cons.1 h.2).1
      rw [munch_of_isDigit hc] at h ⊢
      rcases number_cases hc cs with ⟨hkind, -⟩ | ⟨-, hshape⟩
      · exact hkind.symm
      · exact absurd h (not_isDigits_of_isPointed hshape)
  | float =>
      left
      have hc : c.isDigit = true := by
        obtain ⟨whole, fraction, ⟨hne, hwhole⟩, -, hshape⟩ := h
        obtain ⟨first, whole, rfl⟩ := List.exists_cons_of_ne_nil hne
        rw [(List.cons.inj hshape).1]
        exact hwhole first List.mem_cons_self
      rw [munch_of_isDigit hc] at h ⊢
      rcases number_cases hc cs with ⟨-, hshape⟩ | ⟨hkind, -⟩
      · exact absurd hshape (not_isDigits_of_isPointed h)
      · exact hkind.symm
  | symbol => exact Or.inr rfl
  | add | sub | mul | div | exp | openParen | closeParen | openSquare | closeSquare | dot =>
      left
      rw [(List.cons.inj h).1]
      rfl

/-- **The first lexeme of a text is its longest match.** -/
theorem longestMatch_munch (c : Char) (cs : List Char) :
    (munch c cs).kind.LongestMatch (c :: (munch c cs).more) (c :: cs) := by
  have hmatched := matches_munch c cs
  have hstarts : c :: (munch c cs).more <+: c :: cs := by
    apply (List.prefix_cons_inj c).2
    exact ⟨(munch c cs).rest, munch_append c cs⟩
  have hlongest : ∀ kind lexeme, lexeme <+: c :: cs → TokenKind.Matches kind lexeme →
      lexeme.length ≤ (c :: (munch c cs).more).length := by
    intro kind lexeme hprefix hmatches
    rcases List.prefix_cons_iff.1 hprefix with rfl | ⟨more, rfl, hmore⟩
    · exact Nat.zero_le _
    · exact Nat.succ_le_succ (length_le_munch hmatches hmore)
  refine ⟨hmatched, hstarts, hlongest, fun kind => kind_eq_of_matches_munch, ?_⟩
  intro hsymbol kind lexeme hprefix hmatches
  -- a symbol is one character, so whatever matches here is this character
  rw [hsymbol] at hmatched
  obtain ⟨d, hshape, -⟩ := hmatched
  have hlength := hlongest kind lexeme hprefix hmatches
  have hpositive := List.length_pos_iff.2 hmatches.ne_nil
  have hsame : lexeme = c :: (munch c cs).more := by
    apply (List.prefix_of_prefix_length_le hprefix hstarts hlength).eq_of_length
    rw [hshape, List.length_singleton] at hlength ⊢
    omega
  rcases kind_eq_of_matches_munch (hsame ▸ hmatches) with hkind | hkind
  · exact hkind.trans hsymbol
  · exact hkind

/-- **A text that is a lexeme as a whole is one token.** Symbols apart, whose only character may be a
lexeme of another kind. -/
theorem tokenize_of_matches {kind : TokenKind} {text : String} (h : kind.Matches text.toList)
    (hkind : kind ≠ .symbol) : tokenize text = [⟨kind, text, ⟨0, text.utf8ByteSize⟩⟩] := by
  obtain ⟨c, cs, hcs⟩ := List.exists_cons_of_ne_nil h.ne_nil
  rw [hcs] at h
  have hsplit := munch_append c cs
  -- the first lexeme is no shorter than the text, so nothing is left behind it
  have hrest : (munch c cs).rest = [] := by
    have hlength := congrArg List.length hsplit
    have hle := length_le_munch h (List.prefix_refl cs)
    rw [List.length_append] at hlength
    apply List.eq_nil_of_length_eq_zero
    omega
  rw [hrest, List.append_nil] at hsplit
  have hsame : kind = (munch c cs).kind := by
    rw [← hsplit] at h
    exact (kind_eq_of_matches_munch h).resolve_right hkind
  rw [tokenize, hcs, tokensFrom_cons, hrest, tokensFrom_nil, hsplit, ← hcs, String.ofList_toList,
    byteSize_toList, Nat.zero_add, hsame]

/-! ## Boundaries -/

/-- The place in a text after its first tokens. -/
def boundary (front : List Token) : Nat :=
  match front.getLast? with
  | some last => last.span.stop
  | none => 0

/-- Tokens that tile a range from the start of a text have their boundary at its end. -/
theorem Tiles.boundary_eq {front : List Token} {stop : Nat} (h : Tiles 0 front stop) :
    boundary front = stop := by
  cases hlast : front.getLast? with
  | some last =>
      rw [boundary, hlast]
      exact h.stop_of_getLast? hlast
  | none =>
      obtain rfl := List.getLast?_eq_none_iff.1 hlast
      exact h

/-- **What stands between two boundaries has the tokens between them.** -/
theorem exists_slice_between {text : String} {front inside back : List Token}
    (h : tokenize text = front ++ (inside ++ back)) :
    ∃ piece, (⟨boundary front, boundary (front ++ inside)⟩ : Span).slice? text = some piece ∧
      tokensFrom (boundary front) piece.toList = inside := by
  obtain ⟨before, piece, after, rfl, hfront, hinside, -⟩ := exists_slice h
  have hstart : boundary front = before.utf8ByteSize := by
    rw [← hfront]
    exact (tiles_tokenize before).boundary_eq
  have hstop : boundary (front ++ inside) = (before ++ piece).utf8ByteSize := by
    -- the tokens of the two parts are those of both together
    obtain ⟨both, rest, htext, hboth, -⟩ :=
      @tokensFrom_eq_append _ _ (front ++ inside) back (by rw [List.append_assoc]; exact h)
    have htiles := tiles_tokensFrom 0 both
    rw [hboth, Nat.zero_add] at htiles
    rw [htiles.boundary_eq, ← flatMap_lexeme_tokensFrom 0 both, hboth, List.flatMap_append,
      ← hfront, ← hinside, tokenize, flatMap_lexeme_tokensFrom, flatMap_lexeme_tokensFrom,
      byteSize_append, byteSize_toList, byteSize_toList, String.utf8ByteSize_append]
  refine ⟨piece, Span.slice?_eq_some.2 ⟨before, after, rfl, hstart.symm, hstop.symm⟩, ?_⟩
  rw [hstart, hinside]

/-- From a boundary on, a text has the tokens behind it. -/
theorem exists_slice_from {text : String} {front back : List Token}
    (h : tokenize text = front ++ back) :
    ∃ remaining, (⟨boundary front, text.utf8ByteSize⟩ : Span).slice? text = some remaining ∧
      tokensFrom (boundary front) remaining.toList = back := by
  obtain ⟨remaining, hslice, htokens⟩ :=
    @exists_slice_between text front back [] (by rw [List.append_nil]; exact h)
  rw [← h, (tiles_tokenize text).boundary_eq] at hslice
  exact ⟨remaining, hslice, htokens⟩

/-- Digits before a point without a digit behind it are a number on their own. -/
theorem tokensFrom_stray_point {digits rest : List Char} (hdigits : IsDigits digits)
    (hrest : ∀ c ∈ rest.head?, c.isDigit = false) (offset : Nat) :
    ∃ number point, tokensFrom offset (digits ++ '.' :: rest) =
        number :: point :: tokensFrom point.span.stop rest ∧
      number.word = ⟨.int, .ofList digits⟩ ∧ point.word = ⟨.dot, "."⟩ := by
  obtain ⟨hne, hall⟩ := hdigits
  obtain ⟨c, more, rfl⟩ := List.exists_cons_of_ne_nil hne
  obtain ⟨hc, hmore⟩ := List.forall_mem_cons.1 hall
  obtain ⟨htake, hdrop⟩ := digits_before_point hmore rest
  have hnumber : munch c (more ++ '.' :: rest) = ⟨.int, more, '.' :: rest⟩ := by
    rw [munch_of_isDigit hc, number_whole, htake, hdrop]
    intro d tail hshape
    rw [hdrop, List.cons.injEq] at hshape
    apply hrest d
    rw [hshape.2]
    rfl
  have hdot : munch '.' rest = ⟨.dot, [], rest⟩ := rfl
  rw [List.cons_append, tokensFrom_cons, hnumber, tokensFrom_cons, hdot]
  exact ⟨_, _, rfl, rfl, rfl⟩

/-! ## Texts -/

/-- **The lexer tiles every text by longest matches.** The tokens of a text follow one another
without a gap from its first byte to its last, and their lexemes make up the text; each lexeme is
the slice of its span, so spans start and end between two characters. At every boundary the next
token is the longest match in the text from there on. Digits before a point that no digit follows
are a number, and the point is a token. What stands between two boundaries has the tokens between
them, counted from the first boundary. -/
theorem tokenize_longest_match (text : String) :
    Tiles 0 (tokenize text) text.utf8ByteSize ∧
    String.join ((tokenize text).map Token.lexeme) = text ∧
    (∀ token ∈ tokenize text, token.span.slice? text = some token.lexeme) ∧
    (∀ front token back, tokenize text = front ++ token :: back →
      ∃ remaining, (⟨boundary front, text.utf8ByteSize⟩ : Span).slice? text = some remaining ∧
        token.kind.LongestMatch token.lexeme.toList remaining.toList) ∧
    (∀ front back digits rest, tokenize text = front ++ back →
      (⟨boundary front, text.utf8ByteSize⟩ : Span).slice? text = some (digits ++ "." ++ rest) →
      IsDigits digits.toList → (∀ c ∈ rest.toList.head?, c.isDigit = false) →
      ∃ number point more, back = number :: point :: more ∧ number.word = ⟨.int, digits⟩ ∧
        point.word = ⟨.dot, "."⟩) ∧
    (∀ front inside back, tokenize text = front ++ (inside ++ back) →
      ∃ piece, (⟨boundary front, boundary (front ++ inside)⟩ : Span).slice? text = some piece ∧
        inside =
          (tokenize piece).map (Token.relocate (· + boundary front) (· + boundary front))) := by
  refine ⟨tiles_tokenize text, ?_, fun token hmem => slice?_of_mem_tokenize hmem, ?_, ?_, ?_⟩
  · rw [← String.toList_inj, String.toList_join, List.flatMap_map]
    exact flatMap_lexeme_tokensFrom 0 text.toList
  · intro front token back hsplit
    obtain ⟨remaining, hslice, htokens⟩ := exists_slice_from hsplit
    refine ⟨remaining, hslice, ?_⟩
    cases hremaining : remaining.toList with
    | nil =>
        rw [hremaining, tokensFrom_nil] at htokens
        cases htokens
    | cons c cs =>
        rw [hremaining, tokensFrom_cons, List.cons.injEq] at htokens
        obtain ⟨rfl, -⟩ := htokens
        rw [String.toList_ofList]
        exact longestMatch_munch c cs
  · intro front back digits rest hsplit hslice hdigits hrest
    obtain ⟨remaining, hslice', htokens⟩ := exists_slice_from hsplit
    obtain rfl := Option.some.inj (hslice'.symm.trans hslice)
    obtain ⟨number, point, hboth, hnumber, hpoint⟩ :=
      tokensFrom_stray_point hdigits hrest (boundary front)
    refine ⟨number, point, tokensFrom point.span.stop rest.toList, ?_, ?_, hpoint⟩
    · rw [← htokens, ← hboth, String.toList_append, String.toList_append, List.append_assoc]
      rfl
    · rw [hnumber, String.ofList_toList]
  · intro front inside back hsplit
    obtain ⟨piece, hslice, htokens⟩ := exists_slice_between hsplit
    refine ⟨piece, hslice, ?_⟩
    rw [← htokens, tokenize, ← tokensFrom_add, Nat.zero_add]

/-- A point without a digit behind it, and a character of two bytes. -/
theorem tokenize_longest_match_stray_point :
    tokenize "12.+é" = [⟨.int, "12", ⟨0, 2⟩⟩, ⟨.dot, ".", ⟨2, 3⟩⟩, ⟨.add, "+", ⟨3, 4⟩⟩,
      ⟨.symbol, "é", ⟨4, 6⟩⟩] ∧
    (∃ remaining, (⟨4, 6⟩ : Span).slice? "12.+é" = some remaining ∧
      TokenKind.symbol.LongestMatch ['é'] remaining.toList) ∧
    (∃ number point more, tokenize "12.+é" = number :: point :: more ∧
      number.word = ⟨.int, "12"⟩ ∧ point.word = ⟨.dot, "."⟩) ∧
    ∃ piece, (⟨2, 4⟩ : Span).slice? "12.+é" = some piece ∧
      [⟨.dot, ".", ⟨2, 3⟩⟩, ⟨.add, "+", ⟨3, 4⟩⟩] =
        (tokenize piece).map (Token.relocate (· + 2) (· + 2)) := by
  have htokens : tokenize "12.+é" = [⟨.int, "12", ⟨0, 2⟩⟩, ⟨.dot, ".", ⟨2, 3⟩⟩,
      ⟨.add, "+", ⟨3, 4⟩⟩, ⟨.symbol, "é", ⟨4, 6⟩⟩] := by cbv
  obtain ⟨-, -, -, hlongest, hpoint, hslice⟩ := tokenize_longest_match "12.+é"
  refine ⟨htokens, ?_, ?_, ?_⟩
  · exact hlongest [⟨.int, "12", ⟨0, 2⟩⟩, ⟨.dot, ".", ⟨2, 3⟩⟩, ⟨.add, "+", ⟨3, 4⟩⟩] _ [] htokens
  · exact hpoint [] _ "12" "+é" rfl (by cbv) (by simp [IsDigits]) (by simp)
  · exact hslice [⟨.int, "12", ⟨0, 2⟩⟩] [⟨.dot, ".", ⟨2, 3⟩⟩, ⟨.add, "+", ⟨3, 4⟩⟩]
      [⟨.symbol, "é", ⟨4, 6⟩⟩] htokens

end AlgebraText
