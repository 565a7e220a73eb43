import AlgebraText.Proofs.Token.Spans

/-!
# Slices of a text

A slice is the part of a text that a span covers, provided that the span starts and ends between
two characters. Every token is the slice of its own span. A slice that starts and ends where tokens
do is cut into the same tokens as the whole text, only at other places: the lexer keeps no state, so
what comes before is irrelevant, and what comes after a token takes no part in it beyond ending it.

## What this module delivers

* `Span.slice?`, with `Span.slice?_eq_some`: what a slice is;
* `flatMap_lexeme_tokensFrom`: the lexemes of a text make up the text;
* `tokensFrom_eq_append`: a cut between two tokens cuts the text;
* `slice?_of_mem_tokenize`: a token is the slice of its span;
* `Token.relocate`, with `tokensFrom_add` and `tokenize_eq_map_tokensFrom`: a text at another place
  has the same tokens there;
* `exists_slice_of_significantTokens`, with `exists_slice_after`: the slice under the hull of some
  significant tokens, with and without the first of them.
-/

set_option autoImplicit false

namespace AlgebraText

/-! ## Slices -/

/-- The characters before a byte offset and those after it, if the offset stands between two
characters. -/
def splitBytes? : Nat → List Char → Option (List Char × List Char)
  | 0, cs => some ([], cs)
  | _ + 1, [] => none
  | offset + 1, c :: cs =>
    if c.utf8Size ≤ offset + 1 then
      (splitBytes? (offset + 1 - c.utf8Size) cs).map fun (before, after) => (c :: before, after)
    else none

theorem splitBytes?_append (before after : List Char) :
    splitBytes? (byteSize before) (before ++ after) = some (before, after) := by
  induction before with
  | nil => cases after <;> rfl
  | cons c before ih =>
      -- a character takes up space, so the offset is a successor
      obtain ⟨offset, hoffset⟩ : ∃ offset, byteSize (c :: before) = offset + 1 :=
        Nat.exists_eq_add_one.2 (byteSize_cons c before ▸ Nat.add_pos_left c.utf8Size_pos _)
      have hrest : offset + 1 = c.utf8Size + byteSize before := by rw [← hoffset, byteSize_cons]
      rw [hoffset, List.cons_append, splitBytes?, if_pos (by omega), hrest, Nat.add_sub_cancel_left,
        ih]
      rfl

theorem eq_append_of_splitBytes? {offset : Nat} {cs before after : List Char}
    (h : splitBytes? offset cs = some (before, after)) :
    cs = before ++ after ∧ byteSize before = offset := by
  induction cs generalizing offset before with
  | nil =>
      cases offset with
      | zero =>
          cases h
          exact ⟨rfl, rfl⟩
      | succ offset => cases h
  | cons c cs ih =>
      cases offset with
      | zero =>
          cases h
          exact ⟨rfl, rfl⟩
      | succ offset =>
          rw [splitBytes?] at h
          split at h
          · rename_i hfits
            obtain ⟨⟨front, back⟩, hrest, heq⟩ := Option.map_eq_some_iff.1 h
            cases heq
            obtain ⟨rfl, hsize⟩ := ih hrest
            refine ⟨rfl, ?_⟩
            rw [byteSize_cons, hsize]
            omega
          · cases h

theorem splitBytes?_eq_some {offset : Nat} {cs before after : List Char} :
    splitBytes? offset cs = some (before, after) ↔
      cs = before ++ after ∧ byteSize before = offset := by
  constructor
  · exact eq_append_of_splitBytes?
  · rintro ⟨rfl, rfl⟩
    exact splitBytes?_append before after

/-- The part of a text that a span covers, if the span starts and ends between two characters. -/
def Span.slice? (span : Span) (text : String) : Option String :=
  if span.start ≤ span.stop then
    (splitBytes? span.start text.toList).bind fun (_, rest) =>
      (splitBytes? (span.stop - span.start) rest).map fun (piece, _) => String.ofList piece
  else none

/-- **A slice is what stands between the two offsets of its span.** -/
theorem Span.slice?_eq_some {span : Span} {text piece : String} :
    span.slice? text = some piece ↔
      ∃ before after : String, text = before ++ piece ++ after ∧
        before.utf8ByteSize = span.start ∧ (before ++ piece).utf8ByteSize = span.stop := by
  unfold slice?
  constructor
  · intro h
    split at h
    · rename_i hle
      obtain ⟨⟨before, rest⟩, hbefore, h⟩ := Option.bind_eq_some_iff.1 h
      obtain ⟨⟨inside, after⟩, hinside, rfl⟩ := Option.map_eq_some_iff.1 h
      obtain ⟨htext, hstart⟩ := splitBytes?_eq_some.1 hbefore
      obtain ⟨rfl, hsize⟩ := splitBytes?_eq_some.1 hinside
      refine ⟨String.ofList before, String.ofList after, ?_, ?_, ?_⟩
      · rw [← String.toList_inj, htext]
        simp
      · rw [byteSize_ofList, hstart]
      · rw [String.utf8ByteSize_append, byteSize_ofList, byteSize_ofList]
        omega
    · cases h
  · rintro ⟨before, after, rfl, hstart, hstop⟩
    rw [String.utf8ByteSize_append] at hstop
    have hbefore : splitBytes? span.start (before ++ piece ++ after).toList =
        some (before.toList, piece.toList ++ after.toList) :=
      splitBytes?_eq_some.2 ⟨by simp, by rw [byteSize_toList, hstart]⟩
    have hinside : splitBytes? (span.stop - span.start) (piece.toList ++ after.toList) =
        some (piece.toList, after.toList) :=
      splitBytes?_eq_some.2 ⟨rfl, by rw [byteSize_toList]; omega⟩
    rw [if_pos (by omega), hbefore, Option.bind_some]
    dsimp only
    rw [hinside, Option.map_some, String.ofList_toList]

/-! ## Cutting between tokens -/

/-- The lexemes of a text make up the text. -/
theorem flatMap_lexeme_tokensFrom (offset : Nat) (cs : List Char) :
    (tokensFrom offset cs).flatMap (fun token => token.lexeme.toList) = cs := by
  induction cs using munch_induction generalizing offset with
  | nil => rw [tokensFrom_nil, List.flatMap_nil]
  | cons c cs ih =>
      rw [tokensFrom_cons, List.flatMap_cons, ih, String.toList_ofList, List.cons_append,
        munch_append]

/-- A run ends before what ended it, however much of that is left. -/
theorem run_of_rest_eq_append {kind : TokenKind} {inClass : Char → Bool} {cs xs ys : List Char}
    (h : (Cut.run kind inClass cs).rest = xs ++ ys) :
    Cut.run kind inClass ((Cut.run kind inClass cs).more ++ xs) =
      { Cut.run kind inClass cs with rest := xs } := by
  have hin : ∀ c ∈ cs.takeWhile inClass, inClass c = true :=
    List.all_eq_true.1 List.all_takeWhile
  have hstop : xs.takeWhile inClass = [] ∧ xs.dropWhile inClass = xs := by
    cases xs with
    | nil => exact ⟨rfl, rfl⟩
    | cons x xs =>
        have hx := List.head?_dropWhile_not inClass cs
        rw [show cs.dropWhile inClass = x :: xs ++ ys from h] at hx
        have hx : inClass x = false := by simpa using hx
        simp [hx]
  simp only [Cut.run, List.takeWhile_append_of_pos hin, List.dropWhile_append_of_pos hin, hstop.1,
    hstop.2, List.append_nil]

/-- The digits before the end of a run of digits, and what ends it. -/
theorem digits_append {cs xs ys : List Char} (h : cs.dropWhile Char.isDigit = xs ++ ys) :
    (cs.takeWhile Char.isDigit ++ xs).takeWhile Char.isDigit = cs.takeWhile Char.isDigit ∧
      (cs.takeWhile Char.isDigit ++ xs).dropWhile Char.isDigit = xs := by
  have hrun := @run_of_rest_eq_append .int Char.isDigit cs xs ys h
  simpa only [Cut.run, Cut.mk.injEq, true_and] using hrun

theorem number_whole {cs : List Char}
    (h : ∀ d rest, cs.dropWhile Char.isDigit = '.' :: d :: rest → d.isDigit = false) :
    Cut.number cs = ⟨.int, cs.takeWhile Char.isDigit, cs.dropWhile Char.isDigit⟩ := by
  unfold Cut.number
  split
  · rename_i d rest hrest
    rw [h d rest hrest, hrest]
    rfl
  · rfl

theorem number_of_rest_eq_append {cs xs ys : List Char} (h : (Cut.number cs).rest = xs ++ ys) :
    Cut.number ((Cut.number cs).more ++ xs) = { Cut.number cs with rest := xs } := by
  by_cases hpoint : ∃ d rest, cs.dropWhile Char.isDigit = '.' :: d :: rest ∧ d.isDigit = true
  · obtain ⟨d, rest, hrest, hd⟩ := hpoint
    rw [number_pointed hrest hd] at h ⊢
    obtain ⟨htake, hdrop⟩ := @digits_append cs
      ('.' :: d :: (rest.takeWhile Char.isDigit ++ xs)) ys (by rw [hrest]; simp [← h])
    obtain ⟨htake', hdrop'⟩ := digits_append h
    simp [Cut.number, htake, hdrop, hd, htake', hdrop']
  · have hwhole : ∀ d rest, cs.dropWhile Char.isDigit = '.' :: d :: rest → d.isDigit = false :=
      fun d rest hrest => Bool.eq_false_iff.2 fun hd => hpoint ⟨d, rest, hrest, hd⟩
    rw [number_whole hwhole] at h ⊢
    obtain ⟨htake, hdrop⟩ := digits_append h
    dsimp only
    rw [number_whole, htake, hdrop]
    -- if a point and a digit are left, they were there before
    intro d rest hrest
    rw [hdrop] at hrest
    refine hwhole d (rest ++ ys) ?_
    rw [show cs.dropWhile Char.isDigit = xs ++ ys from h, hrest]
    rfl

/-- What follows a lexeme may be cut off anywhere. -/
theorem munch_of_rest_eq_append {c : Char} {cs xs ys : List Char}
    (h : (munch c cs).rest = xs ++ ys) :
    munch c ((munch c cs).more ++ xs) = { munch c cs with rest := xs } := by
  unfold munch at h ⊢
  split_ifs at h ⊢
  · exact run_of_rest_eq_append h
  · exact run_of_rest_eq_append h
  · exact run_of_rest_eq_append h
  · exact number_of_rest_eq_append h
  · rfl

/-- **A cut between two tokens cuts the text**, and either part has its tokens to itself. -/
theorem tokensFrom_eq_append {offset : Nat} {cs : List Char} {front back : List Token}
    (h : tokensFrom offset cs = front ++ back) :
    ∃ xs ys, cs = xs ++ ys ∧ tokensFrom offset xs = front ∧
      tokensFrom (offset + byteSize xs) ys = back := by
  induction cs using munch_induction generalizing offset front with
  | nil =>
      rw [tokensFrom_nil, List.nil_eq_append_iff] at h
      obtain ⟨rfl, rfl⟩ := h
      exact ⟨[], [], rfl, tokensFrom_nil _, tokensFrom_nil _⟩
  | cons c cs ih =>
      cases front with
      | nil => exact ⟨[], c :: cs, rfl, tokensFrom_nil _, h⟩
      | cons token front =>
          rw [tokensFrom_cons, List.cons_append, List.cons.injEq] at h
          obtain ⟨rfl, h⟩ := h
          obtain ⟨xs, ys, hrest, hfront, hback⟩ := ih h
          refine ⟨c :: ((munch c cs).more ++ xs), ys, ?_, ?_, ?_⟩
          · rw [List.cons_append, List.append_assoc, ← hrest, munch_append]
          · rw [tokensFrom_cons, munch_of_rest_eq_append hrest, hfront]
          · rw [← List.cons_append, byteSize_append, ← Nat.add_assoc]
            exact hback

theorem eq_nil_of_tokensFrom_eq_nil {offset : Nat} {cs : List Char}
    (h : tokensFrom offset cs = []) : cs = [] := by
  cases cs with
  | nil => rfl
  | cons c cs =>
      rw [tokensFrom_cons] at h
      cases h

/-- A run of the tokens of a text are the tokens of a part of it. -/
theorem exists_slice {text : String} {front inside back : List Token}
    (h : tokenize text = front ++ (inside ++ back)) :
    ∃ before piece after : String, text = before ++ piece ++ after ∧
      tokenize before = front ∧ tokensFrom before.utf8ByteSize piece.toList = inside ∧
      tokensFrom (before ++ piece).utf8ByteSize after.toList = back := by
  obtain ⟨xs, rest, htext, hfront, hrest⟩ := tokensFrom_eq_append h
  obtain ⟨ys, zs, rfl, hinside, hback⟩ := tokensFrom_eq_append hrest
  rw [Nat.zero_add] at hinside hback
  refine ⟨.ofList xs, .ofList ys, .ofList zs, ?_, ?_, ?_, ?_⟩
  · rw [← String.toList_inj, htext]
    simp
  · rw [tokenize, String.toList_ofList, hfront]
  · rw [byteSize_ofList, String.toList_ofList, hinside]
  · rw [String.utf8ByteSize_append, byteSize_ofList, byteSize_ofList, String.toList_ofList, hback]

/-- **A token is the slice of its span.** -/
theorem slice?_of_mem_tokenize {text : String} {token : Token} (h : token ∈ tokenize text) :
    token.span.slice? text = some token.lexeme := by
  obtain ⟨front, back, hsplit⟩ := List.append_of_mem h
  obtain ⟨before, piece, after, rfl, -, hinside, -⟩ :=
    @exists_slice text front [token] back hsplit
  -- a text with one token is the lexeme of this token
  cases hpiece : piece.toList with
  | nil =>
      rw [hpiece, tokensFrom_nil] at hinside
      cases hinside
  | cons c cs =>
      rw [hpiece, tokensFrom_cons, List.cons.injEq] at hinside
      obtain ⟨rfl, hrest⟩ := hinside
      have hmore := munch_append c cs
      rw [eq_nil_of_tokensFrom_eq_nil hrest, List.append_nil] at hmore
      dsimp only
      rw [hmore, ← hpiece, String.ofList_toList, Span.slice?_eq_some]
      refine ⟨before, after, rfl, rfl, ?_⟩
      rw [String.utf8ByteSize_append, byteSize_toList]

/-! ## The same text at another place -/

/-- A span whose two ends have moved. -/
def Span.relocate (start stop : Nat → Nat) (span : Span) : Span :=
  ⟨start span.start, stop span.stop⟩

/-- A token at another place. -/
def Token.relocate (start stop : Nat → Nat) (token : Token) : Token :=
  { token with span := token.span.relocate start stop }

/-- A text that stands further on has the same tokens further on. -/
theorem tokensFrom_add (offset distance : Nat) (cs : List Char) :
    tokensFrom (offset + distance) cs =
      (tokensFrom offset cs).map (Token.relocate (· + distance) (· + distance)) := by
  induction cs using munch_induction generalizing offset with
  | nil => simp
  | cons c cs ih =>
      rw [tokensFrom_cons, tokensFrom_cons, List.map_cons, ← ih, Nat.add_right_comm]
      rfl

/-- The tokens of a text, seen from where the text stands. -/
theorem tokenize_eq_map_tokensFrom (offset : Nat) (text : String) :
    tokenize text =
      (tokensFrom offset text.toList).map (Token.relocate (· - offset) (· - offset)) := by
  have hmoved := tokensFrom_add 0 offset text.toList
  rw [Nat.zero_add] at hmoved
  rw [hmoved, List.map_map, tokenize]
  refine (List.map_id'' (fun token => ?_) _).symm
  simp only [Function.comp_apply, Token.relocate, Span.relocate, Nat.add_sub_cancel]

theorem significantTokens_cons {token : Token} (h : token.isBlank = false) (rest : List Token) :
    significantTokens (token :: rest) = token :: significantTokens rest := by
  simp [significantTokens, h]

/-- A change of place leaves significant tokens significant. -/
theorem significantTokens_map_relocate (start stop : Nat → Nat) (tokens : List Token) :
    significantTokens (tokens.map (Token.relocate start stop)) =
      (significantTokens tokens).map (Token.relocate start stop) := by
  unfold significantTokens
  rw [List.filter_map]
  rfl

/-- The hull moves with the tokens. -/
theorem hull_map_relocate (start stop : Nat → Nat) {tokens : List Token} (h : tokens ≠ []) :
    hull (tokens.map (Token.relocate start stop)) = (hull tokens).relocate start stop := by
  obtain ⟨first, last, hfirst, hlast, hhull⟩ := exists_hull h
  rw [hull, List.head?_map, List.getLast?_map, hfirst, hlast, hhull]
  rfl

/-! ## Slices and significant tokens -/

/-- A list that is left by a filter is left of a part that starts and stops with it. -/
theorem exists_core_of_filter {α : Type} {keep : α → Bool} {xs mid : List α}
    (h : xs.filter keep = mid) (hne : mid ≠ []) :
    ∃ front core back, xs = front ++ (core ++ back) ∧ front.filter keep = [] ∧
      core.filter keep = mid ∧ back.filter keep = [] ∧ core.head? = mid.head? ∧
      core.getLast? = mid.getLast? := by
  have hend := h.trans (List.dropLast_append_getLast hne).symm
  obtain ⟨ys, zs, rfl, hys, hzs⟩ := List.filter_eq_append_iff.1 hend
  obtain ⟨more, back, rfl, hmore, hlast, hback⟩ := List.filter_eq_cons_iff.1 hzs
  obtain ⟨first, rest, rfl⟩ := List.exists_cons_of_ne_nil hne
  -- without what comes after its last element, the list still starts with what it did
  have hstart : (ys ++ (more ++ [(first :: rest).getLast hne])).filter keep = first :: rest := by
    rw [List.filter_append, hys, List.filter_append, List.filter_eq_nil_iff.2 hmore,
      List.filter_cons_of_pos hlast, List.filter_nil, List.nil_append, List.dropLast_append_getLast]
  obtain ⟨front, core, hsplit, hfront, hfirst, hcore⟩ := List.filter_eq_cons_iff.1 hstart
  refine ⟨front, first :: core, back, ?_, List.filter_eq_nil_iff.2 hfront, ?_, hback, rfl, ?_⟩
  · rw [← List.append_assoc front, ← hsplit]
    simp
  · rw [List.filter_cons_of_pos hfirst, hcore]
  · have hlast := congrArg List.getLast? hsplit
    rw [← List.append_assoc, List.getLast?_concat, List.getLast?_append_of_ne_nil _ (by simp)]
      at hlast
    rw [← hlast, List.getLast?_eq_some_getLast hne]

/-- The hull is decided by the first token and the last. -/
theorem hull_eq_of_ends {xs ys : List Token} (hfirst : xs.head? = ys.head?)
    (hlast : xs.getLast? = ys.getLast?) : hull xs = hull ys := by
  rw [hull, hfirst, hlast, hull]

/-- Tokens that tile a range have the range as their hull. -/
theorem Tiles.hull_eq {start stop : Nat} {tokens : List Token} (h : Tiles start tokens stop)
    (hne : tokens ≠ []) : hull tokens = ⟨start, stop⟩ := by
  obtain ⟨first, last, hfirst, hlast, hhull⟩ := exists_hull hne
  obtain ⟨rest, rfl⟩ := List.head?_eq_some_iff.1 hfirst
  rw [hhull, Span.through, h.stop_of_getLast? hlast, h.1]

/-- **A run of the significant tokens of a text are those of the slice under their hull.** -/
theorem exists_slice_of_significantTokens {text : String} {front inside back : List Token}
    (h : significantTokens (tokenize text) = front ++ (inside ++ back)) (hne : inside ≠ []) :
    ∃ before piece after : String, text = before ++ piece ++ after ∧
      significantTokens (tokenize before) = front ∧
      significantTokens (tokensFrom before.utf8ByteSize piece.toList) = inside ∧
      significantTokens (tokensFrom (before ++ piece).utf8ByteSize after.toList) = back ∧
      hull inside = ⟨before.utf8ByteSize, (before ++ piece).utf8ByteSize⟩ ∧
      (tokensFrom before.utf8ByteSize piece.toList).head? = inside.head? := by
  obtain ⟨xs, rest, htokens, hxs, hrest⟩ := List.filter_eq_append_iff.1 h
  obtain ⟨ys, zs, rfl, hys, hzs⟩ := List.filter_eq_append_iff.1 hrest
  -- blank tokens at either end of the slice are left to what surrounds it
  obtain ⟨blanks, core, blanks', rfl, hblanks, hcore, hblanks', hfirst, hlast⟩ :=
    exists_core_of_filter hys hne
  obtain ⟨before, piece, after, htext, hbefore, hpiece, hafter⟩ :=
    @exists_slice text (xs ++ blanks) core (blanks' ++ zs)
      (by rw [htokens]; simp)
  have hsome : core ≠ [] := by
    rintro rfl
    exact hne (by rw [← hcore, List.filter_nil])
  have htiles := tiles_tokensFrom before.utf8ByteSize piece.toList
  rw [hpiece, byteSize_toList, ← String.utf8ByteSize_append] at htiles
  refine ⟨before, piece, after, htext, ?_, ?_, ?_, ?_, hpiece ▸ hfirst⟩
  · rw [hbefore, significantTokens, List.filter_append, hxs, hblanks, List.append_nil]
  · rw [hpiece, significantTokens, hcore]
  · rw [hafter, significantTokens, List.filter_append, hzs, hblanks', List.nil_append]
  · rw [← hull_eq_of_ends hfirst hlast]
    exact htiles.hull_eq hsome

/-- The slice from the end of a significant token to the end of the tokens after it. -/
theorem exists_slice_after {text : String} {front inside back : List Token} {token : Token}
    (h : significantTokens (tokenize text) = front ++ (token :: inside ++ back)) :
    ∃ piece, (⟨token.span.stop, (hull (token :: inside)).stop⟩ : Span).slice? text = some piece ∧
      significantTokens (tokensFrom token.span.stop piece.toList) = inside := by
  obtain ⟨before, piece, after, rfl, -, hpiece, -, hhull, hfirst⟩ :=
    exists_slice_of_significantTokens h (List.cons_ne_nil _ _)
  -- the token is also the first of all tokens of the slice, so it can be cut off
  obtain ⟨rest, hrest⟩ := List.head?_eq_some_iff.1 hfirst
  obtain ⟨xs, ys, hsplit, hxs, hys⟩ := @tokensFrom_eq_append _ _ [token] rest hrest
  have hstop : token.span.stop = before.utf8ByteSize + byteSize xs := by
    have htiles := tiles_tokensFrom before.utf8ByteSize xs
    rw [hxs] at htiles
    exact htiles.2.2
  have hmem : token ∈ significantTokens (tokensFrom before.utf8ByteSize piece.toList) := by
    rw [hpiece]
    exact List.mem_cons_self
  refine ⟨.ofList ys, Span.slice?_eq_some.2 ⟨before ++ .ofList xs, after, ?_, ?_, ?_⟩, ?_⟩
  · rw [← String.toList_inj]
    simp [hsplit]
  · rw [String.utf8ByteSize_append, byteSize_ofList, hstop]
  · rw [hhull, String.append_assoc, ← String.ofList_append, ← hsplit, String.ofList_toList]
  · rw [String.toList_ofList, hstop, hys]
    rw [hrest, significantTokens_cons (Bool.not_eq_true' _ ▸ (List.mem_filter.1 hmem).2)] at hpiece
    exact (List.cons.inj hpiece).2

end AlgebraText
