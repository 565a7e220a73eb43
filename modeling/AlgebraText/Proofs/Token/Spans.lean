import AlgebraText.Proofs.Token.Words
import AlgebraText.Parser.Cursor

/-!
# Where the tokens of a text stand

The tokens of a text follow one another without a gap, none of them is empty, and together they
cover the text. What is said about the places of tokens follows from this: every token lies within
the text, an earlier one ends before a later one starts, and the end of the last token is the end
of the text.

## What this module delivers

* `byteSize_toList`: the two ways of measuring a text agree;
* `Tiles`, with `tiles_tokenize`: the tokens of a text tile it;
* `Tiles.within` and `Tiles.pairwise`, the places of tokens within a tiled range;
* `Cursor.endOffset_ofText`: the parser finds the end of the text.
-/

set_option autoImplicit false

namespace AlgebraText

/-- A text is as long as its characters. -/
theorem byteSize_ofList (cs : List Char) : (String.ofList cs).utf8ByteSize = byteSize cs := by
  induction cs with
  | nil => rfl
  | cons c cs ih =>
      rw [String.ofList_cons, String.utf8ByteSize_append, String.utf8ByteSize_singleton, ih,
        byteSize_cons]

theorem byteSize_toList (text : String) : byteSize text.toList = text.utf8ByteSize := by
  rw [← byteSize_ofList, String.ofList_toList]

/-- Tokens that follow one another without a gap, none of them empty, from one offset to another. -/
def Tiles : Nat → List Token → Nat → Prop
  | start, [], stop => start = stop
  | start, token :: rest, stop =>
    token.span.start = start ∧ start < token.span.stop ∧ Tiles token.span.stop rest stop

/-- The tokens of a text tile it from its first byte to its last. -/
theorem tiles_tokensFrom (offset : Nat) (cs : List Char) :
    Tiles offset (tokensFrom offset cs) (offset + byteSize cs) := by
  induction cs using munch_induction generalizing offset with
  | nil =>
      rw [tokensFrom_nil]
      rfl
  | cons c cs ih =>
      have hsplit := congrArg byteSize (munch_append c cs)
      have hpos := c.utf8Size_pos
      rw [byteSize_append] at hsplit
      rw [tokensFrom_cons]
      -- the lexeme holds at least its first character, and the rest starts where it ends
      refine ⟨rfl, ?_, ?_⟩
      · show offset < offset + byteSize (c :: (munch c cs).more)
        rw [byteSize_cons]
        omega
      · have hrest := ih (offset + byteSize (c :: (munch c cs).more))
        rwa [show offset + byteSize (c :: (munch c cs).more) + byteSize (munch c cs).rest =
          offset + byteSize (c :: cs) by simp only [byteSize_cons]; omega] at hrest

theorem tiles_tokenize (text : String) : Tiles 0 (tokenize text) text.utf8ByteSize := by
  have h := tiles_tokensFrom 0 text.toList
  rwa [Nat.zero_add, byteSize_toList] at h

namespace Tiles

variable {start stop : Nat} {tokens : List Token}

theorem start_le_stop (h : Tiles start tokens stop) : start ≤ stop := by
  induction tokens generalizing start with
  | nil => exact Nat.le_of_eq h
  | cons token rest ih =>
      obtain ⟨-, hpos, hrest⟩ := h
      exact (Nat.le_of_lt hpos).trans (ih hrest)

/-- A token of a tiled range is not empty and lies within the range. -/
theorem within (h : Tiles start tokens stop) {token : Token} (hmem : token ∈ tokens) :
    start ≤ token.span.start ∧ token.span.start < token.span.stop ∧ token.span.stop ≤ stop := by
  induction tokens generalizing start with
  | nil => cases hmem
  | cons first rest ih =>
      obtain ⟨hstart, hpos, hrest⟩ := h
      rcases List.mem_cons.1 hmem with rfl | hmem
      · exact ⟨hstart.ge, hstart ▸ hpos, hrest.start_le_stop⟩
      · obtain ⟨hle, hinside⟩ := ih hrest hmem
        exact ⟨(Nat.le_of_lt hpos).trans hle, hinside⟩

/-- Of two tokens the earlier one ends before the later one starts. -/
theorem pairwise (h : Tiles start tokens stop) :
    tokens.Pairwise fun earlier later => earlier.span.stop ≤ later.span.start := by
  induction tokens generalizing start with
  | nil => exact .nil
  | cons token rest ih =>
      obtain ⟨-, -, hrest⟩ := h
      exact .cons (fun later hmem => (hrest.within hmem).1) (ih hrest)

/-- The last token ends where the range does. -/
theorem stop_of_getLast? (h : Tiles start tokens stop) {last : Token}
    (hlast : tokens.getLast? = some last) : last.span.stop = stop := by
  induction tokens generalizing start with
  | nil => cases hlast
  | cons token rest ih =>
      obtain ⟨-, -, hrest⟩ := h
      cases rest with
      | nil =>
          obtain rfl : token = last := by simpa using hlast
          exact hrest
      | cons next rest => exact ih hrest (by simpa using hlast)

end Tiles

/-- The significant tokens of a text are not empty and lie within it. -/
theorem within_of_mem_significantTokens {text : String} {token : Token}
    (h : token ∈ significantTokens (tokenize text)) :
    token.span.start < token.span.stop ∧ token.span.stop ≤ text.utf8ByteSize :=
  ((tiles_tokenize text).within (List.mem_filter.1 h).1).2

/-- The significant tokens of a text stand one after another. -/
theorem pairwise_significantTokens (text : String) :
    (significantTokens (tokenize text)).Pairwise
      fun earlier later => earlier.span.stop ≤ later.span.start :=
  (tiles_tokenize text).pairwise.filter _

/-- At the start of a text the parser sees the end of the text as the end of its tokens. -/
theorem Cursor.endOffset_ofText (text : String) :
    (Cursor.ofText text).endOffset = text.utf8ByteSize := by
  have htiles := tiles_tokenize text
  cases hlast : (tokenize text).getLast? with
  | some last =>
      have hend : (Cursor.ofText text).ahead.getLast? = some last := hlast
      rw [Cursor.endOffset, hend]
      exact htiles.stop_of_getLast? hlast
  | none =>
      -- without tokens there is no text either
      rw [List.getLast?_eq_none_iff] at hlast
      rw [hlast] at htiles
      rw [Cursor.ofText, hlast]
      exact htiles

/-! ## The span of several tokens -/

namespace Span

/-- The first span lies within the second. -/
def Inside (inner outer : Span) : Prop := outer.start ≤ inner.start ∧ inner.stop ≤ outer.stop

/-- The first span ends before the second starts. -/
def Before (earlier later : Span) : Prop := earlier.stop ≤ later.start

end Span

/-- Tokens that are not empty and stand one after another. -/
structure Ordered (tokens : List Token) : Prop where
  /-- No token is empty. -/
  start_lt_stop : ∀ token ∈ tokens, token.span.start < token.span.stop
  /-- An earlier token ends before a later one starts. -/
  pairwise : tokens.Pairwise fun earlier later => earlier.span.Before later.span

theorem ordered_significantTokens (text : String) : Ordered (significantTokens (tokenize text)) :=
  ⟨fun _ hmem => (within_of_mem_significantTokens hmem).1, pairwise_significantTokens text⟩

/-- The span from the first of some tokens to the last. -/
def hull (tokens : List Token) : Span :=
  match tokens.head?, tokens.getLast? with
  | some first, some last => first.span.through last.span
  | _, _ => Span.point 0

@[simp]
theorem hull_singleton (token : Token) : hull [token] = token.span := rfl

/-- The hull of some tokens has a first and a last token. -/
theorem exists_hull {tokens : List Token} (h : tokens ≠ []) :
    ∃ first last, tokens.head? = some first ∧ tokens.getLast? = some last ∧
      hull tokens = first.span.through last.span := by
  have hfirst := List.head?_eq_some_head h
  have hlast := List.getLast?_eq_some_getLast h
  exact ⟨_, _, hfirst, hlast, by rw [hull, hfirst, hlast]⟩

/-- The hull starts where that of the first tokens does. -/
theorem start_hull_append {xs : List Token} (h : xs ≠ []) (ys : List Token) :
    (hull (xs ++ ys)).start = (hull xs).start := by
  obtain ⟨first, last, hfirst, hlast, hhull⟩ := exists_hull h
  obtain ⟨first', last', hfirst', -, hhull'⟩ := exists_hull (List.append_ne_nil_of_left_ne_nil h ys)
  rw [List.head?_append, hfirst, Option.some_or, Option.some.injEq] at hfirst'
  rw [hhull, hhull', hfirst']
  rfl

/-- The hull stops where that of the last tokens does. -/
theorem stop_hull_append (xs : List Token) {ys : List Token} (h : ys ≠ []) :
    (hull (xs ++ ys)).stop = (hull ys).stop := by
  obtain ⟨first, last, hfirst, hlast, hhull⟩ := exists_hull h
  obtain ⟨first', last', -, hlast', hhull'⟩ := exists_hull (List.append_ne_nil_of_right_ne_nil xs h)
  rw [List.getLast?_append, hlast, Option.some_or, Option.some.injEq] at hlast'
  rw [hhull, hhull', hlast']
  rfl

/-- A token in front moves the start of the hull only. -/
theorem hull_cons (token : Token) {tokens : List Token} (h : tokens ≠ []) :
    hull (token :: tokens) = token.span.through (hull tokens) := by
  have hstart := start_hull_append (List.cons_ne_nil token []) tokens
  have hstop := stop_hull_append [token] h
  rw [List.singleton_append] at hstart hstop
  rw [Span.through, ← hstop, ← hull_singleton token, ← hstart]

/-- Tokens that stand before others have their hull before that of the others. -/
theorem hull_before_hull {xs ys : List Token} (hxs : xs ≠ []) (hys : ys ≠ [])
    (h : ∀ earlier ∈ xs, ∀ later ∈ ys, earlier.span.Before later.span) :
    (hull xs).Before (hull ys) := by
  obtain ⟨_, last, _, hlast, hhull⟩ := exists_hull hxs
  obtain ⟨first, _, hfirst, _, hhull'⟩ := exists_hull hys
  rw [hhull, hhull']
  exact h last (List.mem_of_getLast? hlast) first (List.mem_of_head? hfirst)

namespace Ordered

variable {tokens part : List Token}

theorem sublist (h : Ordered tokens) (hpart : part.Sublist tokens) : Ordered part :=
  ⟨fun token hmem => h.start_lt_stop token (hpart.mem hmem), h.pairwise.sublist hpart⟩

/-- Every token lies within the hull. -/
theorem inside_hull (h : Ordered tokens) {token : Token} (hmem : token ∈ tokens) :
    token.span.Inside (hull tokens) := by
  obtain ⟨first, last, hfirst, hlast, hhull⟩ := exists_hull (List.ne_nil_of_mem hmem)
  have hpos := h.start_lt_stop token hmem
  obtain ⟨rest, rfl⟩ := List.head?_eq_some_iff.1 hfirst
  have hordered := List.pairwise_cons.1 h.pairwise
  rw [hhull]
  constructor
  · show first.span.start ≤ token.span.start
    rcases List.mem_cons.1 hmem with rfl | hrest
    · exact Nat.le_refl _
    · have hbefore : first.span.stop ≤ token.span.start := hordered.1 token hrest
      have hfirst := h.start_lt_stop first List.mem_cons_self
      omega
  · show token.span.stop ≤ last.span.stop
    obtain ⟨front, hfront⟩ := List.getLast?_eq_some_iff.1 hlast
    rw [hfront] at hmem
    have hpairwise := h.pairwise
    rw [hfront, List.pairwise_append] at hpairwise
    rcases List.mem_append.1 hmem with hmem | hmem
    · have hbefore : token.span.stop ≤ last.span.start :=
        hpairwise.2.2 token hmem last List.mem_cons_self
      have hend := h.start_lt_stop last (hfront ▸ List.mem_append_right _ List.mem_cons_self)
      omega
    · rw [List.mem_singleton.1 hmem]

/-- The hull of some of the tokens lies within the hull of all. -/
theorem hull_inside_hull (h : Ordered tokens) (hpart : part.Sublist tokens) (hne : part ≠ []) :
    (hull part).Inside (hull tokens) := by
  obtain ⟨first, last, hfirst, hlast, hhull⟩ := exists_hull hne
  have hstart := h.inside_hull (hpart.mem (List.mem_of_head? hfirst))
  have hstop := h.inside_hull (hpart.mem (List.mem_of_getLast? hlast))
  rw [hhull]
  exact ⟨hstart.1, hstop.2⟩

/-- Parts that follow one another have their hulls one before another. -/
theorem pairwise_hull {α : Type} {leaves : α → List Token} {parts : List α}
    (h : Ordered (parts.flatMap leaves)) (hne : ∀ part ∈ parts, leaves part ≠ []) :
    parts.Pairwise fun earlier later => (hull (leaves earlier)).Before (hull (leaves later)) :=
  (List.pairwise_flatMap.1 h.pairwise).2.imp_of_mem fun hearlier hlater hbefore =>
    hull_before_hull (hne _ hearlier) (hne _ hlater) hbefore

/-- The hull of some tokens is not empty. -/
theorem hull_start_lt_stop (h : Ordered tokens) (hne : tokens ≠ []) :
    (hull tokens).start < (hull tokens).stop := by
  obtain ⟨first, last, hfirst, hlast, hhull⟩ := exists_hull hne
  have hinside := h.inside_hull (List.mem_of_head? hfirst)
  have hpos := h.start_lt_stop first (List.mem_of_head? hfirst)
  have hstop := hinside.2
  have hstart := hinside.1
  omega

end Ordered

end AlgebraText
