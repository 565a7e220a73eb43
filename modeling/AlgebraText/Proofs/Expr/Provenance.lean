import AlgebraText.Proofs.Expr.Occurrence

/-!
# Origins are the text of their nodes

The origin of a node names a rule and a span, and the span can be taken at its word: the text under
it is read as the node. So a node can be shown, quoted or read again from the text alone. The span
of an operation with an operator covers the operator too, which is its first character, and the text
after that is read as the operand.

This holds because a slice of a text has the tokens of the text, and because a node occurs in these
tokens as a phrase that does not depend on what surrounds it.

## What this module delivers

* `parse_of_phrase`: reading the slice of a phrase gives its expression, moved to the start;
* `below_of_mem_preorder`: a walk visits what is below its start;
* `Node.Traced`, what the origin of a node promises about a text;
* `traced_of_parse`: every node of what was read keeps this promise.
-/

set_option autoImplicit false

namespace AlgebraText

/-! ## Reading a slice -/

/-- A text is read as the expression of its tokens, wherever these were counted from. -/
theorem parse_of_phrase {offset : Nat} {text : String} {e : Expr}
    (h : Phrase 2 (significantTokens (tokensFrom offset text.toList)) e) :
    parse text = .ok (e.relocate (· - offset) (· - offset)) := by
  rw [parse_eq_ok_iff_phrase, tokenize_eq_map_tokensFrom offset, significantTokens_map_relocate]
  exact h.relocate _ _

/-- What was read equals everything that differs from it in origins only. -/
theorem equal_of_parse {text : String} {e e' : Expr} (h : parse text = .ok e)
    (hbare : e.bare = e'.bare) : e.equal e' = true := by
  refine Expr.equal_of_bare_eq e e' hbare fun hmem => ?_
  rcases decimal_of_parse h _ hmem with hliteral | hinfinite
  · cases hliteral
  · cases hinfinite

/-- The text under a span is read as an expression. -/
def Span.ReadsAs (span : Span) (text : String) (e : Expr) : Prop :=
  ∃ piece result, span.slice? text = some piece ∧ parse piece = .ok result ∧ result.equal e = true

/-- A slice that has the tokens of a phrase is read as its expression. -/
theorem Span.readsAs_of_phrase {span : Span} {text piece : String} {offset : Nat} {e : Expr}
    (hslice : span.slice? text = some piece)
    (h : Phrase 2 (significantTokens (tokensFrom offset piece.toList)) e) :
    span.ReadsAs text e :=
  ⟨piece, _, hslice, parse_of_phrase h, equal_of_parse (parse_of_phrase h) (e.bare_relocate _ _)⟩

/-- The tokens of a phrase in a text stand in the slice under their hull. -/
theorem exists_slice_of_phrase {text : String} {front inside back : List Token} {e : Expr}
    (hsplit : significantTokens (tokenize text) = front ++ (inside ++ back))
    (h : Phrase 2 inside e) :
    ∃ piece, (hull inside).slice? text = some piece ∧
      Phrase 2 (significantTokens (tokensFrom (hull inside).start piece.toList)) e := by
  obtain ⟨before, piece, after, rfl, -, hpiece, -, hhull, -⟩ :=
    exists_slice_of_significantTokens hsplit h.tokens_ne_nil
  refine ⟨piece, Span.slice?_eq_some.2 ⟨before, after, rfl, ?_, ?_⟩, ?_⟩
  · rw [hhull]
  · rw [hhull]
  · rw [hhull, hpiece]
    exact h

/-- A token of the kind of an operator is spelled like the operator. -/
theorem lexeme_of_kind_eq {text : String} {token : Token} {method : Method}
    (h : token ∈ tokenize text) (hkind : token.kind = method.kind) :
    token.lexeme = method.symbol := by
  have hmatches := matches_of_mem_tokenize h
  rw [hkind] at hmatches
  rw [← String.toList_inj]
  cases method <;> exact hmatches

/-- The span of an operator is its one character. -/
theorem slice?_operator {text : String} {token : Token} {method : Method}
    (h : token ∈ tokenize text) (hkind : token.kind = method.kind) :
    token.span = ⟨token.span.start, token.span.start + 1⟩ ∧
      token.span.slice? text = some method.symbol := by
  have hslice := slice?_of_mem_tokenize h
  rw [lexeme_of_kind_eq h hkind] at hslice
  refine ⟨?_, hslice⟩
  obtain ⟨before, after, -, hstart, hstop⟩ := Span.slice?_eq_some.1 hslice
  have hsize : method.symbol.utf8ByteSize = 1 := by
    cases method <;> rfl
  rw [String.utf8ByteSize_append, hstart, hsize] at hstop
  rw [hstop]

/-! ## The walk visits what is below its start -/

mutual

theorem Expr.below_of_mem_preorderAt : ∀ (e : Expr) (place : Place),
    ∀ located ∈ e.preorderAt place, (Node.expr e).Below located.node
  | .integer .., _, _, h => by
      rw [Expr.preorderAt, List.mem_singleton] at h
      exact h ▸ .refl
  | .decimal .., _, _, h => by
      rw [Expr.preorderAt, List.mem_singleton] at h
      exact h ▸ .refl
  | .var .., _, _, h => by
      rw [Expr.preorderAt, List.mem_singleton] at h
      exact h ▸ .refl
  | .app name body origin, place, located, h => by
      rw [Expr.preorderAt, List.mem_cons] at h
      rcases h with rfl | h
      · exact .refl
      · exact .head List.mem_cons_self (Expr.below_of_mem_preorderAt body _ located h)
  | .neg body origin, place, located, h => by
      rw [Expr.preorderAt, List.mem_cons] at h
      rcases h with rfl | h
      · exact .refl
      · exact .head List.mem_cons_self (Expr.below_of_mem_preorderAt body _ located h)
  | .seq operations origin, place, located, h => by
      rw [Expr.preorderAt, List.mem_cons] at h
      rcases h with rfl | h
      · exact .refl
      · obtain ⟨operation, hmem, hbelow⟩ :=
          Operation.below_of_mem_preorderAtList operations _ _ located h
        exact .head (List.mem_map_of_mem hmem) hbelow

theorem Operation.below_of_mem_preorderAtList : ∀ (operations : List Operation) (place : Place)
    (position : Nat), ∀ located ∈ Operation.preorderAtList place position operations,
      ∃ operation ∈ operations, (Node.operation operation).Below located.node
  | [], _, _, _, h => by cases h
  | ⟨method, operand, origin⟩ :: rest, place, position, located, h => by
      rw [Operation.preorderAtList, Operation.preorderAt, List.mem_append, List.mem_cons] at h
      rcases h with (rfl | h) | h
      · exact ⟨_, List.mem_cons_self, .refl⟩
      · exact ⟨_, List.mem_cons_self,
          .head List.mem_cons_self (Expr.below_of_mem_preorderAt operand _ located h)⟩
      · obtain ⟨operation, hmem, hbelow⟩ :=
          Operation.below_of_mem_preorderAtList rest _ _ located h
        exact ⟨operation, List.mem_cons_of_mem _ hmem, hbelow⟩

end

/-- A walk from an expression visits nodes below it. -/
theorem below_of_mem_preorder {tree : Nat} {e : Expr} {located : Located}
    (h : located ∈ (Located.root tree e).preorder) : (Node.expr e).Below located.node :=
  e.below_of_mem_preorderAt _ located h

/-! ## The tokens of a node -/

namespace Node.ReadFrom

variable {node : Node} {tokens : List Token}

/-- The origin of a node covers the tokens that it was read from. -/
theorem origin (h : node.ReadFrom tokens) : ∃ rule, node.origin = some ⟨rule, hull tokens⟩ := by
  match node with
  | .expr e => exact h.2
  | .operation ⟨none, operand, origin⟩ => exact h.2
  | .operation ⟨some method, operand, origin⟩ =>
      obtain ⟨_, _, -, -, -, horigin⟩ := h
      exact horigin

theorem tokens_ne_nil (h : node.ReadFrom tokens) : tokens ≠ [] := by
  match node with
  | .expr e => exact h.1.tokens_ne_nil
  | .operation ⟨none, operand, origin⟩ => exact h.1.tokens_ne_nil
  | .operation ⟨some method, operand, origin⟩ =>
      obtain ⟨operator, right, rfl, -⟩ := h
      exact List.cons_ne_nil operator right

/-- The tokens of a child are among those of the node. -/
theorem exists_child (h : node.ReadFrom tokens) {child : Node} (hchild : child ∈ node.children) :
    ∃ part, part.Sublist tokens ∧ child.ReadFrom part := by
  -- what is below an expression occurs in its tokens, whichever kind of node they belong to
  have hwithin : ∀ {e : Expr} {inside : List Token}, Phrase 2 inside e →
      (Node.expr e).Below child → ∃ part, part.Sublist inside ∧ child.ReadFrom part := by
    intro e inside hphrase hbelow
    obtain ⟨front, part, back, rfl, hoccurrence⟩ := hphrase.exists_occurrence hbelow
    exact ⟨part, (List.sublist_append_left part back).trans (List.sublist_append_right front _),
      hoccurrence.read⟩
  match node with
  | .expr e => exact hwithin h.1 (.single hchild)
  | .operation ⟨none, operand, origin⟩ =>
      obtain rfl := List.mem_singleton.1 hchild
      exact hwithin h.1 .refl
  | .operation ⟨some method, operand, origin⟩ =>
      obtain rfl := List.mem_singleton.1 hchild
      obtain ⟨operator, right, rfl, -, hright, -⟩ := h
      obtain ⟨part, hpart, hread⟩ := hwithin hright .refl
      exact ⟨part, hpart.cons operator, hread⟩

end Node.ReadFrom

/-! ## The operations of a sequence -/

/-- The operations of a sequence as they stand in a text: the first has no operator, every other has
one, and each ends before the next starts. -/
structure Operation.InOrder (operations : List Operation) : Prop where
  /-- Operators stand between operands. -/
  alternating : ∃ first rest, operations = first :: rest ∧ first.method = none ∧ rest ≠ [] ∧
    ∀ operation ∈ rest, ∃ method, operation.method = some method
  /-- The spans are disjoint and ascend. -/
  ascending : operations.Pairwise fun earlier later => ∃ origin origin',
    earlier.origin = some origin ∧ later.origin = some origin' ∧ origin.span.Before origin'.span

/-- The operations of a sequence are in order. -/
theorem Phrase.inOrder {level : Nat} {tokens : List Token} {e : Expr} (h : Phrase level tokens e)
    (hordered : Ordered tokens) {operations : List Operation} {origin : Option Origin}
    (he : e = .seq operations origin) : Operation.InOrder operations := by
  induction h with
  | loosen _ _ ih => exact ih hordered he
  | @chain rule tokens first links _ hfirst hne _ _ _ _ =>
      cases he
      refine ⟨⟨_, _, rfl, rfl, mt List.map_eq_nil_iff.1 hne, ?_⟩, List.pairwise_cons.2 ⟨?_, ?_⟩⟩
      · exact List.forall_mem_map.2 fun link _ => ⟨link.method, rfl⟩
      · refine List.forall_mem_map.2 fun link hmem => ⟨_, _, rfl, rfl, ?_⟩
        refine hull_before_hull hfirst.tokens_ne_nil link.leaves_ne_nil ?_
        intro earlier hearlier later hlater
        exact (List.pairwise_append.1 hordered.pairwise).2.2 earlier hearlier later
          (List.mem_flatMap.2 ⟨link, hmem, hlater⟩)
      · have hlinks := (hordered.sublist (List.sublist_append_right tokens _)).pairwise_hull
          fun link _ => link.leaves_ne_nil
        exact List.pairwise_map.2 (hlinks.imp fun hbefore => ⟨_, _, rfl, rfl, hbefore⟩)
  | @paren opening closing tokens e _ _ _ ih =>
      -- parentheses leave no node, so the sequence is the one between them
      refine ih (hordered.sublist ?_) he
      exact (List.sublist_append_left tokens [closing]).cons opening
  | negated | function | var | integer | decimal => cases he

/-! ## What origins promise -/

/-- The text under the span of a node is the node. Read on its own, it gives an expression that is
equal to the node and has the same rule at its root; for an operation with an operator it is the
symbol of the operator and what is read as the operand. -/
def Node.TrueTo (text : String) (origin : Origin) : Node → Prop
  | expr e => ∃ piece result, origin.span.slice? text = some piece ∧ parse piece = .ok result ∧
      result.equal e = true ∧
      result.origin = some ⟨origin.rule, ⟨0, origin.span.stop - origin.span.start⟩⟩
  | operation ⟨none, operand, _⟩ => origin.span.ReadsAs text operand
  | operation ⟨some method, operand, _⟩ =>
    (⟨origin.span.start, origin.span.start + 1⟩ : Span).slice? text = some method.symbol ∧
      (⟨origin.span.start + 1, origin.span.stop⟩ : Span).ReadsAs text operand

/-- What the origin of a node promises about a text. -/
structure Node.Traced (text : String) (origin : Origin) (node : Node) : Prop where
  /-- The node has this origin. -/
  recorded : node.origin = some origin
  /-- The span of the origin covers the text of the node. -/
  trueTo : node.TrueTo text origin
  /-- The nodes below it have their origins within its span. -/
  inside : ∀ child ∈ node.children, ∃ inner, child.origin = some inner ∧
    inner.span.Inside origin.span
  /-- The operations of a sequence are in order. -/
  inOrder : ∀ operations place, node = .expr (.seq operations place) →
    Operation.InOrder operations

/-- A node that was read from some tokens of a text is true to the text. -/
theorem Node.ReadFrom.trueTo {text : String} {node : Node} {front inside back : List Token}
    {origin : Origin} (h : node.ReadFrom inside)
    (hsplit : significantTokens (tokenize text) = front ++ (inside ++ back))
    (horigin : node.origin = some origin) : node.TrueTo text origin := by
  obtain ⟨rule, hrule⟩ := h.origin
  obtain rfl : origin = ⟨rule, hull inside⟩ := Option.some.inj (horigin.symm.trans hrule)
  match node with
  | .expr e =>
      obtain ⟨piece, hslice, hphrase⟩ := exists_slice_of_phrase hsplit h.1
      have hparse := parse_of_phrase hphrase
      refine ⟨piece, _, hslice, hparse, equal_of_parse hparse (e.bare_relocate _ _), ?_⟩
      rw [e.origin_relocate, show e.origin = _ from hrule]
      simp [Origin.relocate, Span.relocate]
  | .operation ⟨none, operand, _⟩ =>
      obtain ⟨piece, hslice, hphrase⟩ := exists_slice_of_phrase hsplit h.1
      exact Span.readsAs_of_phrase hslice hphrase
  | .operation ⟨some method, operand, _⟩ =>
      obtain ⟨operator, right, rfl, hkind, hright, -⟩ := h
      have hmem : operator ∈ significantTokens (tokenize text) := by simp [hsplit]
      obtain ⟨hspan, hsymbol⟩ := slice?_operator (List.mem_filter.1 hmem).1 hkind
      -- the operator is one byte, so the operand is read from the byte after its start
      obtain ⟨piece, hslice, hpiece⟩ := exists_slice_after hsplit
      have hstart : (hull (operator :: right)).start = operator.span.start := by
        rw [hull_cons operator hright.tokens_ne_nil]
        rfl
      have hstop : operator.span.stop = operator.span.start + 1 := congrArg Span.stop hspan
      rw [hspan] at hsymbol
      rw [hstop] at hslice hpiece
      simp only [TrueTo, hstart]
      exact ⟨hsymbol, Span.readsAs_of_phrase hslice (hpiece ▸ hright)⟩

/-- **The origins of what was read are the text of its nodes.** Every node has an origin, the text
under its span is read as the node, its children stand within this span, and the operations of a
sequence stand in it one after another. -/
theorem traced_of_parse {text : String} {e : Expr} (h : parse text = .ok e) (tree : Nat) :
    ∀ located ∈ (Located.root tree e).preorder, ∃ origin, located.node.Traced text origin := by
  intro located hmem
  obtain ⟨front, inside, back, hsplit, hoccurrence⟩ :=
    (parse_eq_ok_iff_phrase.1 h).exists_occurrence (below_of_mem_preorder hmem)
  have hread := hoccurrence.read
  have hordered : Ordered inside := by
    have hall := ordered_significantTokens text
    rw [hsplit] at hall
    exact hall.sublist ((List.sublist_append_left inside back).trans
      (List.sublist_append_right front _))
  obtain ⟨rule, horigin⟩ := hread.origin
  refine ⟨⟨rule, hull inside⟩, horigin, hread.trueTo hsplit horigin, ?_, ?_⟩
  · intro child hchild
    obtain ⟨part, hpart, hread'⟩ := hread.exists_child hchild
    obtain ⟨rule', horigin'⟩ := hread'.origin
    exact ⟨_, horigin', hordered.hull_inside_hull hpart hread'.tokens_ne_nil⟩
  · intro operations place hnode
    rw [hnode] at hread
    exact hread.1.inOrder hordered rfl

/-- Nodes of most kinds. The first operand is read with its parentheses, and there are blanks after
an operator. -/
theorem traced_of_parse_quotient :
    ∃ e, parse "(a+2)/  -f[b]^3" = .ok e ∧
      ∀ located ∈ (Located.root 0 e).preorder,
        ∃ origin, located.node.Traced "(a+2)/  -f[b]^3" origin := by
  obtain ⟨e, hparse⟩ : ∃ e, parse "(a+2)/  -f[b]^3" = .ok e := exists_ok_of_isSome (by cbv)
  exact ⟨e, hparse, traced_of_parse hparse 0⟩

end AlgebraText
