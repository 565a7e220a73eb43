import AlgebraText.Proofs.Expr.Equality
import AlgebraText.Proofs.Expr.Phrase
import AlgebraText.Proofs.Token.Slices
import AlgebraText.Walk.Place

/-!
# Occurrences in a phrase

Every node of an expression occurs somewhere in the tokens that the expression was read from: there
are tokens in the middle that the node was read from itself, with other tokens before and after
them. What surrounds an occurrence does not look into it. It reads anything else that binds as
tightly as an atom in the same way (`Frame`), which is why an occurrence can be replaced.

Spans are data for what reads a text and never decide anything, so a phrase at another place stands
for the same expression with its origins there (`Phrase.relocate`).

## What this module delivers

* `Expr.relocate`, with `Phrase.relocate`: phrases elsewhere;
* `Frame`, the surroundings of a part of a phrase, with one lemma for each way of nesting;
* `Node.ReadFrom`, what it means for a node that tokens are its own;
* `Phrase.exists_occurrence`: every node below an expression occurs in its tokens.
-/

set_option autoImplicit false

namespace AlgebraText

/-! ## Phrases elsewhere -/

/-- An origin at another place. -/
def Origin.relocate (start stop : Nat → Nat) (origin : Origin) : Origin :=
  { origin with span := origin.span.relocate start stop }

/-- An expression whose origins have moved. -/
def Expr.relocate (start stop : Nat → Nat) (e : Expr) : Expr :=
  e.relabel (fun _ => false) (Option.map (Origin.relocate start stop))

theorem Expr.bare_relocate (start stop : Nat → Nat) (e : Expr) :
    (e.relocate start stop).bare = e.bare :=
  e.bare_relabel _

theorem Expr.origin_relocate (start stop : Nat → Nat) (e : Expr) :
    (e.relocate start stop).origin = e.origin.map (Origin.relocate start stop) := by
  cases e <;> rfl

namespace Link

theorem leaves_ne_nil (link : Link) : link.leaves ≠ [] := List.cons_ne_nil _ _

/-- A link at another place. -/
def relocate (start stop : Nat → Nat) (link : Link) : Link :=
  ⟨link.operator.relocate start stop, link.method, link.tokens.map (Token.relocate start stop),
    link.operand.relocate start stop⟩

theorem leaves_relocate (start stop : Nat → Nat) (link : Link) :
    (link.relocate start stop).leaves = link.leaves.map (Token.relocate start stop) := rfl

theorem flatMap_leaves_relocate (start stop : Nat → Nat) (links : List Link) :
    (links.map (relocate start stop)).flatMap leaves =
      (links.flatMap leaves).map (Token.relocate start stop) := by
  rw [List.flatMap_map, List.map_flatMap]
  rfl

theorem operation_relocate (start stop : Nat → Nat) (rule : Rule) (link : Link) :
    (link.relocate start stop).operation rule =
      ⟨some link.method, link.operand.relocate start stop,
        (link.operation rule).origin.map (Origin.relocate start stop)⟩ := by
  rw [operation, leaves_relocate, hull_map_relocate start stop link.leaves_ne_nil]
  rfl

/-- What a link is without its place. -/
def bare (link : Link) : Operation := ⟨some link.method, link.operand.bare, none⟩

theorem bare_relocate (start stop : Nat → Nat) (link : Link) :
    (link.relocate start stop).bare = link.bare := by
  rw [bare, relocate, link.operand.bare_relocate, bare]

/-- A link of a chain: an operator of the rule and an operand of the next level. -/
structure Fits (rule : Rule) (link : Link) : Prop where
  /-- The operator belongs to the rule. -/
  method : chainMethod? rule link.operator.kind = some link.method
  /-- The operand is a phrase. -/
  phrase : Phrase (rule.level + 1) link.tokens link.operand

end Link

/-- **A phrase at another place stands for the same expression there.** -/
theorem Phrase.relocate (start stop : Nat → Nat) {level : Nat} {tokens : List Token} {e : Expr}
    (h : Phrase level tokens e) :
    Phrase level (tokens.map (Token.relocate start stop)) (e.relocate start stop) := by
  induction h with
  | loosen hlow _ ih => exact .loosen hlow ih
  | @chain rule tokens first links hchain hfirst hne hmethods hlinks ihfirst ihlinks =>
      have hmoved := @Phrase.chain rule _ _ (links.map (Link.relocate start stop)) hchain ihfirst
        (mt List.map_eq_nil_iff.1 hne) (List.forall_mem_map.2 hmethods)
        (List.forall_mem_map.2 ihlinks)
      have hsome : tokens ++ links.flatMap Link.leaves ≠ [] :=
        List.append_ne_nil_of_left_ne_nil hfirst.tokens_ne_nil _
      -- the origins in the chain are hulls, and a hull moves with its tokens
      rw [Link.flatMap_leaves_relocate, ← List.map_append, hull_map_relocate start stop hsome,
        hull_map_relocate start stop hfirst.tokens_ne_nil, List.map_map] at hmoved
      rw [Expr.relocate, Expr.relabel, Operation.relabelList_eq_map, List.map_cons, List.map_map]
      have hoperations : Link.operation rule ∘ Link.relocate start stop =
          (fun operation : Operation => ⟨operation.method,
            operation.operand.relabel (fun _ => false) (Option.map (Origin.relocate start stop)),
            operation.origin.map (Origin.relocate start stop)⟩) ∘ Link.operation rule :=
        funext (Link.operation_relocate start stop rule)
      rw [hoperations] at hmoved
      exact hmoved
  | @negated minus tokens body hminus hbody ih =>
      have hmoved := @Phrase.negated (minus.relocate start stop) _ _ hminus ih
      rw [← List.map_cons, hull_map_relocate start stop (List.cons_ne_nil _ _)] at hmoved
      exact hmoved
  | @paren opening closing tokens e hopening _ hclosing ih =>
      have hmoved := @Phrase.paren (opening.relocate start stop) (closing.relocate start stop) _ _
        hopening ih hclosing
      simpa using hmoved
  | @function name opening closing tokens body hname hopening _ hclosing ih =>
      have hmoved := @Phrase.function (name.relocate start stop) (opening.relocate start stop)
        (closing.relocate start stop) _ _ hname hopening ih hclosing
      have htokens : (name :: opening :: (tokens ++ [closing])).map (Token.relocate start stop) =
          name.relocate start stop :: opening.relocate start stop ::
            (tokens.map (Token.relocate start stop) ++ [closing.relocate start stop]) := by
        simp
      rw [← htokens, hull_map_relocate start stop (List.cons_ne_nil _ _)] at hmoved
      exact hmoved
  | @var name hname => exact @Phrase.var (name.relocate start stop) hname
  | @integer digits value hdigits hvalue =>
      exact @Phrase.integer (digits.relocate start stop) value hdigits hvalue
  | @decimal digits value hdigits hvalue =>
      exact @Phrase.decimal (digits.relocate start stop) value hdigits hvalue

theorem Link.Fits.relocate (start stop : Nat → Nat) {rule : Rule} {link : Link}
    (h : link.Fits rule) : (link.relocate start stop).Fits rule :=
  ⟨h.method, h.phrase.relocate start stop⟩

/-- A chain from its links. -/
theorem Phrase.ofLinks {rule : Rule} {tokens : List Token} {first : Expr} {links : List Link}
    (hchain : rule.isChain = true) (hfirst : Phrase (rule.level + 1) tokens first)
    (hne : links ≠ []) (hlinks : ∀ link ∈ links, link.Fits rule) :
    Phrase rule.level (tokens ++ links.flatMap Link.leaves)
      (.seq (⟨none, first, some ⟨rule, hull tokens⟩⟩ :: links.map (Link.operation rule))
        (some ⟨rule, hull (tokens ++ links.flatMap Link.leaves)⟩)) :=
  .chain hchain hfirst hne (fun link hmem => (hlinks link hmem).method)
    fun link hmem => (hlinks link hmem).phrase

/-! ## What surrounds a part of a phrase -/

/-- The tokens before and after a part of a phrase, which read anything of the same level and the
same meaning in the place of this part. The tokens after it may have moved meanwhile. -/
def Frame (inner : Nat) (part : Expr) (front back : List Token) (outer : Nat) (whole : Expr) :
    Prop :=
  ∀ (start stop : Nat → Nat) (tokens : List Token) (e : Expr), Phrase inner tokens e →
    e.bare = part.bare → ∃ result, Phrase outer
      (front ++ (tokens ++ back.map (Token.relocate start stop))) result ∧
      result.bare = whole.bare

namespace Frame

variable {inner outer : Nat} {part whole : Expr}

/-- Nothing around it. What binds more tightly may stand there as well. -/
theorem none (e : Expr) (hlow : 2 ≤ outer) (hle : outer ≤ inner) :
    Frame inner e [] [] outer e := by
  intro start stop tokens e' h hbare
  refine ⟨e', ?_, hbare⟩
  rw [List.nil_append, List.map_nil, List.append_nil]
  exact h.of_le hlow hle

/-- What surrounds the surroundings. -/
theorem trans {middle : Nat} {between : Expr} {front back front' back' : List Token}
    (h : Frame inner part front back middle between)
    (h' : Frame middle between front' back' outer whole) :
    Frame inner part (front' ++ front) (back ++ back') outer whole := by
  intro start stop tokens e hphrase hbare
  obtain ⟨e', hphrase', hbare'⟩ := h start stop tokens e hphrase hbare
  obtain ⟨result, hresult, hwhole⟩ := h' start stop _ e' hphrase' hbare'
  refine ⟨result, ?_, hwhole⟩
  rw [List.map_append]
  simpa only [List.append_assoc] using hresult

theorem negated {minus : Token} (hminus : minus.kind = .sub) (body : Expr)
    (origin : Option Origin) : Frame 7 body [minus] [] 6 (.neg body origin) := by
  intro start stop tokens e h hbare
  refine ⟨.neg e (some ⟨.single, hull (minus :: tokens)⟩), ?_, ?_⟩
  · rw [List.map_nil, List.append_nil]
    exact .negated hminus h
  · rw [Expr.bare, hbare, Expr.bare]

theorem paren {opening closing : Token} (hopening : opening.kind = .openParen)
    (hclosing : closing.kind = .closeParen) (e : Expr) : Frame 2 e [opening] [closing] 7 e :=
  fun start stop _ e' h hbare =>
    ⟨e', @Phrase.paren opening (closing.relocate start stop) _ _ hopening h hclosing, hbare⟩

theorem function {name opening closing : Token} (hname : name.kind = .name)
    (hopening : opening.kind = .openSquare) (hclosing : closing.kind = .closeSquare) (body : Expr)
    (origin : Option Origin) :
    Frame 2 body [name, opening] [closing] 7 (.app name.lexeme body origin) := by
  intro start stop tokens e h hbare
  have hreplaced := @Phrase.function name opening (closing.relocate start stop) _ _ hname hopening
    h hclosing
  refine ⟨_, hreplaced, ?_⟩
  rw [Expr.bare, hbare, Expr.bare]

section Chain

variable {rule : Rule} {tokens : List Token} {operand : Expr}

theorem bare_chain (rule : Rule) (first : Expr) (links : List Link) (place origin : Option Origin) :
    (Expr.seq (⟨.none, first, place⟩ :: links.map (Link.operation rule)) origin).bare =
      .seq (⟨.none, first.bare, .none⟩ :: links.map Link.bare) .none := by
  rw [Expr.bare, Operation.bareList, Operation.bareList_eq_map, List.map_map]
  rfl

/-- The links around the first operand of a chain. -/
theorem first (hchain : rule.isChain = true) {links : List Link} (hne : links ≠ [])
    (hlinks : ∀ link ∈ links, link.Fits rule) (place origin : Option Origin) :
    Frame (rule.level + 1) operand [] (links.flatMap Link.leaves) rule.level
      (.seq (⟨.none, operand, place⟩ :: links.map (Link.operation rule)) origin) := by
  intro start stop tokens e h hbare
  have hreplaced := Phrase.ofLinks hchain h (mt List.map_eq_nil_iff.1 hne)
    (List.forall_mem_map.2 fun link hmem => (hlinks link hmem).relocate start stop)
  rw [Link.flatMap_leaves_relocate] at hreplaced
  refine ⟨_, hreplaced, ?_⟩
  rw [bare_chain, bare_chain, hbare, List.map_map]
  congr 3
  exact funext (Link.bare_relocate start stop)

/-- The operands and operators around a further operand of a chain. -/
theorem link (hchain : rule.isChain = true) (hfirst : Phrase (rule.level + 1) tokens operand)
    {earlier later : List Link} {link : Link}
    (hlinks : ∀ other ∈ earlier ++ link :: later, other.Fits rule) (place origin : Option Origin) :
    Frame (rule.level + 1) link.operand
      (tokens ++ (earlier.flatMap Link.leaves ++ [link.operator])) (later.flatMap Link.leaves)
      rule.level
      (.seq (⟨.none, operand, place⟩ :: (earlier ++ link :: later).map (Link.operation rule))
        origin) := by
  intro start stop inside e h hbare
  rw [List.forall_mem_append, List.forall_mem_cons] at hlinks
  obtain ⟨hearlier, hlink, hlater⟩ := hlinks
  have hreplaced := @Phrase.ofLinks rule tokens operand
    (earlier ++ ⟨link.operator, link.method, inside, e⟩ :: later.map (Link.relocate start stop))
    hchain hfirst (by simp) (List.forall_mem_append.2 ⟨hearlier, List.forall_mem_cons.2
      ⟨⟨hlink.method, h⟩, List.forall_mem_map.2 fun other hmem =>
        (hlater other hmem).relocate start stop⟩⟩)
  have htokens : tokens ++ (earlier ++ (⟨link.operator, link.method, inside, e⟩ : Link) ::
      later.map (Link.relocate start stop)).flatMap Link.leaves =
      tokens ++ (earlier.flatMap Link.leaves ++ [link.operator]) ++
        (inside ++ (later.flatMap Link.leaves).map (Token.relocate start stop)) := by
    rw [List.flatMap_append, List.flatMap_cons, Link.flatMap_leaves_relocate, Link.leaves]
    simp only [List.append_assoc, List.cons_append, List.nil_append]
  rw [htokens] at hreplaced
  refine ⟨_, hreplaced, ?_⟩
  rw [bare_chain, bare_chain]
  simp only [List.map_append, List.map_cons, List.map_map, Link.bare, hbare]
  congr 4
  exact List.map_congr_left fun other _ => other.bare_relocate start stop

end Chain

end Frame

/-! ## Nodes and their tokens -/

namespace Node

/-- A node in the tree below another, which counts as below itself. -/
def Below : Node → Node → Prop := Relation.ReflTransGen fun parent child => child ∈ parent.children

/-- A node below another is this other one, or below one of its children. -/
theorem below_iff {root node : Node} :
    root.Below node ↔ node = root ∨ ∃ child ∈ root.children, child.Below node := by
  rw [Below, Relation.ReflTransGen.cases_head_iff, eq_comm]

theorem Below.eq_of_children_eq_nil {root node : Node} (h : root.Below node)
    (hchildren : root.children = []) : node = root := by
  rcases below_iff.1 h with rfl | ⟨child, hchild, -⟩
  · rfl
  · rw [hchildren] at hchild
    cases hchild

/-- The tokens that a node was read from itself, without parentheses around them. An operation with
an operator starts with the operator. -/
def ReadFrom (tokens : List Token) : Node → Prop
  | expr e => Phrase 2 tokens e ∧ ∃ rule, e.origin = some ⟨rule, hull tokens⟩
  | operation ⟨none, operand, origin⟩ =>
    Phrase 2 tokens operand ∧ ∃ rule, origin = some ⟨rule, hull tokens⟩
  | operation ⟨some method, operand, origin⟩ =>
    ∃ operator right, tokens = operator :: right ∧ operator.kind = method.kind ∧
      Phrase 2 right operand ∧ ∃ rule, origin = some ⟨rule, hull tokens⟩

end Node

/-- A node with the tokens that it was read from, and what stands before and after them in the
tokens of an expression. If the node is an expression, it can be replaced there. -/
structure Occurrence (node : Node) (front inside back : List Token) (level : Nat) (e : Expr) :
    Prop where
  /-- The tokens in the middle are those of the node. -/
  read : node.ReadFrom inside
  /-- The other tokens take anything with the meaning of the node. -/
  frame : ∀ part, node = .expr part → Frame 7 part front back level e

namespace Occurrence

variable {node : Node} {front inside back : List Token} {level : Nat} {e : Expr}

/-- An occurrence in a part is one in the whole. -/
theorem within {outer : Nat} {whole : Expr} {front' back' : List Token}
    (h : Occurrence node front inside back level e)
    (hframe : Frame level e front' back' outer whole) :
    Occurrence node (front' ++ front) inside (back ++ back') outer whole :=
  ⟨h.read, fun part hpart => (h.frame part hpart).trans hframe⟩

/-- What an expression was read from, if there are no parentheses around it. -/
theorem whole (h : Phrase level inside e) {rule : Rule}
    (horigin : e.origin = some ⟨rule, hull inside⟩) :
    Occurrence (.expr e) [] inside [] level e := by
  refine ⟨⟨h.of_le (Nat.le_refl 2) h.level_bounds.1, rule, horigin⟩, ?_⟩
  rintro _ ⟨⟩
  exact .none e h.level_bounds.1 h.level_bounds.2

/-- An operation is not replaced, so what stands around it does not matter. -/
theorem operation {link : Operation} (h : Node.ReadFrom inside (.operation link)) :
    Occurrence (.operation link) front inside back level e := ⟨h, nofun⟩

end Occurrence

/-- The tokens of the operation that a link of a chain stands for. -/
theorem Link.Fits.readFrom {rule : Rule} {link : Link} (h : link.Fits rule) :
    Node.ReadFrom link.leaves (.operation (link.operation rule)) :=
  ⟨link.operator, link.tokens, rfl, (mem_operators_of_chainMethod? h.method).2.symm,
    h.phrase.of_le (Nat.le_refl 2) h.phrase.level_bounds.1, rule, rfl⟩

/-- **Every node below an expression occurs in its tokens.** -/
theorem Phrase.exists_occurrence {level : Nat} {tokens : List Token} {e : Expr}
    (h : Phrase level tokens e) {node : Node} (hbelow : (Node.expr e).Below node) :
    ∃ front inside back, tokens = front ++ (inside ++ back) ∧
      Occurrence node front inside back level e := by
  induction h with
  | @loosen level tokens e hlow _ ih =>
      obtain ⟨front, inside, back, hsplit, h⟩ := ih hbelow
      refine ⟨front, inside, back, hsplit, ?_⟩
      simpa using h.within (.none e hlow (Nat.le_succ level))
  | @chain rule tokens first links hchain hfirst hne hmethods hlinks ihfirst ihlinks =>
      have hall : ∀ link ∈ links, link.Fits rule := fun link hmem =>
        ⟨hmethods link hmem, hlinks link hmem⟩
      rcases Node.below_iff.1 hbelow with rfl | ⟨child, hchild, hinner⟩
      · exact ⟨[], _, [], by simp, .whole (.ofLinks hchain hfirst hne hall) rfl⟩
      rw [Node.children, List.map_cons, List.map_map, List.mem_cons, List.mem_map] at hchild
      rcases hchild with rfl | ⟨link, hmem, rfl⟩
      · -- the first operation has no operator, so its tokens are those of its operand
        rcases Node.below_iff.1 hinner with rfl | ⟨child, hchild, hinner⟩
        · exact ⟨[], tokens, _, rfl,
            .operation ⟨hfirst.of_le (Nat.le_refl 2) hfirst.level_bounds.1, rule, rfl⟩⟩
        · obtain rfl := List.mem_singleton.1 hchild
          obtain ⟨front, inside, back, rfl, h⟩ := ihfirst hinner
          exact ⟨_, inside, _, by simp, h.within (.first hchain hne hall _ _)⟩
      · -- a further operation starts with its operator, and its operand is what comes after
        have hfits := hall link hmem
        obtain ⟨earlier, later, rfl⟩ := List.append_of_mem hmem
        rcases Node.below_iff.1 hinner with rfl | ⟨child, hchild, hinner⟩
        · exact ⟨tokens ++ earlier.flatMap Link.leaves, link.leaves, later.flatMap Link.leaves,
            by simp, .operation hfits.readFrom⟩
        · obtain rfl := List.mem_singleton.1 hchild
          obtain ⟨front, inside, back, htokens, h⟩ := ihlinks link hmem hinner
          refine ⟨_, inside, _, ?_, h.within (.link hchain hfirst hall _ _)⟩
          simp only [List.flatMap_append, List.flatMap_cons, Link.leaves, htokens,
            List.append_assoc, List.cons_append, List.nil_append]
  | @negated minus tokens body hminus hbody ih =>
      rcases Node.below_iff.1 hbelow with rfl | ⟨child, hchild, hbelow⟩
      · exact ⟨[], _, [], by simp, .whole (.negated hminus hbody) rfl⟩
      · obtain rfl := List.mem_singleton.1 hchild
        obtain ⟨front, inside, back, rfl, h⟩ := ih hbelow
        exact ⟨_, inside, _, by simp, h.within (.negated hminus body _)⟩
  | @paren opening closing tokens e hopening hinner hclosing ih =>
      -- parentheses leave no node, so whatever is below the expression is between them
      obtain ⟨front, inside, back, rfl, h⟩ := ih hbelow
      exact ⟨_, inside, _, by simp, h.within (.paren hopening hclosing e)⟩
  | @function name opening closing tokens body hname hopening hbody hclosing ih =>
      rcases Node.below_iff.1 hbelow with rfl | ⟨child, hchild, hbelow⟩
      · exact ⟨[], _, [], by simp, .whole (.function hname hopening hbody hclosing) rfl⟩
      · obtain rfl := List.mem_singleton.1 hchild
        obtain ⟨front, inside, back, rfl, h⟩ := ih hbelow
        exact ⟨_, inside, _, by simp, h.within (.function hname hopening hclosing body _)⟩
  | @var name hname =>
      obtain rfl := hbelow.eq_of_children_eq_nil rfl
      exact ⟨[], _, [], by simp, .whole (.var hname) rfl⟩
  | @integer digits value hdigits hvalue =>
      obtain rfl := hbelow.eq_of_children_eq_nil rfl
      exact ⟨[], _, [], by simp, .whole (.integer hdigits hvalue) rfl⟩
  | @decimal digits value hdigits hvalue =>
      obtain rfl := hbelow.eq_of_children_eq_nil rfl
      exact ⟨[], _, [], by simp, .whole (.decimal hdigits hvalue) rfl⟩

end AlgebraText
