import AlgebraText.Proofs.Walk.Queries
import AlgebraText.Walk.Parents

/-!
# The table of parents turns descent around

A table of parents is filled by a walk, entry by entry, and an entry may stand before others for the
same place. This does no harm: no node has two parents below the start, so all entries for a place
agree. Hence the table answers exactly what the children of nodes say, read backwards, and to ask it
again and again leads up to the start and ends there, since every parent is nearer to the root.

## What this module delivers

* `Parents.mem_entries_ofStart`: the entries of a table are the pairs of a child and its parent;
* `Parents.parent?_eq_some_iff`, what a table answers;
* `Parents.Climbs`, asking again and again, with `Parents.climbs_ancestors`;
* `Located.WayUp`, the way from a node up to a start, with `Located.WayUp.mem_iff`;
* `parents_invert_children`: parents and ancestors are what descent says they are.
-/

set_option autoImplicit false

namespace AlgebraText

/-- Where all entries for a key agree, their order does not matter. -/
theorem lookup_eq_some_of_mem {α β : Type} [BEq α] [LawfulBEq α] {entries : List (α × β)} {key : α}
    {value : β} (hmem : (key, value) ∈ entries)
    (hagree : ∀ other, (key, other) ∈ entries → other = value) :
    entries.lookup key = some value := by
  induction entries with
  | nil => cases hmem
  | cons entry rest ih =>
      obtain ⟨key', value'⟩ := entry
      by_cases hkey : key = key'
      · subst hkey
        rw [List.lookup_cons_self, hagree value' List.mem_cons_self]
      · rw [List.lookup_cons, beq_false_of_ne hkey]
        apply ih
        · rcases List.mem_cons.1 hmem with heq | hmem
          · exact absurd (Prod.mk.inj heq).1 hkey
          · exact hmem
        · intro other hother
          exact hagree other (List.mem_cons_of_mem _ hother)

namespace Parents

/-! ## The entries -/

theorem mem_entries_insertChildren {parents : Parents} {parent : Located}
    {entry : Place × Located} :
    entry ∈ (insertChildren parent parents).entries ↔
      entry ∈ parents.entries ∨ ∃ child ∈ parent.children, entry = (child.place, parent) := by
  rw [insertChildren]
  induction parent.children generalizing parents with
  | nil => simp
  | cons child rest ih =>
      rw [List.foldl_cons, ih, insert, List.mem_cons, List.exists_mem_cons_iff, or_assoc,
        or_left_comm]

theorem mem_entries_foldl {nodes : List Located} {parents : Parents} {entry : Place × Located} :
    entry ∈ (nodes.foldl (fun table node => insertChildren node table) parents).entries ↔
      entry ∈ parents.entries ∨
        ∃ parent ∈ nodes, ∃ child ∈ parent.children, entry = (child.place, parent) := by
  induction nodes generalizing parents with
  | nil => simp
  | cons parent rest ih =>
      rw [List.foldl_cons, ih, mem_entries_insertChildren, List.exists_mem_cons_iff, or_assoc]

/-- The entries of a table are the nodes below its start, each entered at the places of its
children. -/
theorem mem_entries_ofStart {start : Located} {entry : Place × Located} :
    entry ∈ (ofStart start).entries ↔
      ∃ parent, start.Below parent ∧ ∃ child ∈ parent.children, entry = (child.place, parent) := by
  rw [ofStart, Located.forAll_eq_foldl, mem_entries_foldl]
  simp only [List.not_mem_nil, false_or, Located.mem_preorder_iff]

/-- **A table answers what descent from its start says.** -/
theorem parent?_eq_some_iff {start parent : Located} {place : Place} :
    (ofStart start).parent? place = some parent ↔
      start.Below parent ∧ ∃ child ∈ parent.children, child.place = place := by
  constructor
  · intro h
    obtain ⟨front, back, hentries, -⟩ := List.lookup_eq_some_iff.1 h
    have hmem : (place, parent) ∈ (ofStart start).entries := by
      rw [hentries]
      exact List.mem_append_right front List.mem_cons_self
    obtain ⟨parent', hbelow, child, hchild, heq⟩ := mem_entries_ofStart.1 hmem
    obtain ⟨rfl, rfl⟩ := Prod.mk.inj heq
    exact ⟨hbelow, child, hchild, rfl⟩
  · rintro ⟨hbelow, child, hchild, rfl⟩
    apply lookup_eq_some_of_mem
    · exact mem_entries_ofStart.2 ⟨parent, hbelow, child, hchild, rfl⟩
    · intro other hother
      obtain ⟨parent', hbelow', child', hchild', heq⟩ := mem_entries_ofStart.1 hother
      obtain ⟨hplace, rfl⟩ := Prod.mk.inj heq
      exact hbelow'.eq_of_place_eq hbelow (Located.parent_place_eq hchild' hchild hplace.symm)

/-- There is no answer for a place where nothing stands below the start. -/
theorem parent?_eq_none {start : Located} {place : Place}
    (h : ∀ node, start.Above node → node.place ≠ place) : (ofStart start).parent? place = none := by
  cases hparent : (ofStart start).parent? place with
  | none => rfl
  | some parent =>
      obtain ⟨hbelow, child, hchild, hplace⟩ := parent?_eq_some_iff.1 hparent
      exact absurd hplace (h child (Located.above_iff_parent.2 ⟨parent, hbelow, hchild⟩))

/-! ## Asking again and again -/

/-- To ask for the parent of a place, then for that of the parent and so on gives these nodes, and
then there is no answer. -/
inductive Climbs (parents : Parents) : Place → List Located → Prop
  /-- There is no answer. -/
  | stop {place : Place} : parents.parent? place = none → Climbs parents place []
  /-- There is an answer, and the next question is about its place. -/
  | step {place : Place} {parent : Located} {rest : List Located} :
      parents.parent? place = some parent → Climbs parents parent.place rest →
      Climbs parents place (parent :: rest)

/-- A parent is nearer to the root. -/
theorem depth_lt_of_parent? {start parent : Located} {place : Place}
    (h : (ofStart start).parent? place = some parent) : parent.place.depth < place.depth := by
  obtain ⟨-, child, hchild, rfl⟩ := parent?_eq_some_iff.1 h
  have hdepth := Located.depth_of_mem_children hchild
  omega

/-- **The ancestors of a place are what asking again and again gives.** -/
theorem climbs_ancestors (start : Located) (place : Place) :
    (ofStart start).Climbs place ((ofStart start).ancestors place) := by
  rw [ancestors]
  cases hparent : (ofStart start).parent? place with
  | none => exact .stop hparent
  | some parent =>
      have hlt := depth_lt_of_parent? hparent
      dsimp only
      rw [if_pos hlt]
      exact .step hparent (climbs_ancestors start parent.place)
termination_by place.depth

end Parents

/-! ## The way up -/

/-- The nodes on the way from a node up to a start, the parent of the node first. -/
inductive Located.WayUp (start : Located) : Located → List Located → Prop
  /-- The start has been reached. -/
  | here : WayUp start start []
  /-- One step leads to the parent. -/
  | step {parent child : Located} {rest : List Located} :
      child ∈ parent.children → WayUp start parent rest → WayUp start child (parent :: rest)

namespace Located.WayUp

variable {start node : Located} {way : List Located}

theorem start_below (h : start.WayUp node way) : start.Below node := by
  induction h with
  | here => exact .refl
  | step hchild _ ih => exact ih.tail hchild

/-- The way up has as many nodes as it has steps. -/
theorem depth_eq (h : start.WayUp node way) :
    node.place.depth = start.place.depth + way.length := by
  induction h with
  | here => rfl
  | step hchild _ ih =>
      rw [depth_of_mem_children hchild, ih, List.length_cons, Nat.add_assoc]

/-- **On the way up are the nodes above the node, as far as they are below the start.** -/
theorem mem_iff (h : start.WayUp node way) (above : Located) :
    above ∈ way ↔ start.Below above ∧ above.Above node := by
  induction h with
  | here =>
      constructor
      · intro hmem
        cases hmem
      · rintro ⟨hbelow, habove⟩
        exact absurd hbelow.depth_le (Nat.not_le.2 habove.depth_lt)
  | @step parent child rest hchild hway ih =>
      rw [List.mem_cons, ih]
      constructor
      · rintro (rfl | ⟨hbelow, habove⟩)
        · exact ⟨hway.start_below, .single hchild⟩
        · exact ⟨hbelow, .tail habove hchild⟩
      · rintro ⟨hbelow, habove⟩
        obtain ⟨parent', hparent', hchild'⟩ := above_iff_parent.1 habove
        -- the last step from above is the step from the one parent
        obtain rfl : parent' = parent :=
          (hbelow.trans hparent').parent_unique hway.start_below hchild' hchild
        rcases Relation.reflTransGen_iff_eq_or_transGen.1 hparent' with rfl | habove
        · exact Or.inl rfl
        · exact Or.inr ⟨hbelow, habove⟩

end Located.WayUp

/-- Asking again and again leads from a node below the start up to the start. -/
theorem Parents.Climbs.wayUp {start node : Located} {way : List Located}
    (h : (Parents.ofStart start).Climbs node.place way) (hbelow : start.Below node) :
    start.WayUp node way := by
  generalize hplace : node.place = place at h
  induction h generalizing node with
  | stop hnone =>
      rcases hbelow.cases_parent with rfl | ⟨parent, hparent, hchild⟩
      · exact .here
      · rw [Parents.parent?_eq_some_iff.2 ⟨hparent, node, hchild, hplace⟩] at hnone
        cases hnone
  | @step place parent rest hsome _ ih =>
      obtain ⟨hparent, child, hchild, heq⟩ := Parents.parent?_eq_some_iff.1 hsome
      obtain rfl : child = node :=
        Located.Below.eq_of_place_eq (hparent.tail hchild) hbelow (heq.trans hplace.symm)
      exact .step hchild (ih hparent rfl)

/-! ## Tables and trees -/

/-- **A table of parents turns descent around.** The table of the nodes from a start on, which may
be any node of an expression, knows for each node below the start the one node that has it as a
child. It knows no parent of the start, of nodes of the expression that are not below the start, or
of nodes of other trees. The ancestors of a node below the start are what asking for parents again
and again gives until there is none: the nodes above it, from its parent up to the start, as many as
the steps from the start down to the node. -/
theorem parents_invert_children {tree : Nat} {e : Expr} {start : Located}
    (h : start ∈ (Located.root tree e).preorder) :
    (∀ node, start.Above node → ∃ parent, (Parents.ofStart start).parent? node.place = some parent ∧
      start.Below parent ∧ node ∈ parent.children ∧
      ∀ other, start.Below other → node ∈ other.children → other = parent) ∧
    (∀ node ∈ (Located.root tree e).preorder, ¬ start.Above node →
      (Parents.ofStart start).parent? node.place = none) ∧
    (∀ node : Located, node.place.tree ≠ tree →
      (Parents.ofStart start).parent? node.place = none) ∧
    ∀ node, start.Below node →
      (Parents.ofStart start).Climbs node.place ((Parents.ofStart start).ancestors node.place) ∧
      start.WayUp node ((Parents.ofStart start).ancestors node.place) ∧
      (∀ above, above ∈ (Parents.ofStart start).ancestors node.place ↔
        start.Below above ∧ above.Above node) ∧
      node.place.depth =
        start.place.depth + ((Parents.ofStart start).ancestors node.place).length := by
  have hstart := Located.mem_preorder_iff.1 h
  refine ⟨?_, ?_, ?_, ?_⟩
  · intro node habove
    obtain ⟨parent, hparent, hchild⟩ := Located.above_iff_parent.1 habove
    refine ⟨parent, Parents.parent?_eq_some_iff.2 ⟨hparent, node, hchild, rfl⟩, hparent, hchild, ?_⟩
    intro other hother hchild'
    exact hother.parent_unique hparent hchild' hchild
  · intro node hnode hnot
    apply Parents.parent?_eq_none
    intro other habove hplace
    -- two nodes of the expression at one place are the same node
    obtain rfl : other = node := Located.Below.eq_of_place_eq (hstart.trans habove.below)
      (Located.mem_preorder_iff.1 hnode) hplace
    exact hnot habove
  · intro node htree
    apply Parents.parent?_eq_none
    intro other habove hplace
    obtain ⟨steps, hother⟩ := (hstart.trans habove.below).exists_path
    apply htree
    rw [← hplace, hother]
    rfl
  · intro node hbelow
    have hclimbs := Parents.climbs_ancestors start node.place
    have hway := hclimbs.wayUp hbelow
    exact ⟨hclimbs, hway, hway.mem_iff, hway.depth_eq⟩

/-- In `-(x + x)` the table of the sum tells its two equal variables apart. -/
theorem parents_invert_children_equal_siblings :
    let sum : Expr := .chain (.var "x" none) [(.add, .var "x" none)]
    let start : Located := ⟨⟨0, [0]⟩, .expr sum⟩
    let first : Located := ⟨⟨0, [0, 0, 0]⟩, .expr (.var "x" none)⟩
    let second : Located := ⟨⟨0, [0, 1, 0]⟩, .expr (.var "x" none)⟩
    start ∈ (Located.root 0 (.neg sum none)).preorder ∧
      start.Above first ∧ start.Above second ∧
      (∃ parent, (Parents.ofStart start).parent? first.place = some parent ∧
        first ∈ parent.children) ∧
      (∃ parent, (Parents.ofStart start).parent? second.place = some parent ∧
        second ∈ parent.children) ∧
      (Parents.ofStart start).parent? start.place = none := by
  intro sum start first second
  have hstart : start ∈ (Located.root 0 (.neg sum none)).preorder :=
    List.mem_of_getElem? (i := 1) rfl
  have hfirst : start.Above first := .tail (.single List.mem_cons_self) List.mem_cons_self
  have hsecond : start.Above second :=
    .tail (.single (List.mem_of_getElem? (i := 1) rfl)) List.mem_cons_self
  obtain ⟨hparent, hnone, -⟩ := parents_invert_children hstart
  obtain ⟨parent, hsome, -, hchild, -⟩ := hparent first hfirst
  obtain ⟨parent', hsome', -, hchild', -⟩ := hparent second hsecond
  refine ⟨hstart, hfirst, hsecond, ⟨parent, hsome, hchild⟩, ⟨parent', hsome', hchild'⟩, ?_⟩
  apply hnone start hstart
  intro habove
  exact Nat.lt_irrefl _ habove.depth_lt

end AlgebraText
