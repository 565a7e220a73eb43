/-!
# Calls of functions with a state

A function with a state of its own can tell how often, in which order and on what it was called. So
two programs that make use of it are the same only if they make the same calls. The calls can be
read off a function that notes them (`noting`) and otherwise does what it did before.

The programs that others are compared with run through a list: they filter it, map it, or search it
for the first element that gives a value.

## What this module delivers

* `noting`, a function that notes its calls;
* `filterM_noting` and `mapM_noting`: the calls of a filter and of a map are the list;
* `filterM_map` and `filterM_guarded`: filters of an image, and filters that call on some elements
  only;
* `Passes`, the runs of a function that gives no value, and `findSomeM?_noting`: a search calls up
  to the first value.
-/

set_option autoImplicit false

namespace AlgebraText

variable {σ α β γ : Type}

/-- A function that also notes what it is called on, the latest last. -/
def noting (f : α → StateM σ β) (x : α) : StateM (List α × σ) β := fun (calls, state) =>
  ((f x state).1, calls ++ [x], (f x state).2)

theorem noting_apply (f : α → StateM σ β) (x : α) (calls : List α) (state : σ) :
    noting f x (calls, state) = ((f x state).1, calls ++ [x], (f x state).2) := rfl

/-! ## Filters -/

theorem filterAuxM_cons (p : α → StateM σ Bool) (x : α) (xs found : List α) (state : σ) :
    List.filterAuxM p (x :: xs) found state =
      List.filterAuxM p xs (if (p x state).1 then x :: found else found) (p x state).2 := by
  change List.filterAuxM p xs (bif (p x state).1 then _ else _) (p x state).2 = _
  rw [Bool.cond_eq_ite]

theorem filterM_eq_filterAuxM (p : α → StateM σ Bool) (xs : List α) (state : σ) :
    xs.filterM p state =
      ((List.filterAuxM p xs [] state).1.reverse, (List.filterAuxM p xs [] state).2) := rfl

/-- What has been found stays in front of what will be found. -/
theorem filterAuxM_append (p : α → StateM σ Bool) (xs found : List α) (state : σ) :
    List.filterAuxM p xs found state =
      ((List.filterAuxM p xs [] state).1 ++ found, (List.filterAuxM p xs [] state).2) := by
  induction xs generalizing found state with
  | nil => rfl
  | cons x xs ih =>
      rw [filterAuxM_cons, filterAuxM_cons, ih, ih (if (p x state).1 then [x] else [])]
      split
      · rw [List.append_assoc, List.singleton_append]
      · rw [List.append_nil]

theorem filterM_cons (p : α → StateM σ Bool) (x : α) (xs : List α) (state : σ) :
    (x :: xs).filterM p state =
      ((if (p x state).1 then [x] else []) ++ (xs.filterM p (p x state).2).1,
        (xs.filterM p (p x state).2).2) := by
  rw [filterM_eq_filterAuxM, filterAuxM_cons, filterAuxM_append, filterM_eq_filterAuxM]
  split
  · rw [List.reverse_append]
    rfl
  · rw [List.append_nil]
    rfl

/-- **A filter calls on every element once, in order.** -/
theorem filterM_noting (p : α → StateM σ Bool) (xs calls : List α) (state : σ) :
    xs.filterM (noting p) (calls, state) =
      ((xs.filterM p state).1, calls ++ xs, (xs.filterM p state).2) := by
  induction xs generalizing calls state with
  | nil =>
      rw [List.append_nil]
      rfl
  | cons x xs ih =>
      rw [filterM_cons, filterM_cons, noting_apply]
      dsimp only
      rw [ih, List.append_assoc, List.singleton_append]

theorem filterM_map (f : α → γ) (p : γ → StateM σ Bool) (xs : List α) (state : σ) :
    (xs.map f).filterM p state =
      ((xs.filterM (fun x => p (f x)) state).1.map f,
        (xs.filterM (fun x => p (f x)) state).2) := by
  induction xs generalizing state with
  | nil => rfl
  | cons x xs ih =>
      rw [List.map_cons, filterM_cons, filterM_cons, ih, List.map_append]
      split <;> rfl

/-- A filter that calls only where a test holds is a filter of the elements where it holds. -/
theorem filterM_guarded (test : α → Bool) (p : α → StateM σ Bool) (xs : List α) (state : σ) :
    xs.filterM (fun x => if test x then p x else pure false) state =
      (xs.filter test).filterM p state := by
  induction xs generalizing state with
  | nil => rfl
  | cons x xs ih =>
      rw [filterM_cons, List.filter_cons]
      split
      · rw [filterM_cons, ih]
      · exact ih state

/-! ## Maps -/

theorem mapM_cons (f : α → StateM σ β) (x : α) (xs : List α) (state : σ) :
    (x :: xs).mapM f state =
      ((f x state).1 :: (xs.mapM f (f x state).2).1, (xs.mapM f (f x state).2).2) := by
  rw [List.mapM_cons]
  rfl

theorem mapM_append (f : α → StateM σ β) (xs ys : List α) (state : σ) :
    (xs ++ ys).mapM f state =
      ((xs.mapM f state).1 ++ (ys.mapM f (xs.mapM f state).2).1,
        (ys.mapM f (xs.mapM f state).2).2) := by
  rw [List.mapM_append]
  rfl

theorem length_mapM (f : α → StateM σ β) (xs : List α) (state : σ) :
    (xs.mapM f state).1.length = xs.length := by
  induction xs generalizing state with
  | nil => rfl
  | cons x xs ih => rw [mapM_cons, List.length_cons, ih, List.length_cons]

/-- **A map calls on every element once, in order.** -/
theorem mapM_noting (f : α → StateM σ β) (xs calls : List α) (state : σ) :
    xs.mapM (noting f) (calls, state) =
      ((xs.mapM f state).1, calls ++ xs, (xs.mapM f state).2) := by
  induction xs generalizing calls state with
  | nil =>
      rw [List.append_nil]
      rfl
  | cons x xs ih =>
      rw [mapM_cons, mapM_cons, noting_apply]
      dsimp only
      rw [ih, List.append_assoc, List.singleton_append]

/-! ## Searches -/

/-- A function gives no value on any element of a list, called on one after another. -/
inductive Passes (f : α → StateM σ (Option β)) : List α → σ → σ → Prop
  /-- Nothing is called. -/
  | nil (state : σ) : Passes f [] state state
  /-- The call on the first element gives no value, nor do the others. -/
  | cons {x : α} {xs : List α} {state middle final : σ} :
      f x state = (none, middle) → Passes f xs middle final → Passes f (x :: xs) state final

theorem findSomeM?_cons (f : α → StateM σ (Option β)) (x : α) (xs : List α) (state : σ) :
    (x :: xs).findSomeM? f state =
      match f x state with
      | (some value, later) => (some value, later)
      | (none, later) => xs.findSomeM? f later := by
  rw [List.findSomeM?_cons]
  change (match (f x state).1 with
    | some value => pure (some value)
    | none => xs.findSomeM? f : StateM σ (Option β)) (f x state).2 = _
  generalize f x state = call
  obtain ⟨answer, later⟩ := call
  cases answer <;> rfl

/-- **A search calls on the elements up to the first that gives a value.** If none does, it calls on
all of them. -/
theorem findSomeM?_noting (f : α → StateM σ (Option β)) (xs calls : List α) (state : σ) :
    (∃ final, Passes f xs state final ∧
      xs.findSomeM? (noting f) (calls, state) = (none, calls ++ xs, final)) ∨
    ∃ front x back middle value final, xs = front ++ x :: back ∧ Passes f front state middle ∧
      f x middle = (some value, final) ∧
      xs.findSomeM? (noting f) (calls, state) = (some value, calls ++ (front ++ [x]), final) := by
  induction xs generalizing calls state with
  | nil =>
      refine Or.inl ⟨state, .nil state, ?_⟩
      rw [List.append_nil]
      rfl
  | cons x xs ih =>
      rw [findSomeM?_cons, noting_apply]
      rcases hcall : f x state with ⟨answer, later⟩
      cases answer with
      | some value => exact Or.inr ⟨[], x, xs, state, value, later, rfl, .nil state, hcall, rfl⟩
      | none =>
          -- the search goes on in the rest, with one call more noted
          rcases ih (calls ++ [x]) later with ⟨final, hpasses, hsearch⟩ |
            ⟨front, y, back, middle, value, final, rfl, hpasses, hvalue, hsearch⟩
          · refine Or.inl ⟨final, .cons hcall hpasses, ?_⟩
            rw [List.append_assoc] at hsearch
            exact hsearch
          · refine Or.inr ⟨x :: front, y, back, middle, value, final, rfl, .cons hcall hpasses,
              hvalue, ?_⟩
            rw [List.append_assoc] at hsearch
            exact hsearch

end AlgebraText
