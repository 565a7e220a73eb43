import AlgebraText.Proofs.Binary64.Literal

/-!
# No text has fewer digits

The numerals that are read as one number lie between two halfway points, and what lies between two
of them is read as the same number. So a power of ten has a multiple among them exactly if it has
one next to the number itself, on one side or the other, which is where the search looks. It starts
above every power that could have one, so it ends at the largest that does.

A numeral of fewer digits would be smaller than the least numeral with as many digits as the one
that is written. That numeral is a power of ten; it would lie between the two, and it would be a
multiple of a larger power than the one at which the search has ended.

## What this module delivers

* `units` and `Rounds`: numerals as rational numbers, and which of them are read as a rank;
* `Rounds.of_between`: these are an interval;
* `exists_readsBack_beside`: the search looks at the right points of a grid;
* `exponent_le_coarsest` and `exponent_le_shortest`: it ends at the largest possible exponent;
* `Rounds.length_digits_le` and `abs_shortest_le`: fewer digits do not suffice, and no other point
  of the same grid is nearer;
* `shortest_spec`: what this says about the numeral that is written for a number.
-/

set_option autoImplicit false

namespace AlgebraText

namespace Binary64

/-! ## Numerals as rational numbers -/

/-- The distance between two neighbouring multiples of a power of ten, in units of the least
positive magnitude. -/
def gridStep (exponent : Int) : ℚ := 10 ^ exponent * unitsPerOne

/-- The value of a numeral in units. -/
def units (numeral : Numeral) : ℚ := numeral.digits * gridStep numeral.exponent

theorem unitsPerOne_pos : 0 < unitsPerOne := by
  unfold unitsPerOne
  generalize 1074 = exponent
  exact Nat.two_pow_pos exponent

theorem gridStep_pos (exponent : Int) : 0 < gridStep exponent := by
  have hunits : (0 : ℚ) < unitsPerOne := Nat.cast_pos.2 unitsPerOne_pos
  exact mul_pos (by positivity) hunits

theorem gridStep_mono {exponent exponent' : Int} (h : exponent ≤ exponent') :
    gridStep exponent ≤ gridStep exponent' := by
  have hunits : (0 : ℚ) ≤ unitsPerOne := Nat.cast_nonneg _
  exact mul_le_mul_of_nonneg_right (zpow_le_zpow_right₀ (by norm_num) h) hunits

/-- Every so many-th point of a grid is one of a coarser grid. -/
theorem gridStep_add (exponent : Int) (count : Nat) :
    gridStep (exponent + count) = 10 ^ count * gridStep exponent := by
  rw [gridStep, gridStep, zpow_add₀ (by norm_num), zpow_natCast, mul_assoc, mul_left_comm]

/-- The distance as a quotient of natural numbers. -/
theorem gridStep_eq (exponent : Int) :
    gridStep exponent = ((unitsPerOne * 10 ^ exponent.toNat : ℕ) : ℚ) /
      ((10 ^ (-exponent).toNat : ℕ) : ℚ) := by
  have hsplit : (10 : ℚ) ^ exponent = 10 ^ exponent.toNat / 10 ^ (-exponent).toNat := by
    obtain ⟨n, rfl | rfl⟩ := exponent.eq_nat_or_neg
    · simp
    · simp
  rw [gridStep, hsplit]
  generalize unitsPerOne = scale
  push_cast
  ring

/-- The value of a numeral as the quotient that is compared with halfway points. -/
theorem units_eq (numeral : Numeral) :
    units numeral = ((numeral.digits * 10 ^ numeral.exponent.toNat * unitsPerOne : ℕ) : ℚ) /
      ((10 ^ numeral.places : ℕ) : ℚ) := by
  rw [units, gridStep_eq, Numeral.places]
  generalize unitsPerOne = scale
  push_cast
  ring

/-- Of two points of one grid the one of more digits is the larger. -/
theorem units_mono {exponent : Int} {digits digits' : Nat} (h : digits ≤ digits') :
    units ⟨digits, exponent⟩ ≤ units ⟨digits', exponent⟩ :=
  mul_le_mul_of_nonneg_right (Nat.cast_le.2 h) (gridStep_pos exponent).le

/-! ## The interval of a rank -/

/-- A number of units that is read as a rank. -/
structure Rounds (rank : Nat) (x : ℚ) : Prop where
  /-- It is not below the lower halfway point. -/
  below : (twiceBelow rank : ℚ) ≤ 2 * x
  /-- It is not above the upper halfway point. -/
  above : 2 * x ≤ twiceAbove rank
  /-- An odd rank owns neither of its halfway points. -/
  tie : (twiceBelow rank : ℚ) = 2 * x ∨ 2 * x = twiceAbove rank → rank % 2 = 0

/-- **What lies between two numbers that are read as a rank is read as this rank.** -/
theorem Rounds.of_between {rank : Nat} {low x high : ℚ} (hlow : Rounds rank low)
    (hhigh : Rounds rank high) (hbelow : low ≤ x) (habove : x ≤ high) : Rounds rank x := by
  have hfirst := hlow.below
  have hlast := hhigh.above
  refine ⟨by linarith, by linarith, ?_⟩
  rintro (heq | heq)
  · exact hlow.tie (Or.inl (by linarith))
  · exact hhigh.tie (Or.inr (by linarith))

theorem rounds_iff_nearest {scaled den rank : Nat} (hden : 0 < den) :
    Rounds rank ((scaled : ℚ) / den) ↔ Nearest scaled den rank := by
  have hpos : (0 : ℚ) < den := by exact_mod_cast hden
  have htwice : 2 * ((scaled : ℚ) / den) = ((2 * scaled : ℕ) : ℚ) / den := by
    push_cast
    ring
  have hbelow : (twiceBelow rank : ℚ) ≤ 2 * ((scaled : ℚ) / den) ↔
      twiceBelow rank * den ≤ 2 * scaled := by
    rw [htwice, le_div_iff₀ hpos]
    exact_mod_cast Iff.rfl
  have habove : 2 * ((scaled : ℚ) / den) ≤ twiceAbove rank ↔
      2 * scaled ≤ twiceAbove rank * den := by
    rw [htwice, div_le_iff₀ hpos]
    exact_mod_cast Iff.rfl
  have hfirst : (twiceBelow rank : ℚ) = 2 * ((scaled : ℚ) / den) ↔
      twiceBelow rank * den = 2 * scaled := by
    rw [htwice, eq_div_iff hpos.ne']
    exact_mod_cast Iff.rfl
  have hlast : 2 * ((scaled : ℚ) / den) = twiceAbove rank ↔
      2 * scaled = twiceAbove rank * den := by
    rw [htwice, div_eq_iff hpos.ne']
    exact_mod_cast Iff.rfl
  constructor
  · rintro ⟨h, h', htie⟩
    exact ⟨hbelow.1 h, habove.1 h', fun hon => htie (hon.imp hfirst.2 hlast.2)⟩
  · rintro ⟨h, h', htie⟩
    exact ⟨hbelow.2 h, habove.2 h', fun hon => htie (hon.imp hfirst.1 hlast.1)⟩

/-- The test for a rank decides whether a numeral is read as it. -/
theorem readsBack_iff_rounds {rank : Nat} {numeral : Numeral} :
    readsBack rank numeral = true ↔ Rounds rank (units numeral) := by
  rw [readsBack_iff_nearest, units_eq, rounds_iff_nearest (by positivity)]

theorem rounds_unitsOf (rank : Nat) : Rounds rank (unitsOf rank) := by
  have hself := (rounds_iff_nearest Nat.one_pos).2 (nearest_unitsOf rank 1 Nat.one_pos)
  simpa using hself

/-- The next magnitude above a positive one is at most twice as large. -/
theorem unitsOf_succ_le {rank : Nat} (hrank : 0 < rank) :
    unitsOf (rank + 1) ≤ 2 * unitsOf rank := by
  rcases rank_cases rank with hsmall | ⟨shift, fraction, hlow, hhigh, rfl⟩
  · rw [unitsOf_of_le (by omega), unitsOf_of_le (by omega)]
    omega
  · rw [Nat.add_assoc, unitsOf_shift _ (by omega) (by omega), unitsOf_shift _ hlow (by omega),
      ← Nat.mul_assoc]
    exact Nat.mul_le_mul_right _ (by omega)

/-- Only positive numbers below twice its magnitude are read as a positive rank. -/
theorem Rounds.bounds {rank : Nat} {x : ℚ} (h : Rounds rank x) (hrank : 0 < rank) :
    0 < x ∧ x < 2 * unitsOf rank := by
  have hpos : (0 : ℚ) < unitsOf rank := by
    exact_mod_cast (Nat.zero_le _).trans_lt (unitsOf_strictMono hrank)
  have hprev : (0 : ℚ) ≤ unitsOf (rank - 1) := Nat.cast_nonneg _
  have hnext : (unitsOf (rank + 1) : ℚ) ≤ 2 * unitsOf rank := by
    exact_mod_cast unitsOf_succ_le hrank
  have hbelow := h.below
  have habove := h.above
  unfold twiceBelow at hbelow
  unfold twiceAbove at habove
  push_cast at hbelow habove
  constructor <;> linarith

/-! ## The points next to a number -/

@[simp]
theorem exponent_below (rank : Nat) (exponent : Int) : (below rank exponent).exponent = exponent :=
  rfl

@[simp]
theorem exponent_next (numeral : Numeral) : (next numeral).exponent = numeral.exponent := rfl

/-- The two points of a grid that are looked at stand on the two sides of the magnitude. -/
theorem units_below (rank : Nat) (exponent : Int) :
    units (below rank exponent) ≤ unitsOf rank ∧
      (unitsOf rank : ℚ) < units (next (below rank exponent)) := by
  have hstep : 0 < unitsPerOne * 10 ^ exponent.toNat :=
    Nat.mul_pos unitsPerOne_pos (by positivity)
  have hplaces : (0 : ℚ) < ((10 ^ (-exponent).toNat : ℕ) : ℚ) := by positivity
  have hdown := Nat.div_mul_le_self (unitsOf rank * 10 ^ (-exponent).toNat)
    (unitsPerOne * 10 ^ exponent.toNat)
  have hup := Nat.lt_mul_div_succ (unitsOf rank * 10 ^ (-exponent).toNat) hstep
  have hdigits : (below rank exponent).digits =
      unitsOf rank * 10 ^ (-exponent).toNat / (unitsPerOne * 10 ^ exponent.toNat) := rfl
  rw [← hdigits] at hdown hup
  refine ⟨?_, ?_⟩
  · rw [units, exponent_below, gridStep_eq, ← mul_div_assoc, div_le_iff₀ hplaces]
    exact_mod_cast hdown
  · rw [units, exponent_next, exponent_below, gridStep_eq, ← mul_div_assoc, lt_div_iff₀ hplaces]
    rw [Nat.mul_comm (unitsPerOne * _)] at hup
    exact_mod_cast hup

/-- How far the two points are from the magnitude. -/
theorem abs_units_below (rank : Nat) (exponent : Int) :
    |units (below rank exponent) - unitsOf rank| = unitsOf rank - units (below rank exponent) ∧
      |units (next (below rank exponent)) - unitsOf rank| =
        units (next (below rank exponent)) - unitsOf rank := by
  obtain ⟨hdown, hup⟩ := units_below rank exponent
  constructor
  · rw [abs_of_nonpos (by linarith), neg_sub]
  · rw [abs_of_pos (by linarith)]

/-- **A point in the interval has one next to the magnitude that is no farther from it.** That one
lies between the point and the magnitude. -/
theorem exists_readsBack_beside {rank digits : Nat} {exponent : Int}
    (h : Rounds rank (units ⟨digits, exponent⟩)) :
    ∃ point, (point = below rank exponent ∨ point = next (below rank exponent)) ∧
      readsBack rank point = true ∧
      |units point - unitsOf rank| ≤ |units ⟨digits, exponent⟩ - unitsOf rank| := by
  obtain ⟨hdown, hup⟩ := units_below rank exponent
  obtain ⟨hleft, hright⟩ := abs_units_below rank exponent
  have hself := rounds_unitsOf rank
  rcases Nat.lt_or_ge (below rank exponent).digits digits with hlt | hle
  · have hbeyond : units (next (below rank exponent)) ≤ units ⟨digits, exponent⟩ := units_mono hlt
    refine ⟨_, Or.inr rfl, ?_, ?_⟩
    · rw [readsBack_iff_rounds]
      exact hself.of_between h hup.le hbeyond
    · rw [hright]
      exact (sub_le_sub_right hbeyond _).trans (le_abs_self _)
  · have hbeyond : units ⟨digits, exponent⟩ ≤ units (below rank exponent) := units_mono hle
    refine ⟨_, Or.inl rfl, ?_, ?_⟩
    · rw [readsBack_iff_rounds]
      exact h.of_between hself hbeyond hdown
    · rw [hleft, abs_sub_comm]
      exact (sub_le_sub_left hbeyond _).trans (le_abs_self _)

/-- A grid with a point in the interval is noticed. -/
theorem isSome_onGrid? {rank : Nat} {numeral : Numeral} (h : Rounds rank (units numeral)) :
    (onGrid? rank numeral.exponent).isSome := by
  obtain ⟨point, hmem, hfound, -⟩ := exists_readsBack_beside h
  unfold onGrid?
  dsimp only
  rw [List.find?_isSome]
  refine ⟨point, ?_, hfound⟩
  split
  · simpa using hmem
  · simpa using hmem.symm

/-- What is found on a grid is one of its points. -/
theorem exponent_of_onGrid? {rank : Nat} {exponent : Int} {numeral : Numeral}
    (h : onGrid? rank exponent = some numeral) : numeral.exponent = exponent := by
  have hmem : numeral = below rank exponent ∨ numeral = next (below rank exponent) := by
    have hmem := List.mem_of_find?_eq_some h
    split at hmem
    · simpa using hmem
    · simpa [or_comm] using hmem
  rcases hmem with rfl | rfl
  · exact exponent_below rank exponent
  · exact exponent_below rank exponent

/-! ## The search -/

/-- **The search ends at the largest exponent** of those where it has been. -/
theorem exponent_le_search {rank steps : Nat} {numeral : Numeral}
    (h : Rounds rank (units numeral)) (hle : numeral.exponent ≤ steps - 1074) :
    numeral.exponent ≤ (search rank steps).exponent := by
  induction steps with
  | zero => exact hle
  | succ steps ih =>
      rw [search_succ]
      cases hgrid : onGrid? rank (steps + 1 - 1074) with
      | some found =>
          rw [Option.getD_some, exponent_of_onGrid? hgrid]
          exact hle
      | none =>
          rw [Option.getD_none]
          refine ih ?_
          -- the numeral would have been noticed on this grid, so it is on a finer one
          have hother : numeral.exponent ≠ steps + 1 - 1074 := by
            intro heq
            have hsome := isSome_onGrid? h
            rw [heq, hgrid] at hsome
            cases hsome
          push_cast at hle
          omega

/-- A power of two is at most the power of ten whose exponent is taken for it. The hundredth power
of two lies between the thirtieth and the thirty-first of ten. -/
theorem two_zpow_le_ten_zpow (twice : Int) :
    (2 : ℚ) ^ twice ≤
      10 ^ ((if 0 ≤ twice then twice * 31 / 100 else twice * 30 / 100) + 1) := by
  have hroot : ∀ exponent : Int, ((2 : ℚ) ^ 100) ^ twice ≤ 10 ^ (exponent * 100) →
      (2 : ℚ) ^ twice ≤ 10 ^ exponent := by
    intro exponent h
    refine le_of_pow_le_pow_left₀ (show 100 ≠ 0 by decide) (by positivity) ?_
    calc ((2 : ℚ) ^ twice) ^ 100 = (2 ^ 100) ^ twice := by
          rw [← zpow_natCast, ← zpow_natCast, ← zpow_mul, ← zpow_mul, mul_comm]
      _ ≤ 10 ^ (exponent * 100) := h
      _ = (10 ^ exponent) ^ 100 := zpow_mul 10 exponent 100
  apply hroot
  split_ifs with hsign
  · calc ((2 : ℚ) ^ 100) ^ twice ≤ (10 ^ 31) ^ twice :=
          zpow_le_zpow_left₀ hsign (by norm_num) (by norm_num)
      _ = 10 ^ (31 * twice) := by rw [← zpow_natCast, ← zpow_mul]; rfl
      _ ≤ 10 ^ ((twice * 31 / 100 + 1) * 100) := zpow_le_zpow_right₀ (by norm_num) (by omega)
  · have hanti : ((2 : ℚ) ^ 100) ^ twice ≤ (10 ^ 30) ^ twice := by
      have hflip : ((10 : ℚ) ^ 30) ^ (-twice) ≤ (2 ^ 100) ^ (-twice) :=
        zpow_le_zpow_left₀ (by omega) (by norm_num) (by norm_num)
      rw [zpow_neg, zpow_neg] at hflip
      exact (inv_le_inv₀ (by positivity) (by positivity)).1 hflip
    calc ((2 : ℚ) ^ 100) ^ twice ≤ (10 ^ 30) ^ twice := hanti
      _ = 10 ^ (30 * twice) := by rw [← zpow_natCast, ← zpow_mul]; rfl
      _ ≤ 10 ^ ((twice * 30 / 100 + 1) * 100) := zpow_le_zpow_right₀ (by norm_num) (by omega)

/-- The exponent from which the search starts. -/
theorem coarsest_eq (rank : Nat) : ∃ twice : Int, twice = Nat.log2 (unitsOf rank) + 2 - 1074 ∧
    (coarsest rank : Int) - 1074 =
      (if 0 ≤ twice then twice * 31 / 100 else twice * 30 / 100) + 1 := by
  refine ⟨_, rfl, ?_⟩
  unfold coarsest
  dsimp only
  generalize (unitsOf rank).log2 = log
  split_ifs <;> omega

/-- The grid from which the search starts is spaced by more than twice the magnitude. -/
theorem two_mul_lt_gridStep_coarsest (rank : Nat) :
    2 * (unitsOf rank : ℚ) < gridStep (coarsest rank - 1074) := by
  obtain ⟨twice, htwice, hexponent⟩ := coarsest_eq rank
  have hunits : (unitsPerOne : ℚ) = 2 ^ (1074 : Int) := by
    rw [unitsPerOne_eq, Nat.cast_pow, Nat.cast_ofNat]
    exact (zpow_natCast 2 1074).symm
  have hlog : 2 * (unitsOf rank : ℚ) < 2 ^ ((Nat.log2 (unitsOf rank) : Int) + 2) := by
    have hself : 2 * unitsOf rank < 2 ^ (Nat.log2 (unitsOf rank) + 2) := by
      have hlt : unitsOf rank < 2 ^ (Nat.log2 (unitsOf rank) + 1) := Nat.lt_log2_self
      rw [pow_succ]
      omega
    exact_mod_cast hself
  calc 2 * (unitsOf rank : ℚ) < 2 ^ ((Nat.log2 (unitsOf rank) : Int) + 2) := hlog
    _ = 2 ^ twice * 2 ^ (1074 : Int) := by
        rw [← zpow_add₀ (by norm_num), htwice]
        congr 1
        omega
    _ ≤ 10 ^ ((coarsest rank : Int) - 1074) * 2 ^ (1074 : Int) := by
        rw [hexponent]
        exact mul_le_mul_of_nonneg_right (two_zpow_le_ten_zpow twice) (by positivity)
    _ = gridStep (coarsest rank - 1074) := by rw [gridStep, hunits]

/-- A numeral that is read as a positive rank is no smaller than the spacing of its grid. -/
theorem Rounds.gridStep_le {rank : Nat} {numeral : Numeral} (h : Rounds rank (units numeral))
    (hrank : 0 < rank) : gridStep numeral.exponent ≤ units numeral := by
  have hstep := gridStep_pos numeral.exponent
  have hdigits : 0 < numeral.digits := by
    by_contra hzero
    have hpos := (h.bounds hrank).1
    rw [units, Nat.eq_zero_of_not_pos hzero, Nat.cast_zero, zero_mul] at hpos
    exact lt_irrefl _ hpos
  exact le_mul_of_one_le_left hstep.le (Nat.one_le_cast.2 hdigits)

/-- No numeral of a larger exponent than the one from which the search starts is read as a positive
rank. -/
theorem exponent_le_coarsest {rank : Nat} {numeral : Numeral} (hrank : 0 < rank)
    (h : Rounds rank (units numeral)) : numeral.exponent ≤ coarsest rank - 1074 := by
  by_contra hlarge
  have hspacing := gridStep_mono (le_of_not_ge hlarge)
  have hsmall := (h.bounds hrank).2
  have hself := h.gridStep_le hrank
  have hstart := two_mul_lt_gridStep_coarsest rank
  linarith

/-- **No numeral that is read as a positive number has a larger exponent than the one that is
written.** -/
theorem exponent_le_shortest {rank : Nat} {numeral : Numeral} (hrank : 0 < rank)
    (h : Rounds rank (units numeral)) : numeral.exponent ≤ (shortest rank).exponent := by
  rw [shortest, if_neg hrank.ne']
  exact exponent_le_search h (exponent_le_coarsest hrank h)

/-! ## Digits -/

/-- The numeral that is written for a rank is read as it. -/
theorem rounds_shortest (rank : Nat) : Rounds rank (units (shortest rank)) := by
  rw [units_eq, rounds_iff_nearest (by positivity)]
  exact nearest_shortest rank

/-- A number with more than so many digits is at least that power of ten, and one with at most so
many is below it. -/
theorem pow_le_of_lt_length {value count : Nat} (hcount : 0 < count)
    (h : count < (Nat.toDigits 10 value).length) : 10 ^ count ≤ value := by
  by_contra hlt
  have hle := (Nat.length_toDigits_le_iff (by decide) hcount).2 (Nat.lt_of_not_le hlt)
  omega

/-- **No numeral that is read as a rank has fewer digits than the one that is written for it.** -/
theorem Rounds.length_digits_le {rank : Nat} {numeral : Numeral}
    (h : Rounds rank (units numeral)) :
    (Nat.toDigits 10 (shortest rank).digits).length ≤
      (Nat.toDigits 10 numeral.digits).length := by
  rcases Nat.eq_zero_or_pos rank with rfl | hrank
  · exact Nat.length_toDigits_pos
  have hcount : 0 < (Nat.toDigits 10 numeral.digits).length := Nat.length_toDigits_pos
  have hfewer : numeral.digits < 10 ^ (Nat.toDigits 10 numeral.digits).length :=
    (Nat.length_toDigits_le_iff (by decide) hcount).1 (Nat.le_refl _)
  by_contra hlt
  have hmore := pow_le_of_lt_length hcount (Nat.lt_of_not_le hlt)
  generalize (Nat.toDigits 10 numeral.digits).length = count at hcount hfewer hmore
  have hexponent := exponent_le_shortest hrank h
  -- the power of ten between the two numerals is a point of a grid that is too coarse
  have hmiddle : units ⟨1, (shortest rank).exponent + count⟩ =
      10 ^ count * gridStep (shortest rank).exponent := by
    rw [units, gridStep_add, Nat.cast_one, one_mul]
  have hbelow : units numeral ≤ units ⟨1, (shortest rank).exponent + count⟩ := by
    rw [hmiddle]
    exact mul_le_mul (by exact_mod_cast hfewer.le) (gridStep_mono hexponent)
      (gridStep_pos _).le (by positivity)
  have habove : units ⟨1, (shortest rank).exponent + count⟩ ≤ units (shortest rank) := by
    rw [hmiddle]
    exact mul_le_mul_of_nonneg_right (by exact_mod_cast hmore) (gridStep_pos _).le
  have hcoarse := exponent_le_shortest hrank
    (h.of_between (rounds_shortest rank) hbelow habove)
  dsimp only at hcoarse
  omega

/-! ## The nearest point -/

/-- What a comparison with twice a numeral says. -/
theorem compareTwice_eq_gt {numeral : Numeral} {count : Nat} :
    compareTwice numeral count = .gt ↔ (count : ℚ) < 2 * units numeral := by
  have hplaces : (0 : ℚ) < ((10 ^ numeral.places : ℕ) : ℚ) := by positivity
  rw [compareTwice, Nat.compare_eq_gt, units_eq, ← mul_div_assoc, lt_div_iff₀ hplaces]
  generalize unitsPerOne = scale
  have hassoc : 2 * numeral.digits * Nat.pow 10 numeral.exponent.toNat * scale =
      2 * (numeral.digits * 10 ^ numeral.exponent.toNat * scale) := by
    rw [Nat.mul_assoc 2, Nat.mul_assoc 2]
    rfl
  rw [hassoc]
  exact_mod_cast Iff.rfl

/-- Of two candidates of which the nearer one is tried first, what is found is no farther than any
that passes. -/
theorem abs_find?_le {rank : Nat} {first second point found : Numeral}
    (hnearer : |units first - unitsOf rank| ≤ |units second - unitsOf rank|)
    (hmem : point = first ∨ point = second) (hreads : readsBack rank point = true)
    (hfound : [first, second].find? (readsBack rank) = some found) :
    |units found - unitsOf rank| ≤ |units point - unitsOf rank| := by
  rw [List.find?_cons] at hfound
  cases hfirst : readsBack rank first with
  | true =>
      rw [hfirst] at hfound
      obtain rfl := Option.some.inj hfound
      rcases hmem with rfl | rfl
      · exact le_refl _
      · exact hnearer
  | false =>
      rw [hfirst] at hfound
      obtain rfl := List.mem_singleton.1 (List.mem_of_find?_eq_some hfound)
      rcases hmem with rfl | rfl
      · rw [hfirst] at hreads
        cases hreads
      · exact le_refl _

/-- **Of the points of one grid that are read as a rank the nearest is found.** -/
theorem abs_onGrid?_le {rank digits : Nat} {exponent : Int} {found : Numeral}
    (hfound : onGrid? rank exponent = some found)
    (h : Rounds rank (units ⟨digits, exponent⟩)) :
    |units found - unitsOf rank| ≤ |units ⟨digits, exponent⟩ - unitsOf rank| := by
  obtain ⟨point, hmem, hreads, hcloser⟩ := exists_readsBack_beside h
  obtain ⟨hleft, hright⟩ := abs_units_below rank exponent
  have hmiddle : units ⟨2 * (below rank exponent).digits + 1, exponent⟩ =
      units (below rank exponent) + units (next (below rank exponent)) := by
    simp only [units, next, exponent_below]
    push_cast
    ring
  refine le_trans ?_ hcloser
  unfold onGrid? at hfound
  dsimp only at hfound
  -- the magnitude is compared with the middle of the two points
  simp only [compareTwice_eq_gt, exponent_below, hmiddle] at hfound
  push_cast at hfound
  split at hfound
  · refine abs_find?_le ?_ hmem hreads hfound
    rw [hleft, hright]
    linarith
  · refine abs_find?_le ?_ hmem.symm hreads hfound
    rw [hleft, hright]
    linarith

/-- The value of the numeral that is exact on a grid as fine as the units. -/
theorem units_finest {rank places : Nat} (hunits : unitsPerOne = 2 ^ places) :
    units ⟨unitsOf rank * 5 ^ places, -places⟩ = unitsOf rank := by
  have hten : (10 : ℚ) ^ places = 5 ^ places * 2 ^ places := by
    rw [← mul_pow]
    norm_num
  rw [units, gridStep, hunits, zpow_neg, zpow_natCast, hten]
  push_cast
  field_simp

/-- Of the points on the last grid of the search the nearest is written. -/
theorem abs_search_le {rank digits steps : Nat}
    (h : Rounds rank (units ⟨digits, (search rank steps).exponent⟩)) :
    |units (search rank steps) - unitsOf rank| ≤
      |units ⟨digits, (search rank steps).exponent⟩ - unitsOf rank| := by
  induction steps with
  | zero =>
      -- the last of all grids holds the magnitude itself
      have hexact : units (search rank 0) = unitsOf rank := by
        obtain ⟨places, hunits, hlast⟩ := search_zero rank
        rw [hlast]
        exact units_finest hunits
      rw [hexact, sub_self, abs_zero]
      exact abs_nonneg _
  | succ steps ih =>
      rw [search_succ] at h ⊢
      cases hgrid : onGrid? rank (steps + 1 - 1074) with
      | none =>
          rw [hgrid, Option.getD_none] at h
          rw [Option.getD_none]
          exact ih h
      | some found =>
          rw [hgrid, Option.getD_some, exponent_of_onGrid? hgrid] at h
          rw [Option.getD_some, exponent_of_onGrid? hgrid]
          exact abs_onGrid?_le hgrid h

/-- Of the points with the exponent that is written for a rank the nearest is written. -/
theorem abs_shortest_le {rank : Nat} {numeral : Numeral} (h : Rounds rank (units numeral))
    (hexponent : numeral.exponent = (shortest rank).exponent) :
    |units (shortest rank) - unitsOf rank| ≤ |units numeral - unitsOf rank| := by
  rcases Nat.eq_zero_or_pos rank with rfl | hrank
  · have hzero : units (shortest 0) = 0 := by simp [shortest, units]
    rw [hzero, show unitsOf 0 = 0 from rfl, Nat.cast_zero, sub_self, abs_zero]
    exact abs_nonneg _
  · obtain ⟨digits, exponent⟩ := numeral
    rw [shortest, if_neg hrank.ne'] at hexponent ⊢
    obtain rfl : exponent = _ := hexponent
    exact abs_search_le h

/-! ## Reading -/

/-- A numeral is read as a finite number if it lies in the interval of its rank. -/
theorem ofNumeral_eq_finite_iff {rank : Fin magnitudes} {numeral : Numeral} :
    ofNumeral false numeral = finite false rank ↔ Rounds rank (units numeral) := by
  have hplaces : 0 < 10 ^ numeral.places := by positivity
  rw [ofNumeral_eq_ofRatio, units_eq, rounds_iff_nearest hplaces, ofRatio, ofRank]
  constructor
  · intro h
    split at h
    · rename_i hfinite
      have hrank := congrArg Fin.val (finite.inj h).2
      exact hrank ▸ nearest_rankOfRatio _ hplaces
    · cases h
  · intro h
    rw [rankOfRatio_eq hplaces h]
    exact dif_pos rank.isLt

/-- **The numeral that is written for a number is the shortest.** It is read as the number; no
numeral that is read as this number has fewer digits, and none of the same exponent is nearer to
it. -/
theorem shortest_spec (rank : Fin magnitudes) :
    ofNumeral false (shortest rank) = finite false rank ∧
      ∀ numeral, ofNumeral false numeral = finite false rank →
        (Nat.toDigits 10 (shortest rank).digits).length ≤
            (Nat.toDigits 10 numeral.digits).length ∧
          (numeral.exponent = (shortest rank).exponent →
            |units (shortest rank) - unitsOf rank| ≤ |units numeral - unitsOf rank|) := by
  refine ⟨ofNumeral_eq_finite_iff.2 (rounds_shortest rank), fun numeral hread => ?_⟩
  have hrounds := ofNumeral_eq_finite_iff.1 hread
  exact ⟨hrounds.length_digits_le, abs_shortest_le hrounds⟩

end Binary64

end AlgebraText
