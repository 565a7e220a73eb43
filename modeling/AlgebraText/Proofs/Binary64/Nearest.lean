import AlgebraText.Binary64.Reading
import Mathlib

/-!
# Reading rounds to the nearest number

The magnitude `num / den` is read as the rank whose magnitude is nearest to it. All comparisons are
made on natural numbers: in units of the least positive magnitude the quotient is `scaled / den`
with `scaled = num * 2 ^ 1074`, and the halfway points of a rank are half the sums of its own units
and its neighbours'.

The intervals between halfway points do not overlap, and a halfway point belongs to the even one of
its two ranks. So the rank nearest to a quotient is unique (`Nearest.unique`), and everything about
reading follows from the one fact that reading finds it (`nearest_rankOfRatio`): it depends on the
value of the quotient alone, and it is monotone, which locates the point from which on it overflows.

## What this module delivers

* `unitsOf_strictMono`: the magnitudes ascend with the ranks;
* `Nearest`, `Nearest.unique` and `nearest_rankOfRatio`;
* `le_rankOfRatio_iff`: an even rank is reached from its lower halfway point on;
* `ofRatio_eq_infinite_iff`: what is read as an infinity;
* `ofNumeral_eq_ofRatio`: a numeral of any exponent is read as the number nearest to its value.
-/

set_option autoImplicit false

namespace AlgebraText

namespace Binary64

/-! ## The magnitudes ascend -/

/-- The place of a rank in its binade, read off its quotient and its remainder. -/
theorem rank_div_mod {fraction : Nat} (shift : Nat) (hlow : binade ≤ fraction)
    (hhigh : fraction < 2 * binade) :
    (shift * binade + fraction) / binade = shift + 1 ∧
      binade + (shift * binade + fraction) % binade = fraction := by
  simp only [binade] at *
  omega

/-- The magnitudes of a binade, its two ends included, are spaced by one power of two. -/
theorem unitsOf_shift {fraction : Nat} (shift : Nat) (hlow : binade ≤ fraction)
    (hhigh : fraction ≤ 2 * binade) :
    unitsOf (shift * binade + fraction) = fraction * 2 ^ shift := by
  have hnormal : ¬ shift * binade + fraction < binade := by omega
  unfold unitsOf
  rw [if_neg hnormal]
  rcases Nat.lt_or_eq_of_le hhigh with hlt | rfl
  · obtain ⟨hquot, hrem⟩ := rank_div_mod shift hlow hlt
    rw [hquot, hrem]
    rfl
  · -- the upper end is the first magnitude of the next binade
    have hnext : shift * binade + 2 * binade = (shift + 1) * binade + binade := by ring
    obtain ⟨hquot, hrem⟩ := rank_div_mod (shift + 1) (le_refl binade) (by decide)
    rw [hnext, hquot, hrem]
    show binade * 2 ^ (shift + 1) = 2 * binade * 2 ^ shift
    ring

/-- Every rank lies below the binades or in one of them. -/
theorem rank_cases (rank : Nat) :
    rank < binade ∨ ∃ shift fraction, binade ≤ fraction ∧ fraction < 2 * binade ∧
      rank = shift * binade + fraction := by
  by_cases h : rank < binade
  · exact Or.inl h
  · refine Or.inr ⟨rank / binade - 1, binade + rank % binade, ?_⟩
    simp only [binade] at *
    omega

/-- Up to the end of the first binade the magnitude is the rank itself. -/
theorem unitsOf_of_le {rank : Nat} (h : rank ≤ 2 * binade) : unitsOf rank = rank := by
  by_cases hsmall : rank < binade
  · exact if_pos hsmall
  · have hunits := unitsOf_shift 0 (Nat.le_of_not_lt hsmall) h
    simpa using hunits

theorem unitsOf_lt_succ (rank : Nat) : unitsOf rank < unitsOf (rank + 1) := by
  rcases rank_cases rank with hsmall | ⟨shift, fraction, hlow, hhigh, rfl⟩
  · rw [unitsOf_of_le (by omega), unitsOf_of_le (by omega)]
    exact Nat.lt_succ_self rank
  · rw [unitsOf_shift _ hlow (by omega), Nat.add_assoc, unitsOf_shift _ (by omega) (by omega)]
    exact Nat.mul_lt_mul_of_pos_right (Nat.lt_succ_self _) (by positivity)

/-- **The magnitudes ascend with the ranks.** -/
theorem unitsOf_strictMono : StrictMono unitsOf := strictMono_nat_of_lt_succ unitsOf_lt_succ

/-! ## Halfway points -/

/-- Twice the halfway point between a rank and the rank below it. -/
def twiceBelow (rank : Nat) : Nat := unitsOf (rank - 1) + unitsOf rank

/-- Twice the halfway point between a rank and the rank above it. -/
def twiceAbove (rank : Nat) : Nat := unitsOf rank + unitsOf (rank + 1)

theorem twiceAbove_eq (rank : Nat) : twiceAbove rank = twiceBelow (rank + 1) := rfl

theorem twiceBelow_strictMono {rank rank' : Nat} (h : rank < rank') :
    twiceBelow rank < twiceBelow rank' := by
  have hself : unitsOf rank < unitsOf rank' := unitsOf_strictMono h
  have hprev : unitsOf (rank - 1) ≤ unitsOf (rank' - 1) :=
    unitsOf_strictMono.monotone (by omega)
  unfold twiceBelow
  omega

theorem twiceBelow_mono {rank rank' : Nat} (h : rank ≤ rank') :
    twiceBelow rank ≤ twiceBelow rank' := by
  rcases Nat.lt_or_eq_of_le h with hlt | rfl
  · exact (twiceBelow_strictMono hlt).le
  · exact le_refl _

/-- A rank is nearest to `scaled / den` units if the quotient lies between its halfway points; on a
halfway point, if the rank is even. -/
structure Nearest (scaled den rank : Nat) : Prop where
  /-- The quotient is not below the lower halfway point. -/
  below : twiceBelow rank * den ≤ 2 * scaled
  /-- The quotient is not above the upper halfway point. -/
  above : 2 * scaled ≤ twiceAbove rank * den
  /-- An odd rank owns neither of its halfway points. -/
  tie : twiceBelow rank * den = 2 * scaled ∨ 2 * scaled = twiceAbove rank * den → rank % 2 = 0

/-- A rank above the nearest one is reached only if it is the next: the quotient is then the halfway
point between the two, and the lower rank owns it. -/
theorem Nearest.next_of_reached {scaled den rank rank' : Nat} (hden : 0 < den)
    (h : Nearest scaled den rank) (hlt : rank < rank')
    (hreach : twiceBelow rank' * den ≤ 2 * scaled) :
    rank' = rank + 1 ∧ rank % 2 = 0 ∧ twiceBelow rank' * den = 2 * scaled := by
  have hmiddle : twiceAbove rank ≤ twiceBelow rank' := by
    rw [twiceAbove_eq]
    exact twiceBelow_mono hlt
  have hmul : twiceAbove rank * den ≤ twiceBelow rank' * den := Nat.mul_le_mul_right den hmiddle
  refine ⟨?_, ?_, ?_⟩
  · by_contra hfar
    -- there is a rank between the two, so their halfway points differ
    have hgap : twiceAbove rank < twiceBelow rank' := by
      rw [twiceAbove_eq]
      exact twiceBelow_strictMono (by omega)
    have hstrict : twiceAbove rank * den < twiceBelow rank' * den :=
      Nat.mul_lt_mul_of_pos_right hgap hden
    exact absurd (hreach.trans h.above) (Nat.not_le_of_lt hstrict)
  · exact h.tie (Or.inr (le_antisymm h.above (hmul.trans hreach)))
  · exact le_antisymm hreach (h.above.trans hmul)

theorem Nearest.not_lt {scaled den rank rank' : Nat} (hden : 0 < den)
    (h : Nearest scaled den rank) (h' : Nearest scaled den rank') : ¬ rank < rank' := by
  intro hlt
  obtain ⟨hnext, heven, hpoint⟩ := h.next_of_reached hden hlt h'.below
  -- both own the point between them, but two even ranks are not neighbours
  have heven' := h'.tie (Or.inl hpoint)
  omega

/-- **The nearest rank is unique.** -/
theorem Nearest.unique {scaled den rank rank' : Nat} (hden : 0 < den)
    (h : Nearest scaled den rank) (h' : Nearest scaled den rank') : rank = rank' := by
  have hle := Nat.le_of_not_lt (h.not_lt hden h')
  have hge := Nat.le_of_not_lt (h'.not_lt hden h)
  omega

/-- Expanding the quotient changes nothing. -/
theorem Nearest.mul {scaled den rank : Nat} (factor : Nat) (hfactor : 0 < factor)
    (h : Nearest scaled den rank) : Nearest (scaled * factor) (den * factor) rank := by
  refine ⟨?_, ?_, ?_⟩
  · calc twiceBelow rank * (den * factor) = twiceBelow rank * den * factor := by ring
      _ ≤ 2 * scaled * factor := Nat.mul_le_mul_right factor h.below
      _ = 2 * (scaled * factor) := by ring
  · calc 2 * (scaled * factor) = 2 * scaled * factor := by ring
      _ ≤ twiceAbove rank * den * factor := Nat.mul_le_mul_right factor h.above
      _ = twiceAbove rank * (den * factor) := by ring
  · rintro (heq | heq)
    · refine h.tie (Or.inl (Nat.eq_of_mul_eq_mul_right hfactor ?_))
      linarith
    · refine h.tie (Or.inr (Nat.eq_of_mul_eq_mul_right hfactor ?_))
      linarith

/-! ## Rounding finds the nearest rank -/

end Binary64

/-- A quotient rounded to a whole number is off by at most one half, and by one half only to an even
number. -/
theorem roundHalfEven_spec (num : Nat) {den : Nat} (hden : 0 < den) :
    2 * (roundHalfEven num den * den) ≤ 2 * num + den ∧
      2 * num ≤ 2 * (roundHalfEven num den * den) + den ∧
      (2 * (roundHalfEven num den * den) = 2 * num + den ∨
          2 * num = 2 * (roundHalfEven num den * den) + den →
        roundHalfEven num den % 2 = 0) := by
  have hwhole : num / den * den + num % den = num := Nat.div_add_mod' num den
  have hrem : num % den < den := Nat.mod_lt num hden
  have hnext : (num / den + 1) * den = num / den * den + den := Nat.succ_mul _ _
  unfold roundHalfEven
  dsimp only
  split_ifs with hdown hup heven
  · omega
  · rw [hnext]
    omega
  · omega
  · rw [hnext]
    omega

namespace Binary64

/-- From any binade on the ranks are a grid with the spacing of the binade, up to its end; the grid
with the spacing of one unit starts at zero. -/
theorem unitsOf_grid (shift fraction : Nat) (hlow : shift = 0 ∨ binade ≤ fraction)
    (hhigh : fraction ≤ 2 * binade) :
    unitsOf (shift * binade + fraction) = fraction * 2 ^ shift := by
  rcases hlow with rfl | hlow
  · simpa using unitsOf_of_le hhigh
  · exact unitsOf_shift shift hlow hhigh

/-- Above a point of the grid the next magnitude is one step away, or more at the end. -/
theorem twiceAbove_grid {shift fraction : Nat} (hlow : shift = 0 ∨ binade ≤ fraction)
    (hhigh : fraction ≤ 2 * binade) :
    twiceAbove (shift * binade + fraction) = (2 * fraction + 1) * 2 ^ shift ∨
      (2 * fraction + 1) * 2 ^ shift < twiceAbove (shift * binade + fraction) := by
  have hpos : 0 < 2 ^ shift := by positivity
  have hself := unitsOf_grid _ _ hlow hhigh
  unfold twiceAbove
  rcases Nat.lt_or_eq_of_le hhigh with hlt | rfl
  · left
    have hnext := unitsOf_grid shift (fraction + 1) (by omega) (by omega)
    rw [hself, Nat.add_assoc, hnext]
    ring
  · right
    have hrank : shift * binade + 2 * binade + 1 = (shift + 1) * binade + (binade + 1) := by ring
    have hnext := unitsOf_grid (shift + 1) (binade + 1) (by omega) (by decide)
    rw [hself, hrank, hnext]
    calc (2 * (2 * binade) + 1) * 2 ^ shift < (2 * (2 * binade) + 2) * 2 ^ shift :=
          Nat.mul_lt_mul_of_pos_right (by omega) hpos
      _ = 2 * binade * 2 ^ shift + (binade + 1) * 2 ^ (shift + 1) := by ring

/-- Below a point of the grid the next magnitude is one step away, except at the start of a binade,
where the ranks below are spaced more closely. -/
theorem twiceBelow_grid {shift fraction : Nat} (hpos : 0 < fraction)
    (hlow : shift = 0 ∨ binade < fraction) (hhigh : fraction ≤ 2 * binade) :
    twiceBelow (shift * binade + fraction) + 2 ^ shift = 2 * fraction * 2 ^ shift := by
  have hself := unitsOf_grid shift fraction (by omega) hhigh
  have hprev := unitsOf_grid shift (fraction - 1) (by omega) (by omega)
  have hrank : shift * binade + fraction - 1 = shift * binade + (fraction - 1) := by omega
  obtain ⟨before, rfl⟩ : ∃ before, fraction = before + 1 := ⟨fraction - 1, by omega⟩
  unfold twiceBelow
  rw [hself, hrank, hprev, Nat.add_sub_cancel]
  ring

/-- The upper halfway point of a point of the grid, against `den`: half a step away, or more at the
end. -/
theorem twiceAbove_mul_grid {den shift fraction : Nat} (hden : 0 < den)
    (hlow : shift = 0 ∨ binade ≤ fraction) (hhigh : fraction ≤ 2 * binade) :
    twiceAbove (shift * binade + fraction) * den =
        2 * (fraction * (den * 2 ^ shift)) + den * 2 ^ shift ∨
      2 * (fraction * (den * 2 ^ shift)) + den * 2 ^ shift <
        twiceAbove (shift * binade + fraction) * den := by
  have hexpand : (2 * fraction + 1) * 2 ^ shift * den =
      2 * (fraction * (den * 2 ^ shift)) + den * 2 ^ shift := by ring
  rw [← hexpand]
  rcases twiceAbove_grid hlow hhigh with heq | hlt
  · exact Or.inl (by rw [heq])
  · exact Or.inr (Nat.mul_lt_mul_of_pos_right hlt hden)

/-- The lower halfway point of a point of the grid, against `den`: half a step away, except at the
start of a binade, where it is closer than any quotient of the binade, and at zero. -/
theorem twiceBelow_mul_grid {scaled den shift fraction : Nat} (hden : 0 < den)
    (hscaled : shift = 0 ∨ binade * (den * 2 ^ shift) ≤ scaled)
    (hlow : shift = 0 ∨ binade ≤ fraction) (hhigh : fraction ≤ 2 * binade) :
    twiceBelow (shift * binade + fraction) * den + den * 2 ^ shift =
        2 * (fraction * (den * 2 ^ shift)) ∨
      twiceBelow (shift * binade + fraction) * den < 2 * scaled ∨
      (fraction = 0 ∧ twiceBelow (shift * binade + fraction) = 0) := by
  rcases Nat.eq_zero_or_pos fraction with rfl | hfraction
  · have hshift : shift = 0 := by
      rcases hlow with hzero | hbad
      · exact hzero
      · exact absurd hbad (by decide)
    subst hshift
    exact Or.inr (Or.inr ⟨rfl, by decide⟩)
  · by_cases hinner : shift = 0 ∨ binade < fraction
    · left
      have hgrid := congrArg (· * den) (twiceBelow_grid hfraction hinner hhigh)
      simp only [Nat.add_mul] at hgrid
      linarith
    · right
      left
      obtain ⟨hshift, hstart⟩ := not_or.1 hinner
      have hself := unitsOf_grid _ _ hlow hhigh
      have hprev : unitsOf (shift * binade + fraction - 1) <
          unitsOf (shift * binade + fraction) := unitsOf_strictMono (by omega)
      have hreach : fraction * (den * 2 ^ shift) ≤ scaled := by
        have hfirst : fraction = binade := by omega
        rw [hfirst]
        exact hscaled.resolve_left hshift
      calc twiceBelow (shift * binade + fraction) * den
          < 2 * (fraction * 2 ^ shift) * den := by
            refine Nat.mul_lt_mul_of_pos_right ?_ hden
            unfold twiceBelow
            omega
        _ = 2 * (fraction * (den * 2 ^ shift)) := by ring
        _ ≤ 2 * scaled := by omega

/-- Rounding on the grid of a binade finds the nearest rank of all. -/
theorem nearest_of_round {scaled den shift : Nat} (hden : 0 < den)
    (hlow : shift = 0 ∨ binade * (den * 2 ^ shift) ≤ scaled)
    (hhigh : scaled < 2 * binade * (den * 2 ^ shift)) :
    Nearest scaled den (shift * binade + roundHalfEven scaled (den * 2 ^ shift)) := by
  have hpos : 0 < 2 ^ shift := by positivity
  have hstep : 0 < den * 2 ^ shift := Nat.mul_pos hden hpos
  obtain ⟨hdown, hup, htie⟩ := roundHalfEven_spec scaled hstep
  generalize roundHalfEven scaled (den * 2 ^ shift) = fraction at hdown hup htie ⊢
  -- rounding does not leave the binade, though it may end on its upper end
  have hle : fraction ≤ 2 * binade := by
    by_contra hgt
    have hmul := Nat.mul_le_mul_right (den * 2 ^ shift) (Nat.lt_of_not_le hgt)
    rw [Nat.succ_mul] at hmul
    omega
  have hge : shift = 0 ∨ binade ≤ fraction := by
    refine hlow.imp id fun hlow => ?_
    by_contra hlt
    have hmul := Nat.mul_le_mul_right (den * 2 ^ shift) (Nat.lt_of_not_le hlt)
    rw [Nat.succ_mul] at hmul
    omega
  have hparity : (shift * binade + fraction) % 2 = fraction % 2 := by
    simp only [binade]
    omega
  have habove := twiceAbove_mul_grid hden hge hle
  have hbelow := twiceBelow_mul_grid hden hlow hge hle
  refine ⟨?_, ?_, ?_⟩
  · rcases hbelow with heq | hlt | ⟨-, hzero⟩
    · omega
    · exact hlt.le
    · rw [hzero, Nat.zero_mul]
      exact Nat.zero_le _
  · rcases habove with heq | hlt
    · rw [heq]
      exact hup
    · exact hup.trans hlt.le
  · -- a halfway point is hit only where the grid hits it, and there the rounding was even
    intro hon
    rw [hparity]
    rcases hon with hon | hon
    · rcases hbelow with heq | hlt | ⟨hzero, -⟩
      · exact htie (Or.inl (by omega))
      · omega
      · rw [hzero]
    · rcases habove with heq | hlt
      · exact htie (Or.inr (by omega))
      · omega

/-- **Reading finds the nearest rank.** -/
theorem nearest_rankOfRatio (num : Nat) {den : Nat} (hden : 0 < den) :
    Nearest (num * unitsPerOne) den (rankOfRatio num den) := by
  unfold rankOfRatio
  dsimp only
  generalize num * unitsPerOne = scaled
  have hquot : scaled / den < 2 ^ ((scaled / den).log2 + 1) := Nat.lt_log2_self
  -- the logarithm was chosen so that the quotient lies in the binade of this shift
  refine nearest_of_round hden ?_ ?_
  · by_cases hlog : (scaled / den).log2 ≤ 52
    · exact Or.inl (by omega)
    · right
      have hne : scaled / den ≠ 0 := by
        intro hzero
        rw [hzero] at hlog
        exact hlog (by decide)
      have hself : 2 ^ (scaled / den).log2 ≤ scaled / den := Nat.log2_self_le hne
      have hsplit : (scaled / den).log2 = (scaled / den).log2 - 52 + 52 := by omega
      generalize (scaled / den).log2 - 52 = shift at hsplit ⊢
      rw [hsplit] at hself
      calc binade * (den * 2 ^ shift) = 2 ^ (shift + 52) * den := by
            rw [pow_add, show (2 : Nat) ^ 52 = binade from rfl]
            ring
        _ ≤ scaled / den * den := Nat.mul_le_mul_right den hself
        _ ≤ scaled := Nat.div_mul_le_self scaled den
  · have hnext : scaled < (scaled / den + 1) * den := by
      have hwhole : scaled / den * den + scaled % den = scaled := Nat.div_add_mod' scaled den
      have hrem := Nat.mod_lt scaled hden
      rw [Nat.succ_mul]
      omega
    have hpow : 2 ^ ((scaled / den).log2 + 1) ≤ 2 ^ ((scaled / den).log2 - 52 + 53) :=
      Nat.pow_le_pow_right (by decide) (by omega)
    generalize (scaled / den).log2 - 52 = shift at hpow ⊢
    calc scaled < (scaled / den + 1) * den := hnext
      _ ≤ 2 ^ (shift + 53) * den := Nat.mul_le_mul_right den (hquot.trans_le hpow)
      _ = 2 * binade * (den * 2 ^ shift) := by
          rw [pow_add, show (2 : Nat) ^ 53 = 2 * binade from rfl]
          ring

/-- A rank that is nearest to a quotient is the one that is read. -/
theorem rankOfRatio_eq {num den rank : Nat} (hden : 0 < den)
    (h : Nearest (num * unitsPerOne) den rank) : rankOfRatio num den = rank :=
  (nearest_rankOfRatio num hden).unique hden h

/-! ## Where reading overflows -/

/-- **An even rank is reached from its lower halfway point on.** -/
theorem le_rankOfRatio_iff {num den rank : Nat} (hden : 0 < den) (heven : rank % 2 = 0) :
    rank ≤ rankOfRatio num den ↔ twiceBelow rank * den ≤ 2 * (num * unitsPerOne) := by
  have hnearest := nearest_rankOfRatio num hden
  generalize num * unitsPerOne = scaled at hnearest ⊢
  generalize rankOfRatio num den = found at hnearest ⊢
  constructor
  · intro hle
    exact (Nat.mul_le_mul_right den (twiceBelow_mono hle)).trans hnearest.below
  · intro hreach
    by_contra hlt
    -- an even rank that is reached from below follows an even one
    obtain ⟨hnext, htie, -⟩ := hnearest.next_of_reached hden (Nat.lt_of_not_le hlt) hreach
    omega

/-- The least magnitude that is read as an infinity: halfway from the largest finite magnitude to
the power of two above it. -/
def overflow : Nat := (2 ^ 54 - 1) * 2 ^ 970

theorem unitsPerOne_eq : unitsPerOne = 2 ^ 1074 := by
  unfold unitsPerOne
  generalize 1074 = exponent
  rfl

/-- The halfway point below the first magnitude of a binade. -/
theorem twiceBelow_binade (shift : Nat) :
    twiceBelow ((shift + 1) * binade + binade) = (4 * binade - 1) * 2 ^ shift := by
  have hself := unitsOf_grid (shift + 1) binade (Or.inr (le_refl _)) (by decide)
  have hprev := unitsOf_grid shift (2 * binade - 1) (Or.inr (by decide)) (by decide)
  have hrank : (shift + 1) * binade + binade - 1 = shift * binade + (2 * binade - 1) := by
    simp only [binade]
    omega
  unfold twiceBelow
  rw [hrank, hprev, hself, pow_succ]
  simp only [binade]
  omega

theorem twiceBelow_magnitudes : twiceBelow magnitudes = overflow * 2 ^ 1075 := by
  have hrank : magnitudes = (970 + 1075 + 1) * binade + binade := by decide
  have hlast : 4 * binade - 1 = 2 ^ 54 - 1 := by decide
  rw [hrank, twiceBelow_binade, hlast, pow_add, ← Nat.mul_assoc, overflow]

theorem magnitudes_le_rankOfRatio_iff {num den : Nat} (hden : 0 < den) :
    magnitudes ≤ rankOfRatio num den ↔ overflow * den ≤ num := by
  have hscale : 2 * (num * unitsPerOne) = num * 2 ^ 1075 := by
    rw [unitsPerOne_eq, pow_succ 2 1074, Nat.mul_comm 2, Nat.mul_assoc]
  rw [le_rankOfRatio_iff hden (by decide), twiceBelow_magnitudes, hscale, Nat.mul_right_comm]
  exact Nat.mul_le_mul_right_iff (by positivity)

theorem ofRank_eq_infinite_iff {negative : Bool} {rank : Nat} :
    ofRank negative rank = infinite negative ↔ magnitudes ≤ rank := by
  unfold ofRank
  split
  · simp only [reduceCtorEq, false_iff]
    omega
  · simp only [true_iff]
    omega

/-- **What is read as an infinity.** -/
theorem ofRatio_eq_infinite_iff {negative : Bool} {num den : Nat} (hden : 0 < den) :
    ofRatio negative num den = infinite negative ↔ overflow * den ≤ num := by
  rw [ofRatio, ofRank_eq_infinite_iff, magnitudes_le_rankOfRatio_iff hden]

/-! ## Numerals -/

theorem nearest_zero {scaled den : Nat} (h : 2 * scaled ≤ den) : Nearest scaled den 0 := by
  have habove : twiceAbove 0 = 1 := by decide
  refine ⟨?_, ?_, fun _ => rfl⟩
  · rw [show twiceBelow 0 = 0 by decide, Nat.zero_mul]
    exact Nat.zero_le _
  · rw [habove, Nat.one_mul]
    exact h

/-- **Deciding extreme exponents early changes nothing.** The number of a numeral is the one nearest
to its value, whatever its exponent. -/
theorem ofNumeral_eq_ofRatio (negative : Bool) (numeral : Numeral) :
    ofNumeral negative numeral =
      ofRatio negative (numeral.digits * 10 ^ numeral.exponent.toNat) (10 ^ numeral.places) := by
  have hden : 0 < 10 ^ numeral.places := by positivity
  unfold ofNumeral
  split_ifs with hzero hlarge hsmall
  · rw [ofRatio, rankOfRatio_eq hden (nearest_zero _)]
    rw [hzero, Nat.zero_mul, Nat.zero_mul]
    exact Nat.zero_le _
  · -- from here on even a single digit is beyond the overflow
    symm
    rw [ofRatio_eq_infinite_iff hden]
    have hplaces : numeral.places = 0 := by
      unfold Numeral.places
      omega
    rw [hplaces, pow_zero, Nat.mul_one]
    calc overflow ≤ 10 ^ 401 := by decide +kernel
      _ ≤ 10 ^ numeral.exponent.toNat := Nat.pow_le_pow_right (by decide) (by omega)
      _ ≤ numeral.digits * 10 ^ numeral.exponent.toNat :=
          Nat.le_mul_of_pos_left _ (Nat.pos_of_ne_zero hzero)
  · -- so many places that the digits do not amount to half a unit
    rw [ofRatio, rankOfRatio_eq hden (nearest_zero _)]
    have hexponent : numeral.exponent.toNat = 0 := by omega
    have hplaces : numeral.digits.log2 + 1 + 1075 ≤ 3 * numeral.places := by
      unfold Numeral.places
      omega
    have hdigits : numeral.digits < 2 ^ (numeral.digits.log2 + 1) := Nat.lt_log2_self
    rw [hexponent, pow_zero, Nat.mul_one]
    calc 2 * (numeral.digits * unitsPerOne)
        ≤ 2 * (2 ^ (numeral.digits.log2 + 1) * unitsPerOne) :=
          Nat.mul_le_mul_left 2 (Nat.mul_le_mul_right _ hdigits.le)
      _ = 2 ^ (numeral.digits.log2 + 1 + 1075) := by
          rw [unitsPerOne_eq, pow_add _ _ 1075, pow_succ 2 1074, Nat.mul_comm 2, Nat.mul_assoc]
      _ ≤ 2 ^ (3 * numeral.places) := Nat.pow_le_pow_right (by decide) hplaces
      _ = 8 ^ numeral.places := by rw [pow_mul]; rfl
      _ ≤ 10 ^ numeral.places := Nat.pow_le_pow_left (by decide) _
  · rfl

end Binary64

end AlgebraText
