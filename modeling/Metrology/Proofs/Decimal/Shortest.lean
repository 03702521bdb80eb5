import Metrology.Proofs.Decimal.Intervals

/-!
# The shortest decimal lies in the interval

The search for the shortest decimal of a double goes from coarse grids to fine ones. A grid whose
points are less than half a step of the double apart has a point in the interval, and such a grid
is among those that are tried, so that the search ends with a decimal in the interval.
-/
namespace Metrology.Decimal

namespace Magnitude

namespace Interval

variable {i : Interval} {tie : Tie} {n steps : Nat} {k : Int}

/-- A number that was found lies in the interval. -/
theorem contains_of_nearestWhole? (found : i.nearestWhole? tie = some n) :
    i.contains (n * i.denominator) = true := by
  simp only [nearestWhole?] at found
  split at found
  next below above =>
    obtain rfl := Option.some.inj found
    exact below
  next below above =>
    obtain rfl := Option.some.inj found
    exact above
  next => cases found
  next below above =>
    -- Both neighbours do, whichever is taken.
    have either : n = i.value / i.denominator ∨ n = i.value / i.denominator + 1 := by
      split at found
      · exact .inl (Option.some.inj found).symm
      · split at found
        · exact .inr (Option.some.inj found).symm
        · cases tie with
          | up => exact .inr (Option.some.inj found).symm
          | even =>
            rw [← Option.some.inj found]
            split
            · exact .inl rfl
            · exact .inr rfl
    rcases either with rfl | rfl
    · exact below
    · exact above

/-- The next whole number above the value lies in a wide interval. -/
theorem isSome_nearestWhole? (positive : 0 < i.denominator) (low : i.low ≤ i.value)
    (wide : i.value + i.denominator < i.high) : (i.nearestWhole? tie).isSome = true := by
  have inside : i.contains ((i.value / i.denominator + 1) * i.denominator) = true := by
    have whole : i.value = i.value / i.denominator * i.denominator + i.value % i.denominator :=
      (Nat.div_add_mod' i.value i.denominator).symm
    have rest := Nat.mod_lt i.value positive
    rw [contains, Nat.add_mul, Nat.one_mul]
    split <;> simp only [Bool.and_eq_true, decide_eq_true_eq] <;> omega
  simp only [nearestWhole?, inside]
  split
  · rfl
  · rfl
  next contra => cases contra
  next =>
    split
    · rfl
    · split
      · rfl
      · cases tie <;> rfl

theorem coarsest_of_some (found : (i.inUnits k).nearestWhole? tie = some n) :
    i.coarsest tie (steps + 1) k = ⟨n, k⟩ := by
  rw [coarsest, found]

theorem coarsest_of_none (none : (i.inUnits k).nearestWhole? tie = none) :
    i.coarsest tie (steps + 1) k = i.coarsest tie steps (k - 1) := by
  rw [coarsest, none]

/-- The search ends with a number in the interval if there is one on the last grid. -/
theorem holds_coarsest (last : ((i.inUnits (k - steps)).nearestWhole? tie).isSome = true) :
    i.Holds ((i.coarsest tie (steps + 1) k).digits *
      10 ^ (i.coarsest tie (steps + 1) k).exponent) := by
  -- The last grid stays the same while the grid that is tried and the steps left go down together.
  induction steps generalizing k with
  | zero =>
    rw [Nat.cast_zero, sub_zero] at last
    obtain ⟨n, found⟩ := Option.isSome_iff_exists.mp last
    rw [coarsest_of_some found]
    exact holds_inUnits_iff.mp (holds_of_contains (contains_of_nearestWhole? found))
  | succ steps ih =>
    cases found : (i.inUnits k).nearestWhole? tie with
    | some n =>
      rw [coarsest_of_some found]
      exact holds_inUnits_iff.mp (holds_of_contains (contains_of_nearestWhole? found))
    | none =>
      rw [coarsest_of_none found]
      refine ih ?_
      have same : k - 1 - (steps : Int) = k - ((steps + 1 : Nat) : Int) := by omega
      rwa [same]

end Interval

variable {x : Magnitude} {k : Int}

/-- A grid whose points are less than half a step apart has a point in the interval. -/
theorem isSome_nearestWhole?_interval (tie : Tie)
    (fine : (10 : Rat) ^ k < 2 ^ (x.exponent - 1)) :
    ((x.interval.inUnits k).nearestWhole? tie).isSome = true := by
  set scale : Rat := 2 ^ (x.exponent - 2).toNat with scale_eq
  set denominator : Rat := 2 ^ (-(x.exponent - 2)).toNat with denominator_eq
  set finer : Rat := 10 ^ (-k).toNat with finer_eq
  have positiveDenominator : 0 < denominator := by positivity
  have positiveFiner : 0 < finer := by positivity
  refine Interval.isSome_nearestWhole? ?_ ?_ ?_
  · simp only [Interval.inUnits, interval, Nat.pow_eq]
    positivity
  · simp only [Interval.inUnits, interval, Nat.pow_eq]
    gcongr
    exact Nat.sub_le _ _
  · have step : denominator * 10 ^ k.toNat < 2 * scale * finer := by
      have units : (10 : Rat) ^ k.toNat = 10 ^ k * finer := by
        rw [zpow_eq_div, div_mul_cancel₀ _ positiveFiner.ne']
      have half : denominator * 2 ^ (x.exponent - 1) = 2 * scale := by
        have same : x.exponent - 1 = 1 + (x.exponent - 2) := by omega
        rw [same, zpow_add₀ two_ne_zero, zpow_eq_div 2 (x.exponent - 2), zpow_one,
          ← scale_eq, ← denominator_eq]
        field_simp
      rw [units, ← half]
      calc denominator * (10 ^ k * finer) = denominator * finer * 10 ^ k := by ring
        _ < denominator * finer * 2 ^ (x.exponent - 1) := by gcongr
        _ = denominator * 2 ^ (x.exponent - 1) * finer := by ring
    simp only [Interval.inUnits, interval, Nat.pow_eq]
    rw [denominator_eq, scale_eq, finer_eq] at step
    norm_cast at step
    linarith

/-- The last grid that is tried has points less than half a step apart. -/
theorem shortest_fine (proper : x.Proper) :
    (10 : Rat) ^ (x.startExponent - 23) < 2 ^ (x.exponent - 1) := by
  have digits : x.mantissa.log2 < 53 := (Nat.log2_lt proper.positive.ne').mpr proper.digits
  have lowest := proper.lowest
  have highest := proper.highest
  have start : x.startExponent = (x.mantissa.log2 + x.exponent + 2) * 30103 / 100000 + 1 := by
    rw [startExponent, Int.fdiv_eq_ediv_of_nonneg _ (by decide)]
  calc (10 : Rat) ^ (x.startExponent - 23) ≤ 2 ^ (x.exponent - 2) :=
        ten_zpow_le_two_zpow (by omega) (by omega)
    _ < 2 ^ (x.exponent - 1) := zpow_lt_zpow_right₀ one_lt_two (by omega)

/-- The shortest decimal of a double lies in its interval. -/
theorem holds_shortest (tie : Tie) (proper : x.Proper) :
    x.interval.Holds ((x.shortest tie).digits * 10 ^ (x.shortest tie).exponent) := by
  have last : ((x.interval.inUnits (x.startExponent - (23 : Nat))).nearestWhole? tie).isSome =
      true :=
    isSome_nearestWhole?_interval tie (shortest_fine proper)
  exact Interval.holds_coarsest last

end Magnitude

end Metrology.Decimal
