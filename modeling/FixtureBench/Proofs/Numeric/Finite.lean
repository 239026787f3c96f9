import FixtureBench.Random.Range
import Mathlib.Tactic.Ring

/-!
# Doubles that stay finite

A double is `Double.Within m` when it is finite and its magnitude is at most `2 ^ m`. Rounding a
quotient below `2 ^ m` gives such a double, as long as `m` is at most 1023. From this the bound of
every operation follows by an estimate of its exact result.
-/

namespace FixtureBench

theorem roundHalfEven_le (num den : Nat) : roundHalfEven num den ≤ num / den + 1 := by
  simp only [roundHalfEven]
  split
  · exact Nat.le_succ _
  · split
    · omega
    · exact Nat.le_refl _

namespace Binary64

theorem blockSize_eq : blockSize = 2 ^ 52 := rfl

theorem unitsPerOne_pos : 0 < unitsPerOne := by decide +kernel

theorem two_pow_mul_unitsPerOne (m : Nat) : 2 ^ m * unitsPerOne = 2 ^ (m + 1074) := by
  rw [unitsPerOne, Nat.one_shiftLeft, Nat.pow_add]

/-- The double of a quotient below a power of two has at most the rank of the power. -/
theorem nearestPattern_le {num den k : Nat} (hk : 52 ≤ k) (h : num < den * 2 ^ k) :
    nearestPattern num den ≤ (k - 51) * blockSize := by
  have hq : num / den < 2 ^ k := Nat.div_lt_of_lt_mul h
  have hround := roundHalfEven_le num (den * 2 ^ (Nat.log2 (num / den) - 52))
  rw [← Nat.div_div_eq_div_mul] at hround
  simp only [nearestPattern, Nat.shiftLeft_eq, blockSize_eq]
  generalize num / den = q at hq hround
  generalize roundHalfEven num (den * 2 ^ (q.log2 - 52)) = rounded at hround
  by_cases hsmall : q < 2 ^ 52
  · -- Below `2 ^ 52` units there is nothing to scale.
    have hscale : q.log2 - 52 = 0 := by
      by_cases hzero : q = 0
      · rw [hzero]
        rfl
      · have hlog := (Nat.log2_lt hzero).2 hsmall
        omega
    rw [hscale, Nat.pow_zero, Nat.div_one] at hround
    rw [hscale]
    omega
  · have hzero : q ≠ 0 := by omega
    have hlog : 52 ≤ q.log2 := (Nat.le_log2 hzero).2 (Nat.le_of_not_lt hsmall)
    have hlt : q.log2 < k := (Nat.log2_lt hzero).2 hq
    have htop : q < 2 ^ (q.log2 - 52) * 2 ^ 53 := by
      have hself : q < 2 ^ (q.log2 + 1) := Nat.lt_log2_self
      have hsplit : q.log2 + 1 = q.log2 - 52 + 53 := by omega
      rwa [hsplit, Nat.pow_add] at hself
    have hquotient : q / 2 ^ (q.log2 - 52) < 2 ^ 53 := Nat.div_lt_of_lt_mul htop
    omega

theorem sizeOfPattern_le {p block k : Nat} (hblock : 0 < block) (hk : k = block + 51)
    (h : p ≤ block * blockSize) : sizeOfPattern p ≤ 2 ^ k := by
  subst hk
  rw [blockSize_eq] at h
  simp only [sizeOfPattern, Nat.shiftLeft_eq, blockSize_eq]
  by_cases hzero : p / 2 ^ 52 = 0
  · have hp : p < 2 ^ 52 := by omega
    rw [if_pos hzero]
    calc
      p ≤ 2 ^ 52 := Nat.le_of_lt hp
      _ ≤ 2 ^ (block + 51) := Nat.pow_le_pow_right (by decide) (by omega)
  · rw [if_neg hzero]
    by_cases htop : p / 2 ^ 52 = block
    · have hrest : p % 2 ^ 52 = 0 := by omega
      rw [htop, hrest, Nat.add_zero, ← Nat.pow_add]
      exact Nat.pow_le_pow_right (by decide) (by omega)
    · calc
        (2 ^ 52 + p % 2 ^ 52) * 2 ^ (p / 2 ^ 52 - 1) ≤ 2 ^ 53 * 2 ^ (p / 2 ^ 52 - 1) :=
          Nat.mul_le_mul_right _ (by omega)
        _ = 2 ^ (53 + (p / 2 ^ 52 - 1)) := (Nat.pow_add 2 53 _).symm
        _ ≤ 2 ^ (block + 51) := Nat.pow_le_pow_right (by decide) (by omega)

end Binary64

namespace Double

/-- A finite double of magnitude at most `2 ^ m`. -/
def Within (m : Nat) (x : Double) : Prop :=
  ∃ y : Binary64, x = .finite y ∧ y.size ≤ 2 ^ m * Binary64.unitsPerOne

end Double

namespace Binary64

/-- Rounding a quotient below `2 ^ m` stays within `2 ^ m`. -/
theorem nearest_within {num den m : Nat} (negative : Bool) (hm : m ≤ 1023)
    (h : num < den * (2 ^ m * unitsPerOne)) : (nearest negative num den).Within m := by
  rw [two_pow_mul_unitsPerOne] at h
  have hpattern := nearestPattern_le (by omega) h
  have hblock : m + 1074 - 51 = m + 1023 := by omega
  rw [hblock] at hpattern
  have hfinite : nearestPattern num den < 2047 * blockSize := by
    rw [blockSize_eq] at hpattern ⊢
    omega
  refine ⟨⟨negative, nearestPattern num den, hfinite⟩, dif_pos hfinite, ?_⟩
  rw [two_pow_mul_unitsPerOne]
  exact sizeOfPattern_le (by omega) (by omega) hpattern

theorem ofInt_within {n : Int} (h : n.natAbs ≤ 2 ^ 63) : (ofInt n).Within 64 := by
  apply nearest_within _ (by decide)
  rw [Nat.one_mul]
  exact Nat.mul_lt_mul_of_pos_right (Nat.lt_of_le_of_lt h (by decide)) unitsPerOne_pos

theorem natAbs_units (x : Binary64) : x.units.natAbs = x.size := by
  unfold units
  split <;> omega

theorem size_hundred : hundred.size = 100 * unitsPerOne := by decide +kernel

end Binary64

namespace Double

open Binary64

theorem Within.mul_hundred {x : Binary64} (h : (Double.finite x).Within 64) :
    (x.mul .hundred).Within 71 := by
  obtain ⟨y, hy, hsize⟩ := h
  cases hy
  apply nearest_within _ (by decide)
  rw [size_hundred]
  calc
    x.size * (100 * unitsPerOne) ≤ 2 ^ 64 * unitsPerOne * (100 * unitsPerOne) :=
      Nat.mul_le_mul_right _ hsize
    _ = 100 * 2 ^ 64 * (unitsPerOne * unitsPerOne) := by ring
    _ < 2 ^ 71 * (unitsPerOne * unitsPerOne) :=
      Nat.mul_lt_mul_of_pos_right (by decide) (Nat.mul_pos unitsPerOne_pos unitsPerOne_pos)
    _ = unitsPerOne * (2 ^ 71 * unitsPerOne) := by ring

theorem Within.roundToWhole {x : Binary64} (h : (Double.finite x).Within 71) :
    x.roundToWhole.Within 72 := by
  obtain ⟨y, hy, hsize⟩ := h
  cases hy
  apply nearest_within _ (by decide)
  rw [Nat.one_mul]
  have hpos := unitsPerOne_pos
  generalize unitsPerOne = unit at hsize hpos ⊢
  calc
    (2 * x.size + unit) / (2 * unit) * unit ≤ (2 ^ 71 + 1) * unit := by
      apply Nat.mul_le_mul_right
      apply Nat.le_of_lt_succ
      apply Nat.div_lt_of_lt_mul
      calc
        2 * x.size + unit ≤ 2 * (2 ^ 71 * unit) + unit := by omega
        _ < (2 * (2 ^ 71 + 2)) * unit := by omega
        _ = 2 * unit * (2 ^ 71 + 2) := by ring
    _ < 2 ^ 72 * unit := Nat.mul_lt_mul_of_pos_right (by decide) hpos

theorem Within.div_hundred {x : Binary64} (h : (Double.finite x).Within 72) :
    (x.div .hundred).Within 73 := by
  obtain ⟨y, hy, hsize⟩ := h
  cases hy
  have hzero : hundred.isZero = false := rfl
  simp only [Binary64.div, hzero, Bool.false_eq_true, if_false]
  apply nearest_within _ (by decide)
  rw [size_hundred]
  calc
    x.size * unitsPerOne ≤ 2 ^ 72 * unitsPerOne * unitsPerOne := Nat.mul_le_mul_right _ hsize
    _ = 2 ^ 72 * (unitsPerOne * unitsPerOne) := by ring
    _ < 100 * 2 ^ 73 * (unitsPerOne * unitsPerOne) :=
      Nat.mul_lt_mul_of_pos_right (by decide) (Nat.mul_pos unitsPerOne_pos unitsPerOne_pos)
    _ = 100 * unitsPerOne * (2 ^ 73 * unitsPerOne) := by ring

@[simp] theorem andThen_finite (x : Binary64) (f : Binary64 → Double) :
    (finite x).andThen f = f x := rfl

theorem Within.roundToHundredths {x : Double} (h : x.Within 64) :
    x.roundToHundredths.Within 73 := by
  obtain ⟨y, rfl, hy⟩ := h
  have hmul : (y.mul .hundred).Within 71 := Within.mul_hundred ⟨y, rfl, hy⟩
  obtain ⟨z, hz, hsize⟩ := hmul
  have hround : z.roundToWhole.Within 72 := Within.roundToWhole ⟨z, rfl, hsize⟩
  obtain ⟨w, hw, hsize'⟩ := hround
  have hdiv : (w.div .hundred).Within 73 := Within.div_hundred ⟨w, rfl, hsize'⟩
  rw [Double.roundToHundredths, andThen_finite, hz, andThen_finite, hw, andThen_finite]
  exact hdiv

theorem size_le_of_between {lo hi x : Binary64} {bound : Nat} (hlo : lo.size ≤ bound)
    (hhi : hi.size ≤ bound) (h : lo ≤ x) (h' : x < hi) : x.size ≤ bound := by
  change lo.units ≤ x.units at h
  change x.units < hi.units at h'
  rw [← natAbs_units] at hlo hhi ⊢
  omega

end Double

namespace Draw

theorem canYield_doubleFrom {lo hi : Binary64} {width x : Double}
    (h : (doubleFrom lo hi width).CanYield x) :
    x = .finite lo ∨ ∃ y, x = .finite y ∧ lo ≤ y ∧ y < hi := by
  cases width with
  | finite width =>
    rw [doubleFrom] at h
    by_cases ordered : width.isNormal = true ∧ lo < hi
    · rw [dif_pos ordered, canYield_bind] at h
      obtain ⟨y, -, hx⟩ := h
      exact .inr ⟨y, canYield_pure.1 hx, y.2⟩
    · rw [dif_neg ordered] at h
      exact .inl (canYield_pure.1 h)
  | _ => exact .inl (canYield_pure.1 h)

theorem within_doubleBetween {m : Nat} {a b x : Double} (ha : a.Within m) (hb : b.Within m)
    (h : (doubleBetween a b).CanYield x) : x.Within m := by
  obtain ⟨lo, hi, hlo, hhi, hbounds⟩ : ∃ lo hi : Binary64,
      (Double.finite lo).Within m ∧ (Double.finite hi).Within m ∧
        (if a.le b then (a, b) else (b, a)) = (.finite lo, .finite hi) := by
    obtain ⟨l, rfl, hl⟩ := ha
    obtain ⟨r, rfl, hr⟩ := hb
    by_cases hle : (Double.finite l).le (.finite r)
    · exact ⟨l, r, ⟨l, rfl, hl⟩, ⟨r, rfl, hr⟩, if_pos hle⟩
    · exact ⟨r, l, ⟨r, rfl, hr⟩, ⟨l, rfl, hl⟩, if_neg hle⟩
  rw [doubleBetween, hbounds] at h
  rcases canYield_doubleFrom h with rfl | ⟨y, rfl, hlow, hhigh⟩
  · exact hlo
  · obtain ⟨l, hl, hsize⟩ := hlo
    obtain ⟨r, hr, hsize'⟩ := hhi
    cases hl
    cases hr
    exact ⟨y, rfl, Double.size_le_of_between hsize hsize' hlow hhigh⟩

end Draw

end FixtureBench
