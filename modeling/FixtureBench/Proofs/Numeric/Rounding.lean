import FixtureBench.Number
import FixtureBench.Proofs.Numeric.Finite

/-!
# Whole numbers as doubles

A double keeps 53 significant bits of a whole number. `Binary64.roundInt` is the whole number that
is kept: up to `2 ^ 53` every number itself, and beyond that the nearest multiple of a power of two,
an even multiple on a tie. Two whole numbers of a document have one value as doubles exactly if they
are rounded to one number.
-/

namespace FixtureBench

theorem roundHalfEven_mul_right (num den : Nat) {c : Nat} (hc : 0 < c) :
    roundHalfEven (num * c) (den * c) = roundHalfEven num den := by
  simp only [roundHalfEven, Nat.mul_div_mul_right num den hc, Nat.mul_mod_mul_right,
    ← Nat.mul_assoc, Nat.mul_lt_mul_right hc, Nat.mul_left_inj hc.ne']

theorem roundHalfEven_mul_self (q : Nat) {den : Nat} (h : 0 < den) :
    roundHalfEven (q * den) den = q := by
  have hone : roundHalfEven q 1 = q := by
    simp [roundHalfEven, Nat.mod_one]
  have hmul := roundHalfEven_mul_right q 1 h
  rwa [Nat.one_mul, hone] at hmul

theorem le_roundHalfEven {num den k : Nat} (h : k * den ≤ num) (hden : 0 < den) :
    k ≤ roundHalfEven num den := by
  have hq : k ≤ num / den := (Nat.le_div_iff_mul_le hden).2 h
  simp only [roundHalfEven]
  split
  · exact hq
  · split <;> omega

namespace Binary64

/-- The number with 53 significant bits that is nearest to a natural number. -/
def roundNat (n : Nat) : Nat := roundHalfEven n (2 ^ (n.log2 - 52)) * 2 ^ (n.log2 - 52)

def roundInt (n : Int) : Int := if n < 0 then -(roundNat n.natAbs : Int) else roundNat n.natAbs

theorem roundNat_of_lt {n : Nat} (h : n < 2 ^ 53) : roundNat n = n := by
  have hlog : n.log2 - 52 = 0 := by
    by_cases hzero : n = 0
    · rw [hzero]
      rfl
    · have := (Nat.log2_lt hzero).2 h
      omega
  have hround := roundHalfEven_mul_self n Nat.one_pos
  rw [Nat.mul_one] at hround
  rw [roundNat, hlog, Nat.pow_zero, Nat.mul_one, hround]

/-- A number with enough digits has 53 of them above the unit it is rounded to. -/
theorem significand_bounds {n : Nat} (h : 2 ^ 52 ≤ n) :
    2 ^ 52 * 2 ^ (n.log2 - 52) ≤ n ∧ n < 2 ^ 53 * 2 ^ (n.log2 - 52) := by
  have hzero : n ≠ 0 := by omega
  have hlog : 52 ≤ n.log2 := (Nat.le_log2 hzero).2 h
  have hlow : 52 + (n.log2 - 52) = n.log2 := by omega
  have hhigh : 53 + (n.log2 - 52) = n.log2 + 1 := by omega
  rw [← Nat.pow_add, ← Nat.pow_add, hlow, hhigh]
  exact ⟨Nat.log2_self_le hzero, Nat.lt_log2_self⟩

theorem le_roundNat {n : Nat} (h : 2 ^ 53 ≤ n) : 2 ^ 53 ≤ roundNat n := by
  have hzero : n ≠ 0 := by omega
  have hlog : 53 ≤ n.log2 := (Nat.le_log2 hzero).2 h
  have hscale : n.log2 - 52 = n.log2 - 53 + 1 := by omega
  have hbound := (significand_bounds (by omega : 2 ^ 52 ≤ n)).1
  have hround := le_roundHalfEven hbound (Nat.two_pow_pos _)
  calc
    2 ^ 53 ≤ 2 ^ 53 * 2 ^ (n.log2 - 53) := Nat.le_mul_of_pos_right _ (Nat.two_pow_pos _)
    _ = 2 ^ 52 * 2 ^ (n.log2 - 52) := by rw [hscale, Nat.pow_succ]; omega
    _ ≤ roundNat n := Nat.mul_le_mul_right _ hround

/-- Rounding does not depend on the unit in which a number is counted. -/
theorem roundNat_mul_two_pow (n k : Nat) : roundNat (n * 2 ^ k) = roundNat n * 2 ^ k := by
  by_cases hzero : n = 0
  · rw [hzero, Nat.zero_mul, roundNat_of_lt (by decide), Nat.zero_mul]
  have hpos : n * 2 ^ k ≠ 0 := Nat.mul_ne_zero hzero (Nat.two_pow_pos k).ne'
  have hlog : (n * 2 ^ k).log2 = n.log2 + k := by
    rw [Nat.log2_eq_iff hpos, Nat.add_right_comm, Nat.pow_add, Nat.pow_add]
    exact ⟨Nat.mul_le_mul_right _ (Nat.log2_self_le hzero),
      Nat.mul_lt_mul_of_pos_right Nat.lt_log2_self (Nat.two_pow_pos k)⟩
  by_cases hsmall : n < 2 ^ 53
  · -- The smaller unit divides the new number, so nothing is lost on either side.
    have hscale : n.log2 + k - 52 ≤ k := by
      have := (Nat.log2_lt hzero).2 hsmall
      omega
    have hsplit : n * 2 ^ k =
        n * 2 ^ (k - (n.log2 + k - 52)) * 2 ^ (n.log2 + k - 52) := by
      rw [Nat.mul_assoc, ← Nat.pow_add, Nat.sub_add_cancel hscale]
    rw [roundNat_of_lt hsmall, roundNat, hlog, hsplit,
      roundHalfEven_mul_self _ (Nat.two_pow_pos _)]
  · have hscale : n.log2 + k - 52 = n.log2 - 52 + k := by
      have := (Nat.le_log2 hzero).2 (Nat.le_of_not_lt hsmall)
      omega
    rw [roundNat, hlog, hscale, Nat.pow_add, roundHalfEven_mul_right _ _ (Nat.two_pow_pos k),
      ← Nat.mul_assoc, ← roundNat]

theorem roundNat_mul_shiftLeft (n k : Nat) : roundNat (n * 1 <<< k) = roundNat n * 1 <<< k := by
  rw [Nat.one_shiftLeft, roundNat_mul_two_pow]

/-- A significand at its place in the list of doubles has the magnitude that it stands for. -/
theorem sizeOfPattern_add {scale r : Nat} (low : scale = 0 ∨ 2 ^ 52 ≤ r)
    (high : r < 2 ^ 53 ∨ 0 < scale ∧ r = 2 ^ 53) :
    sizeOfPattern (scale * blockSize + r) = r * 2 ^ scale := by
  simp only [sizeOfPattern, Nat.shiftLeft_eq, blockSize_eq]
  by_cases hsmall : r < 2 ^ 52
  · have hzero : scale = 0 := by omega
    have hblock : (scale * 2 ^ 52 + r) / 2 ^ 52 = 0 := by omega
    rw [if_pos hblock, hzero]
    omega
  · by_cases hcarry : r = 2 ^ 53
    · -- The significand was rounded up to the next block.
      have hblock : (scale * 2 ^ 52 + r) / 2 ^ 52 = scale + 2 := by omega
      have hrest : (scale * 2 ^ 52 + r) % 2 ^ 52 = 0 := by omega
      have hsucc : scale + 2 - 1 = scale + 1 := rfl
      rw [hblock, hrest, if_neg (Nat.succ_ne_zero _), hsucc, hcarry, Nat.pow_succ]
      omega
    · have hblock : (scale * 2 ^ 52 + r) / 2 ^ 52 = scale + 1 := by omega
      have hrest : 2 ^ 52 + (scale * 2 ^ 52 + r) % 2 ^ 52 = r := by omega
      rw [hblock, hrest, if_neg (Nat.succ_ne_zero _), Nat.add_sub_cancel]

/-- The double nearest to a number of units is the rounded number of units. -/
theorem sizeOfPattern_nearestPattern (num : Nat) :
    sizeOfPattern (nearestPattern num 1) = roundNat num := by
  rw [nearestPattern, Nat.div_one, Nat.one_shiftLeft, roundNat]
  by_cases hsmall : num < 2 ^ 53
  · have hround := roundNat_of_lt hsmall
    rw [roundNat] at hround
    have hle : roundHalfEven num (2 ^ (num.log2 - 52)) ≤ num :=
      (Nat.le_mul_of_pos_right _ (Nat.two_pow_pos _)).trans hround.le
    refine sizeOfPattern_add ?_ (.inl (Nat.lt_of_le_of_lt hle hsmall))
    by_cases htiny : num < 2 ^ 52
    · left
      by_cases hzero : num = 0
      · rw [hzero]
        rfl
      · have := (Nat.log2_lt hzero).2 htiny
        omega
    · exact .inr (le_roundHalfEven (significand_bounds (by omega)).1 (Nat.two_pow_pos _))
  · have hzero : num ≠ 0 := by omega
    have hlog := (Nat.le_log2 hzero).2 (Nat.le_of_not_lt hsmall)
    obtain ⟨hlow, hhigh⟩ := significand_bounds (by omega : 2 ^ 52 ≤ num)
    have hfloor : num / 2 ^ (num.log2 - 52) < 2 ^ 53 := Nat.div_lt_of_lt_mul (by rwa [Nat.mul_comm])
    have hround := roundHalfEven_le num (2 ^ (num.log2 - 52))
    refine sizeOfPattern_add (.inr (le_roundHalfEven hlow (Nat.two_pow_pos _))) ?_
    omega

theorem ofInt_eq {n : Int} (h : n.natAbs ≤ 2 ^ 64) :
    ∃ x : Binary64, ofInt n = .finite x ∧ x.units = roundInt n * unitsPerOne := by
  have hwithin : (ofInt n).Within 65 := by
    refine nearest_within _ (by decide) ?_
    rw [Nat.one_mul]
    exact Nat.mul_lt_mul_of_pos_right (Nat.lt_of_le_of_lt h (by decide)) unitsPerOne_pos
  have hpattern : nearestPattern (n.natAbs * unitsPerOne) 1 < 2047 * blockSize := by
    by_contra hlarge
    obtain ⟨y, hy, -⟩ := hwithin
    rw [ofInt, nearest, dif_neg hlarge] at hy
    cases hy
  refine ⟨⟨decide (n < 0), nearestPattern (n.natAbs * unitsPerOne) 1, hpattern⟩,
    dif_pos hpattern, ?_⟩
  have hsize : sizeOfPattern (nearestPattern (n.natAbs * unitsPerOne) 1) =
      roundNat n.natAbs * unitsPerOne := by
    rw [sizeOfPattern_nearestPattern]
    exact roundNat_mul_shiftLeft _ 1074
  rw [units, size, hsize, roundInt]
  by_cases hneg : n < 0
  · simp [hneg]
  · simp [hneg]

theorem roundInt_of_lt {n : Int} (h : n.natAbs < 2 ^ 53) : roundInt n = n := by
  rw [roundInt, roundNat_of_lt h]
  split <;> omega

theorem natAbs_roundInt (n : Int) : (roundInt n).natAbs = roundNat n.natAbs := by
  rw [roundInt]
  split <;> omega

/-- A number of at most 53 bits is no rounding of another number. -/
theorem eq_of_roundInt_eq {m n : Int} (h : m.natAbs < 2 ^ 53) (heq : roundInt m = roundInt n) :
    m = n := by
  by_cases hn : n.natAbs < 2 ^ 53
  · rwa [roundInt_of_lt h, roundInt_of_lt hn] at heq
  · have hlarge := le_roundNat (Nat.le_of_not_lt hn)
    rw [← natAbs_roundInt, ← heq, natAbs_roundInt, roundNat_of_lt h] at hlarge
    exact absurd h (Nat.not_lt.2 hlarge)

end Binary64

namespace Number

theorem sameValue_int {m n : Int} (hm : -0x8000000000000000 ≤ m ∧ m < 0x10000000000000000)
    (hn : -0x8000000000000000 ≤ n ∧ n < 0x10000000000000000) :
    (int m hm).sameValue (int n hn) = true ↔ Binary64.roundInt m = Binary64.roundInt n := by
  obtain ⟨x, hx, hxunits⟩ := Binary64.ofInt_eq (n := m) (by omega)
  obtain ⟨y, hy, hyunits⟩ := Binary64.ofInt_eq (n := n) (by omega)
  have hpos : (Binary64.unitsPerOne : Int) ≠ 0 := by
    have := Binary64.unitsPerOne_pos
    omega
  rw [sameValue, toDouble, toDouble, hx, hy]
  rw [Double.sameValue, Binary64.sameValue_iff, hxunits, hyunits]
  exact Int.mul_eq_mul_right_iff hpos

end Number

end FixtureBench
