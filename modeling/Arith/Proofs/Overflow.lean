import Arith.Literal

/-!
# Where the doubles end

Rounding goes to infinity from one point on: half way between the largest double and the power of
two behind it, `2^1024 - 2^970`. The point itself already rounds up, since the largest double has an
odd significand.
-/

namespace Arith

namespace Double

/-! ## Rounding a quotient -/

theorem lt_roundQuotient_iff {num den m : Nat} (hden : 0 < den) :
    m < roundQuotient num den ↔
      (2 * m + 1) * den < 2 * num ∨ (2 * m + 1) * den = 2 * num ∧ m % 2 = 1 := by
  have hnum := Nat.div_add_mod num den
  have hrest := Nat.mod_lt num hden
  have hexpand : (2 * m + 1) * den = 2 * (den * m) + den := by
    rw [Nat.add_mul, Nat.one_mul, Nat.mul_assoc, Nat.mul_comm m]
  rw [hexpand]
  unfold roundQuotient
  simp only
  generalize num / den = whole at *
  generalize num % den = rest at *
  rcases Nat.lt_trichotomy m whole with hlt | rfl | hlt
  · have hmul : den * m + den ≤ den * whole := Nat.mul_le_mul_left den hlt
    split <;> omega
  · split <;> omega
  · have hmul : den * whole + den ≤ den * m := Nat.mul_le_mul_left den hlt
    split <;> omega

theorem lt_roundQuotient_iff_of_odd {num den m : Nat} (hden : 0 < den) (hodd : m % 2 = 1) :
    m < roundQuotient num den ↔ (2 * m + 1) * den ≤ 2 * num := by
  rw [lt_roundQuotient_iff hden, Nat.le_iff_lt_or_eq]
  simp [hodd]

/-! ## The size of a rounded quotient -/

section
variable {num den : Nat}

theorem nearestUnits_eq {k : Nat} (hlog : (num / den).log2 = 52 + k) :
    nearestUnits num den = roundQuotient num (den * Nat.pow 2 k) * Nat.pow 2 k := by
  unfold nearestUnits spacing
  rw [hlog, Nat.add_sub_cancel_left]

theorem pow_le_nearestUnits {k : Nat} (hlog : (num / den).log2 = 52 + k) :
    Nat.pow 2 (52 + k) ≤ nearestUnits num den := by
  rw [nearestUnits_eq hlog]
  simp only [Nat.pow_eq]
  have hne : num / den ≠ 0 := by
    intro hzero
    rw [hzero, Nat.log2_zero] at hlog
    omega
  have hlow : 2 ^ (52 + k) ≤ num / den := hlog ▸ Nat.log2_self_le hne
  have hquotient : 2 ^ 52 ≤ roundQuotient num (den * 2 ^ k) := by
    refine Nat.le_trans ?_ (le_roundQuotient _ _)
    rw [← Nat.div_div_eq_div_mul, Nat.le_div_iff_mul_le (Nat.two_pow_pos k), ← Nat.pow_add]
    exact hlow
  rw [Nat.pow_add]
  exact Nat.mul_le_mul_right _ hquotient

theorem nearestUnits_le_pow {k : Nat} (hlog : (num / den).log2 ≤ 52 + k) :
    nearestUnits num den ≤ Nat.pow 2 (53 + k) := by
  unfold nearestUnits spacing
  generalize hj : (num / den).log2 - 52 = j
  simp only [Nat.pow_eq]
  have hhigh : num / den < 2 ^ ((num / den).log2 + 1) := Nat.lt_log2_self
  have hquotient : num / den / 2 ^ j < 2 ^ 53 := by
    rw [Nat.div_lt_iff_lt_mul (Nat.two_pow_pos j), ← Nat.pow_add]
    exact Nat.lt_of_lt_of_le hhigh (Nat.pow_le_pow_right (by decide) (by omega))
  have hround : roundQuotient num (den * 2 ^ j) ≤ 2 ^ 53 := by
    refine Nat.le_trans (roundQuotient_le _ _) ?_
    rw [← Nat.div_div_eq_div_mul]
    exact Nat.succ_le_of_lt hquotient
  refine Nat.le_trans (Nat.mul_le_mul_right _ hround) ?_
  rw [← Nat.pow_add]
  exact Nat.pow_le_pow_right (by decide) (by omega)

theorem pow_le_nearestUnits_iff_of_log2 {k : Nat} (hden : 0 < den)
    (hlog : (num / den).log2 = 52 + k) :
    Nat.pow 2 (53 + k) ≤ nearestUnits num den ↔
      (Nat.pow 2 54 - 1) * (den * Nat.pow 2 k) ≤ 2 * num := by
  rw [nearestUnits_eq hlog]
  simp only [Nat.pow_eq]
  have hpos : 0 < den * 2 ^ k := Nat.mul_pos hden (Nat.two_pow_pos k)
  have hround : 2 ^ 53 - 1 < roundQuotient num (den * 2 ^ k) ↔ _ :=
    lt_roundQuotient_iff_of_odd hpos (by decide)
  have hdouble : 2 * (2 ^ 53 - 1) + 1 = 2 ^ 54 - 1 := by decide
  rw [Nat.pow_add, Nat.mul_le_mul_right_iff (Nat.two_pow_pos k), ← hdouble, ← hround]
  constructor
  · intro hle
    exact Nat.sub_one_lt_of_le (by decide) hle
  · intro hlt
    exact Nat.le_of_pred_lt hlt

theorem pow_le_nearestUnits_iff (hden : 0 < den) (k : Nat) :
    Nat.pow 2 (54 + k) ≤ nearestUnits num den ↔
      den * (Nat.pow 2 (54 + k) - Nat.pow 2 k) ≤ num := by
  have hdouble : Nat.pow 2 (54 + k) = Nat.pow 2 (53 + k) + Nat.pow 2 (53 + k) := by
    simp only [Nat.pow_eq]
    rw [show 54 + k = 53 + k + 1 by omega, Nat.pow_succ, Nat.mul_two]
  rcases Nat.lt_trichotomy (num / den).log2 (53 + k) with hlog | hlog | hlog
  · -- The quotient lies below half of the power, where both sides fail.
    have hhalf : Nat.pow 2 k ≤ Nat.pow 2 (53 + k) := Nat.pow_le_pow_right (by decide) (by omega)
    have hpos : 0 < Nat.pow 2 (53 + k) := Nat.two_pow_pos _
    have hnearest : nearestUnits num den ≤ Nat.pow 2 (53 + k) := nearestUnits_le_pow (by omega)
    have hquotient : num / den < Nat.pow 2 (53 + k) :=
      Nat.lt_of_lt_of_le Nat.lt_log2_self (Nat.pow_le_pow_right (by decide) hlog)
    have hnum : num < den * Nat.pow 2 (53 + k) := by
      rwa [Nat.mul_comm, ← Nat.div_lt_iff_lt_mul hden]
    have hbound : den * Nat.pow 2 (53 + k) ≤ den * (Nat.pow 2 (54 + k) - Nat.pow 2 k) :=
      Nat.mul_le_mul_left den (by omega)
    omega
  · have hlog' : (num / den).log2 = 52 + (k + 1) := by omega
    have hmid := pow_le_nearestUnits_iff_of_log2 hden hlog'
    simp only [Nat.pow_eq] at hmid ⊢
    have hbelow : den * (2 ^ (54 + k) - 2 ^ k) = (2 ^ 54 - 1) * (den * 2 ^ k) := by
      rw [Nat.pow_add, ← Nat.sub_one_mul, Nat.mul_left_comm]
    have hdigit : den * 2 ^ (k + 1) = den * 2 ^ k * 2 := by rw [Nat.pow_succ, Nat.mul_assoc]
    rw [show 53 + (k + 1) = 54 + k by omega, hdigit, ← Nat.mul_assoc, ← hbelow] at hmid
    rw [hmid, Nat.mul_comm, Nat.mul_le_mul_left_iff (by decide)]
  · -- The quotient has reached the power, where both sides hold.
    obtain ⟨j, hj⟩ : ∃ j, (num / den).log2 = 52 + j := ⟨(num / den).log2 - 52, by omega⟩
    have hne : num / den ≠ 0 := by
      intro hzero
      rw [hzero, Nat.log2_zero] at hlog
      omega
    have hpow : Nat.pow 2 (54 + k) ≤ Nat.pow 2 (52 + j) :=
      Nat.pow_le_pow_right (by decide) (by omega)
    have hquotient : Nat.pow 2 (52 + j) ≤ num / den := hj ▸ Nat.log2_self_le hne
    have hnum : den * Nat.pow 2 (54 + k) ≤ num := by
      rw [Nat.mul_comm, ← Nat.le_div_iff_mul_le hden]
      exact Nat.le_trans hpow hquotient
    constructor
    · intro _
      exact Nat.le_trans (Nat.mul_le_mul_left den (Nat.sub_le _ _)) hnum
    · intro _
      exact Nat.le_trans hpow (pow_le_nearestUnits hj)

end

/-! ## The threshold -/

/-- The point, in units, from which on a quotient rounds to infinity. -/
def overflowUnits : Nat := Nat.pow 2 2098 - Nat.pow 2 2044

theorem unitsLimit_le_nearestUnits_iff {num den : Nat} (hden : 0 < den) :
    unitsLimit ≤ nearestUnits num den ↔ den * overflowUnits ≤ num := by
  obtain ⟨k, hlimit, hoverflow⟩ : ∃ k, unitsLimit = Nat.pow 2 (54 + k) ∧
      overflowUnits = Nat.pow 2 (54 + k) - Nat.pow 2 k := ⟨2044, by decide +kernel⟩
  rw [hlimit, hoverflow]
  exact pow_le_nearestUnits_iff hden k

end Double

/-! ## Whole numbers -/

/-- The first whole number that is too large for a double. -/
def overflowInt : Nat := Nat.pow 2 1024 - Nat.pow 2 970

theorem ofInt_natCast (n : Nat) : Double.ofInt n = Double.ofQuotient false (n * Double.one) 1 := by
  have hsign : decide ((n : Int) < 0) = false := by simp
  unfold Double.ofInt
  rw [hsign, Int.natAbs_natCast]

theorem nearestUnits_lt_iff (n : Nat) :
    Double.nearestUnits (n * Double.one) 1 < unitsLimit ↔ n < overflowInt := by
  have hunits : overflowInt * Double.one = Double.overflowUnits := by decide +kernel
  have hone : 0 < Double.one := by decide +kernel
  rw [← Nat.not_le, Double.unitsLimit_le_nearestUnits_iff Nat.one_pos, Nat.one_mul, ← hunits,
    Nat.mul_le_mul_right_iff hone, Nat.not_le]

namespace Literal

theorem toDouble_int_of_lt {n : Int} (h : n.natAbs < overflowInt) :
    ∃ fits, (Literal.int n).toDouble =
      .finite (n < 0) (Double.nearestUnits (n.natAbs * Double.one) 1) fits := by
  have hfits := (nearestUnits_lt_iff n.natAbs).mpr h
  refine ⟨Double.representable_nearestUnits hfits, ?_⟩
  rw [toDouble, Double.ofInt, Double.ofQuotient, dif_pos hfits]
  rfl

theorem toDouble_int_of_le {n : Int} (h : overflowInt ≤ n.natAbs) :
    (Literal.int n).toDouble = .infinite false := by
  have hlarge := mt (nearestUnits_lt_iff n.natAbs).mp (Nat.not_lt.mpr h)
  rw [toDouble, Double.ofInt, Double.ofQuotient, dif_neg hlarge]
  rfl

theorem toDouble_int_eq_infinite_iff (n : Int) :
    (Literal.int n).toDouble = .infinite false ↔ overflowInt ≤ n.natAbs := by
  refine ⟨fun hinfinite => ?_, toDouble_int_of_le⟩
  rcases Nat.lt_or_ge n.natAbs overflowInt with hlt | hge
  · obtain ⟨_, hfinite⟩ := toDouble_int_of_lt hlt
    rw [hfinite] at hinfinite
    cases hinfinite
  · exact hge

end Literal

end Arith
