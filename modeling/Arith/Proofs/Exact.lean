import Arith.Double.Guarded
import Arith.Proofs.Nearest

/-!
# Doubles as exact numbers

A finite double is a rational. What the operations ask of their arguments, being zero, below zero,
whole or odd, is a question about that number.
-/

namespace Arith

namespace Double

/-! ## Exact values -/

/-- The rational that a finite double is. -/
def rational? : Double → Option ℚ
  | finite negative units _ => some (ratOf negative units)
  | _ => none

def signedUnits (negative : Bool) (units : Nat) : Int := if negative then -units else units

section
variable {negative : Bool} {units : Nat} {k : Int}

theorem ratOf_eq_signedUnits (negative : Bool) (units : Nat) :
    ratOf negative units = (signedUnits negative units : ℚ) / one := by
  cases negative with
  | false => rfl
  | true =>
    simp only [ratOf, signedUnits, if_true, Int.cast_neg, Int.cast_natCast, neg_div]

theorem ratOf_eq_intCast_iff : ratOf negative units = k ↔ signedUnits negative units = k * one := by
  rw [ratOf_eq_signedUnits, div_eq_iff cast_one_pos.ne']
  exact_mod_cast Iff.rfl

theorem ratOf_eq_zero_iff : ratOf negative units = 0 ↔ units = 0 := by
  rw [← Int.cast_zero, ratOf_eq_intCast_iff, Int.zero_mul]
  cases negative <;> simp [signedUnits]

theorem ratOf_lt_zero_iff : ratOf negative units < 0 ↔ negative ∧ units ≠ 0 := by
  cases negative with
  | false =>
    simp only [ratOf, Bool.false_eq_true, false_and, iff_false, not_lt]
    exact div_nonneg (Nat.cast_nonneg units) cast_one_pos.le
  | true =>
    rw [ratOf, neg_lt_zero, div_pos_iff_of_pos_right cast_one_pos, Nat.cast_pos, Nat.pos_iff_ne_zero]
    simp only [true_and]

theorem abs_ratOf (negative : Bool) (units : Nat) : |ratOf negative units| = (units : ℚ) / one := by
  have hnonneg : (0 : ℚ) ≤ (units : ℚ) / one := div_nonneg (Nat.cast_nonneg units) cast_one_pos.le
  cases negative with
  | false => exact abs_of_nonneg hnonneg
  | true => rw [ratOf, abs_neg, abs_of_nonneg hnonneg]

theorem exists_signedUnits_eq_mul_iff {d : Nat} :
    (∃ k : Int, signedUnits negative units = k * d) ↔ units % d = 0 := by
  rw [← dvd_iff_exists_eq_mul_left, ← Nat.dvd_iff_mod_eq_zero]
  cases negative with
  | false => exact Int.natCast_dvd_natCast
  | true => exact Int.dvd_neg.trans Int.natCast_dvd_natCast

theorem mod_two_mul_eq_iff {d u : Nat} (hd : 0 < d) :
    u % (2 * d) = d ↔ ∃ k : Int, (u : Int) = (2 * k + 1) * d := by
  constructor
  · intro hmod
    refine ⟨(u / (2 * d) : Nat), ?_⟩
    have hdiv := Nat.div_add_mod u (2 * d)
    rw [hmod] at hdiv
    generalize u / (2 * d) = n at *
    rw [← hdiv]
    push_cast
    rw [Int.add_mul, Int.one_mul, Int.mul_right_comm]
  · rintro ⟨k, hk⟩
    have hnonneg : 0 ≤ 2 * k + 1 := by
      by_contra hneg
      have hless : (2 * k + 1) * d < 0 := Int.mul_neg_of_neg_of_pos (by omega) (by omega)
      omega
    obtain ⟨n, rfl⟩ : ∃ n : Nat, k = n := ⟨k.toNat, by omega⟩
    have hu : u = 2 * d * n + d := by
      have hcast : (u : Int) = (2 * d * n + d : Nat) := by
        rw [hk]
        push_cast
        rw [Int.add_mul, Int.one_mul, Int.mul_right_comm]
      omega
    rw [hu, Nat.mul_add_mod, Nat.mod_eq_of_lt (by omega)]

theorem exists_signedUnits_eq_odd_mul_iff {d : Nat} (hd : 0 < d) :
    (∃ k : Int, signedUnits negative units = (2 * k + 1) * d) ↔ units % (2 * d) = d := by
  rw [mod_two_mul_eq_iff hd]
  cases negative with
  | false => rfl
  | true =>
    have hturn (k : Int) : (2 * (-k - 1) + 1) * d = -((2 * k + 1) * d) := by
      rw [← Int.neg_mul]
      congr 1
      omega
    constructor
    · rintro ⟨k, hk⟩
      exact ⟨-k - 1, by rw [hturn, ← hk, signedUnits, if_pos rfl, Int.neg_neg]⟩
    · rintro ⟨k, hk⟩
      exact ⟨-k - 1, by rw [hturn, ← hk, signedUnits, if_pos rfl]⟩

end

section
variable {x : Double} {q : ℚ}

theorem exists_eq_finite (h : x.rational? = some q) :
    ∃ negative units fits, x = finite negative units fits ∧ q = ratOf negative units := by
  cases x with
  | nan => cases h
  | infinite negative => cases h
  | finite negative units fits =>
    cases h
    exact ⟨negative, units, fits, rfl, rfl⟩

theorem ne_nan (h : x.rational? = some q) : x ≠ nan := by
  rintro rfl
  cases h

theorem isFinite_iff : x.isFinite ↔ ∃ q, x.rational? = some q := by
  cases x <;> simp [isFinite, rational?]

theorem isInfinite_iff : x.isInfinite ↔ ∃ negative, x = infinite negative := by
  cases x <;> simp [isInfinite]

theorem isZero_iff : x.isZero ↔ x.rational? = some 0 := by
  cases x with
  | nan => simp [isZero, rational?]
  | infinite negative => simp [isZero, rational?]
  | finite negative units fits => simp [isZero, rational?, ratOf_eq_zero_iff]

theorem isBelowZero_iff (h : x.rational? = some q) : x.isBelowZero ↔ q < 0 := by
  obtain ⟨negative, units, fits, rfl, rfl⟩ := exists_eq_finite h
  rw [ratOf_lt_zero_iff]
  simp [isBelowZero]

theorem isBelowZero_eq_isNegative (h : ¬ x.isZero) : x.isBelowZero = x.isNegative := by
  cases x with
  | nan => rfl
  | infinite negative => rfl
  | finite negative units fits =>
    simp only [isZero, decide_eq_true_eq] at h
    simp [isBelowZero, isNegative, h]

theorem not_isZero_of_rational? (h : x.rational? = some q) (hne : q ≠ 0) : ¬ x.isZero := by
  rw [isZero_iff, h, Option.some.injEq]
  exact hne

theorem isNegative_iff (h : x.rational? = some q) (hne : q ≠ 0) : x.isNegative ↔ q < 0 := by
  rw [← isBelowZero_iff h, isBelowZero_eq_isNegative (not_isZero_of_rational? h hne)]

theorem eq_of_rational?_eq {y : Double} (hx : x.rational? = some q) (hy : y.rational? = some q)
    (hne : q ≠ 0) : x = y := by
  have hsign : x.isNegative = y.isNegative := by
    rw [Bool.eq_iff_iff, isNegative_iff hx hne, isNegative_iff hy hne]
  obtain ⟨negative, units, fits, rfl, rfl⟩ := exists_eq_finite hx
  obtain ⟨negative', units', fits', rfl, heq⟩ := exists_eq_finite hy
  obtain rfl : negative = negative' := hsign
  have habs := congrArg abs heq
  rw [abs_ratOf, abs_ratOf, div_left_inj' cast_one_pos.ne', Nat.cast_inj] at habs
  obtain rfl := habs
  rfl

theorem isWhole_iff (h : x.rational? = some q) : x.isWhole ↔ ∃ k : Int, q = k := by
  obtain ⟨negative, units, fits, rfl, rfl⟩ := exists_eq_finite h
  simp only [isWhole, decide_eq_true_eq, ratOf_eq_intCast_iff]
  exact exists_signedUnits_eq_mul_iff.symm

theorem isWhole_of_isZero (h : x.isZero) : x.isWhole :=
  (isWhole_iff (isZero_iff.mp h)).mpr ⟨0, rfl⟩

theorem isOdd_iff : x.isOdd ↔ ∃ k : Int, x.rational? = some ((2 * k + 1 : Int) : ℚ) := by
  cases x with
  | nan => simp [isOdd, rational?]
  | infinite negative => simp [isOdd, rational?]
  | finite negative units fits =>
    simp only [isOdd, rational?, decide_eq_true_eq, Option.some.injEq, ratOf_eq_intCast_iff]
    exact (exists_signedUnits_eq_odd_mul_iff (Nat.cast_pos.mp cast_one_pos)).symm

theorem rational?_ofInt_one : (ofInt 1).rational? = some 1 := by
  obtain ⟨fits, hone⟩ : ∃ fits, ofInt 1 = finite false one fits :=
    ⟨by decide +kernel, by decide +kernel⟩
  rw [hone, rational?, ratOf, div_self cast_one_pos.ne']

theorem rational?_ofInt_minus_one : (ofInt (-1)).rational? = some (-1) := by
  obtain ⟨fits, hone⟩ : ∃ fits, ofInt (-1) = finite true one fits :=
    ⟨by decide +kernel, by decide +kernel⟩
  rw [hone, rational?, ratOf, div_self cast_one_pos.ne']

theorem eq_ofInt_one_iff : x = ofInt 1 ↔ x.rational? = some 1 := by
  constructor
  · intro hone
    rw [hone]
    exact rational?_ofInt_one
  · intro hone
    exact eq_of_rational?_eq hone rational?_ofInt_one one_ne_zero

/-! ## Odd integers -/

theorem mod_two_mul_cases {u d : Nat} (h : u % d = 0) : u % (2 * d) = 0 ∨ u % (2 * d) = d := by
  rw [Nat.mul_comm, Nat.mod_mul, h, Nat.zero_add]
  rcases Nat.mod_two_eq_zero_or_one (u / d) with hmod | hmod
  · exact .inl (by rw [hmod, Nat.mul_zero])
  · exact .inr (by rw [hmod, Nat.mul_one])

theorem isWhole_of_isOdd (h : x.isOdd) : x.isWhole := by
  cases x with
  | nan => cases h
  | infinite negative => cases h
  | finite negative units fits =>
    simp only [isOdd, isWhole, decide_eq_true_eq] at h ⊢
    rw [← Nat.mod_mod_of_dvd units (Nat.dvd_mul_left one 2), h, Nat.mod_self]

theorem modTwo_eq {rest : Double} (h : x.restByTwo = rest) :
    x.modTwo = if rest.isZero then zero false
      else if rest.isBelowZero then rest.add (ofInt 2) else rest := by
  rw [modTwo, h]

theorem modTwo_eq_one_iff (h : x.isWhole) : x.modTwo = ofInt 1 ↔ x.isOdd := by
  cases x with
  | nan => cases h
  | infinite negative => cases h
  | finite negative units fits =>
    simp only [isOdd, isWhole, decide_eq_true_eq] at h ⊢
    rcases mod_two_mul_cases h with heven | hodd
    · rw [modTwo_eq (by rw [restByTwo, heven]), heven]
      revert negative
      decide +kernel
    · rw [modTwo_eq (by rw [restByTwo, hodd]), hodd]
      revert negative
      decide +kernel

theorem isOddInteger_eq_isOdd (x : Double) : x.isOddInteger = x.isOdd := by
  by_cases hwhole : x.isWhole
  · have hfinite : x.isFinite := by
      cases x <;> first | rfl | cases hwhole
    rw [isOddInteger, hfinite, hwhole, Bool.eq_iff_iff, ← modTwo_eq_one_iff hwhole]
    simp
  · have hodd : ¬ x.isOdd := fun h => hwhole (isWhole_of_isOdd h)
    simp [isOddInteger, hwhole, hodd]

end

end Double

end Arith
