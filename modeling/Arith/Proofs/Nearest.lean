import Mathlib.Algebra.Order.Field.Basic
import Mathlib.Algebra.Order.Ring.Rat
import Mathlib.Tactic.FieldSimp
import Mathlib.Tactic.Linarith
import Arith.Proofs.Overflow

/-!
# The nearest double

A quotient rounds to the double that is nearest to it, the even one of two. Its distances to whole
numbers are whole in parts of the denominator, so they are compared there first.
-/

namespace Arith

namespace Double

section
variable {num den m w k : Nat}

/-! ## Whole steps -/

/-- How far the quotient lies from a whole number, in parts of the denominator. -/
def distance (num den m : Nat) : Nat := ((num : Int) - (m * den : Nat)).natAbs

theorem distance_mul (num den m k : Nat) :
    distance num den (m * k) = distance num (den * k) m := by
  unfold distance
  rw [Nat.mul_assoc, Nat.mul_comm k den]

/-- The quotient lies half way between two neighbouring numbers. -/
def Halfway (num den m w : Nat) : Prop :=
  (w = m + 1 ∨ m = w + 1) ∧ 2 * num = (m + w) * den

theorem Halfway.symm (h : Halfway num den m w) : Halfway num den w m := by
  obtain ⟨hstep, hnum⟩ := h
  exact ⟨hstep.symm, by rw [hnum, Nat.add_comm]⟩

theorem distance_roundQuotient (num : Nat) (hden : 0 < den) :
    2 * distance num den (roundQuotient num den) ≤ den ∧
      (2 * distance num den (roundQuotient num den) = den → roundQuotient num den % 2 = 0) := by
  have hnum := Nat.div_add_mod num den
  have hrest := Nat.mod_lt num hden
  unfold distance roundQuotient
  simp only
  generalize num / den = whole at *
  generalize num % den = rest at *
  split
  · rw [Nat.mul_comm whole]
    omega
  · rw [Nat.add_mul, Nat.one_mul, Nat.mul_comm whole]
    omega

theorem mul_add_le_mul_of_lt (den : Nat) (hlt : m < w) : m * den + den ≤ w * den := by
  rw [← Nat.succ_mul]
  exact Nat.mul_le_mul_right den hlt

theorem le_distance_add_distance (hne : w ≠ m) :
    den ≤ distance num den m + distance num den w := by
  unfold distance
  rcases Nat.lt_or_gt_of_ne hne with hlt | hlt
  · have hstep := mul_add_le_mul_of_lt den hlt
    omega
  · have hstep := mul_add_le_mul_of_lt den hlt
    omega

theorem halfway_of_lt (hden : 0 < den) (hlt : m < w) (hhalf : 2 * distance num den m = den)
    (hequal : distance num den m = distance num den w) : Halfway num den m w := by
  have hstep := mul_add_le_mul_of_lt den hlt
  unfold distance at hhalf hequal
  have hnext : w * den = (m + 1) * den := by
    rw [Nat.succ_mul]
    omega
  obtain rfl := Nat.eq_of_mul_eq_mul_right hden hnext
  refine ⟨.inl rfl, ?_⟩
  rw [Nat.add_mul]
  omega

theorem distance_roundQuotient_lt (hden : 0 < den) (hne : w ≠ roundQuotient num den) :
    distance num den (roundQuotient num den) < distance num den w ∨
      distance num den (roundQuotient num den) = distance num den w ∧
      roundQuotient num den % 2 = 0 ∧ Halfway num den (roundQuotient num den) w := by
  obtain ⟨hnear, heven⟩ := distance_roundQuotient num hden
  have hapart : den ≤ distance num den (roundQuotient num den) + distance num den w :=
    le_distance_add_distance hne
  generalize roundQuotient num den = m at *
  by_cases hequal : distance num den m = distance num den w
  · have hhalf : 2 * distance num den m = den := by omega
    refine .inr ⟨hequal, heven hhalf, ?_⟩
    rcases Nat.lt_or_gt_of_ne hne with hlt | hlt
    · exact (halfway_of_lt hden hlt (by omega) hequal.symm).symm
    · exact halfway_of_lt hden hlt hhalf hequal
  · exact .inl (by omega)

theorem distance_roundQuotient_le (hden : 0 < den) (w : Nat) :
    distance num den (roundQuotient num den) ≤ distance num den w := by
  by_cases hne : w = roundQuotient num den
  · rw [hne]
  · rcases distance_roundQuotient_lt hden hne with hlt | ⟨heq, -⟩ <;> omega

/-! ## Representable counts -/

/-- The first 53 binary digits of a count, as a whole number. -/
def significand (units : Nat) : Nat := units / Nat.pow 2 (units.log2 - 52)

theorem significand_mul_pow (hhigh : m < Nat.pow 2 53) (hlow : k = 0 ∨ Nat.pow 2 52 ≤ m) :
    significand (m * Nat.pow 2 k) = m := by
  unfold significand
  by_cases hm : m = 0
  · simp [hm]
  rw [log2_mul_pow k hm]
  have hlog : m.log2 < 53 := (Nat.log2_lt hm).mpr hhigh
  rcases hlow with rfl | hlow
  · rw [show m.log2 + 0 - 52 = 0 by omega]
    simp
  · have hle : 52 ≤ m.log2 := (Nat.le_log2 hm).mpr hlow
    rw [show m.log2 + k - 52 = k by omega]
    exact Nat.mul_div_cancel m (Nat.two_pow_pos k)

theorem significand_even (heven : m % 2 = 0) (hhigh : m ≤ Nat.pow 2 53)
    (hlow : k = 0 ∨ Nat.pow 2 52 ≤ m) : significand (m * Nat.pow 2 k) % 2 = 0 := by
  rcases Nat.lt_or_eq_of_le hhigh with hlt | rfl
  · rwa [significand_mul_pow hlt hlow]
  · have hcarry : Nat.pow 2 53 * Nat.pow 2 k = Nat.pow 2 52 * Nat.pow 2 (k + 1) := by
      simp only [Nat.pow_eq]
      omega
    rw [hcarry, significand_mul_pow (by decide) (.inr (Nat.le_refl _))]

/-- The quotient has 53 binary digits in front of the spacing, or fewer when that is a single unit. -/
theorem exists_spacing (num : Nat) (hden : 0 < den) :
    ∃ k, spacing num den = Nat.pow 2 k ∧ num < Nat.pow 2 53 * (den * Nat.pow 2 k) ∧
      (k = 0 ∨ Nat.pow 2 52 * (den * Nat.pow 2 k) ≤ num) := by
  have hscale (digits k : Nat) :
      Nat.pow 2 digits * (den * Nat.pow 2 k) = Nat.pow 2 (digits + k) * den := by
    simp only [Nat.pow_eq]
    rw [Nat.pow_add, Nat.mul_comm den, Nat.mul_assoc]
  refine ⟨(num / den).log2 - 52, rfl, ?_, ?_⟩
  · rw [hscale, ← Nat.div_lt_iff_lt_mul hden]
    exact Nat.lt_of_lt_of_le Nat.lt_log2_self (Nat.pow_le_pow_right (by decide) (by omega))
  · by_cases hlog : (num / den).log2 ≤ 52
    · exact .inl (by omega)
    · right
      have hne : num / den ≠ 0 := by
        intro hzero
        simp [hzero] at hlog
      rw [hscale, ← Nat.le_div_iff_mul_le hden,
        show 52 + ((num / den).log2 - 52) = (num / den).log2 by omega]
      exact Nat.log2_self_le hne

theorem roundQuotient_bounds (hden : 0 < den) (hhigh : num < Nat.pow 2 53 * den)
    (hlow : k = 0 ∨ Nat.pow 2 52 * den ≤ num) :
    roundQuotient num den ≤ Nat.pow 2 53 ∧ (k = 0 ∨ Nat.pow 2 52 ≤ roundQuotient num den) := by
  constructor
  · have hquotient : num / den < Nat.pow 2 53 := (Nat.div_lt_iff_lt_mul hden).mpr hhigh
    exact Nat.le_trans (roundQuotient_le num den) hquotient
  · apply hlow.imp_right
    intro hle
    exact Nat.le_trans ((Nat.le_div_iff_mul_le hden).mpr hle) (le_roundQuotient num den)

theorem Halfway.bounds (h : Halfway num den m w) (hden : 0 < den) (hodd : w % 2 = 1)
    (hhigh : num < Nat.pow 2 53 * den) (hlow : k = 0 ∨ Nat.pow 2 52 * den ≤ num) :
    w < Nat.pow 2 53 ∧ (k = 0 ∨ Nat.pow 2 52 ≤ w) := by
  obtain ⟨hstep, hnum⟩ := h
  simp only [Nat.pow_eq] at *
  constructor
  · have hsum : m + w < 2 ^ 54 := by
      apply Nat.lt_of_mul_lt_mul_right (a := den)
      omega
    omega
  · apply hlow.imp_right
    intro hle
    have hsum : 2 ^ 53 ≤ m + w := by
      apply Nat.le_of_mul_le_mul_right _ hden
      omega
    omega

/-- A representable count that is no multiple of a power of two has fewer digits in front of it. -/
theorem lt_of_not_dvd {units : Nat} (hunits : Nat.pow 2 (units.log2 - 52) ∣ units)
    (h : ¬ Nat.pow 2 k ∣ units) : units < Nat.pow 2 52 * Nat.pow 2 k := by
  have hlog : units.log2 < 52 + k := by
    by_contra hge
    exact h (Nat.dvd_trans (Nat.pow_dvd_pow 2 (by omega)) hunits)
  simp only [Nat.pow_eq]
  rw [← Nat.pow_add]
  exact Nat.lt_of_lt_of_le Nat.lt_log2_self (Nat.pow_le_pow_right (by decide) hlog)

/-- Of two doubles at these distances the first is the one to round to: it is nearer, or in a tie it is
the one whose significand is even. -/
def Nearer {α : Type} [LT α] (near far : α) (units other : Nat) : Prop :=
  near < far ∨ near = far ∧ significand units % 2 = 0 ∧ significand other % 2 = 1

theorem Nearer.asymm {α : Type} [Preorder α] {near far : α} (h : Nearer near far m w) :
    ¬ Nearer far near w m := by
  intro h'
  rcases h with hlt | ⟨rfl, heven, -⟩
  · rcases h' with hlt' | ⟨rfl, -⟩
    · exact lt_asymm hlt hlt'
    · exact lt_irrefl _ hlt
  · rcases h' with hlt' | ⟨-, -, hodd⟩
    · exact lt_irrefl _ hlt'
    · omega

theorem nearer_nearestUnits {units : Nat} (hden : 0 < den)
    (hunits : Nat.pow 2 (units.log2 - 52) ∣ units) (hne : units ≠ nearestUnits num den) :
    Nearer (distance num den (nearestUnits num den)) (distance num den units)
      (nearestUnits num den) units := by
  obtain ⟨k, hspacing, hhigh, hlow⟩ := exists_spacing num hden
  have hpow : 0 < Nat.pow 2 k := Nat.two_pow_pos k
  have hstep : 0 < den * Nat.pow 2 k := Nat.mul_pos hden hpow
  obtain ⟨hmhigh, hmlow⟩ := roundQuotient_bounds hstep hhigh hlow
  unfold nearestUnits at hne ⊢
  rw [hspacing] at hne ⊢
  rw [distance_mul]
  by_cases hdvd : Nat.pow 2 k ∣ units
  · obtain ⟨w, rfl⟩ := hdvd
    rw [Nat.mul_comm _ w] at hne ⊢
    rw [distance_mul]
    have hw : w ≠ roundQuotient num (den * Nat.pow 2 k) := by
      rintro rfl
      exact hne rfl
    rcases distance_roundQuotient_lt hstep hw with hlt | ⟨heq, heven, hhalf⟩
    · exact .inl hlt
    · right
      have hodd : w % 2 = 1 := by
        rcases hhalf.1 with h | h <;> omega
      obtain ⟨hwhigh, hwlow⟩ := hhalf.bounds hstep hodd hhigh hlow
      rw [significand_mul_pow hwhigh hwlow]
      exact ⟨heq, significand_even heven hmhigh hmlow, hodd⟩
  · -- A count off the spacing lies below all quotients that have this spacing.
    left
    have hlt := lt_of_not_dvd hunits hdvd
    have hfar : units * den < Nat.pow 2 52 * (den * Nat.pow 2 k) := by
      rw [Nat.mul_comm den, ← Nat.mul_assoc]
      exact Nat.mul_lt_mul_of_pos_right hlt hden
    have hlarge : Nat.pow 2 52 * (den * Nat.pow 2 k) ≤ num := by
      rcases hlow with rfl | hle
      · exact absurd (Nat.one_dvd units) hdvd
      · exact hle
    refine Nat.lt_of_le_of_lt (distance_roundQuotient_le hstep (Nat.pow 2 52)) ?_
    unfold distance
    omega

/-! ## Rounding a rational -/

/-- The rational that a finite double is. -/
def ratOf : Bool → Nat → ℚ
  | false, units => (units : ℚ) / one
  | true, units => -((units : ℚ) / one)

/-- Of all finite doubles, of either sign, the one to round to. -/
def Closest (q : ℚ) (units : Nat) : Prop :=
  ∀ negative other, Representable other → ratOf negative other ≠ ratOf false units →
    Nearer |q - ratOf false units| |q - ratOf negative other| units other

/-- What a rational that is not negative rounds to. -/
inductive RoundsTo (q : ℚ) : Double → Prop where
  | nearest {units : Nat} {fits : Representable units} : q < (overflowInt : ℚ) → Closest q units →
    RoundsTo q (.finite false units fits)
  | overflow : (overflowInt : ℚ) ≤ q → RoundsTo q (.infinite false)

theorem cast_one_pos : (0 : ℚ) < (one : ℚ) := by
  have hone : 0 < one := by decide +kernel
  exact_mod_cast hone

theorem ratOf_injective {units other : Nat} (h : ratOf false units = ratOf false other) :
    units = other := by
  simp only [ratOf, div_left_inj' cast_one_pos.ne'] at h
  exact_mod_cast h

theorem RoundsTo.unique {q : ℚ} {x y : Double} (hx : RoundsTo q x) (hy : RoundsTo q y) : x = y := by
  cases hx with
  | overflow hq =>
    cases hy with
    | overflow => rfl
    | nearest hlt => exact absurd hq (not_le_of_gt hlt)
  | @nearest units fits hlt hclosest =>
    cases hy with
    | overflow hq => exact absurd hq (not_le_of_gt hlt)
    | @nearest other fits' _ hclosest' =>
      by_cases hne : ratOf false other = ratOf false units
      · obtain rfl := ratOf_injective hne
        rfl
      · have hnearer := hclosest false other fits' hne
        exact absurd (hclosest' false units fits (Ne.symm hne)) hnearer.asymm

theorem RoundsTo.infinite_iff {q : ℚ} {x : Double} (h : RoundsTo q x) :
    x = .infinite false ↔ (overflowInt : ℚ) ≤ q := by
  constructor
  · rintro rfl
    cases h with
    | overflow hq => exact hq
  · intro hq
    cases h with
    | overflow => rfl
    | nearest hlt _ => exact absurd hq (not_le_of_gt hlt)

theorem abs_sub_ratOf (hden : 0 < den) (units : Nat) :
    |(num : ℚ) / den / one - ratOf false units| = (distance num den units : ℚ) / (den * one) := by
  have hden' : (0 : ℚ) < den := by exact_mod_cast hden
  have hone := cast_one_pos
  have hdiff : (num : ℚ) / den / one - ratOf false units =
      ((num : ℚ) - (units * den : Nat)) / (den * one) := by
    simp only [ratOf, Nat.cast_mul]
    field_simp
  rw [hdiff, abs_div, abs_of_pos (mul_pos hden' hone)]
  unfold distance
  rw [Nat.cast_natAbs]
  push_cast
  rfl

theorem nearer_abs_sub_nearestUnits {other : Nat} (hden : 0 < den) (hother : Representable other)
    (hne : other ≠ nearestUnits num den) :
    Nearer |(num : ℚ) / den / one - ratOf false (nearestUnits num den)|
      |(num : ℚ) / den / one - ratOf false other| (nearestUnits num den) other := by
  have hden' : (0 : ℚ) < den := by exact_mod_cast hden
  have hscale : (0 : ℚ) < den * one := mul_pos hden' cast_one_pos
  unfold Nearer
  rw [abs_sub_ratOf hden, abs_sub_ratOf hden, div_lt_div_iff_of_pos_right hscale,
    div_left_inj' hscale.ne', Nat.cast_lt, Nat.cast_inj]
  exact nearer_nearestUnits hden hother.2 hne

theorem abs_sub_nearestUnits_lt {other : Nat} (hden : 0 < den) (hother : other ≠ 0) :
    |(num : ℚ) / den / one - ratOf false (nearestUnits num den)| <
      |(num : ℚ) / den / one - ratOf true other| := by
  have hquotient : (0 : ℚ) ≤ (num : ℚ) / den / one :=
    div_nonneg (div_nonneg (Nat.cast_nonneg num) (Nat.cast_nonneg den)) cast_one_pos.le
  have hless : (0 : ℚ) < (other : ℚ) / one :=
    div_pos (by exact_mod_cast Nat.pos_of_ne_zero hother) cast_one_pos
  have hzero : |(num : ℚ) / den / one - ratOf false (nearestUnits num den)| ≤
      |(num : ℚ) / den / one - ratOf false 0| := by
    by_cases hne : 0 = nearestUnits num den
    · rw [← hne]
    · rcases nearer_abs_sub_nearestUnits hden zero_representable hne with hlt | ⟨heq, -⟩
      · exact hlt.le
      · exact heq.le
  simp only [ratOf, Nat.cast_zero, zero_div, sub_zero, sub_neg_eq_add] at hzero ⊢
  generalize (num : ℚ) / den / one = q at *
  generalize (other : ℚ) / one = y at *
  rw [abs_of_nonneg hquotient] at hzero
  rw [abs_of_pos (add_pos_of_nonneg_of_pos hquotient hless)]
  linarith

theorem closest_nearestUnits (num : Nat) (hden : 0 < den) :
    Closest ((num : ℚ) / den / one) (nearestUnits num den) := by
  intro negative other hother hne
  have hpositive (h : ratOf false other ≠ ratOf false (nearestUnits num den)) :
      Nearer |(num : ℚ) / den / one - ratOf false (nearestUnits num den)|
        |(num : ℚ) / den / one - ratOf false other| (nearestUnits num den) other := by
    apply nearer_abs_sub_nearestUnits hden hother
    intro heq
    exact h (congrArg (ratOf false) heq)
  cases negative with
  | false => exact hpositive hne
  | true =>
    by_cases hzero : other = 0
    · have hsign : ratOf true other = ratOf false other := by
        simp only [hzero, ratOf, Nat.cast_zero, zero_div, neg_zero]
      rw [hsign] at hne ⊢
      exact hpositive hne
    · exact .inl (abs_sub_nearestUnits_lt hden hzero)

theorem ofQuotient_roundsTo (num : Nat) (hden : 0 < den) :
    RoundsTo ((num : ℚ) / den / one) (ofQuotient false num den) := by
  have hden' : (0 : ℚ) < den := by exact_mod_cast hden
  have hunits : overflowInt * one = overflowUnits := by decide +kernel
  have hoverflow : (overflowInt : ℚ) ≤ (num : ℚ) / den / one ↔ unitsLimit ≤ nearestUnits num den := by
    rw [unitsLimit_le_nearestUnits_iff hden, ← hunits, le_div_iff₀ cast_one_pos, le_div_iff₀ hden',
      Nat.mul_comm den]
    exact_mod_cast Iff.rfl
  unfold ofQuotient
  split
  · rename_i hlt
    have hbelow := hoverflow.not.mpr (Nat.not_le.mpr hlt)
    exact .nearest (not_le.mp hbelow) (closest_nearestUnits num hden)
  · rename_i hge
    exact .overflow (hoverflow.mpr (Nat.not_lt.mp hge))

end

end Double

end Arith
