/-!
# Doubles

A double is a whole number of units of `2^-1074` with a sign, an infinity, or no number. Counting
in units keeps all arithmetic exact until one rounding at the end: `nearestUnits` rounds any
quotient to a count that a double can hold, a tie going to the even neighbour.

Powers are written `Nat.pow`, which means the same whatever else a module imports.
-/

namespace Arith

/-- The first count of units that is too large: `2^1024`. -/
def unitsLimit : Nat := Nat.pow 2 2098

/-- A count of units is representable when it lies below the limit and its last binary digits, those
after the first 53, are all zero. -/
def Representable (units : Nat) : Prop :=
  units < unitsLimit ∧ Nat.pow 2 (units.log2 - 52) ∣ units

instance (units : Nat) : Decidable (Representable units) :=
  inferInstanceAs (Decidable (_ ∧ _))

theorem zero_representable : Representable 0 :=
  ⟨by decide +kernel, Nat.dvd_zero _⟩

/-- The numbers of the language: 64-bit binary floating point. -/
inductive Double where
  | nan
  | infinite (negative : Bool)
  | finite (negative : Bool) (units : Nat) (fits : Representable units)
deriving DecidableEq

namespace Double

/-! ## Rounding -/

/-- The quotient as a whole number, a half going to the even neighbour. -/
def roundQuotient (num den : Nat) : Nat :=
  let whole := num / den
  let rest := num % den
  if 2 * rest < den ∨ (2 * rest = den ∧ whole % 2 = 0) then whole else whole + 1

/-- The power of two that separates neighbouring doubles around the quotient. -/
def spacing (num den : Nat) : Nat := Nat.pow 2 ((num / den).log2 - 52)

/-- The quotient rounded to 53 significant binary digits, and to whole units below that. -/
def nearestUnits (num den : Nat) : Nat :=
  roundQuotient num (den * spacing num den) * spacing num den

theorem roundQuotient_le (num den : Nat) : roundQuotient num den ≤ num / den + 1 := by
  unfold roundQuotient
  simp only
  split <;> omega

theorem le_roundQuotient (num den : Nat) : num / den ≤ roundQuotient num den := by
  unfold roundQuotient
  simp only
  split <;> omega

theorem log2_mul_pow {m : Nat} (k : Nat) (h : m ≠ 0) :
    (m * Nat.pow 2 k).log2 = m.log2 + k := by
  rw [Nat.pow_eq]
  have hk : m * 2 ^ k ≠ 0 := Nat.mul_ne_zero h (Nat.ne_of_gt (Nat.two_pow_pos k))
  rw [Nat.log2_eq_iff hk, Nat.pow_add, show m.log2 + k + 1 = (m.log2 + 1) + k by omega, Nat.pow_add]
  exact ⟨Nat.mul_le_mul_right _ (Nat.log2_self_le h),
    Nat.mul_lt_mul_of_pos_right Nat.lt_log2_self (Nat.pow_pos (by decide))⟩

theorem representable_nearestUnits {num den : Nat} (h : nearestUnits num den < unitsLimit) :
    Representable (nearestUnits num den) := by
  refine ⟨h, ?_⟩
  have hle := roundQuotient_le num (den * spacing num den)
  have hge := le_roundQuotient num (den * spacing num den)
  unfold nearestUnits
  rw [← Nat.div_div_eq_div_mul] at hle hge
  revert hle hge
  generalize roundQuotient num (den * spacing num den) = m
  unfold spacing
  generalize num / den = q
  simp only [Nat.pow_eq]
  intro hle hge
  by_cases hm : m = 0
  · simp [hm]
  by_cases hq : q.log2 ≤ 52
  · have hzero : q.log2 - 52 = 0 := by omega
    have hlt : q < 2 ^ 53 := Nat.lt_of_lt_of_le Nat.lt_log2_self
      (Nat.pow_le_pow_right (by decide) (by omega))
    rw [hzero] at hle ⊢
    simp only [Nat.pow_zero, Nat.div_one, Nat.mul_one] at hle ⊢
    by_cases hlast : m < 2 ^ 53
    · have := (Nat.log2_lt hm).mpr hlast
      rw [show m.log2 - 52 = 0 by omega]
      exact Nat.one_dvd m
    · rw [show m = 2 ^ 53 by omega]
      decide
  · obtain ⟨k, hk⟩ : ∃ k, q.log2 = 52 + k := ⟨q.log2 - 52, by omega⟩
    rw [show q.log2 - 52 = k by omega] at hle hge ⊢
    rw [show (m * 2 ^ k).log2 = m.log2 + k from log2_mul_pow k hm]
    have hq0 : q ≠ 0 := by rintro rfl; simp at hq
    have hlow : q / 2 ^ k < 2 ^ 53 := by
      rw [Nat.div_lt_iff_lt_mul (Nat.pow_pos (by decide)), ← Nat.pow_add]
      have := Nat.lt_log2_self (n := q)
      rwa [show q.log2 + 1 = 53 + k by omega] at this
    by_cases hlast : m < 2 ^ 53
    · have := (Nat.log2_lt hm).mpr hlast
      exact Nat.dvd_trans (Nat.pow_dvd_pow 2 (by omega)) (Nat.dvd_mul_left _ _)
    · rw [show m = 2 ^ 53 by omega, ← Nat.pow_add]
      exact Nat.pow_dvd_pow 2 (by rw [Nat.log2_two_pow]; omega)

/-- The double nearest to a quotient of units; what is too large is infinite. -/
def ofQuotient (negative : Bool) (num den : Nat) : Double :=
  if h : nearestUnits num den < unitsLimit then
    .finite negative (nearestUnits num den) (representable_nearestUnits h)
  else
    .infinite negative

/-- How many units make one. -/
def one : Nat := Nat.pow 2 1074

def ofInt (n : Int) : Double := ofQuotient (n < 0) (n.natAbs * one) 1

/-- The positive infinity in the place of either; any other double stays. -/
def positiveIfInfinite : Double → Double
  | infinite _ => infinite false
  | x => x

/-- The whole number that a finite double without a fraction is. -/
def toInt? : Double → Option Int
  | finite negative units _ =>
    if units % one = 0 then some (if negative then -(units / one : Nat) else (units / one : Nat))
    else none
  | _ => none

/-- The double nearest to `digits` shifted `places` decimal places to the right of the point. -/
def ofDecimal (digits places : Nat) : Double := ofQuotient false (digits * one) (Nat.pow 10 places)

def zero (negative : Bool) : Double := .finite negative 0 zero_representable

end Double
end Arith
