import Arith.Proofs.Powers

/-!
# Guarded operations

Guarded operations answer for the machine where it refuses. They come out as the arithmetic of doubles
has it: infinite over a zero, no number where there is no power, and a signed infinity at a pole and
where a power is too large.
-/

namespace Arith

namespace Double

/-! ## Division by zero -/

section
variable {x y : Double}

theorem copySign_infinite (x : Double) : copySign (infinite false) x = infinite x.isNegative := by
  unfold copySign
  cases x.isNegative <;> rfl

theorem copySign_one (x : Double) :
    ∃ fits, copySign (ofInt 1) x = finite x.isNegative one fits := by
  refine ⟨by decide +kernel, ?_⟩
  unfold copySign
  cases x.isNegative <;> decide +kernel

theorem infinite_mul_copySign_one (negative : Bool) (y : Double) :
    (infinite negative).mul (copySign (ofInt 1) y) = infinite (negative ^^ y.isNegative) := by
  obtain ⟨fits, hone⟩ := copySign_one y
  rw [hone, mul, if_neg (Nat.cast_pos.mp cast_one_pos).ne']

theorem div_of_isZero (h : y.isZero) :
    x.div y = if x.isZero ∨ x = nan then nan else infinite (x.isNegative ^^ y.isNegative) := by
  obtain ⟨negative, units, fits, rfl, hzero⟩ := exists_eq_finite (isZero_iff.mp h)
  have hunits := ratOf_eq_zero_iff.mp hzero.symm
  cases x with
  | nan => simp [div]
  | infinite negative' => simp [div, isZero, isNegative]
  | finite negative' units' fits' => simp [div, isZero, isNegative, hunits]

theorem div_of_rational?_eq_zero (h : y.rational? = some 0) :
    (x.div y = nan ↔ x.rational? = some 0 ∨ x = nan) ∧
      (x.rational? ≠ some 0 → x ≠ nan → x.div y = infinite (x.isNegative ^^ y.isNegative)) := by
  rw [← isZero_iff] at h
  rw [div_of_isZero h, Ne, ← isZero_iff]
  constructor
  · split
    · rename_i hnan
      simp only [hnan]
    · rename_i hnumber
      simp only [hnumber, reduceCtorEq]
  · intro hzero hnan
    exact if_neg (not_or.mpr ⟨hzero, hnan⟩)

/-- Looking for the zero divisor first makes up for the machine's refusal. -/
theorem guardedDiv_eq (x y : Double) : guardedDiv x y = .ok (x.div y) := by
  unfold guardedDiv refusingDiv
  split
  · rename_i hzero
    rw [div_of_isZero hzero]
    split
    · rfl
    · rw [copySign_infinite, infinite_mul_copySign_one]
  · rfl

end

/-! ## Powers that are too large -/

/-- Any other power of finite numbers is too large when it comes out infinite. -/
def Overflows (pow : Double → Double → Double) (base exponent : Double) : Prop :=
  (∃ q, base.rational? = some q ∧ q ≠ 0) ∧ (∃ r, exponent.rational? = some r) ∧
    ¬ NoPower base exponent ∧ ∃ negative, pow base exponent = infinite negative

section
variable {base exponent : Double} {pow : Double → Double → Double}

theorem overflows_iff : Overflows pow base exponent ↔
    (base.isFinite ∧ exponent.isFinite) ∧ ¬ NoPower base exponent ∧ ¬ base.isZero ∧
      (pow base exponent).isInfinite := by
  rw [Overflows, ← isInfinite_iff, isZero_iff, isFinite_iff, isFinite_iff]
  constructor
  · rintro ⟨⟨q, hbase, hne⟩, hexponent, hpower, hinfinite⟩
    refine ⟨⟨⟨q, hbase⟩, hexponent⟩, hpower, ?_, hinfinite⟩
    rw [hbase, Option.some.injEq]
    exact hne
  · rintro ⟨⟨⟨q, hbase⟩, hexponent⟩, hpower, hne, hinfinite⟩
    rw [hbase, Option.some.injEq] at hne
    exact ⟨⟨q, hbase, hne⟩, hexponent, hpower, hinfinite⟩

/-! ## Refused powers -/

theorem refusingPow_outOfDomain (h : NoPower base exponent ∨ Pole base exponent) :
    refusingPow pow base exponent = .error .outOfDomain := by
  rw [noPower_iff, pole_iff, ← and_or_left] at h
  rw [refusingPow, if_pos h.1, if_pos h.2]

theorem refusingPow_outOfRange (h : Overflows pow base exponent) :
    refusingPow pow base exponent = .error .outOfRange := by
  obtain ⟨hfinite, hpower, hlarge⟩ := overflows_iff.mp h
  rw [noPower_iff] at hpower
  rw [refusingPow, if_pos hfinite, if_neg ?_, if_pos hlarge]
  rintro (hfraction | hpole)
  · exact hpower ⟨hfinite, hfraction⟩
  · exact hlarge.1 hpole.1

theorem refusingPow_ok (hpower : ¬ NoPower base exponent) (hpole : ¬ Pole base exponent)
    (hrange : ¬ Overflows pow base exponent) :
    refusingPow pow base exponent = .ok (pow base exponent) := by
  rw [overflows_iff] at hrange
  rw [refusingPow]
  split
  · rename_i hfinite
    have hdomain := not_or.mpr ⟨hpower, hpole⟩
    rw [noPower_iff, pole_iff, ← and_or_left] at hdomain
    rw [if_neg fun h => hdomain ⟨hfinite, h⟩, if_neg fun h => hrange ⟨hfinite, hpower, h⟩]
  · rfl

theorem guardedPow_of_noPower (h : NoPower base exponent) :
    guardedPow pow base exponent = .ok nan := by
  have hreport : refusingPow pow base exponent = _ := refusingPow_outOfDomain (.inl h)
  obtain ⟨q, r, hbase, -, hneg, -⟩ := h
  have hzero := not_isZero_of_rational? hbase hneg.ne
  rw [guardedPow, hreport]
  exact if_neg fun hpole => hzero hpole.1

theorem guardedPow_of_pole (h : Pole base exponent) :
    guardedPow pow base exponent = .ok (infinite (base.isNegative && exponent.isOdd)) := by
  obtain ⟨-, hzero⟩ := pole_iff.mp h
  rw [guardedPow, refusingPow_outOfDomain (.inr h)]
  simp only [hzero, and_self, if_true, isOddInteger_eq_isOdd, copySign_infinite]
  cases exponent.isOdd <;> simp

theorem guardedPow_of_overflows (h : Overflows pow base exponent) :
    guardedPow pow base exponent = .ok (infinite (base.isNegative && exponent.isOdd)) := by
  obtain ⟨-, -, hzero, -⟩ := overflows_iff.mp h
  rw [guardedPow, refusingPow_outOfRange h]
  simp only [isBelowZero_eq_isNegative hzero, isOddInteger_eq_isOdd, ← Bool.and_eq_true]
  cases base.isNegative && exponent.isOdd <;> rfl

theorem guardedPow_of_ok (hpower : ¬ NoPower base exponent) (hpole : ¬ Pole base exponent)
    (hrange : ¬ Overflows pow base exponent) :
    guardedPow pow base exponent = .ok (pow base exponent) := by
  rw [guardedPow, refusingPow_ok hpower hpole hrange]

theorem exists_guardedPow (pow : Double → Double → Double) (base exponent : Double) :
    ∃ x, guardedPow pow base exponent = .ok x ∧
      (NoPower base exponent → x = nan) ∧
      (Pole base exponent ∨ Overflows pow base exponent →
        ∃ negative : Bool, x = infinite negative ∧ (negative ↔ KeepsSign base exponent)) ∧
      (¬ NoPower base exponent → ¬ Pole base exponent → ¬ Overflows pow base exponent →
        x = pow base exponent) := by
  by_cases hpower : NoPower base exponent
  · refine ⟨nan, guardedPow_of_noPower hpower, fun _ => rfl, ?_, fun hno => absurd hpower hno⟩
    intro hinfinite
    exact absurd hinfinite (not_or.mpr ⟨hpower.not_pole, fun hrange => hrange.2.2.1 hpower⟩)
  by_cases hinfinite : Pole base exponent ∨ Overflows pow base exponent
  · have hresult : guardedPow pow base exponent = _ :=
      hinfinite.elim guardedPow_of_pole guardedPow_of_overflows
    refine ⟨_, hresult, fun hno => absurd hno hpower, fun _ => ⟨_, rfl, keepsSign_iff.symm⟩, ?_⟩
    intro _ hpole hrange
    exact absurd hinfinite (not_or.mpr ⟨hpole, hrange⟩)
  · obtain ⟨hpole, hrange⟩ := not_or.mp hinfinite
    refine ⟨_, guardedPow_of_ok hpower hpole hrange, fun hno => absurd hno hpower,
      fun h => absurd h hinfinite, fun _ _ _ => rfl⟩

theorem guardedPow_power (base exponent : Double) :
    guardedPow power base exponent = .ok (base.power exponent) := by
  by_cases hpower : NoPower base exponent
  · rw [guardedPow_of_noPower hpower, power_of_noPower hpower]
  by_cases hpole : Pole base exponent
  · rw [guardedPow_of_pole hpole, power_of_pole hpole]
  by_cases hrange : Overflows power base exponent
  · rw [guardedPow_of_overflows hrange]
    obtain ⟨⟨q, hbase, -⟩, ⟨r, hexponent⟩, -, negative, hinfinite⟩ := hrange
    rw [hinfinite, sign_of_power hbase hexponent hinfinite]
  · exact guardedPow_of_ok hpower hpole hrange

end

/-! ## Guarded operations -/

/-- The guarded operations never refuse. A quotient by zero is `nan` just for a zero and for `nan`, and
otherwise infinite with the sign of both together. A power is `nan` where there is none; a pole and an
overflow give an infinity, the negative one just for an odd exponent over a base with a minus sign; and
any other power is passed on. Around the power of the language they change nothing, and it has the
special values of IEEE 754 for all arguments but the regular ones. -/
theorem guarded_operations :
    (∀ x y, guardedDiv x y = .ok (x.div y)) ∧
    (∀ x y, y.rational? = some 0 →
      (x.div y = nan ↔ x.rational? = some 0 ∨ x = nan) ∧
      (x.rational? ≠ some 0 → x ≠ nan → x.div y = infinite (x.isNegative ^^ y.isNegative))) ∧
    (∀ pow base exponent, ∃ x, guardedPow pow base exponent = .ok x ∧
      (NoPower base exponent → x = nan) ∧
      (Pole base exponent ∨ Overflows pow base exponent →
        ∃ negative : Bool, x = infinite negative ∧ (negative ↔ KeepsSign base exponent)) ∧
      (¬ NoPower base exponent → ¬ Pole base exponent → ¬ Overflows pow base exponent →
        x = pow base exponent)) ∧
    (∀ base exponent, guardedPow power base exponent = .ok (base.power exponent)) ∧
    (∀ base exponent x, SpecialPower base exponent x → base.power exponent = x) ∧
    ∀ base exponent, (∃ x, SpecialPower base exponent x) ∨ Regular base exponent := by
  exact ⟨guardedDiv_eq, fun _ _ hy => div_of_rational?_eq_zero hy, exists_guardedPow,
    guardedPow_power, fun _ _ _ => power_of_special, exists_special_or_regular⟩

/-- One over the negative zero, the square root of minus one, the negative zero to the power of minus
one, a negative number to an odd power that is too large, and one to any power. -/
theorem guarded_operations_negative :
    (ofInt 1).div (zero true) = infinite true ∧
    guardedPow power (ofInt (-1)) (ofDecimal 5 1) = .ok nan ∧
    guardedPow power (zero true) (ofInt (-1)) = .ok (infinite true) ∧
    guardedPow (fun _ _ => infinite false) (ofInt (-10)) (ofInt 401) = .ok (infinite true) ∧
    (ofInt 1).power nan = ofInt 1 := by
  obtain ⟨-, hdiv, hpow, -, hspecial, -⟩ := guarded_operations
  refine ⟨?_, ?_, ?_, ?_, ?_⟩
  · have hone : ¬ (ofInt 1).isZero := by decide +kernel
    rw [isZero_iff] at hone
    rw [(hdiv _ (zero true) (isZero_iff.mp rfl)).2 hone (by decide +kernel)]
    decide +kernel
  · obtain ⟨x, hx, hnan, -⟩ := hpow power (ofInt (-1)) (ofDecimal 5 1)
    rw [hx, hnan (noPower_iff.mpr (by decide +kernel))]
  · obtain ⟨x, hx, -, hinfinite, -⟩ := hpow power (zero true) (ofInt (-1))
    obtain ⟨negative, rfl, hsign⟩ := hinfinite (.inl (pole_iff.mpr (by decide +kernel)))
    rw [hx, hsign.mpr (keepsSign_iff.mpr (by decide +kernel))]
  · obtain ⟨x, hx, -, hinfinite, -⟩ := hpow (fun _ _ => infinite false) (ofInt (-10)) (ofInt 401)
    have hrange : Overflows (fun _ _ => infinite false) (ofInt (-10)) (ofInt 401) := by
      rw [overflows_iff, noPower_iff]
      decide +kernel
    obtain ⟨negative, rfl, hsign⟩ := hinfinite (.inr hrange)
    rw [hx, hsign.mpr (keepsSign_iff.mpr (by decide +kernel))]
  · exact hspecial _ _ _ (.baseOne nan)

end Double

end Arith
