import Arith.Proofs.Exact

/-!
# Powers

Zeros, ones, infinities and `nan` settle a power without computing it. So do a fraction over a negative
base, which has no power, and a negative exponent over zero, where the power has a pole.
-/

namespace Arith

namespace Double

/-! ## Arguments without a finite power -/

/-- A negative number has no power for a fraction. -/
def NoPower (base exponent : Double) : Prop :=
  ∃ q r, base.rational? = some q ∧ exponent.rational? = some r ∧ q < 0 ∧ ¬ ∃ k : Int, r = k

/-- Zero has no finite power for a negative exponent. -/
def Pole (base exponent : Double) : Prop :=
  base.rational? = some 0 ∧ ∃ r, exponent.rational? = some r ∧ r < 0

/-- The base has a sign and an odd exponent keeps it. -/
def KeepsSign (base exponent : Double) : Prop :=
  base.isNegative ∧ ∃ k : Int, exponent.rational? = some ((2 * k + 1 : Int) : ℚ)

section
variable {base exponent : Double}

theorem keepsSign_iff : KeepsSign base exponent ↔ base.isNegative && exponent.isOdd := by
  rw [KeepsSign, ← isOdd_iff, Bool.and_eq_true]

theorem noPower_iff : NoPower base exponent ↔
    (base.isFinite ∧ exponent.isFinite) ∧ base.isBelowZero ∧ ¬ exponent.isWhole := by
  constructor
  · rintro ⟨q, r, hbase, hexponent, hneg, hfraction⟩
    rw [isBelowZero_iff hbase, isWhole_iff hexponent]
    exact ⟨⟨isFinite_iff.mpr ⟨q, hbase⟩, isFinite_iff.mpr ⟨r, hexponent⟩⟩, hneg, hfraction⟩
  · rintro ⟨⟨hbase, hexponent⟩, hneg, hfraction⟩
    obtain ⟨q, hbase⟩ := isFinite_iff.mp hbase
    obtain ⟨r, hexponent⟩ := isFinite_iff.mp hexponent
    rw [isBelowZero_iff hbase] at hneg
    rw [isWhole_iff hexponent] at hfraction
    exact ⟨q, r, hbase, hexponent, hneg, hfraction⟩

theorem pole_iff : Pole base exponent ↔
    (base.isFinite ∧ exponent.isFinite) ∧ base.isZero ∧ exponent.isBelowZero := by
  constructor
  · rintro ⟨hbase, r, hexponent, hneg⟩
    rw [isZero_iff, isBelowZero_iff hexponent]
    exact ⟨⟨isFinite_iff.mpr ⟨0, hbase⟩, isFinite_iff.mpr ⟨r, hexponent⟩⟩, hbase, hneg⟩
  · rintro ⟨⟨-, hexponent⟩, hzero, hneg⟩
    obtain ⟨r, hexponent⟩ := isFinite_iff.mp hexponent
    rw [isBelowZero_iff hexponent] at hneg
    exact ⟨isZero_iff.mp hzero, r, hexponent, hneg⟩

theorem NoPower.not_pole (h : NoPower base exponent) : ¬ Pole base exponent := by
  obtain ⟨q, r, hbase, -, hneg, -⟩ := h
  rintro ⟨hzero, -⟩
  rw [hbase, Option.some.injEq] at hzero
  exact hneg.ne hzero

/-! ## The power of the language -/

theorem ne_ofInt_one_of_isNegative (h : base.isNegative) : base ≠ ofInt 1 := by
  intro hone
  rw [hone] at h
  revert h
  decide +kernel

theorem ne_ofInt_one_of_isZero (h : base.isZero) : base ≠ ofInt 1 := by
  intro hone
  rw [hone] at h
  revert h
  decide +kernel

theorem negateIf_infinite (turn : Bool) : (infinite false).negateIf turn = infinite turn := by
  cases turn <;> rfl

theorem power_eq_one (h : exponent.isZero ∨ base = ofInt 1) : base.power exponent = ofInt 1 := by
  unfold power
  exact if_pos h

theorem power_eq_negateIf (hexponent : ¬ exponent.isZero) (hone : base ≠ ofInt 1) (hbase : base ≠ nan)
    (hnan : exponent ≠ nan) (hpower : ¬ NoPower base exponent) :
    base.power exponent =
      (powerOfMagnitude base exponent).negateIf (base.isNegative && exponent.isOdd) := by
  rw [noPower_iff] at hpower
  unfold power
  rw [if_neg (not_or.mpr ⟨hexponent, hone⟩), if_neg (not_or.mpr ⟨hbase, hnan⟩)]
  split
  · rename_i units fits negative units' fits'
    have hwhole : (finite negative units' fits').isWhole := by
      by_contra hfraction
      exact hpower ⟨⟨rfl, rfl⟩, by simp [isBelowZero], hfraction⟩
    rw [if_pos hwhole]
    rfl
  · rfl

theorem power_of_noPower (h : NoPower base exponent) : base.power exponent = nan := by
  obtain ⟨-, hneg, hfraction⟩ := noPower_iff.mp h
  obtain ⟨q, r, hbase, hexponent, -⟩ := h
  obtain ⟨negative, units, fits, rfl, -⟩ := exists_eq_finite hbase
  obtain ⟨negative', units', fits', rfl, -⟩ := exists_eq_finite hexponent
  simp only [isBelowZero, Bool.and_eq_true, bne_iff_ne] at hneg
  obtain ⟨rfl, hunits⟩ := hneg
  obtain ⟨n, rfl⟩ := Nat.exists_eq_succ_of_ne_zero hunits
  have hone : finite true n.succ fits ≠ ofInt 1 := ne_ofInt_one_of_isNegative rfl
  have hzero := mt isWhole_of_isZero hfraction
  unfold power
  rw [if_neg (not_or.mpr ⟨hzero, hone⟩), if_neg (by simp)]
  exact if_neg hfraction

theorem powerOfMagnitude_of_zero {r : ℚ} (hbase : base.rational? = some 0)
    (hexponent : exponent.rational? = some r) :
    powerOfMagnitude base exponent = if exponent.isNegative then infinite false else zero false := by
  obtain ⟨negative, units, fits, rfl, hzero⟩ := exists_eq_finite hbase
  obtain ⟨negative', units', fits', rfl, -⟩ := exists_eq_finite hexponent
  rw [powerOfMagnitude, if_pos (ratOf_eq_zero_iff.mp hzero.symm)]
  rfl

theorem power_of_zero {r : ℚ} (hbase : base.rational? = some 0)
    (hexponent : exponent.rational? = some r) (hne : r ≠ 0) :
    base.power exponent = (if exponent.isNegative then infinite false else zero false).negateIf
      (base.isNegative && exponent.isOdd) := by
  have hone := ne_ofInt_one_of_isZero (isZero_iff.mpr hbase)
  have hpower : ¬ NoPower base exponent := by
    rintro ⟨q, r, hq, -, hneg, -⟩
    rw [hbase, Option.some.injEq] at hq
    exact hneg.ne hq.symm
  rw [power_eq_negateIf (not_isZero_of_rational? hexponent hne) hone (ne_nan hbase) (ne_nan hexponent)
    hpower, powerOfMagnitude_of_zero hbase hexponent]

theorem power_of_pole (h : Pole base exponent) :
    base.power exponent = infinite (base.isNegative && exponent.isOdd) := by
  obtain ⟨hbase, r, hexponent, hneg⟩ := h
  have hsign := (isNegative_iff hexponent hneg.ne).mpr hneg
  rw [power_of_zero hbase hexponent hneg.ne, if_pos hsign, negateIf_infinite]

theorem isNegative_magnitude (x : Double) : x.magnitude.isNegative = false := by
  cases x <;> rfl

theorem isNegative_powerOfMagnitude (base exponent : Double) :
    (powerOfMagnitude base exponent).isNegative = false := by
  unfold powerOfMagnitude
  split
  · split
    · rfl
    · split <;> rfl
  · split
    · split <;> rfl
    · exact isNegative_magnitude _
  · split <;> rfl

theorem isNegative_of_negateIf {x : Double} {turn negative : Bool} (hx : x.isNegative = false)
    (h : x.negateIf turn = infinite negative) : negative = turn := by
  cases x with
  | nan => cases turn <;> cases h
  | finite sign units fits => cases turn <;> cases h
  | infinite sign =>
    obtain rfl : sign = false := hx
    rw [negateIf_infinite] at h
    cases h
    rfl

theorem sign_of_power {q r : ℚ} {negative : Bool} (hbase : base.rational? = some q)
    (hexponent : exponent.rational? = some r) (h : base.power exponent = infinite negative) :
    negative = (base.isNegative && exponent.isOdd) := by
  have hfinite : ofInt 1 ≠ infinite negative := by
    intro hone
    have hinfinite : (ofInt 1).isInfinite := isInfinite_iff.mpr ⟨negative, hone⟩
    revert hinfinite
    decide +kernel
  by_cases hpower : NoPower base exponent
  · rw [power_of_noPower hpower] at h
    cases h
  by_cases hone : exponent.isZero ∨ base = ofInt 1
  · rw [power_eq_one hone] at h
    exact absurd h hfinite
  obtain ⟨hzero, hone⟩ := not_or.mp hone
  rw [power_eq_negateIf hzero hone (ne_nan hbase) (ne_nan hexponent) hpower] at h
  exact isNegative_of_negateIf (isNegative_powerOfMagnitude base exponent) h

end

/-! ## Special powers -/

/-- The powers that zeros, ones, infinities and `nan` settle, as IEEE 754 has them. -/
inductive SpecialPower : Double → Double → Double → Prop where
  | zeroExponent {base exponent : Double} : exponent.rational? = some 0 →
    SpecialPower base exponent (ofInt 1)
  | baseOne (exponent : Double) : SpecialPower (ofInt 1) exponent (ofInt 1)
  | nanBase {exponent : Double} : exponent.rational? ≠ some 0 → SpecialPower nan exponent nan
  | nanExponent {base : Double} : base ≠ ofInt 1 → SpecialPower base nan nan
  | noPower {base exponent : Double} : NoPower base exponent → SpecialPower base exponent nan
  | pole {base exponent : Double} {negative : Bool} : Pole base exponent →
    (negative ↔ KeepsSign base exponent) → SpecialPower base exponent (infinite negative)
  | zeroBase {base exponent : Double} {r : ℚ} {negative : Bool} : base.rational? = some 0 →
    exponent.rational? = some r → 0 < r → (negative ↔ KeepsSign base exponent) →
    SpecialPower base exponent (zero negative)
  | baseMinusOne (negative : Bool) : SpecialPower (ofInt (-1)) (infinite negative) (ofInt 1)
  | shrinking {base : Double} {q : ℚ} (negative : Bool) : base.rational? = some q → |q| < 1 →
    SpecialPower base (infinite negative) (if negative then infinite false else zero false)
  | growing {base : Double} {q : ℚ} (negative : Bool) : base.rational? = some q → 1 < |q| →
    SpecialPower base (infinite negative) (if negative then zero false else infinite false)
  | infinities (sign negative : Bool) : SpecialPower (infinite sign) (infinite negative)
    (if negative then zero false else infinite false)
  | vanishing {sign : Bool} {exponent : Double} {r : ℚ} {negative : Bool} :
    exponent.rational? = some r → r < 0 → (negative ↔ KeepsSign (infinite sign) exponent) →
    SpecialPower (infinite sign) exponent (zero negative)
  | infiniteBase {sign : Bool} {exponent : Double} {r : ℚ} {negative : Bool} :
    exponent.rational? = some r → 0 < r → (negative ↔ KeepsSign (infinite sign) exponent) →
    SpecialPower (infinite sign) exponent (infinite negative)

section
variable {base exponent x : Double}

theorem negateIf_zero (turn : Bool) : (zero false).negateIf turn = zero turn := by
  cases turn <;> rfl

theorem power_infinite (hone : base ≠ ofInt 1) (hbase : base ≠ nan) (negative : Bool) :
    base.power (infinite negative) = powerOfMagnitude base (infinite negative) := by
  have hpower : ¬ NoPower base (infinite negative) := by
    rintro ⟨q, r, -, hexponent, -⟩
    cases hexponent
  have hodd : (infinite negative).isOdd = false := rfl
  rw [power_eq_negateIf (by simp [isZero]) hone hbase (by simp) hpower, hodd, Bool.and_false]
  rfl

theorem power_infinite_of_rational? {q : ℚ} (h : base.rational? = some q) (hone : |q| ≠ 1)
    (negative : Bool) :
    base.power (infinite negative) =
      if decide (|q| < 1) = negative then infinite false else zero false := by
  have hbase : base ≠ ofInt 1 := by
    rw [Ne, eq_ofInt_one_iff, h, Option.some.injEq]
    rintro rfl
    exact hone abs_one
  obtain ⟨sign, units, fits, rfl, rfl⟩ := exists_eq_finite h
  rw [abs_ratOf, Ne, div_eq_one_iff_eq cast_one_pos.ne', Nat.cast_inj] at hone
  rw [power_infinite hbase (by simp), powerOfMagnitude, if_neg hone]
  simp only [abs_ratOf, div_lt_one cast_one_pos, Nat.cast_lt]

theorem infinite_ne_ofInt_one (sign : Bool) : infinite sign ≠ ofInt 1 := by
  rw [Ne, eq_ofInt_one_iff]
  simp [rational?]

theorem infinite_power {r : ℚ} (sign : Bool) (hexponent : exponent.rational? = some r)
    (hne : r ≠ 0) :
    (infinite sign).power exponent =
      (if exponent.isNegative then zero false else infinite false).negateIf
        (sign && exponent.isOdd) := by
  have hpower : ¬ NoPower (infinite sign) exponent := by
    rintro ⟨q, r, hbase, -⟩
    cases hbase
  rw [power_eq_negateIf (not_isZero_of_rational? hexponent hne) (infinite_ne_ofInt_one sign) (by simp)
    (ne_nan hexponent) hpower]
  rfl

theorem power_of_special (h : SpecialPower base exponent x) : base.power exponent = x := by
  cases h with
  | zeroExponent hzero => exact power_eq_one (.inl (isZero_iff.mpr hzero))
  | baseOne => exact power_eq_one (.inr rfl)
  | nanBase hzero =>
    rw [Ne, ← isZero_iff] at hzero
    unfold power
    rw [if_neg (not_or.mpr ⟨hzero, by decide +kernel⟩), if_pos (.inl rfl)]
  | nanExponent hone =>
    unfold power
    rw [if_neg (not_or.mpr ⟨by decide +kernel, hone⟩), if_pos (.inr rfl)]
  | noPower hpower => exact power_of_noPower hpower
  | pole hpole hsign =>
    rw [keepsSign_iff, ← Bool.eq_iff_iff] at hsign
    rw [hsign]
    exact power_of_pole hpole
  | zeroBase hzero hexponent hpos hsign =>
    rw [keepsSign_iff, ← Bool.eq_iff_iff] at hsign
    have hpositive := (isNegative_iff hexponent hpos.ne').not.mpr hpos.not_gt
    rw [power_of_zero hzero hexponent hpos.ne', if_neg hpositive, negateIf_zero, hsign]
  | baseMinusOne negative =>
    rw [power_infinite (by decide +kernel) (by decide +kernel)]
    revert negative
    decide +kernel
  | shrinking negative hbase hless =>
    rw [power_infinite_of_rational? hbase hless.ne, decide_eq_true hless]
    cases negative <;> rfl
  | growing negative hbase hgreater =>
    rw [power_infinite_of_rational? hbase hgreater.ne', decide_eq_false hgreater.not_gt]
    cases negative <;> rfl
  | infinities sign negative => exact power_infinite (infinite_ne_ofInt_one sign) (by simp) negative
  | vanishing hexponent hneg hsign =>
    rw [keepsSign_iff, ← Bool.eq_iff_iff] at hsign
    have hnegative := (isNegative_iff hexponent hneg.ne).mpr hneg
    rw [infinite_power _ hexponent hneg.ne, if_pos hnegative, negateIf_zero, hsign]
    rfl
  | infiniteBase hexponent hpos hsign =>
    rw [keepsSign_iff, ← Bool.eq_iff_iff] at hsign
    have hpositive := (isNegative_iff hexponent hpos.ne').not.mpr hpos.not_gt
    rw [infinite_power _ hexponent hpos.ne', if_neg hpositive, negateIf_infinite, hsign]
    rfl

/-- Finite arguments whose power is left to be computed. -/
def Regular (base exponent : Double) : Prop :=
  ∃ q r, base.rational? = some q ∧ exponent.rational? = some r ∧ q ≠ 0 ∧ q ≠ 1 ∧ r ≠ 0 ∧
    (q < 0 → ∃ k : Int, r = k)

theorem exists_special_of_infinite_exponent (base : Double) (negative : Bool) :
    ∃ x, SpecialPower base (infinite negative) x := by
  cases hbase : base.rational? with
  | none =>
    cases base with
    | nan => exact ⟨_, .nanBase (by simp [rational?])⟩
    | infinite sign => exact ⟨_, .infinities sign negative⟩
    | finite sign units fits => cases hbase
  | some q =>
    rcases lt_trichotomy |q| 1 with hless | hone | hgreater
    · exact ⟨_, .shrinking negative hbase hless⟩
    · rcases eq_or_eq_neg_of_abs_eq hone with rfl | rfl
      · rw [eq_ofInt_one_iff.mpr hbase]
        exact ⟨_, .baseOne _⟩
      · rw [eq_of_rational?_eq hbase rational?_ofInt_minus_one (by simp)]
        exact ⟨_, .baseMinusOne negative⟩
    · exact ⟨_, .growing negative hbase hgreater⟩

theorem exists_special_of_finite_exponent {r : ℚ} (base : Double) (h : exponent.rational? = some r)
    (hne : r ≠ 0) : (∃ x, SpecialPower base exponent x) ∨ Regular base exponent := by
  cases base with
  | nan => exact .inl ⟨_, .nanBase (by simpa [h] using hne)⟩
  | infinite sign =>
    left
    rcases lt_or_gt_of_ne hne with hneg | hpos
    · exact ⟨_, .vanishing h hneg keepsSign_iff.symm⟩
    · exact ⟨_, .infiniteBase h hpos keepsSign_iff.symm⟩
  | finite sign units fits =>
    obtain ⟨q, hbase⟩ : ∃ q, (finite sign units fits).rational? = some q := ⟨_, rfl⟩
    generalize finite sign units fits = base at *
    by_cases hzero : q = 0
    · subst hzero
      left
      rcases lt_or_gt_of_ne hne with hneg | hpos
      · exact ⟨_, .pole ⟨hbase, r, h, hneg⟩ keepsSign_iff.symm⟩
      · exact ⟨_, .zeroBase hbase h hpos keepsSign_iff.symm⟩
    by_cases hone : q = 1
    · subst hone
      rw [eq_ofInt_one_iff.mpr hbase]
      exact .inl ⟨_, .baseOne exponent⟩
    by_cases hpower : NoPower base exponent
    · exact .inl ⟨_, .noPower hpower⟩
    · right
      refine ⟨q, r, hbase, h, hzero, hone, hne, ?_⟩
      intro hneg
      by_contra hfraction
      exact hpower ⟨q, r, hbase, h, hneg, hfraction⟩

theorem exists_special_or_regular (base exponent : Double) :
    (∃ x, SpecialPower base exponent x) ∨ Regular base exponent := by
  cases h : exponent.rational? with
  | some r =>
    by_cases hzero : r = 0
    · subst hzero
      exact .inl ⟨_, .zeroExponent h⟩
    · exact exists_special_of_finite_exponent base h hzero
  | none =>
    left
    cases exponent with
    | finite negative units fits => cases h
    | infinite negative => exact exists_special_of_infinite_exponent base negative
    | nan =>
      by_cases hone : base = ofInt 1
      · rw [hone]
        exact ⟨_, .baseOne nan⟩
      · exact ⟨_, .nanExponent hone⟩

end

end Double

end Arith
