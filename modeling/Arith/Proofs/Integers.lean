import Mathlib.Order.WithBot
import Mathlib.Data.Int.ConditionallyCompleteOrder
import Arith.Proofs.Evaluation
import Arith.Proofs.Exact

/-!
# Integers as values

Below the overflow threshold rounding is symmetric around zero and keeps the order of the integers.
Beyond it, on either side, an integer evaluates to the positive infinity, so that symmetry ends at the
threshold, and the order breaks between the integers below all doubles and those in their range.
-/

namespace Arith

namespace Double

/-! ## Doubles as numbers -/

/-- The number that a double is, in units and with an infinity at each end; `nan` is none. -/
def number? : Double → Option (WithBot (WithTop Int))
  | nan => none
  | infinite true => some ⊥
  | infinite false => some ⊤
  | finite negative units _ => some ↑(signedUnits negative units : WithTop Int)

/-- Equality of numbers: the two zeros are equal, and `nan` equals nothing. -/
def Equals (x y : Double) : Prop := ∃ a, x.number? = some a ∧ y.number? = some a

/-- The order of numbers; `nan` compares with nothing. -/
def AtMost (x y : Double) : Prop := ∃ a b, x.number? = some a ∧ y.number? = some b ∧ a ≤ b

section
variable {x y : Double} {a b : WithBot (WithTop Int)}

theorem equals_iff (hx : x.number? = some a) (hy : y.number? = some b) : x.Equals y ↔ a = b := by
  simp only [Equals, hx, hy, Option.some.injEq]
  constructor
  · rintro ⟨c, rfl, rfl⟩
    rfl
  · rintro rfl
    exact ⟨a, rfl, rfl⟩

theorem atMost_iff (hx : x.number? = some a) (hy : y.number? = some b) : x.AtMost y ↔ a ≤ b := by
  simp only [AtMost, hx, hy, Option.some.injEq]
  constructor
  · rintro ⟨_, _, rfl, rfl, hle⟩
    exact hle
  · intro hle
    exact ⟨a, b, rfl, rfl, hle⟩

theorem number?_neg {n : Int} (h : x.number? = some ↑(n : WithTop Int)) :
    x.neg.number? = some ↑((-n : Int) : WithTop Int) := by
  cases x with
  | nan => cases h
  | infinite negative => cases negative <;> cases h
  | finite negative units fits =>
    cases h
    cases negative
    · rfl
    · simp only [neg, number?, signedUnits, Bool.not_true, if_true, Int.neg_neg]
      rfl

end

/-! ## Rounding keeps the order -/

section
variable {num num' den m w : Nat}

theorem Nearer.le {near far : Nat} (h : Nearer near far m w) : near ≤ far := by
  rcases h with hlt | ⟨heq, -⟩ <;> omega

theorem distance_nearestUnits_le (hden : 0 < den) (hw : Representable w) :
    distance num den (nearestUnits num den) ≤ distance num den w := by
  by_cases hne : w = nearestUnits num den
  · rw [hne]
  · exact (nearer_nearestUnits hden hw.2 hne).le

/-- Were a larger quotient rounded to less, both would have to lie on the wrong side of the middle
between the two results. -/
theorem nearestUnits_mono (hden : 0 < den) (hle : num ≤ num')
    (hfits : nearestUnits num den < unitsLimit) (hfits' : nearestUnits num' den < unitsLimit) :
    nearestUnits num den ≤ nearestUnits num' den := by
  have hnear : distance num den _ ≤ distance num den (nearestUnits num' den) :=
    distance_nearestUnits_le hden (representable_nearestUnits hfits')
  have hnear' : distance num' den _ ≤ distance num' den (nearestUnits num den) :=
    distance_nearestUnits_le hden (representable_nearestUnits hfits)
  rcases Nat.eq_or_lt_of_le hle with rfl | hlt
  · exact Nat.le_refl _
  by_contra hgreater
  have hmul := Nat.mul_lt_mul_of_pos_right (Nat.lt_of_not_le hgreater) hden
  unfold distance at hnear hnear'
  omega

end

/-! ## Rounding an integer -/

def unitsOfInt (n : Int) : Int := n.sign * nearestUnits (n.natAbs * one) 1

theorem unitsOfInt_neg (n : Int) : unitsOfInt (-n) = -unitsOfInt n := by
  simp only [unitsOfInt, Int.sign_neg, Int.natAbs_neg, Int.neg_mul]

theorem unitsOfInt_zero : unitsOfInt 0 = 0 := by
  simp only [unitsOfInt, Int.sign_zero, Int.zero_mul]

theorem signedUnits_eq_unitsOfInt (n : Int) :
    signedUnits (n < 0) (nearestUnits (n.natAbs * one) 1) = unitsOfInt n := by
  unfold unitsOfInt signedUnits
  rcases Int.lt_trichotomy n 0 with hneg | rfl | hpos
  · rw [if_pos (decide_eq_true hneg), Int.sign_eq_neg_one_of_neg hneg, Int.neg_one_mul]
  · simp only [Int.natAbs_zero, Nat.zero_mul, Int.sign_zero, Int.zero_mul]
    rfl
  · rw [decide_eq_false (Int.not_lt.mpr (Int.le_of_lt hpos)), if_neg Bool.false_ne_true,
      Int.sign_eq_one_of_pos hpos, Int.one_mul]

theorem unitsOfInt_mono_of_nonneg {a b : Int} (ha : 0 ≤ a) (hab : a ≤ b)
    (hb : b.natAbs < overflowInt) : unitsOfInt a ≤ unitsOfInt b := by
  rcases Int.lt_or_eq_of_le ha with hpos | rfl
  · have hle : nearestUnits (a.natAbs * one) 1 ≤ nearestUnits (b.natAbs * one) 1 :=
      nearestUnits_mono Nat.one_pos (Nat.mul_le_mul_right one (by omega))
        ((nearestUnits_lt_iff _).mpr (by omega)) ((nearestUnits_lt_iff _).mpr hb)
    simp only [unitsOfInt, Int.sign_eq_one_of_pos hpos,
      Int.sign_eq_one_of_pos (Int.lt_of_lt_of_le hpos hab), Int.one_mul]
    exact Int.ofNat_le.mpr hle
  · have hsign : 0 ≤ b.sign := Int.sign_nonneg_iff.mpr hab
    rw [unitsOfInt_zero]
    exact Int.mul_nonneg hsign (Int.natCast_nonneg _)

theorem unitsOfInt_mono {a b : Int} (hab : a ≤ b) (ha : a.natAbs < overflowInt)
    (hb : b.natAbs < overflowInt) : unitsOfInt a ≤ unitsOfInt b := by
  by_cases hnonneg : 0 ≤ a
  · exact unitsOfInt_mono_of_nonneg hnonneg hab hb
  have hneg : unitsOfInt a = -unitsOfInt (-a) := by
    rw [unitsOfInt_neg, Int.neg_neg]
  rw [hneg]
  by_cases hnonneg' : 0 ≤ b
  · have hbelow := unitsOfInt_mono_of_nonneg (a := 0) (b := -a) (Int.le_refl 0) (by omega) (by omega)
    have habove := unitsOfInt_mono_of_nonneg (a := 0) (b := b) (Int.le_refl 0) hnonneg' hb
    rw [unitsOfInt_zero] at hbelow habove
    omega
  · have hmirror := unitsOfInt_mono_of_nonneg (a := -b) (b := -a) (by omega) (by omega) (by omega)
    rw [unitsOfInt_neg b] at hmirror
    omega

end Double

/-! ## The value of an integer -/

namespace Literal

theorem number?_toDouble_int {n : Int} (h : n.natAbs < overflowInt) :
    (Literal.int n).toDouble.number? = some ↑(Double.unitsOfInt n : WithTop Int) := by
  obtain ⟨fits, heq⟩ := toDouble_int_of_lt h
  rw [heq, Double.number?, Double.signedUnits_eq_unitsOfInt]

theorem exists_number?_toDouble_int (n : Int) : ∃ a, (Literal.int n).toDouble.number? = some a := by
  by_cases h : n.natAbs < overflowInt
  · exact ⟨_, number?_toDouble_int h⟩
  · rw [toDouble_int_of_le (Nat.not_lt.mp h)]
    exact ⟨_, rfl⟩

theorem equals_neg_toDouble_iff (n : Int) :
    (Literal.int (-n)).toDouble.Equals (Literal.int n).toDouble.neg ↔ n.natAbs < overflowInt := by
  by_cases h : n.natAbs < overflowInt
  · have hneg : (-n).natAbs < overflowInt := by omega
    rw [Double.equals_iff (number?_toDouble_int hneg) (Double.number?_neg (number?_toDouble_int h)),
      Double.unitsOfInt_neg]
    simp only [h]
  · have hle : overflowInt ≤ n.natAbs := by omega
    have hle' : overflowInt ≤ (-n).natAbs := by omega
    rw [toDouble_int_of_le hle, toDouble_int_of_le hle', Double.equals_iff rfl rfl]
    simp only [h, iff_false]
    exact top_ne_bot

theorem atMost_toDouble_iff {a b : Int} (hab : a ≤ b) :
    (Literal.int a).toDouble.AtMost (Literal.int b).toDouble ↔
      ¬ (a ≤ -overflowInt ∧ -overflowInt < b ∧ b < overflowInt) := by
  by_cases hb : b.natAbs < overflowInt
  · have hnumber := number?_toDouble_int hb
    by_cases ha : a.natAbs < overflowInt
    · have hmono := Double.unitsOfInt_mono hab ha hb
      rw [Double.atMost_iff (number?_toDouble_int ha) hnumber, WithBot.coe_le_coe,
        WithTop.coe_le_coe]
      simp only [hmono, true_iff]
      omega
    · rw [toDouble_int_of_le (Nat.not_lt.mp ha), Double.atMost_iff rfl hnumber, top_le_iff]
      simp only [WithBot.coe_eq_top, WithTop.coe_ne_top, false_iff, not_not]
      omega
  · have htop : (Literal.int b).toDouble.number? = some ⊤ := by
      rw [toDouble_int_of_le (Nat.not_lt.mp hb)]
      rfl
    obtain ⟨value, hvalue⟩ := exists_number?_toDouble_int a
    rw [Double.atMost_iff hvalue htop]
    simp only [le_top, true_iff]
    omega

end Literal

/-! ## Evaluating integers -/

namespace Expr

theorem evaluate_number (value : Literal) : (number value).evaluate = .ok value.toDouble := by
  rw [evaluate, Draft.evaluate_eq_value]
  rfl

theorem evaluate_neg_number (value : Literal) :
    (unary .sub (number value)).evaluate = .ok value.toDouble.neg := by
  rw [evaluate, Draft.evaluate_eq_value]
  rfl

/-- An integer has a value, and so has its negation. The value of the negated integer is the negated
value just below the threshold. The values keep the order of the integers, except that an integer below
all doubles comes out above the ones in their range. Beyond the threshold, on either side, the value is
the positive infinity. -/
theorem evaluate_integer (n : Int) :
    (∃ x y, (number (.int (-n))).evaluate = .ok x ∧
      (unary .sub (number (.int n))).evaluate = .ok y ∧
      (x.Equals y ↔ n.natAbs < overflowInt)) ∧
    (∀ m : Int, n ≤ m → ∃ x y, (number (.int n)).evaluate = .ok x ∧
      (number (.int m)).evaluate = .ok y ∧
      (x.AtMost y ↔ ¬ (n ≤ -overflowInt ∧ -overflowInt < m ∧ m < overflowInt))) ∧
    ((number (.int n)).evaluate = .ok (.infinite false) ↔ overflowInt ≤ n.natAbs) := by
  refine ⟨?_, fun m hle => ?_, ?_⟩
  · exact ⟨_, _, evaluate_number _, evaluate_neg_number _, Literal.equals_neg_toDouble_iff n⟩
  · exact ⟨_, _, evaluate_number _, evaluate_number _, Literal.atMost_toDouble_iff hle⟩
  · rw [evaluate_number, Except.ok.injEq]
    exact Literal.toDouble_int_eq_infinite_iff n

/-- The integers on both sides of the lower threshold, next to zero. -/
theorem evaluate_integer_at_threshold :
    (∃ x y, (number (.int (1 - overflowInt))).evaluate = .ok x ∧
      (number (.int 0)).evaluate = .ok y ∧ x.AtMost y) ∧
    ∃ x y, (number (.int (-overflowInt))).evaluate = .ok x ∧
      (number (.int 0)).evaluate = .ok y ∧ ¬ x.AtMost y := by
  have hpos : 0 < overflowInt := by decide +kernel
  constructor
  · obtain ⟨-, horder, -⟩ := evaluate_integer (1 - overflowInt)
    obtain ⟨x, y, hx, hy, hiff⟩ := horder 0 (by omega)
    exact ⟨x, y, hx, hy, hiff.mpr (by omega)⟩
  · obtain ⟨-, horder, -⟩ := evaluate_integer (-overflowInt)
    obtain ⟨x, y, hx, hy, hiff⟩ := horder 0 (by omega)
    refine ⟨x, y, hx, hy, fun hle => ?_⟩
    exact hiff.mp hle (by omega)

/-- Negating an integer that is too large gives the negative infinity. The negated integer itself gives
the positive one, above zero. -/
theorem evaluate_below_range :
    (number (.int (-(Nat.pow 10 400 : Nat)))).evaluate = .ok (.infinite false) ∧
    (unary .sub (number (.int (Nat.pow 10 400 : Nat)))).evaluate = .ok (.infinite true) ∧
    ¬ (Double.infinite false).Equals (.infinite true) ∧
    (number (.int 0)).evaluate = .ok (.zero false) ∧
    ¬ (Double.infinite false).AtMost (.zero false) := by
  have hlarge : overflowInt ≤ Nat.pow 10 400 := by decide +kernel
  refine ⟨?_, ?_, ?_, ?_, ?_⟩
  · rw [evaluate_number, Literal.toDouble_int_of_le (by omega)]
  · rw [evaluate_neg_number, Literal.toDouble_int_of_le (by omega)]
    rfl
  · rw [Double.equals_iff rfl rfl]
    exact top_ne_bot
  · rw [evaluate_number]
    decide +kernel
  · rw [Double.atMost_iff rfl rfl, top_le_iff, WithBot.coe_eq_top]
    exact WithTop.coe_ne_top

end Expr
end Arith
