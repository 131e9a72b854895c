import Mathlib.Tactic.SplitIfs
import Arith.Literal

/-!
# The characters of numbers

The text of a number holds digits, signs, points, the mark of an exponent and the letters of `inf` and
`nan`, and nothing else. So no number can be mistaken for what stands around it.
-/

namespace Arith

/-- The characters that numbers are written with. -/
def isFigure (c : Char) : Bool := c.isDigit || ['+', '-', '.', 'e', 'i', 'n', 'f', 'a'].contains c

namespace Text

def Figures (cs : List Char) : Prop := ∀ c ∈ cs, isFigure c

theorem figures_of_all {cs : List Char} (h : cs.all isFigure) : Figures cs := fun c hc =>
  List.all_eq_true.mp h c hc

theorem figures_append {s t : String} (hs : Figures s.toList) (ht : Figures t.toList) :
    Figures (s ++ t).toList := by
  rw [String.toList_append]
  exact List.forall_mem_append.mpr ⟨hs, ht⟩

theorem figures_toDigits (n : Nat) : Figures (Nat.toDigits 10 n) := by
  intro c hc
  have hdigit : c.isDigit := Nat.isDigit_of_mem_toDigits (by decide) (by decide) hc
  simp [isFigure, hdigit]

theorem figures_nat (n : Nat) : Figures (toString n).toList := by
  rw [Nat.toString_eq_repr, Nat.toList_repr]
  exact figures_toDigits n

theorem figures_int (n : Int) : Figures (toString n).toList := by
  rw [Int.toString_eq_repr, Int.repr_eq_if]
  split
  · rw [Nat.toList_repr]
    exact figures_toDigits _
  · refine figures_append (figures_of_all rfl) ?_
    rw [Nat.toList_repr]
    exact figures_toDigits _

end Text

open Text

namespace Decimal

theorem figures_zeros (n : Nat) : Figures (zeros n).toList := by
  rw [zeros, String.toList_ofList]
  exact figures_of_all (List.all_eq_true.mpr fun c hc => List.eq_of_mem_replicate hc ▸ rfl)

theorem figures_exponentMark (e : Int) : Figures (exponentMark e).toList := by
  unfold exponentMark
  refine figures_append (figures_append ?_ ?_) (figures_nat _)
  · split <;> exact figures_of_all rfl
  · split <;> exact figures_of_all rfl

theorem figures_pointed {digits : String} (h : Figures digits.toList) (k : Nat) :
    Figures (pointed digits k).toList := by
  unfold pointed
  refine figures_append (figures_append ?_ (figures_of_all rfl)) ?_
  · rw [String.toList_ofList]
    exact fun c hc => h c (List.mem_of_mem_take hc)
  · rw [String.toList_ofList]
    exact fun c hc => h c (List.mem_of_mem_drop hc)

theorem figures_text (d : Decimal) : Figures d.text.toList := by
  have hdigits := figures_nat d.digits
  unfold text
  simp only
  split_ifs with hexponent hone hwhole hpoint
  · exact figures_append hdigits (figures_exponentMark _)
  · exact figures_append (figures_pointed hdigits 1) (figures_exponentMark _)
  · exact figures_append (figures_append hdigits (figures_zeros _)) (figures_of_all rfl)
  · exact figures_pointed hdigits _
  · exact figures_append (figures_append (figures_of_all rfl) (figures_zeros _)) hdigits

end Decimal

theorem Double.figures_text (x : Double) : Figures x.text.toList := by
  cases x with
  | nan => exact figures_of_all rfl
  | infinite negative => cases negative <;> exact figures_of_all rfl
  | finite negative units fits =>
    refine figures_append ?_ ?_
    · cases negative <;> exact figures_of_all rfl
    · split
      · exact figures_of_all rfl
      · exact Decimal.figures_text _

theorem Literal.figures_text (value : Literal) : Figures value.text.toList := by
  cases value with
  | int n => exact figures_int n
  | real x => exact x.figures_text

end Arith
