import Arith.Pending

/-!
# Attaching pending operators

When an operator comes in, `makeRoom` attaches what binds more strongly. What it leaves on top is firm
against that operator. The end of a parenthesis and the end of the input attach what an incoming
addition would.
-/

namespace Arith

theorem Op.one_le_precedence (op : Op) : 1 ≤ op.precedence := by
  cases op <;> decide

theorem Op.precedence_lt_three {op : Op} : op.precedence < 3 ↔ op ≠ .pow := by
  cases op <;> decide

theorem Op.precedence_ne_three (op : Op) : op.precedence ≠ 3 := by
  cases op <;> decide

theorem Op.precedence_eq_one {op : Op} (h : op = .add ∨ op = .sub) : op.precedence = 1 := by
  rcases h with rfl | rfl <;> rfl

theorem Op.precedence_eq_two {op : Op} (h : op = .mul ∨ op = .div) : op.precedence = 2 := by
  rcases h with rfl | rfl <;> rfl

namespace Pending

/-! ## One entry -/

/-- An operator that comes in between two operands. -/
abbrev between (op : Op) (position : Position) : PendingOp := ⟨.between, op, position⟩

theorem yieldsTo_sign {op incoming : Op} {opened position : Position} (h : incoming ≠ .pow) :
    (operator ⟨.sign, op, opened⟩).yieldsTo (between incoming position) = true := by
  have hlt := Op.precedence_lt_three.mpr h
  simp [yieldsTo, PendingOp.precedence, hlt]

theorem yieldsTo_between {op incoming : Op} {opened position : Position} :
    (operator (between op opened)).yieldsTo (between incoming position) = true ↔
      incoming ≠ .pow ∧ incoming.precedence ≤ op.precedence := by
  cases op <;> cases incoming <;> simp [yieldsTo, PendingOp.precedence, Op.precedence]

theorem yieldsTo_pow (top : Pending) (position : Position) :
    top.yieldsTo (between .pow position) = false := by
  cases top with
  | group _ => rfl
  | operator entry =>
    obtain ⟨stance, op, opened⟩ := entry
    cases stance <;> cases op <;> rfl

theorem yieldsTo_weakest (entry : PendingOp) {op : Op} (position : Position)
    (h : op.precedence = 1) : (operator entry).yieldsTo (between op position) = true := by
  have hne : op ≠ .pow := Op.precedence_lt_three.mp (by omega)
  obtain ⟨stance, op', opened⟩ := entry
  cases stance with
  | sign => exact yieldsTo_sign hne
  | between => exact yieldsTo_between.mpr ⟨hne, h ▸ op'.one_le_precedence⟩

/-! ## Making room -/

theorem makeRoom_sign {op incoming : Op} {opened position : Position} (h : incoming ≠ .pow)
    (e : Expr) (operands : List Expr) (pending : List Pending) :
    makeRoom (between incoming position) (e :: operands) (operator ⟨.sign, op, opened⟩ :: pending) =
      makeRoom (between incoming position) (.unary op e :: operands) pending := by
  rw [makeRoom, if_pos (yieldsTo_sign h)]
  rfl

theorem makeRoom_between {op incoming : Op} {opened position : Position} (h : incoming ≠ .pow)
    (hle : incoming.precedence ≤ op.precedence) (r l : Expr) (operands : List Expr)
    (pending : List Pending) :
    makeRoom (between incoming position) (r :: l :: operands)
        (operator (between op opened) :: pending) =
      makeRoom (between incoming position) (.binary op l r :: operands) pending := by
  rw [makeRoom, if_pos (yieldsTo_between.mpr ⟨h, hle⟩)]
  rfl

/-- The top entry yields to no operator that ranks at least `rank`. -/
def Firm (rank : Nat) (pending : List Pending) : Prop :=
  ∀ top ∈ pending.head?, ∀ (op : Op) (position : Position), rank ≤ op.precedence →
    top.yieldsTo (between op position) = false

theorem firm_nil (rank : Nat) : Firm rank [] := by
  intro top htop
  cases htop

theorem firm_group (rank : Nat) (opened : Position) (pending : List Pending) :
    Firm rank (group opened :: pending) := by
  intro top htop op position _
  cases htop
  rfl

theorem firm_between {op : Op} {rank : Nat} (h : op.precedence < rank) (opened : Position)
    (pending : List Pending) : Firm rank (operator (between op opened) :: pending) := by
  intro top htop incoming position hrank
  cases htop
  rw [Bool.eq_false_iff, Ne, yieldsTo_between]
  omega

theorem firm_three (pending : List Pending) : Firm 3 pending := by
  intro top _ op position hrank
  obtain rfl : op = .pow := by cases op <;> simp [Op.precedence] at hrank ⊢
  exact yieldsTo_pow top position

theorem Firm.mono {rank rank' : Nat} {pending : List Pending} (h : Firm rank pending)
    (hle : rank ≤ rank') : Firm rank' pending :=
  fun top htop op position hrank => h top htop op position (Nat.le_trans hle hrank)

theorem makeRoom_of_firm {rank : Nat} {pending : List Pending} (h : Firm rank pending) {op : Op}
    (hrank : rank ≤ op.precedence) (position : Position) (operands : List Expr) :
    makeRoom (between op position) operands pending = .ok (operands, pending) := by
  cases pending with
  | nil => rfl
  | cons top pending =>
    have hstays := h top rfl op position hrank
    cases top with
    | group _ => rfl
    | operator entry => rw [makeRoom, if_neg (by simp [hstays])]

/-! ## Closing -/

/-- A closing parenthesis attaches what an incoming addition would, and then meets the opening one. -/
theorem closeGroup_of_makeRoom {op : Op} {position opened : Position} (hop : op.precedence = 1)
    {operands operands' : List Expr} {pending pending' : List Pending}
    (h : makeRoom (between op position) operands pending = .ok (operands', group opened :: pending'))
    (closed : Position) : closeGroup closed operands pending = ⟨none, operands', pending'⟩ := by
  induction pending generalizing operands with
  | nil => cases h
  | cons top pending ih =>
    cases top with
    | group _ =>
      cases h
      rfl
    | operator entry =>
      rw [makeRoom, if_pos (yieldsTo_weakest entry position hop)] at h
      rw [closeGroup]
      split at h
      · exact ih h
      · cases h

theorem attachAll_of_makeRoom {op : Op} {position : Position} (hop : op.precedence = 1)
    {operands operands' : List Expr} {pending : List Pending}
    (h : makeRoom (between op position) operands pending = .ok (operands', [])) :
    attachAll operands pending = .ok operands' := by
  induction pending generalizing operands with
  | nil =>
    cases h
    rfl
  | cons top pending ih =>
    cases top with
    | group _ => cases h
    | operator entry =>
      rw [makeRoom, if_pos (yieldsTo_weakest entry position hop)] at h
      rw [attachAll]
      split at h
      · exact ih h
      · cases h

end Pending
end Arith
