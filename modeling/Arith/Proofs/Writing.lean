import Arith.Proofs.Figures
import Arith.Proofs.Rendering

/-!
# Writing a tree

The loop that writes a tree gives the text that is defined by recursion, whatever the tree, and stops
where the recursion does should the text of a number be refused. The parentheses of the text match, and
each inner node has put in one pair of them.
-/

namespace Arith

/-! ## Matching parentheses -/

/-- How many parentheses are open behind a text with `n` of them open in front of it, unless one is closed
that is not open. -/
def Text.openBehind? : Nat → List Char → Option Nat
  | n, [] => some n
  | n, '(' :: cs => openBehind? (n + 1) cs
  | 0, ')' :: _ => none
  | n + 1, ')' :: cs => openBehind? n cs
  | n, _ :: cs => openBehind? n cs

/-- Every parenthesis of the text has its partner. -/
def Text.Balanced (cs : List Char) : Prop := openBehind? 0 cs = some 0

def Text.isBare (c : Char) : Bool := c ≠ '(' && c ≠ ')'

namespace Text

theorem isBare_of_figure {c : Char} (h : isFigure c) : isBare c := by
  simp only [isBare, Bool.and_eq_true, decide_eq_true_eq]
  constructor
  · rintro rfl
    cases h
  · rintro rfl
    cases h

theorem openBehind?_bare {c : Char} (h : isBare c) (n : Nat) (cs : List Char) :
    openBehind? n (c :: cs) = openBehind? n cs := by
  simp only [isBare, Bool.and_eq_true, decide_eq_true_eq] at h
  rw [openBehind?]
  · exact h.1
  · exact fun _ => h.2
  · exact fun _ _ => h.2

theorem openBehind?_append_of_bare {front : List Char} (h : ∀ c ∈ front, isBare c) (n : Nat)
    (cs : List Char) : openBehind? n (front ++ cs) = openBehind? n cs := by
  induction front with
  | nil => rfl
  | cons c front ih =>
    obtain ⟨hc, hfront⟩ := List.forall_mem_cons.mp h
    rw [List.cons_append, openBehind?_bare hc, ih hfront]

end Text

theorem Op.isBare_symbol (op : Op) : Text.isBare op.symbol := by
  cases op <;> rfl

theorem Literal.isBare_text (value : Literal) : ∀ c ∈ value.text.toList, Text.isBare c := fun c hc =>
  Text.isBare_of_figure (value.figures_text c hc)

namespace Expr

open Text

def innerNodes : Expr → Nat
  | number _ => 0
  | unary _ operand => operand.innerNodes + 1
  | binary _ left right => left.innerNodes + right.innerNodes + 1

theorem openBehind?_text (e : Expr) (n : Nat) (cs : List Char) :
    openBehind? n (e.text.toList ++ cs) = openBehind? n cs := by
  induction e generalizing n cs with
  | number value => exact openBehind?_append_of_bare value.isBare_text n cs
  | unary op operand ih =>
    rw [toList_text_unary, openBehind?, openBehind?_bare op.isBare_symbol, ih]
    rfl
  | binary op left right ihl ihr =>
    rw [toList_text_binary, openBehind?, ihl, openBehind?_bare rfl, openBehind?_bare op.isBare_symbol,
      openBehind?_bare rfl, ihr]
    rfl

theorem count_text (e : Expr) {paren : Char} (hparen : paren = '(' ∨ paren = ')') :
    e.text.toList.count paren = e.innerNodes := by
  have hnone {cs : List Char} (hcs : ∀ c ∈ cs, isBare c) : cs.count paren = 0 := by
    refine List.count_eq_zero.mpr fun hmem => ?_
    have hbare := hcs paren hmem
    rcases hparen with rfl | rfl <;> cases hbare
  have hop (op : Op) : op.text.toList.count paren = 0 := hnone (by simp [Op.text, op.isBare_symbol])
  have hblank : " ".toList.count paren = 0 := hnone (by simp [isBare])
  have hpair : "(".toList.count paren + ")".toList.count paren = 1 := by
    rcases hparen with rfl | rfl <;> rfl
  induction e with
  | number value => exact hnone value.isBare_text
  | unary op operand ih =>
    simp only [text, String.toList_append, List.count_append, hop, ih, innerNodes]
    omega
  | binary op left right ihl ihr =>
    simp only [text, String.toList_append, List.count_append, hop, hblank, ihl, ihr, innerNodes]
    omega

end Expr

/-! ## Texts that may be refused -/

theorem Literal.isWritable_int_iff (n : Int) :
    (int n).isWritable ↔ n.natAbs < Nat.pow 10 digitRunLimit := by
  rw [isWritable, decide_eq_true_eq, Nat.pow_eq, Nat.length_toDigits_le_iff (by decide) (by decide)]

namespace Expr

/-- A tree on top of the stack is written whole, or refused, before anything below it is looked at. -/
theorem renderBy?_todo (write : Literal → Option String) (e : Expr) (stack : List Piece)
    (written : String) : renderBy? write (.todo e :: stack) written =
      (e.textBy? write).bind fun text => renderBy? write stack (written ++ text) := by
  induction e generalizing stack written with
  | number value =>
    rw [renderBy?, textBy?]
    cases write value <;> rfl
  | unary op operand ih =>
    rw [renderBy?, renderBy?, ih, textBy?]
    cases operand.textBy? write with
    | none => rfl
    | some inner =>
      rw [Option.bind_some, renderBy?, Option.map_some, Option.bind_some]
      simp only [String.append_assoc]
  | binary op left right ihl ihr =>
    rw [renderBy?, renderBy?, ihl, textBy?]
    cases left.textBy? write with
    | none => rfl
    | some l =>
      rw [Option.bind_some, renderBy?, ihr, Option.bind_some]
      cases right.textBy? write with
      | none => rfl
      | some r =>
        rw [Option.bind_some, renderBy?, Option.map_some, Option.bind_some]
        simp only [String.append_assoc]

theorem renderBy?_eq_textBy? (write : Literal → Option String) (e : Expr) :
    renderBy? write [.todo e] "" = e.textBy? write := by
  rw [renderBy?_todo]
  simp only [renderBy?, String.empty_append, Option.bind_fun_some]

theorem renderBy?_text (stack : List Piece) (written : String) :
    renderBy? (fun value => some value.text) stack written = some (renderFrom stack written) := by
  fun_induction renderFrom stack written with
  | case1 written => rw [renderBy?]
  | case2 written text stack ih => rw [renderBy?, ih]
  | case3 written value stack ih =>
    rw [renderBy?]
    exact ih
  | case4 written op operand stack ih => rw [renderBy?, ih]
  | case5 written op left right stack ih => rw [renderBy?, ih]

theorem textBy?_eq_some_iff (e : Expr) (t : String) : e.textBy? Literal.text? = some t ↔
    e.All (fun value => value.isWritable) (fun _ => True) ∧ t = e.text := by
  induction e generalizing t with
  | number value =>
    simp only [textBy?, Literal.text?, All, text, Option.ite_none_right_eq_some, Option.some.injEq]
    rw [eq_comm (a := value.text)]
  | unary op operand ih =>
    simp only [textBy?, Option.map_eq_some_iff, ih, All, text]
    constructor
    · rintro ⟨_, ⟨hall, rfl⟩, rfl⟩
      exact ⟨⟨trivial, hall⟩, rfl⟩
    · rintro ⟨⟨-, hall⟩, rfl⟩
      exact ⟨_, ⟨hall, rfl⟩, rfl⟩
  | binary op left right ihl ihr =>
    simp only [textBy?, Option.bind_eq_some_iff, Option.map_eq_some_iff, ihl, ihr, All, text]
    constructor
    · rintro ⟨_, ⟨hleft, rfl⟩, _, ⟨hright, rfl⟩, rfl⟩
      exact ⟨⟨hleft, hright⟩, rfl⟩
    · rintro ⟨⟨hleft, hright⟩, rfl⟩
      exact ⟨_, ⟨hleft, rfl⟩, _, ⟨hright, rfl⟩, rfl⟩

end Expr

/-- Loop and recursion write the same text or refuse the tree alike, in whatever way numbers are written.
A tree is written just when all its integers keep to the limit on digits. In its text every
parenthesis has its partner, and each inner node has one pair. -/
theorem render_eq_text_balanced :
    (∀ e : Expr, e.render = e.text ∧ Text.Balanced e.render.toList ∧
      e.render.toList.count '(' = e.innerNodes ∧ e.render.toList.count ')' = e.innerNodes) ∧
    (∀ write (e : Expr), Expr.renderBy? write [.todo e] "" = e.textBy? write) ∧
    (∀ e, Expr.renderBy? (fun value => some value.text) [.todo e] "" = some e.render) ∧
    ∀ (e : Expr) (t : String), e.render? = some t ↔
      e.All (fun value => value.isWritable) (fun _ => True) ∧ t = e.render := by
  refine ⟨fun e => ?_, Expr.renderBy?_eq_textBy?, fun e => Expr.renderBy?_text _ _, fun e t => ?_⟩
  · have hbalanced := e.openBehind?_text 0 []
    rw [List.append_nil] at hbalanced
    rw [Expr.render_eq_text]
    exact ⟨rfl, hbalanced, e.count_text (.inl rfl), e.count_text (.inr rfl)⟩
  · rw [Expr.render?, Expr.renderBy?_eq_textBy?, Expr.render_eq_text, Expr.textBy?_eq_some_iff]

/-- The least integer that is refused, by the loop and by the recursion. -/
theorem render_refuses_long_integer :
    (Expr.number (.int (Nat.pow 10 4300 : Nat))).render? = none ∧
      (Expr.number (.int (Nat.pow 10 4300 : Nat))).textBy? Literal.text? = none := by
  have hlimit : 4300 = digitRunLimit := rfl
  have hnone : (Expr.number (.int (Nat.pow 10 digitRunLimit : Nat))).textBy? Literal.text? = none := by
    rw [Expr.textBy?, Literal.text?, if_neg]
    rw [Literal.isWritable_int_iff, Int.natAbs_natCast]
    exact Nat.lt_irrefl _
  rw [hlimit]
  exact ⟨(Expr.renderBy?_eq_textBy? _ _).trans hnone, hnone⟩

end Arith
