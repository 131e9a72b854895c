import Arith.Proofs.Spelling

/-!
# Reading a rendered tree

The text of a tree comes apart into the symbols of an atom of the grammar: every operation stands in
its own parentheses, so no strength of binding decides anything. What follows the text matters only
where the tree is a number, whose digits must end there.
-/

namespace Arith

open Grammar

/-! ## The text by a stack -/

namespace Expr

/-- An expression on top of the stack is written whole before anything below it. -/
theorem renderFrom_todo (e : Expr) (stack : List Piece) (written : String) :
    renderFrom (.todo e :: stack) written = renderFrom stack (written ++ e.text) := by
  induction e generalizing stack written with
  | number value =>
    rw [renderFrom, text]
  | unary op operand ih =>
    rw [renderFrom, renderFrom, ih, renderFrom]
    simp only [text, String.append_assoc]
  | binary op left right ihl ihr =>
    rw [renderFrom, renderFrom, ihl, renderFrom, ihr, renderFrom]
    simp only [text, String.append_assoc]

theorem render_eq_text (e : Expr) : e.render = e.text := by
  rw [render, renderFrom_todo, renderFrom, String.empty_append]

/-! ## The symbols of the text -/

def symbols : Expr → List Symbol
  | number value => [.number value]
  | unary op operand => .openParen :: (.operator op :: operand.symbols) ++ [.closeParen]
  | binary op left right =>
    .openParen :: (left.symbols ++ .operator op :: right.symbols) ++ [.closeParen]

/-- Every number of a tree and every operator that stands as a sign has the given property. -/
def All (literal : Literal → Prop) (sign : Op → Prop) : Expr → Prop
  | number value => literal value
  | unary op operand => sign op ∧ operand.All literal sign
  | binary _ left right => left.All literal sign ∧ right.All literal sign

end Expr

/-- An integer that a run of digits can stand for. -/
def Literal.IsNatural : Literal → Prop
  | .int n => 0 ≤ n ∧ (Nat.toDigits 10 n.natAbs).length ≤ digitRunLimit
  | .real _ => False

theorem sum_of_atoms {a b : List Symbol} {l r : Expr} (op : Op) (hl : Atom a l) (hr : Atom b r) :
    Sum (a ++ .operator op :: b) (.binary op l r) := by
  have hpower : Power a l := .atom hl
  have hexponent : Signed b r := .power (.atom hr)
  cases op with
  | add => exact .operation (.product (.signed (.power hpower))) (.inl rfl) (.signed hexponent)
  | sub => exact .operation (.product (.signed (.power hpower))) (.inr rfl) (.signed hexponent)
  | mul => exact .product (.operation (.signed (.power hpower)) (.inl rfl) hexponent)
  | div => exact .product (.operation (.signed (.power hpower)) (.inr rfl) hexponent)
  | pow => exact .product (.signed (.power (.operation hl hexponent)))

theorem atom_symbols {literal : Literal → Prop} {e : Expr}
    (h : e.All literal fun op => op.isSign) : Atom e.symbols e := by
  induction e with
  | number value => exact .number value
  | unary op operand ih =>
    obtain ⟨hsign, hoperand⟩ := h
    have hsigned : Signed operand.symbols operand := .power (.atom (ih hoperand))
    exact .group (.product (.signed (.sign hsign hsigned)))
  | binary op left right ihl ihr =>
    obtain ⟨hleft, hright⟩ := h
    exact .group (sum_of_atoms op (ihl hleft) (ihr hright))

/-! ## The characters of the text -/

theorem Literal.toList_text {n : Int} (h : 0 ≤ n) :
    (Literal.int n).text.toList = Nat.toDigits 10 n.toNat := by
  rw [text, Int.toString_eq_repr, Int.repr_eq_if, if_pos h, Nat.toList_repr]

theorem Expr.toList_text_unary (op : Op) (operand : Expr) (cs : List Char) :
    (unary op operand).text.toList ++ cs =
      '(' :: op.symbol :: (operand.text.toList ++ ')' :: cs) := by
  simp [text, Op.text]

theorem Expr.toList_text_binary (op : Op) (left right : Expr) (cs : List Char) :
    (binary op left right).text.toList ++ cs =
      '(' :: (left.text.toList ++ ' ' :: op.symbol :: ' ' :: (right.text.toList ++ ')' :: cs)) := by
  simp [text, Op.text]

theorem spells_text {decimals : Bool} {sign : Op → Prop} {e : Expr}
    (h : e.All Literal.IsNatural sign) {cs rest : List Char} {a : List Symbol}
    (hcs : Numeral.EndsBefore cs) (htail : Spells decimals cs a rest) :
    Spells decimals (e.text.toList ++ cs) (e.symbols ++ a) rest := by
  -- Each text is spelled from its right end, as what follows an operand has to be known first.
  induction e generalizing cs a with
  | number value =>
    cases value with
    | real x => exact h.elim
    | int n =>
      obtain ⟨hpos, hlength⟩ := h
      obtain ⟨k, rfl⟩ := Int.eq_ofNat_of_zero_le hpos
      rw [Expr.text, Literal.toList_text hpos]
      exact .natural hlength hcs htail
  | unary op operand ih =>
    have hclose : Spells decimals (')' :: cs) (.closeParen :: a) rest := .mark rfl htail
    have hoperand := ih h.2 (Numeral.endsBefore_cons rfl (by decide)) hclose
    rw [Expr.toList_text_unary]
    have hgroup := Spells.mark (c := '(') rfl (.mark (Symbol.ofMark?_symbol op) hoperand)
    simpa [Expr.symbols] using hgroup
  | binary op left right ihl ihr =>
    have hclose : Spells decimals (')' :: cs) (.closeParen :: a) rest := .mark rfl htail
    have hright := ihr h.2 (Numeral.endsBefore_cons rfl (by decide)) hclose
    have hop := Spells.blank (c := ' ') rfl
      (.mark (Symbol.ofMark?_symbol op) (.blank (c := ' ') rfl hright))
    have hleft := ihl h.1 (Numeral.endsBefore_cons rfl (by decide)) hop
    rw [Expr.toList_text_binary]
    have hgroup := Spells.mark (c := '(') rfl hleft
    simpa [Expr.symbols] using hgroup

/-! ## The round trip -/

/-- Reading the text of a tree gives the tree back. -/
theorem parse_render (decimals : Bool) (e : Expr)
    (h : e.All Literal.IsNatural fun op => op.isSign) : parse decimals e.render = .ok e := by
  have hend : Spells decimals [] [] [] := .stop (by simp) rfl
  have htext := spells_text h Numeral.endsBefore_nil hend
  rw [Expr.render_eq_text]
  apply parse_of_spells
  · simpa using htext
  · exact .product (.signed (.power (.atom (atom_symbols h))))

theorem parse_render_power :
    Expr.All Literal.IsNatural (fun op => op.isSign)
        (.binary .pow (.number (.int 10)) (.unary .sub (.number (.int 0)))) ∧
      parse false (Expr.render (.binary .pow (.number (.int 10)) (.unary .sub (.number (.int 0))))) =
        .ok (.binary .pow (.number (.int 10)) (.unary .sub (.number (.int 0)))) := by
  have h : Expr.All Literal.IsNatural (fun op => op.isSign)
      (.binary .pow (.number (.int 10)) (.unary .sub (.number (.int 0)))) :=
    ⟨⟨by decide, by decide⟩, rfl, by decide, by decide⟩
  exact ⟨h, parse_render false _ h⟩

end Arith
