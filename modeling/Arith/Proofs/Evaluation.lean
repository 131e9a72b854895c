import Mathlib.Data.List.Induction
import Mathlib.Data.Nat.Digits.Defs
import Arith.Proofs.Counting
import Arith.Proofs.Overflow
import Arith.Proofs.Rendering

/-!
# Evaluating what is read

Every tree that is read from a source has a value: only `+` and `-` stand in it as signs, and the
stack of values never runs short. Its integers are natural numbers of no more digits than a source
may have in one, so that they can always be written out again.
-/

namespace Arith

open Grammar

/-! ## The value by two stacks -/

namespace Draft

theorem work_unary (op : Op) (x : Double) (tasks : List Task) (values : List Double) :
    work (.unary op :: tasks) (x :: values) =
      op.applyUnary x >>= fun result => work tasks (result :: values) := by
  rw [work]
  cases op.applyUnary x <;> rfl

theorem work_binary (op : Connective) (x y : Double) (tasks : List Task) (values : List Double) :
    work (.binary op :: tasks) (y :: x :: values) =
      op.apply x y >>= fun result => work tasks (result :: values) := by
  rw [work]
  cases op.apply x y <;> rfl

/-- A draft on top of the tasks leaves its value on top of the values. -/
theorem work_visit (d : Draft) (tasks : List Task) (values : List Double) :
    work (.visit d :: tasks) values = d.value >>= fun x => work tasks (x :: values) := by
  induction d generalizing tasks values with
  | number n =>
    rw [work, value]
    rfl
  | unary op operand ih =>
    rw [work, ih, value, bind_assoc]
    simp only [work_unary]
  | binary op left right ihl ihr =>
    rw [work, ihl, value, bind_assoc]
    simp only [ihr, work_binary, bind_assoc]
  | foreign typeName =>
    rw [work, value]
    rfl

theorem evaluate_eq_value (d : Draft) : d.evaluate = d.value := by
  rw [evaluate, work_visit]
  cases d.value with
  | error defect => rfl
  | ok x =>
    simp only [work, bind, Except.bind]

end Draft

theorem Expr.exists_evaluate_eq_ok {literal : Literal → Prop} {e : Expr}
    (h : e.All literal fun op => op.isSign) : ∃ x, e.evaluate = .ok x := by
  rw [evaluate, Draft.evaluate_eq_value]
  induction e with
  | number n => exact ⟨n.toDouble, rfl⟩
  | unary op operand ih =>
    obtain ⟨hsign, hoperand⟩ := h
    obtain ⟨x, hx⟩ := ih hoperand
    simp only [toDraft, Draft.value, hx]
    cases op with
    | add => exact ⟨x, rfl⟩
    | sub => exact ⟨x.neg, rfl⟩
    | _ => cases hsign
  | binary op left right ihl ihr =>
    obtain ⟨x, hx⟩ := ihl h.1
    obtain ⟨y, hy⟩ := ihr h.2
    simp only [toDraft, Draft.value, hx, hy]
    exact ⟨op.apply x y, rfl⟩

/-! ## The digits of a literal -/

/-- An integer that can be written with as many digits as a source may hold in one. -/
def Literal.WithinLimit : Literal → Prop
  | .int n => 0 ≤ n ∧ (Literal.int n).text.length ≤ digitRunLimit
  | .real _ => True

theorem digitsValue_append (digits : List Char) (c : Char) :
    digitsValue (digits ++ [c]) = digitsValue digits * 10 + (c.toNat - '0'.toNat) := by
  simp [digitsValue]

theorem digitsValue_lt {digits : List Char} (h : ∀ c ∈ digits, c.isDigit) :
    digitsValue digits < Nat.pow 10 digits.length := by
  induction digits using List.reverseRecOn with
  | nil => simp [digitsValue]
  | append_singleton digits c ih =>
    obtain ⟨hdigits, hc⟩ := List.forall_mem_append.mp h
    have hlt := ih hdigits
    have hdigit : c.toNat - '0'.toNat < 10 := by
      have hbounds := hc c (by simp)
      simp only [Char.isDigit, Bool.and_eq_true, decide_eq_true_eq, UInt32.le_iff_toNat_le] at hbounds
      simp at hbounds ⊢
      omega
    rw [digitsValue_append, List.length_append, List.length_singleton]
    simp only [Nat.pow_eq, Nat.pow_succ] at hlt ⊢
    omega

theorem length_text_digitsValue {digits : List Char} (hne : digits ≠ [])
    (h : ∀ c ∈ digits, c.isDigit) :
    (Literal.int (digitsValue digits)).text.length ≤ digits.length := by
  rw [← String.length_toList, Literal.toList_text (Int.natCast_nonneg _), Int.toNat_natCast]
  exact Nat.toDigits_length 10 _ _ (List.length_pos_iff.mpr hne) (digitsValue_lt h)

theorem Numeral.withinLimit_value {decimals : Bool} {n : Numeral} (h : n.Legal decimals) :
    n.value.WithinLimit := by
  obtain ⟨hne, hdigits, -⟩ := h
  unfold value
  split
  · trivial
  · split
    · rename_i hlength
      exact ⟨Int.natCast_nonneg _, Nat.le_trans (length_text_digitsValue hne hdigits) hlength⟩
    · trivial

/-! ## What is read -/

theorem Spells.exists_lexeme {decimals : Bool} {cs rest : List Char} {a : List Symbol}
    (h : Spells decimals cs a rest) : ∀ x ∈ a, ∃ l : Lexeme, l.Legal decimals ∧ l.symbol = x := by
  induction h with
  | stop _ _ => simp
  | blank _ _ ih => exact ih
  | symbol hsplit _ ih =>
    obtain ⟨l, hlegal, -, -, hsymbol⟩ := Symbol.exists_lexeme_of_split? hsplit
    exact List.forall_mem_cons.mpr ⟨⟨l, hlegal, hsymbol⟩, ih⟩

theorem withinLimit_of_mem_lexemes {decimals : Bool} {source : String} {value : Literal}
    (h : Symbol.number value ∈ (scan decimals source).lexemes.map Token.symbol) :
    value.WithinLimit := by
  obtain ⟨a, rest, hspells⟩ := Spells.exists_of_text decimals source.toList
  obtain ⟨hlexemes, -⟩ := scan_of_spells hspells
  rw [hlexemes] at h
  obtain ⟨l, hlegal, hsymbol⟩ := hspells.exists_lexeme _ h
  cases l with
  | number n =>
    cases hsymbol
    exact Numeral.withinLimit_value hlegal
  | _ => cases hsymbol

/-- All numbers among the symbols have the given property. -/
def Symbol.Hold (literal : Literal → Prop) (a : List Symbol) : Prop :=
  ∀ value, Symbol.number value ∈ a → literal value

section
variable {literal : Literal → Prop} {a b : List Symbol} {x : Symbol}

theorem Symbol.Hold.tail (h : Hold literal (x :: a)) : Hold literal a := by
  intro value hvalue
  exact h value (List.mem_cons_of_mem x hvalue)

theorem Symbol.Hold.left (h : Hold literal (a ++ b)) : Hold literal a := by
  intro value hvalue
  exact h value (List.mem_append_left b hvalue)

theorem Symbol.Hold.right (h : Hold literal (a ++ x :: b)) : Hold literal b := by
  intro value hvalue
  exact h value (List.mem_append_right a (List.mem_cons_of_mem x hvalue))

end

namespace Grammar

mutual

theorem Sum.all {literal : Literal → Prop} {a : List Symbol} {e : Expr} :
    Sum a e → Symbol.Hold literal a → e.All literal fun op => op.isSign
  | .product h, ha => Product.all h ha
  | .operation h _ h', ha => ⟨Sum.all h ha.left, Product.all h' ha.right⟩

theorem Product.all {literal : Literal → Prop} {a : List Symbol} {e : Expr} :
    Product a e → Symbol.Hold literal a → e.All literal fun op => op.isSign
  | .signed h, ha => Signed.all h ha
  | .operation h _ h', ha => ⟨Product.all h ha.left, Signed.all h' ha.right⟩

theorem Signed.all {literal : Literal → Prop} {a : List Symbol} {e : Expr} :
    Signed a e → Symbol.Hold literal a → e.All literal fun op => op.isSign
  | .power h, ha => Power.all h ha
  | .sign hsign h, ha => ⟨hsign, Signed.all h ha.tail⟩

theorem Power.all {literal : Literal → Prop} {a : List Symbol} {e : Expr} :
    Power a e → Symbol.Hold literal a → e.All literal fun op => op.isSign
  | .atom h, ha => Atom.all h ha
  | .operation h h', ha => ⟨Atom.all h ha.left, Signed.all h' ha.right⟩

theorem Atom.all {literal : Literal → Prop} {a : List Symbol} {e : Expr} :
    Atom a e → Symbol.Hold literal a → e.All literal fun op => op.isSign
  | .number value, ha => ha value List.mem_cons_self
  | .group h, ha => Sum.all h ha.tail.left

end

end Grammar

theorem all_of_parse {decimals : Bool} {source : String} {e : Expr}
    (h : parse decimals source = .ok e) : e.All Literal.WithinLimit fun op => op.isSign := by
  obtain ⟨-, hsum⟩ := parse_eq_ok_iff.mp h
  exact hsum.all fun value hvalue => withinLimit_of_mem_lexemes hvalue

/-! ## Evaluation -/

theorem evaluate_of_parse {decimals : Bool} {source : String} {e : Expr}
    (h : parse decimals source = .ok e) :
    ∃ x, e.evaluate = .ok x ∧ evaluate decimals source = .ok x := by
  obtain ⟨x, hx⟩ := Expr.exists_evaluate_eq_ok (all_of_parse h)
  refine ⟨x, hx, ?_⟩
  unfold evaluate
  rw [h]
  simp only [hx]

theorem evaluate_eq_error_iff {decimals : Bool} {source : String} {failure : Failure} :
    evaluate decimals source = .error failure ↔ parse decimals source = .error failure := by
  cases hparse : parse decimals source with
  | error found =>
    unfold evaluate
    rw [hparse]
    simp
  | ok e =>
    obtain ⟨x, -, hx⟩ := evaluate_of_parse hparse
    simp [hx]

theorem evaluate_eq_ok_iff {decimals : Bool} {source : String} {x : Double} :
    evaluate decimals source = .ok x ↔ ∃ e, parse decimals source = .ok e ∧ e.evaluate = .ok x := by
  cases hparse : parse decimals source with
  | error found =>
    rw [evaluate_eq_error_iff.mpr hparse]
    simp
  | ok e =>
    obtain ⟨y, hvalue, hy⟩ := evaluate_of_parse hparse
    simp [hy, hvalue]

theorem Expr.evaluate_int_eq_infinite_iff (n : Nat) :
    (Expr.number (.int n)).evaluate = .ok (.infinite false) ↔ overflowInt ≤ n := by
  rw [evaluate, Draft.evaluate_eq_value, toDraft, Draft.value, Except.ok.injEq]
  exact Literal.toDouble_int_eq_infinite_iff n

/-- A source evaluates just when it has a tree, and otherwise fails as reading it does, with a fault
of the source. In its tree only signs stand before an operand, and in the tree and in all tokens the
integers are natural and can be written in as many digits as a source may hold in one. An integer that
is too large for a double evaluates to infinity. -/
theorem evaluate_eq_ok_iff_parse (decimals : Bool) (source : String) :
    (∀ x, evaluate decimals source = .ok x ↔
      ∃ e, parse decimals source = .ok e ∧ e.evaluate = .ok x) ∧
    (∀ e, parse decimals source = .ok e →
      (∃ x, e.evaluate = .ok x) ∧ e.All Literal.WithinLimit fun op => op.isSign) ∧
    (∀ failure, evaluate decimals source = .error failure ↔
      parse decimals source = .error failure) ∧
    (∀ failure, evaluate decimals source = .error failure → ∃ fault, failure = .fault fault) ∧
    (∀ t ∈ (scan decimals source).tokens, ∀ value, t.symbol = .number value →
      value.WithinLimit) ∧
    ∀ n : Nat, (Expr.number (.int n)).evaluate = .ok (.infinite false) ↔ overflowInt ≤ n := by
  refine ⟨fun x => evaluate_eq_ok_iff, fun e h => ?_, fun failure => evaluate_eq_error_iff, ?_, ?_,
    Expr.evaluate_int_eq_infinite_iff⟩
  · obtain ⟨x, hx, -⟩ := evaluate_of_parse h
    exact ⟨⟨x, hx⟩, all_of_parse h⟩
  · intro failure h
    obtain ⟨fault, hfault, -⟩ := parse_not_guarded (evaluate_eq_error_iff.mp h)
    exact ⟨fault, hfault⟩
  · intro t ht value hvalue
    have hend : t.symbol ≠ .endOfInput := by simp [hvalue]
    have hlexeme : t ∈ (scan decimals source).lexemes :=
      List.mem_filter.mpr ⟨ht, by simpa using hend⟩
    exact withinLimit_of_mem_lexemes (List.mem_map.mpr ⟨t, hlexeme, hvalue⟩)

/-- A sign in front of a group, and the first integer that is too large. -/
theorem evaluate_eq_ok_iff_parse_negated :
    ∃ e x, parse false "-(2)" = .ok e ∧ evaluate false "-(2)" = .ok x ∧
      e.All Literal.WithinLimit (fun op => op.isSign) ∧
      (Expr.number (.int (overflowInt : Nat))).evaluate = .ok (.infinite false) := by
  have hsome : (parse false "-(2)").toOption.isSome := by decide +kernel
  obtain ⟨hok, htree, -, -, -, hinfinite⟩ := evaluate_eq_ok_iff_parse false "-(2)"
  cases hparse : parse false "-(2)" with
  | error failure =>
    rw [hparse] at hsome
    cases hsome
  | ok e =>
    obtain ⟨⟨x, hx⟩, hall⟩ := htree e hparse
    exact ⟨e, x, rfl, (hok x).mpr ⟨e, hparse, hx⟩, hall,
      (hinfinite overflowInt).mpr (Nat.le_refl overflowInt)⟩

end Arith
