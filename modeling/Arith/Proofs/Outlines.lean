import Mathlib.Data.List.Basic
import Arith.Outline
import Arith.Proofs.Rendering
import Std.Data.String.ToInt

/-!
# Outlines

The outline that is grown branch by branch is the one defined by recursion. Its rows are the labels of
the expression in order from top to bottom, and expressions with integers only can be told apart by
their rows: a label shows how many branches are below it.
-/

namespace Arith

namespace Outline

/-! ## Nodes by their addresses -/

/-- The node at an address with all below it. -/
def at? : Address → Outline → Option Outline
  | [], o => some o
  | i :: address, .node _ branches => branches[i]?.bind (at? address)

theorem at?_cons (i : Nat) (address : Address) (label : String) (branches : List Outline) :
    at? (i :: address) (.node label branches) = branches[i]?.bind (at? address) := rfl

theorem modifyAt_cons (i : Nat) (address : Address) (f : Outline → Outline) (label : String)
    (branches : List Outline) :
    modifyAt (i :: address) f (.node label branches) =
      .node label (branches.modify i (modifyAt address f)) := rfl

theorem modifyAt_append (a b : Address) (f : Outline → Outline) :
    modifyAt (a ++ b) f = modifyAt a (modifyAt b f) := by
  induction a with
  | nil => rfl
  | cons i a ih =>
    funext o
    cases o with
    | node label branches => rw [List.cons_append, modifyAt_cons, modifyAt_cons, ih]

theorem modifyAt_modifyAt (address : Address) (f g : Outline → Outline) (o : Outline) :
    modifyAt address f (modifyAt address g o) = modifyAt address (f ∘ g) o := by
  induction address generalizing o with
  | nil => rfl
  | cons i address ih =>
    cases o with
    | node label branches =>
      rw [modifyAt_cons, modifyAt_cons, modifyAt_cons, List.modify_modify_eq]
      congr 2
      exact funext ih

theorem at?_modifyAt_append (a b : Address) (f : Outline → Outline) (o : Outline) :
    at? (a ++ b) (modifyAt a f o) = (at? a o).bind fun x => at? b (f x) := by
  induction a generalizing o with
  | nil => rfl
  | cons i a ih =>
    cases o with
    | node label branches =>
      rw [List.cons_append, modifyAt_cons, at?_cons, at?_cons, List.getElem?_modify_eq]
      cases branches[i]? with
      | none => rfl
      | some branch => exact ih branch

theorem modifyAt_congr {address : Address} {f g : Outline → Outline} {o x : Outline}
    (h : at? address o = some x) (hx : f x = g x) : modifyAt address f o = modifyAt address g o := by
  induction address generalizing o with
  | nil =>
    cases h
    exact hx
  | cons i address ih =>
    cases o with
    | node label branches =>
      rw [at?_cons, Option.bind_eq_some_iff] at h
      obtain ⟨branch, hbranch, hat⟩ := h
      rw [modifyAt_cons, modifyAt_cons]
      congr 1
      apply List.ext_getElem?
      intro j
      rw [List.getElem?_modify, List.getElem?_modify]
      by_cases hj : i = j
      · subst hj
        simp [hbranch, ih hat]
      · simp [hj]

theorem modifyAt_id (address : Address) : modifyAt address id = id := by
  induction address with
  | nil => rfl
  | cons i address ih =>
    funext o
    cases o with
    | node label branches => rw [modifyAt_cons, ih, List.modify_id, id]

theorem modifyAt_eq_self {address : Address} {f : Outline → Outline} {o x : Outline}
    (h : at? address o = some x) (hx : f x = x) : modifyAt address f o = o := by
  rw [modifyAt_congr (g := id) h hx, modifyAt_id, id]

/-! ## Growing -/

/-- On top of a stack the expression is grown whole, at a node that is still bare, before anything below
it is looked at. -/
def Grows (e : Expr) : Prop :=
  ∀ (address : Address) (stack : List (Expr × Address)) (o : Outline),
    at? address o = some (leaf e.label) →
    growFrom ((e, address) :: stack) o = growFrom stack (modifyAt address (fun _ => e.outline) o)

theorem Grows.child {e : Expr} (h : Grows e) {address : Address} {i : Nat}
    {stack : List (Expr × Address)} {f : Outline → Outline} {o x : Outline}
    (hx : at? address o = some x) (hbare : at? [i] (f x) = some (leaf e.label)) :
    growFrom ((e, address ++ [i]) :: stack) (modifyAt address f o) =
      growFrom stack (modifyAt address (modifyAt [i] (fun _ => e.outline) ∘ f) o) := by
  have hat : at? (address ++ [i]) (modifyAt address f o) = some (leaf e.label) := by
    rw [at?_modifyAt_append, hx]
    exact hbare
  rw [h _ _ _ hat, modifyAt_append, modifyAt_modifyAt]

theorem grows (e : Expr) : Grows e := by
  intro address stack o h
  -- All that is done to the tree is one function of the bare node at the address.
  induction e generalizing address stack o with
  | number value =>
    rw [growFrom, modifyAt_eq_self h rfl]
    rfl
  | unary op operand ih =>
    calc growFrom ((.unary op operand, address) :: stack) o
      _ = growFrom ((operand, address ++ [0]) :: stack)
          (modifyAt address (addBranch operand.label) o) := by
        rw [growFrom]
        rfl
      _ = growFrom stack (modifyAt address
          (modifyAt [0] (fun _ => operand.outline) ∘ addBranch operand.label) o) :=
        Grows.child ih h rfl
      _ = growFrom stack (modifyAt address (fun _ => (Expr.unary op operand).outline) o) :=
        congrArg _ (modifyAt_congr h rfl)
  | binary op left right ihl ihr =>
    calc growFrom ((.binary op left right, address) :: stack) o
      _ = growFrom ((right, address ++ [1]) :: (left, address ++ [0]) :: stack)
          (modifyAt address (addBranch right.label ∘ addBranch left.label) o) := by
        rw [growFrom, ← modifyAt_modifyAt]
        rfl
      _ = growFrom ((left, address ++ [0]) :: stack) (modifyAt address
          (modifyAt [1] (fun _ => right.outline) ∘ addBranch right.label ∘ addBranch left.label) o) :=
        Grows.child ihr h rfl
      _ = growFrom stack (modifyAt address (modifyAt [0] (fun _ => left.outline) ∘
          modifyAt [1] (fun _ => right.outline) ∘ addBranch right.label ∘ addBranch left.label) o) :=
        Grows.child ihl h rfl
      _ = growFrom stack (modifyAt address (fun _ => (Expr.binary op left right).outline) o) :=
        congrArg _ (modifyAt_congr h rfl)

theorem grow_eq_outline (e : Expr) : grow e = e.outline := by
  rw [grow, grows e [] [] (leaf e.label) rfl, growFrom]
  rfl

end Outline

/-! ## Rows -/

/-- The labels of an expression from top to bottom with their depths, the root at the given depth. -/
def Expr.preorder (depth : Nat) : Expr → List (Nat × String)
  | number value => [(depth, value.text)]
  | unary op operand => (depth, "unary " ++ op.text) :: operand.preorder (depth + 1)
  | binary op left right =>
    (depth, op.text) :: (left.preorder (depth + 1) ++ right.preorder (depth + 1))

theorem Outline.rowsFrom_outline (depth : Nat) (e : Expr) :
    rowsFrom depth e.outline = e.preorder depth := by
  induction e generalizing depth with
  | number value => rfl
  | unary op operand ih =>
    simp only [Expr.outline, rowsFrom, rowsBelow, ih, List.append_nil, Expr.preorder]
  | binary op left right ihl ihr =>
    simp only [Expr.outline, rowsFrom, rowsBelow, ihl, ihr, List.append_nil, Expr.preorder]

/-! ## Labels -/

def Literal.IsInteger : Literal → Prop
  | .int _ => True
  | .real _ => False

theorem Literal.exists_digit_text (n : Int) : ∃ c ∈ (Literal.int n).text.toList, c.isDigit := by
  obtain ⟨c, hc⟩ := List.exists_mem_of_ne_nil (Nat.toDigits 10 n.natAbs) Nat.toDigits_ne_nil
  refine ⟨c, ?_, Nat.isDigit_of_mem_toDigits (by decide) (by decide) hc⟩
  rw [text, Int.toString_eq_repr, Int.repr_eq_if]
  split
  · rename_i hn
    rwa [Nat.toList_repr, show n.toNat = n.natAbs by omega]
  · rename_i hn
    rw [String.toList_append, Nat.toList_repr, show (-n).toNat = n.natAbs by omega]
    exact List.mem_append_right _ hc

theorem Literal.text_ne {s : String} (hs : ∀ c ∈ s.toList, c.isDigit = false) (n : Int) :
    (Literal.int n).text ≠ s := by
  rintro rfl
  obtain ⟨c, hc, hdigit⟩ := exists_digit_text n
  rw [hs c hc] at hdigit
  cases hdigit

namespace Op

theorem text_injective {op op' : Op} (h : op.text = op'.text) : op = op' := by
  revert h
  cases op <;> cases op' <;> decide

theorem sign_injective {op op' : Op} (h : "unary " ++ op.text = "unary " ++ op'.text) : op = op' :=
  text_injective ((String.append_right_inj _).mp h)

theorem sign_ne_text (op op' : Op) : "unary " ++ op.text ≠ op'.text := by
  cases op <;> cases op' <;> decide

theorem not_digit_of_mem_text (op : Op) : ∀ c ∈ op.text.toList, c.isDigit = false := by
  have hall : op.text.toList.all fun c => !c.isDigit := by cases op <;> rfl
  exact fun c hc => by simpa using List.all_eq_true.mp hall c hc

theorem not_digit_of_mem_sign (op : Op) : ∀ c ∈ ("unary " ++ op.text).toList, c.isDigit = false := by
  have hall : ("unary " ++ op.text).toList.all fun c => !c.isDigit := by cases op <;> rfl
  exact fun c hc => by simpa using List.all_eq_true.mp hall c hc

end Op

namespace Expr

/-- The same number or the same operation at the root. -/
def SameRoot : Expr → Expr → Prop
  | number value, number value' => value = value'
  | unary op _, unary op' _ => op = op'
  | binary op _ _, binary op' _ _ => op = op'
  | _, _ => False

abbrev IntegersOnly (e : Expr) : Prop := e.All Literal.IsInteger fun _ => True

theorem exists_int {value : Literal} (h : (number value).IntegersOnly) : ∃ n, value = .int n := by
  cases value with
  | int n => exact ⟨n, rfl⟩
  | real x => exact h.elim

theorem sameRoot_of_label {e e' : Expr} (he : e.IntegersOnly) (he' : e'.IntegersOnly)
    (h : e.label = e'.label) : e.SameRoot e' := by
  cases e with
  | number value =>
    obtain ⟨n, rfl⟩ := exists_int he
    cases e' with
    | number value' =>
      obtain ⟨n', rfl⟩ := exists_int he'
      exact congrArg Literal.int (Int.repr_inj.mp h)
    | unary op' _ => exact Literal.text_ne op'.not_digit_of_mem_sign n h
    | binary op' _ _ => exact Literal.text_ne op'.not_digit_of_mem_text n h
  | unary op _ =>
    cases e' with
    | number value' =>
      obtain ⟨n', rfl⟩ := exists_int he'
      exact Literal.text_ne op.not_digit_of_mem_sign n' h.symm
    | unary op' _ => exact Op.sign_injective h
    | binary op' _ _ => exact Op.sign_ne_text op op' h
  | binary op _ _ =>
    cases e' with
    | number value' =>
      obtain ⟨n', rfl⟩ := exists_int he'
      exact Literal.text_ne op.not_digit_of_mem_text n' h.symm
    | unary op' _ => exact Op.sign_ne_text op' op h.symm
    | binary op' _ _ => exact Op.text_injective h

def rowsBelow (depth : Nat) : Expr → List (Nat × String)
  | number _ => []
  | unary _ operand => operand.preorder (depth + 1)
  | binary _ left right => left.preorder (depth + 1) ++ right.preorder (depth + 1)

theorem preorder_eq_cons (depth : Nat) (e : Expr) :
    e.preorder depth = (depth, e.label) :: e.rowsBelow depth := by
  cases e <;> rfl

section
variable {e e' : Expr} {depth : Nat} {rest rest' : List (Nat × String)}

theorem sameRoot_of_preorder (he : e.IntegersOnly) (he' : e'.IntegersOnly)
    (h : e.preorder depth ++ rest = e'.preorder depth ++ rest') :
    e.SameRoot e' ∧ e.rowsBelow depth ++ rest = e'.rowsBelow depth ++ rest' := by
  rw [preorder_eq_cons, preorder_eq_cons, List.cons_append, List.cons_append, List.cons.injEq,
    Prod.mk.injEq] at h
  exact ⟨sameRoot_of_label he he' h.1.2, h.2⟩

theorem eq_of_preorder_append (he : e.IntegersOnly) (he' : e'.IntegersOnly)
    (h : e.preorder depth ++ rest = e'.preorder depth ++ rest') : e = e' ∧ rest = rest' := by
  induction e generalizing e' depth rest rest' with
  | number value =>
    obtain ⟨hroot, hbelow⟩ := sameRoot_of_preorder he he' h
    cases e' with
    | number value' => exact ⟨congrArg number hroot, hbelow⟩
    | _ => exact hroot.elim
  | unary op operand ih =>
    obtain ⟨hroot, hbelow⟩ := sameRoot_of_preorder he he' h
    cases e' with
    | unary op' operand' =>
      obtain ⟨rfl, hrest⟩ := ih he.2 he'.2 hbelow
      exact ⟨congrArg (unary · operand) hroot, hrest⟩
    | _ => exact hroot.elim
  | binary op left right ihl ihr =>
    obtain ⟨hroot, hbelow⟩ := sameRoot_of_preorder he he' h
    cases e' with
    | binary op' left' right' =>
      simp only [rowsBelow, List.append_assoc] at hbelow
      obtain ⟨rfl, hright⟩ := ihl he.1 he'.1 hbelow
      obtain ⟨rfl, hrest⟩ := ihr he.2 he'.2 hright
      exact ⟨congrArg (binary · left right) hroot, hrest⟩
    | _ => exact hroot.elim

end

end Expr

/-- The grown outline of an expression is the recursive one, with the labels of the expression from top
to bottom as its rows; and expressions with integers only that have the same rows are equal. -/
theorem outline_faithful :
    (∀ e : Expr, Outline.grow e = e.outline ∧ (Outline.grow e).rows = e.preorder 0) ∧
    ∀ e e' : Expr, e.IntegersOnly → e'.IntegersOnly →
      (Outline.grow e).rows = (Outline.grow e').rows → e = e' := by
  have hrows : ∀ e : Expr, (Outline.grow e).rows = e.preorder 0 := fun e => by
    rw [Outline.grow_eq_outline, Outline.rows, Outline.rowsFrom_outline]
  refine ⟨fun e => ⟨Outline.grow_eq_outline e, hrows e⟩, ?_⟩
  intro e e' he he' h
  have happend : e.preorder 0 ++ [] = e'.preorder 0 ++ [] := by
    rw [← hrows e, ← hrows e', h]
  exact (Expr.eq_of_preorder_append he he' happend).1

/-- A negative number and a sign in front of a number. -/
theorem outline_faithful_sign :
    (Outline.grow (.number (.int (-5)))).rows ≠ (Outline.grow (.unary .sub (.number (.int 5)))).rows := by
  intro h
  have heq := outline_faithful.2 (.number (.int (-5))) (.unary .sub (.number (.int 5))) trivial
    ⟨trivial, trivial⟩ h
  cases heq

end Arith
