import Arith.Proofs.Reading

/-!
# Matching parentheses

Parentheses match from the inside out, whatever stands between them. The groups on the pending stack
are the opening parentheses that this leaves without a partner, the innermost on top.
-/

namespace Arith

/-! ## Matched sequences -/

/-- Every parenthesis has its partner in the sequence. -/
inductive Matched : List Symbol → Prop where
  | nil : Matched []
  | other {x : Symbol} {a : List Symbol} : x ≠ .openParen → x ≠ .closeParen → Matched a →
    Matched (x :: a)
  | group {a b : List Symbol} : Matched a → Matched b → Matched (.openParen :: a ++ .closeParen :: b)

/-- What stands behind an opening parenthesis closes it. -/
def Closes (a : List Symbol) : Prop := ∃ b c, a = b ++ .closeParen :: c ∧ Matched b

theorem Closes.append {a : List Symbol} (h : Closes a) (b : List Symbol) : Closes (a ++ b) := by
  obtain ⟨c, d, rfl, hc⟩ := h
  exact ⟨c, d ++ b, by simp, hc⟩

namespace Matched

variable {a b : List Symbol}

theorem append (h : Matched a) (hb : Matched b) : Matched (a ++ b) := by
  induction h with
  | nil => exact hb
  | other hopen hclose _ ih => exact .other hopen hclose ih
  | group ha _ _ ih =>
    rw [List.append_assoc, List.cons_append]
    exact .group ha ih

theorem count_eq (h : Matched a) : a.count .openParen = a.count .closeParen := by
  induction h with
  | nil => rfl
  | other hopen hclose _ ih => rw [List.count_cons_of_ne hopen, List.count_cons_of_ne hclose, ih]
  | group _ _ iha ihb =>
    simp [iha, ihb]
    omega

theorem count_le (h : Matched a) (hb : b <+: a) : b.count .closeParen ≤ b.count .openParen := by
  induction h generalizing b with
  | nil =>
    rw [List.prefix_nil.mp hb]
    exact Nat.le_refl _
  | other hopen hclose _ ih =>
    rcases List.prefix_cons_iff.mp hb with rfl | ⟨b, rfl, hrest⟩
    · exact Nat.le_refl _
    · rw [List.count_cons_of_ne hopen, List.count_cons_of_ne hclose]
      exact ih hrest
  | @group a c ha _ iha ihc =>
    rcases List.prefix_cons_iff.mp hb with rfl | ⟨b, rfl, d, heq⟩
    · exact Nat.le_refl _
    · rcases List.append_eq_append_iff.mp heq with ⟨b', rfl, -⟩ | ⟨b', rfl, hb'⟩
      · have := iha (List.prefix_append b b')
        simp
        omega
      · have hcount := ha.count_eq
        rcases List.prefix_cons_iff.mp ⟨d, hb'.symm⟩ with rfl | ⟨b', rfl, hrest⟩
        · simp
          omega
        · have := ihc hrest
          simp
          omega

theorem not_closes (h : Matched a) : ¬ Closes a := by
  rintro ⟨b, c, rfl, hb⟩
  have hcount := h.count_le (b := b ++ [.closeParen]) ⟨c, by simp⟩
  have := hb.count_eq
  simp at hcount
  omega

theorem closes (h : Matched a) {c : List Symbol} (ha : a = b ++ .openParen :: c) : Closes c := by
  induction h generalizing b c with
  | nil => simp at ha
  | other hopen _ _ ih =>
    rcases List.cons_eq_append_iff.mp ha with ⟨-, heq⟩ | ⟨b, -, heq⟩
    · exact absurd (List.cons.inj heq).1.symm hopen
    · exact ih heq
  | @group a d ha' _ iha ihd =>
    rcases List.cons_eq_append_iff.mp ha with ⟨-, heq⟩ | ⟨b, -, heq⟩
    · exact ⟨a, d, (List.cons.inj heq).2, ha'⟩
    · rcases List.append_eq_append_iff.mp heq with ⟨b', -, hb'⟩ | ⟨b', hb, hb'⟩
      · rcases List.cons_eq_append_iff.mp hb' with ⟨-, hparen⟩ | ⟨b', -, hd⟩
        · cases hparen
        · exact ihd hd
      · rcases List.cons_eq_append_iff.mp hb' with ⟨-, hparen⟩ | ⟨b', rfl, hc⟩
        · cases hparen
        · rw [hc]
          exact (iha hb).append _

end Matched

/-! ## What is left open -/

/-- The last opening parenthesis that nothing behind it closes. -/
def InnermostOpen (before : List Token) (opened : Token) : Prop :=
  ∃ b c, before = b ++ opened :: c ∧ opened.symbol = .openParen ∧
    ¬ Closes (c.map Token.symbol) ∧
    ∀ c' t d, c = c' ++ t :: d → t.symbol = .openParen → Closes (d.map Token.symbol)

theorem InnermostOpen.of_matched {a b : List Token} {opened : Token}
    (hopen : opened.symbol = .openParen) (hb : Matched (b.map Token.symbol)) :
    InnermostOpen (a ++ opened :: b) opened := by
  refine ⟨a, b, rfl, hopen, hb.not_closes, fun c t d heq ht => ?_⟩
  apply hb.closes
  rw [heq, List.map_append, List.map_cons, ht]

theorem InnermostOpen.unique {before : List Token} {opened opened' : Token}
    (h : InnermostOpen before opened) (h' : InnermostOpen before opened') : opened = opened' := by
  obtain ⟨b, c, rfl, hopen, hleft, hinner⟩ := h
  obtain ⟨b', c', heq, hopen', hleft', hinner'⟩ := h'
  rcases List.append_eq_append_iff.mp heq with ⟨d, -, hd⟩ | ⟨d, -, hd⟩
  · rcases List.cons_eq_append_iff.mp hd with ⟨-, hsame⟩ | ⟨d, -, hc⟩
    · exact (List.cons.inj hsame).1.symm
    · exact absurd (hinner d opened' c' hc hopen') hleft'
  · rcases List.cons_eq_append_iff.mp hd with ⟨-, hsame⟩ | ⟨d, -, hc⟩
    · exact (List.cons.inj hsame).1
    · exact absurd (hinner' d opened c hc hopen) hleft

/-- The opening parentheses that a sequence of tokens leaves open, the last one first. -/
inductive LeavesOpen : List Token → List Token → Prop where
  | nothing {b : List Token} : Matched (b.map Token.symbol) → LeavesOpen b []
  | opened {a b opened : List Token} {t : Token} : LeavesOpen a opened → t.symbol = .openParen →
    Matched (b.map Token.symbol) → LeavesOpen (a ++ t :: b) (t :: opened)

namespace LeavesOpen

variable {a b opened : List Token} {t : Token}

theorem append (h : LeavesOpen a opened) (hb : Matched (b.map Token.symbol)) :
    LeavesOpen (a ++ b) opened := by
  cases h with
  | nothing ha =>
    apply LeavesOpen.nothing
    rw [List.map_append]
    exact ha.append hb
  | opened ha ht hc =>
    rw [List.append_assoc, List.cons_append]
    apply LeavesOpen.opened ha ht
    rw [List.map_append]
    exact hc.append hb

theorem open_paren (h : LeavesOpen a opened) (ht : t.symbol = .openParen) :
    LeavesOpen (a ++ [t]) (t :: opened) := .opened h ht .nil

theorem close_paren {o : Token} (h : LeavesOpen a (o :: opened)) (ht : t.symbol = .closeParen) :
    LeavesOpen (a ++ [t]) opened := by
  cases h with
  | @opened a b _ _ ha ho hb =>
    have hgroup : Matched ((o :: b ++ [t]).map Token.symbol) := by
      simpa [ho, ht] using Matched.group hb .nil
    rw [List.append_assoc]
    exact ha.append hgroup

theorem other (h : LeavesOpen a opened) (hopen : t.symbol ≠ .openParen)
    (hclose : t.symbol ≠ .closeParen) : LeavesOpen (a ++ [t]) opened :=
  h.append (.other hopen hclose .nil)

theorem count_eq (h : LeavesOpen a opened) : (a.map Token.symbol).count .openParen =
    (a.map Token.symbol).count .closeParen + opened.length := by
  induction h with
  | nothing hb => exact hb.count_eq
  | opened _ ht hb ih =>
    have := hb.count_eq
    simp [ht, ih]
    omega

theorem innermost (h : LeavesOpen a (t :: opened)) : InnermostOpen a t := by
  cases h with
  | opened _ ht hb => exact .of_matched ht hb

end LeavesOpen

/-! ## The groups on the stack -/

namespace Pending

def opened? : Pending → Option Position
  | group position => some position
  | operator _ => none

/-- The positions of the open parentheses, the innermost first. -/
def groups (pending : List Pending) : List Position := pending.filterMap opened?

variable {operands operands' : List Expr} {pending pending' : List Pending}

@[simp]
theorem groups_group (position : Position) (pending : List Pending) :
    groups (group position :: pending) = position :: groups pending := rfl

@[simp]
theorem groups_operator (entry : PendingOp) (pending : List Pending) :
    groups (operator entry :: pending) = groups pending := rfl

theorem innermost?_eq_head? (pending : List Pending) :
    innermost? pending = (groups pending).head? := by
  induction pending with
  | nil => rfl
  | cons top pending ih =>
    cases top with
    | group position => rfl
    | operator entry => rw [innermost?, ih, groups_operator]

theorem groups_of_makeRoom {incoming : PendingOp}
    (h : makeRoom incoming operands pending = .ok (operands', pending')) :
    groups pending' = groups pending := by
  fun_induction makeRoom incoming operands pending with
  | case1 operands entry pending hyields attached hattach ih => exact ih h
  | case2 => cases h
  | case3 =>
    cases h
    rfl
  | case4 =>
    cases h
    rfl

theorem groups_of_closeGroup {position : Position}
    (h : closeGroup position operands pending = ⟨none, operands', pending'⟩) :
    ∃ opened, groups pending = opened :: groups pending' := by
  fun_induction closeGroup position operands pending with
  | case1 => cases h
  | case2 operands opened pending =>
    cases h
    exact ⟨opened, rfl⟩
  | case3 operands entry pending attached hattach ih => exact ih h
  | case4 => cases h

end Pending

namespace Progress

variable {s s' : Progress} {t : Token} {consumed ts : List Token}

/-- All that a step that goes on can do. -/
inductive Goes (s : Progress) (t : Token) : Progress → Prop where
  | sign {op : Op} : s.wantsOperand = true → t.symbol = .operator op → op.isSign →
    Goes s t { s with pending := .operator ⟨.sign, op, t.position⟩ :: s.pending }
  | number {value : Literal} : s.wantsOperand = true → t.symbol = .number value →
    Goes s t { s with operands := .number value :: s.operands, wantsOperand := false }
  | opening : s.wantsOperand = true → t.symbol = .openParen →
    Goes s t { s with pending := .group t.position :: s.pending, depth := s.depth + 1 }
  | between {op : Op} {operands : List Expr} {pending : List Pending} :
    s.wantsOperand = false → t.symbol = .operator op →
    Pending.makeRoom ⟨.between, op, t.position⟩ s.operands s.pending = .ok (operands, pending) →
    Goes s t { s with
      operands, pending := .operator ⟨.between, op, t.position⟩ :: pending, wantsOperand := true }
  | closing {operands : List Expr} {pending : List Pending} :
    s.wantsOperand = false → t.symbol = .closeParen → s.depth ≠ 0 →
    Pending.closeGroup t.position s.operands s.pending = ⟨none, operands, pending⟩ →
    Goes s t { s with operands, pending, depth := s.depth - 1 }

theorem goes_of_operandStep (hwants : s.wantsOperand = true)
    (h : s.operandStep t = .ok (.more s')) : s.Goes t s' := by
  unfold operandStep at h
  split at h
  · rename_i op hop
    split at h
    · rename_i hsign
      cases h
      exact .sign hwants hop hsign
    · cases h
  · rename_i hnumber
    cases h
    exact .number hwants hnumber
  · rename_i hopen
    cases h
    exact .opening hwants hopen
  · cases h

theorem goes_of_operatorStep (hwants : s.wantsOperand = false)
    (h : s.operatorStep t = .ok (.more s')) : s.Goes t s' := by
  unfold operatorStep at h
  split at h
  · rename_i hop
    simp only at h
    split at h
    · rename_i hroom
      cases h
      exact .between hwants hop hroom
    · cases h
  · rename_i hclose
    split at h
    · cases h
    · rename_i hdepth
      split at h
      · rename_i hgroup
        cases h
        exact .closing hwants hclose hdepth hgroup
      · cases h
  · unfold finish at h
    split at h
    · split at h <;> cases h
    · split at h <;> cases h
  · cases h

theorem goes (h : s.step t = .ok (.more s')) : s.Goes t s' := by
  unfold step at h
  split at h
  · rename_i hwants
    exact goes_of_operandStep hwants h
  · rename_i hwants
    exact goes_of_operatorStep (by simpa using hwants) h

/-- The groups on the stack are the parentheses that the consumed tokens leave open. -/
def Keeps (s : Progress) (consumed : List Token) : Prop :=
  ∃ opened, LeavesOpen consumed opened ∧ Pending.groups s.pending = opened.map Token.position

theorem keeps_initial : initial.Keeps [] := ⟨[], .nothing .nil, rfl⟩

theorem Keeps.step (h : s.Keeps consumed) (hstep : s.step t = .ok (.more s')) :
    s'.Keeps (consumed ++ [t]) := by
  obtain ⟨opened, hopen, hgroups⟩ := h
  cases goes hstep with
  | sign _ hop => exact ⟨opened, hopen.other (by simp [hop]) (by simp [hop]), hgroups⟩
  | number _ hnumber =>
    exact ⟨opened, hopen.other (by simp [hnumber]) (by simp [hnumber]), hgroups⟩
  | opening _ ht => exact ⟨t :: opened, hopen.open_paren ht, by simpa using hgroups⟩
  | between _ hop hroom =>
    refine ⟨opened, hopen.other (by simp [hop]) (by simp [hop]), ?_⟩
    rw [Pending.groups_operator, Pending.groups_of_makeRoom hroom, hgroups]
  | closing _ ht _ hclose =>
    obtain ⟨position, hposition⟩ := Pending.groups_of_closeGroup hclose
    rw [hposition] at hgroups
    obtain ⟨o, opened, rfl, -, hrest⟩ := List.map_eq_cons_iff.mp hgroups.symm
    exact ⟨opened, hopen.close_paren ht, hrest.symm⟩

theorem Keeps.read (h : s.Keeps consumed) (hread : s.read ts = .ok (.more s')) :
    s'.Keeps (consumed ++ ts) := by
  induction ts generalizing s consumed with
  | nil =>
    cases hread
    rwa [List.append_nil]
  | cons t ts ih =>
    rw [Progress.read] at hread
    split at hread
    · rename_i hstep
      have := ih (h.step hstep) hread
      rwa [List.append_assoc] at this
    · rename_i hother
      exact absurd hread (hother s')

end Progress
end Arith
