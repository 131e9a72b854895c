import Arith.Proofs.Course

/-!
# Counting on the two stacks

At every head of a run, the depth counts the parentheses that wait on the stack, which are those
opened and not closed so far, and there is one operand for each operator between two operands, and
one more where an operator is expected. With these counts no operator ever lacks an operand, every
closing parenthesis meets its opening one, and the guards of the loop against anything else are
never called upon.
-/

namespace Arith

namespace Pending

/-- An operator that stands between two operands and waits for the right one. -/
def isBetween : Pending → Bool
  | operator entry => entry.stance = .between
  | group _ => false

/-! ## Enough operands -/

variable {operands : List Expr} {pending : List Pending} {entry : PendingOp}

theorem attach_of_length
    (h : operands.length = (operator entry :: pending).countP isBetween + 1) :
    ∃ operands', entry.attach operands = .ok operands' ∧
      operands'.length = pending.countP isBetween + 1 := by
  obtain ⟨stance, op, position⟩ := entry
  rw [List.countP_cons] at h
  cases stance with
  | sign =>
    simp only [isBetween] at h
    obtain ⟨operand, rest, rfl⟩ := List.exists_cons_of_length_eq_add_one h
    refine ⟨.unary op operand :: rest, rfl, ?_⟩
    simpa using h
  | between =>
    simp only [isBetween, decide_true, if_true] at h
    obtain ⟨right, rest, rfl⟩ := List.exists_cons_of_length_eq_add_one h
    obtain ⟨left, rest, rfl⟩ := List.exists_cons_of_length_eq_add_one (Nat.succ.inj h)
    refine ⟨.binary op left right :: rest, rfl, ?_⟩
    simpa using h

theorem makeRoom_of_length (incoming : PendingOp)
    (h : operands.length = pending.countP isBetween + 1) :
    ∃ operands' pending', makeRoom incoming operands pending = .ok (operands', pending') ∧
      operands'.length = pending'.countP isBetween + 1 ∧
      pending'.countP isGroup = pending.countP isGroup := by
  induction pending generalizing operands with
  | nil => exact ⟨operands, [], rfl, h, rfl⟩
  | cons top pending ih =>
    cases top with
    | group position => exact ⟨operands, _, rfl, h, rfl⟩
    | operator entry =>
      rw [makeRoom]
      split
      · obtain ⟨attached, hattach, hlength⟩ := attach_of_length h
        obtain ⟨operands', pending', hroom, hlength', hgroups⟩ := ih hlength
        refine ⟨operands', pending', ?_, hlength', ?_⟩
        · rw [hattach]
          exact hroom
        · rw [hgroups, List.countP_cons_of_neg (by simp [isGroup])]
      · exact ⟨operands, _, rfl, h, rfl⟩

theorem closeGroup_of_length (position : Position)
    (h : operands.length = pending.countP isBetween + 1) (hgroup : 0 < pending.countP isGroup) :
    ∃ operands' pending', closeGroup position operands pending = ⟨none, operands', pending'⟩ ∧
      operands'.length = pending'.countP isBetween + 1 ∧
      pending'.countP isGroup + 1 = pending.countP isGroup := by
  induction pending generalizing operands with
  | nil => simp at hgroup
  | cons top pending ih =>
    cases top with
    | group opened =>
      refine ⟨operands, pending, rfl, ?_, ?_⟩
      · rw [h, List.countP_cons_of_neg (by simp [isBetween])]
      · rw [List.countP_cons_of_pos (by simp [isGroup])]
    | operator entry =>
      obtain ⟨attached, hattach, hlength⟩ := attach_of_length h
      rw [List.countP_cons_of_neg (by simp [isGroup])] at hgroup ⊢
      obtain ⟨operands', pending', hclose, hlength', hgroups⟩ := ih hlength hgroup
      refine ⟨operands', pending', ?_, hlength', hgroups⟩
      rw [closeGroup, hattach]
      exact hclose

theorem attachAll_of_length (h : operands.length = pending.countP isBetween + 1)
    (hgroup : pending.countP isGroup = 0) : ∃ tree, attachAll operands pending = .ok [tree] := by
  induction pending generalizing operands with
  | nil =>
    obtain ⟨tree, rest, rfl⟩ := List.exists_cons_of_length_eq_add_one h
    have hrest : rest = [] := by simpa using h
    exact ⟨tree, by rw [hrest, attachAll]⟩
  | cons top pending ih =>
    cases top with
    | group opened => simp [isGroup] at hgroup
    | operator entry =>
      obtain ⟨attached, hattach, hlength⟩ := attach_of_length h
      rw [List.countP_cons_of_neg (by simp [isGroup])] at hgroup
      obtain ⟨tree, hall⟩ := ih hlength hgroup
      refine ⟨tree, ?_⟩
      rw [attachAll, hattach]
      exact hall

theorem innermost?_of_group (h : 0 < pending.countP isGroup) :
    ∃ position, innermost? pending = some position := by
  induction pending with
  | nil => simp at h
  | cons top pending ih =>
    cases top with
    | group position => exact ⟨position, rfl⟩
    | operator entry =>
      rw [List.countP_cons_of_neg (by simp [isGroup])] at h
      exact ih h

end Pending

/-! ## One step -/

def Token.opens (t : Token) : Bool := t.symbol = .openParen

def Token.closes (t : Token) : Bool := t.symbol = .closeParen

namespace Progress

/-- The counter counts the parentheses on the stack, and the operands fit the operators that wait
between two of them. -/
structure Balanced (s : Progress) : Prop where
  depth_eq : s.depth = s.pending.countP Pending.isGroup
  length_eq : s.operands.length =
    s.pending.countP Pending.isBetween + if s.wantsOperand then 0 else 1

theorem balanced_initial : initial.Balanced := ⟨rfl, rfl⟩

/-- The causes that the loop guards against, and that never come up. -/
def Guarded : Cause → Prop
  | .lacksOperand _ => True
  | .unexpected .wholeExpression _ => True
  | _ => False

theorem not_guarded_of_scanning {cause : Cause} (h : cause.kind.stage = .scanning) :
    ¬ Guarded cause := by
  cases cause with
  | foreignCharacter c => exact not_false
  | _ => cases h

/-- What the counts make of a step: a step that goes on keeps them, with the depth following the
parentheses; one that finishes stands at the end of input; and one that fails does so at its own token
and for no guarded cause. -/
def Kept (s : Progress) (t : Token) : Except Failure Step → Prop
  | .ok (.more s') => s'.Balanced ∧
      s'.depth + (if t.closes then 1 else 0) = s.depth + if t.opens then 1 else 0
  | .ok (.done _) => t.symbol = .endOfInput
  | .error failure => ∃ cause, failure = .fault ⟨cause, t.position⟩ ∧
      cause.kind.stage = .parsing ∧ ¬ Guarded cause

theorem Balanced.operandStep {s : Progress} (h : s.Balanced) (hwants : s.wantsOperand = true)
    (t : Token) : s.Kept t (s.operandStep t) := by
  obtain ⟨symbol, position⟩ := t
  have hdepth := h.depth_eq
  have hlength := h.length_eq
  rw [if_pos hwants] at hlength
  cases symbol with
  | operator op =>
    simp only [Progress.operandStep]
    split
    · refine ⟨⟨?_, ?_⟩, rfl⟩
      · simpa [Pending.isGroup] using hdepth
      · simpa [Pending.isBetween, hwants] using hlength
    · exact ⟨_, rfl, rfl, not_false⟩
  | number value =>
    refine ⟨⟨hdepth, ?_⟩, rfl⟩
    simpa using hlength
  | openParen =>
    refine ⟨⟨?_, ?_⟩, rfl⟩
    · simpa [Pending.isGroup, List.countP_cons] using hdepth
    · simpa [Pending.isBetween, hwants] using hlength
  | _ => exact ⟨_, rfl, rfl, not_false⟩

theorem Balanced.finish {s : Progress} (h : s.Balanced) (hwants : s.wantsOperand = false)
    {t : Token} (hend : t.symbol = .endOfInput) : s.Kept t (s.finish t) := by
  have hlength := h.length_eq
  simp only [hwants, Bool.false_eq_true, if_false] at hlength
  unfold Progress.finish
  split
  · rename_i hopen
    obtain ⟨opened, hinner⟩ := Pending.innermost?_of_group (h.depth_eq ▸ hopen)
    rw [hinner]
    exact ⟨_, rfl, rfl, not_false⟩
  · rename_i hclosed
    have hgroup : s.pending.countP Pending.isGroup = 0 := by
      have := h.depth_eq
      omega
    obtain ⟨tree, hall⟩ := Pending.attachAll_of_length hlength hgroup
    rw [hall]
    exact hend

theorem Balanced.operatorStep {s : Progress} (h : s.Balanced) (hwants : s.wantsOperand = false)
    (t : Token) : s.Kept t (s.operatorStep t) := by
  obtain ⟨symbol, position⟩ := t
  have hdepth := h.depth_eq
  have hlength := h.length_eq
  simp only [hwants, Bool.false_eq_true, if_false] at hlength
  cases symbol with
  | operator op =>
    obtain ⟨operands, pending, hroom, hlength', hgroups⟩ :=
      Pending.makeRoom_of_length ⟨.between, op, position⟩ hlength
    simp only [Progress.operatorStep, hroom]
    refine ⟨⟨?_, ?_⟩, rfl⟩
    · simpa [Pending.isGroup, hgroups] using hdepth
    · simpa [Pending.isBetween] using hlength'
  | closeParen =>
    simp only [Progress.operatorStep]
    split
    · exact ⟨_, rfl, rfl, not_false⟩
    · rename_i hopen
      obtain ⟨operands, pending, hclose, hlength', hgroups⟩ :=
        Pending.closeGroup_of_length position hlength (by omega)
      rw [hclose]
      refine ⟨⟨?_, ?_⟩, ?_⟩
      · simp only
        omega
      · simpa [hwants] using hlength'
      · simp [Token.closes, Token.opens]
        omega
  | endOfInput => exact h.finish hwants rfl
  | _ => exact ⟨_, rfl, rfl, not_false⟩

theorem Balanced.step {s : Progress} (h : s.Balanced) (t : Token) : s.Kept t (s.step t) := by
  unfold Progress.step
  split
  · rename_i hwants
    exact h.operandStep hwants t
  · rename_i hwants
    exact h.operatorStep (by simpa using hwants) t

end Progress

/-! ## Whole runs -/

namespace Parser

variable {p q : Parser} {s : Progress} {consumed : List Token}

theorem Reaches.balanced (h : p.Reaches q s consumed) : s.Balanced := by
  induction h with
  | start => exact Progress.balanced_initial
  | @step q q' s s' consumed t _ hstep hadvance ih =>
    have hkept := ih.step q.current
    rw [hstep] at hkept
    exact hkept.1

theorem Reaches.depth_add (h : p.Reaches q s consumed) :
    s.depth + consumed.countP Token.closes = consumed.countP Token.opens := by
  induction h with
  | start => rfl
  | @step q q' s s' consumed t hreaches hstep hadvance ih =>
    have hkept := hreaches.balanced.step q.current
    rw [hstep, ← eq_current_of_advance hadvance] at hkept
    have hdepth := hkept.2
    simp only [List.countP_append, List.countP_singleton]
    omega

theorem Ends.fault_of_failure {failure : Failure} {q' : Parser} (hs : s.Balanced)
    (h : q.Ends s (.error failure, q')) : ∃ fault, failure = .fault fault ∧
      (fault.cause.kind.stage = .parsing ∧ fault.position = q.current.position ∧
          ¬ Progress.Guarded fault.cause ∧ q' = q ∨
        q.advance = (.error fault, q')) := by
  cases h with
  | failed hstep =>
    have hkept := hs.step q.current
    rw [hstep] at hkept
    obtain ⟨cause, rfl, hstage, hguarded⟩ := hkept
    exact ⟨_, rfl, .inl ⟨hstage, rfl, hguarded, rfl⟩⟩
  | cut _ hadvance => exact ⟨_, rfl, .inr hadvance⟩

end Parser

theorem parse_not_guarded {decimals : Bool} {source : String} {failure : Failure}
    (h : parse decimals source = .error failure) :
    ∃ fault, failure = .fault fault ∧ ¬ Progress.Guarded fault.cause := by
  unfold parse at h
  split at h
  · rename_i p hstart
    obtain ⟨q, s, consumed, hreaches, hends⟩ := p.exists_last
    rw [show p.parseExpression = (.error failure, p.parseExpression.2) from Prod.ext h rfl] at hends
    obtain ⟨fault, rfl, hfault⟩ := hends.fault_of_failure hreaches.balanced
    refine ⟨fault, rfl, ?_⟩
    rcases hfault with ⟨-, -, hguarded, -⟩ | hadvance
    · exact hguarded
    · exact Progress.not_guarded_of_scanning (Parser.stage_of_advance hadvance)
  · rename_i fault hstart
    cases h
    refine ⟨fault, rfl, Progress.not_guarded_of_scanning ?_⟩
    unfold Parser.start at hstart
    split at hstart
    · cases hstart
    · rename_i hnext
      cases hstart
      exact Cursor.stage_of_next hnext

/-- At every head of a run the depth counts the open parentheses on the stack and those opened and
not closed in what is consumed, and the operands are as many as the operators between two of them,
with one more where an operator is expected. There nothing that the loop calls can run out of
operands or miss a parenthesis, and so no source fails for a cause that the loop only guards
against. -/
theorem counts_at_heads :
    (∀ (p q : Parser) (s : Progress) (consumed : List Token), p.Reaches q s consumed →
      s.depth = s.pending.countP Pending.isGroup ∧
      (s.depth : Int) = consumed.countP Token.opens - consumed.countP Token.closes ∧
      s.operands.length =
        s.pending.countP Pending.isBetween + (if s.wantsOperand then 0 else 1) ∧
      (s.wantsOperand = false →
        (∀ incoming, ∃ room, Pending.makeRoom incoming s.operands s.pending = .ok room) ∧
        (0 < s.depth →
          (∀ position, (Pending.closeGroup position s.operands s.pending).fault? = none) ∧
          ∃ opened, Pending.innermost? s.pending = some opened) ∧
        (s.depth = 0 → ∃ tree, Pending.attachAll s.operands s.pending = .ok [tree]))) ∧
    ∀ decimals source failure, parse decimals source = .error failure →
      ∃ fault, failure = .fault fault ∧ fault.cause.kind ≠ .missingOperand ∧
        ∀ found, fault.cause ≠ .unexpected .wholeExpression found := by
  constructor
  · intro p q s consumed hreaches
    have hbalanced := hreaches.balanced
    have hparens := hreaches.depth_add
    have hdepth := hbalanced.depth_eq
    refine ⟨hdepth, by omega, hbalanced.length_eq, fun hwants => ?_⟩
    have hlength := hbalanced.length_eq
    simp only [hwants, Bool.false_eq_true, if_false] at hlength
    refine ⟨fun incoming => ?_, fun hopen => ⟨fun position => ?_, ?_⟩, fun hclosed => ?_⟩
    · obtain ⟨operands, pending, hroom, -⟩ := Pending.makeRoom_of_length incoming hlength
      exact ⟨_, hroom⟩
    · obtain ⟨operands, pending, hclose, -⟩ :=
        Pending.closeGroup_of_length position hlength (hdepth ▸ hopen)
      rw [hclose]
    · exact Pending.innermost?_of_group (hdepth ▸ hopen)
    · exact Pending.attachAll_of_length hlength (hdepth ▸ hclosed)
  · intro decimals source failure hparse
    obtain ⟨fault, rfl, hguarded⟩ := parse_not_guarded hparse
    refine ⟨fault, rfl, fun hkind => hguarded ?_, fun found hcause => hguarded ?_⟩
    · cases hcause : fault.cause with
      | lacksOperand op => trivial
      | _ =>
        rw [hcause] at hkind
        cases hkind
    · rw [hcause]
      trivial

/-- The head behind `2*(3`, where one parenthesis is open and an operator waits outside of it. -/
theorem counts_at_heads_unclosed :
    ∃ (p q : Parser) (s : Progress) (consumed : List Token),
      Parser.start false "2*(3" = .ok p ∧ p.Reaches q s consumed ∧ s.wantsOperand = false ∧
      s.depth = 1 ∧ s.pending.countP Pending.isGroup = 1 ∧ s.operands.length = 2 ∧
      (∀ position, (Pending.closeGroup position s.operands s.pending).fault? = none) ∧
      ∃ fault, parse false "2*(3" = .error (.fault fault) ∧ fault.cause.kind ≠ .missingOperand := by
  let p : Parser := ⟨false, ⟨"*(3".toList, 1, 1, 0⟩, ⟨.number (.int 2), ⟨1, 1⟩⟩⟩
  let q : Parser := ⟨false, ⟨[], 4, 1, 0⟩, ⟨.endOfInput, ⟨1, 5⟩⟩⟩
  let s : Progress := ⟨[.number (.int 3), .number (.int 2)],
    [.group ⟨1, 3⟩, .operator ⟨.between, .mul, ⟨1, 2⟩⟩], 1, false⟩
  have hstart : Parser.start false "2*(3" = .ok p := rfl
  have hreaches : p.Reaches q s [⟨.number (.int 2), ⟨1, 1⟩⟩, ⟨.operator .mul, ⟨1, 2⟩⟩,
      ⟨.openParen, ⟨1, 3⟩⟩, ⟨.number (.int 3), ⟨1, 4⟩⟩] :=
    .step (.step (.step (.step .start rfl rfl) rfl rfl) rfl rfl) rfl rfl
  have hparse : parse false "2*(3" = .error (.fault ⟨.neverClosed ⟨1, 3⟩, ⟨1, 5⟩⟩) := by
    unfold parse
    rw [hstart]
    simp only
    rw [hreaches.parseExpression_eq, Parser.run]
    rfl
  obtain ⟨hdepth, -, hlength, hoperator⟩ := counts_at_heads.1 p q s _ hreaches
  obtain ⟨fault, hfault, hkind, -⟩ := counts_at_heads.2 false "2*(3" _ hparse
  cases hfault
  exact ⟨p, q, s, _, hstart, hreaches, rfl, rfl, hdepth.symm, hlength,
    ((hoperator rfl).2.1 (by decide)).1, _, hparse, hkind⟩

end Arith
