import Arith.Proofs.Brackets
import Arith.Proofs.Verdict
import Mathlib.Data.List.Induction

/-!
# The token to blame

Whether a token may stand where it does is settled by the token before it and by the number of
parentheses open there. A source that can be scanned is refused just when one of its tokens may not.
The first such token is the place of the fault, and the kind follows from what it is and where it
stands.
-/

namespace Arith

/-! ## Illegal tokens -/

/-- In front of everything, behind an operator or behind an opening parenthesis. -/
def OperandDue (before : List Symbol) : Prop :=
  ∀ x ∈ before.getLast?, x = .openParen ∨ ∃ op, x = .operator op

/-- Behind a number or a closing parenthesis. -/
def OperatorDue (before : List Symbol) : Prop :=
  ∃ x ∈ before.getLast?, x = .closeParen ∨ ∃ value, x = .number value

/-- A symbol that may not stand behind the ones before it, with the kind of fault that this is. -/
inductive Illegal (before : List Symbol) : Symbol → FaultKind → Prop where
  | notASign {op : Op} : OperandDue before → ¬ op.isSign →
    Illegal before (.operator op) .invalidUnaryOperator
  | noOperand {x : Symbol} : OperandDue before →
    x = .closeParen ∨ x = .endOfInput ∨ (∃ text, x = .name text) →
    Illegal before x .unexpectedToken
  | noOperator {x : Symbol} : OperatorDue before →
    x = .openParen ∨ (∃ value, x = .number value) ∨ (∃ text, x = .name text) →
    Illegal before x .unexpectedToken
  | neverOpened : OperatorDue before → before.count .openParen = before.count .closeParen →
    Illegal before .closeParen .mismatchedParen
  | neverClosed : OperatorDue before → before.count .closeParen < before.count .openParen →
    Illegal before .endOfInput .unclosedParen

theorem OperandDue.not_operatorDue {before : List Symbol} (h : OperandDue before) :
    ¬ OperatorDue before := by
  rintro ⟨x, hx, hlast⟩
  rcases h x hx with rfl | ⟨op, rfl⟩
  · simp at hlast
  · simp at hlast

/-- The token is the first that is illegal where it stands. -/
structure FirstIllegal (ts before : List Token) (t : Token) (kind : FaultKind) : Prop where
  split : ∃ c, ts = before ++ t :: c
  illegal : Illegal (before.map Token.symbol) t.symbol kind
  legal : ∀ b t' c, before = b ++ t' :: c → ∀ kind', ¬ Illegal (b.map Token.symbol) t'.symbol kind'

/-! ## Illegal tokens and places -/

namespace Place

variable {p q : Place} {a : List Symbol} {x : Symbol} {kind : FaultKind}

theorem depth_of_next (h : p.next? x = some q) :
    q.depth + [x].count .closeParen = p.depth + [x].count .openParen := by
  unfold next? at h
  split at h
  · split at h
    · cases h
      rfl
    · cases h
  all_goals cases h <;> rfl

theorem due_of_next (h : p.next? x = some q) :
    if q.wantsOperand then x = .openParen ∨ ∃ op, x = .operator op
    else x = .closeParen ∨ ∃ value, x = .number value := by
  unfold next? at h
  split at h
  · split at h
    · cases h
      simp
    · cases h
  all_goals cases h <;> simp

theorem depth_of_after (h : first.after? a = some q) :
    q.depth + a.count .closeParen = a.count .openParen := by
  induction a using List.reverseRecOn generalizing q with
  | nil =>
    cases h
    rfl
  | append_singleton a x ih =>
    rw [after?_append, Option.bind_eq_some_iff] at h
    obtain ⟨p, hp, hnext⟩ := h
    have hx := depth_of_next (p := p) (q := q) (x := x) (by simpa using hnext)
    have := ih hp
    simp only [List.count_append]
    omega

theorem due_of_after (h : first.after? a = some q) :
    if q.wantsOperand then OperandDue a else OperatorDue a := by
  induction a using List.reverseRecOn with
  | nil =>
    cases h
    simp [first, OperandDue]
  | append_singleton a x _ =>
    rw [after?_append, Option.bind_eq_some_iff] at h
    obtain ⟨p, -, hnext⟩ := h
    simpa [OperandDue, OperatorDue] using due_of_next (p := p) (by simpa using hnext)

theorem wantsOperand_of_operandDue (h : first.after? a = some q) (hdue : OperandDue a) :
    q.wantsOperand = true := by
  by_contra hwants
  have := due_of_after h
  rw [if_neg hwants] at this
  exact hdue.not_operatorDue this

theorem wantsOperand_of_operatorDue (h : first.after? a = some q) (hdue : OperatorDue a) :
    q.wantsOperand = false := by
  by_contra hwants
  have := due_of_after h
  rw [if_pos (by simpa using hwants)] at this
  exact this.not_operatorDue hdue

theorem exists_illegal (h : first.after? a = some q) (hnext : q.next? x = none)
    (hend : x = .endOfInput → q ≠ .last) : ∃ kind, Illegal a x kind := by
  obtain ⟨depth, wantsOperand⟩ := q
  have hdepth := depth_of_after h
  have hdue := due_of_after h
  cases wantsOperand with
  | true =>
    rw [if_pos rfl] at hdue
    cases x with
    | operator op =>
      by_cases hsign : op.isSign
      · simp [next?, hsign] at hnext
      · exact ⟨_, .notASign hdue hsign⟩
    | number value => cases hnext
    | openParen => cases hnext
    | name text => exact ⟨_, .noOperand hdue (.inr (.inr ⟨text, rfl⟩))⟩
    | closeParen => exact ⟨_, .noOperand hdue (.inl rfl)⟩
    | endOfInput => exact ⟨_, .noOperand hdue (.inr (.inl rfl))⟩
  | false =>
    rw [if_neg Bool.false_ne_true] at hdue
    cases x with
    | operator op => cases hnext
    | number value => exact ⟨_, .noOperator hdue (.inr (.inl ⟨value, rfl⟩))⟩
    | openParen => exact ⟨_, .noOperator hdue (.inl rfl)⟩
    | name text => exact ⟨_, .noOperator hdue (.inr (.inr ⟨text, rfl⟩))⟩
    | closeParen =>
      cases depth with
      | zero => exact ⟨_, .neverOpened hdue (by simpa using hdepth.symm)⟩
      | succ depth => cases hnext
    | endOfInput =>
      have hopen : depth ≠ 0 := by
        rintro rfl
        exact hend rfl rfl
      refine ⟨_, .neverClosed hdue ?_⟩
      simp only at hdepth
      omega

theorem next?_of_illegal (h : first.after? a = some q) (hill : Illegal a x kind) :
    q.next? x = none := by
  obtain ⟨depth, wantsOperand⟩ := q
  cases hill with
  | notASign hdue hsign =>
    obtain rfl : wantsOperand = true := wantsOperand_of_operandDue h hdue
    simp [next?, hsign]
  | noOperand hdue hx =>
    obtain rfl : wantsOperand = true := wantsOperand_of_operandDue h hdue
    rcases hx with rfl | rfl | ⟨text, rfl⟩ <;> rfl
  | noOperator hdue hx =>
    obtain rfl : wantsOperand = false := wantsOperand_of_operatorDue h hdue
    rcases hx with rfl | ⟨value, rfl⟩ | ⟨text, rfl⟩ <;> rfl
  | neverOpened hdue hcount =>
    obtain rfl : wantsOperand = false := wantsOperand_of_operatorDue h hdue
    have hdepth := depth_of_after h
    obtain rfl : depth = 0 := by simpa [hcount] using hdepth
    rfl
  | neverClosed => exact next?_endOfInput _

theorem exists_after (hend : .endOfInput ∉ a)
    (hlegal : ∀ b x c, a = b ++ x :: c → ∀ kind, ¬ Illegal b x kind) :
    ∃ q, first.after? a = some q := by
  cases hafter : first.after? a with
  | some q => exact ⟨q, rfl⟩
  | none =>
    obtain ⟨b, x, c, q, heq, hb, hnext⟩ := exists_of_after?_eq_none hafter
    have hx : x ≠ .endOfInput := by
      rintro rfl
      exact hend (by simp [heq])
    obtain ⟨kind, hill⟩ := exists_illegal hb hnext (absurd · hx)
    exact absurd hill (hlegal b x c heq kind)

theorem not_illegal_of_after (h : first.after? a = some q) {b c : List Symbol}
    (heq : a = b ++ x :: c) (kind : FaultKind) : ¬ Illegal b x kind := by
  intro hill
  rw [heq, after?_append, Option.bind_eq_some_iff] at h
  obtain ⟨p, hp, hrest⟩ := h
  rw [after?_cons, next?_of_illegal hp hill] at hrest
  cases hrest

end Place

/-! ## The step that fails -/

namespace Progress

theorem innermost_of_keeps {s : Progress} {before : List Token} (h : s.Keeps before)
    (hcount : (before.map Token.symbol).count .closeParen <
      (before.map Token.symbol).count .openParen) :
    ∃ opened, InnermostOpen before opened ∧
      Pending.innermost? s.pending = some opened.position := by
  obtain ⟨opened, hopen, hgroups⟩ := h
  cases opened with
  | nil =>
    have := hopen.count_eq
    simp only [List.length_nil] at this
    omega
  | cons o opened =>
    refine ⟨o, hopen.innermost, ?_⟩
    rw [Pending.innermost?_eq_head?, hgroups]
    rfl

theorem step_of_illegal {s : Progress} {before : List Token} {t : Token} {kind : FaultKind}
    (hplace : Place.first.after? (before.map Token.symbol) = some s.place) (hkeeps : s.Keeps before)
    (hill : Illegal (before.map Token.symbol) t.symbol kind) :
    ∃ cause, s.step t = .error (.fault ⟨cause, t.position⟩) ∧ cause.kind = kind ∧
      (kind = .unclosedParen →
        ∃ opened, InnermostOpen before opened ∧ cause = .neverClosed opened.position) := by
  obtain ⟨symbol, position⟩ := t
  have hdepth := Place.depth_of_after hplace
  simp only at hill
  cases hill with
  | @notASign op hdue hsign =>
    have hwants : s.wantsOperand = true := Place.wantsOperand_of_operandDue hplace hdue
    refine ⟨.notASign op, ?_, rfl, by simp⟩
    simp [step, hwants, operandStep, hsign]
  | noOperand hdue hforeign =>
    have hwants : s.wantsOperand = true := Place.wantsOperand_of_operandDue hplace hdue
    refine ⟨.unexpected .operand symbol, ?_, rfl, by simp⟩
    rcases hforeign with rfl | rfl | ⟨text, rfl⟩ <;> simp [step, hwants, operandStep]
  | noOperator hdue hforeign =>
    have hwants : s.wantsOperand = false := Place.wantsOperand_of_operatorDue hplace hdue
    refine ⟨.unexpected .afterOperand symbol, ?_, rfl, by simp⟩
    rcases hforeign with rfl | ⟨value, rfl⟩ | ⟨text, rfl⟩ <;>
      simp [step, hwants, operatorStep]
  | neverOpened hdue hcount =>
    have hwants : s.wantsOperand = false := Place.wantsOperand_of_operatorDue hplace hdue
    have hzero : s.depth = 0 := by simpa [place, hcount] using hdepth
    refine ⟨.neverOpened, ?_, rfl, by simp⟩
    simp [step, hwants, operatorStep, hzero]
  | neverClosed hdue hcount =>
    have hwants : s.wantsOperand = false := Place.wantsOperand_of_operatorDue hplace hdue
    have hopen : 0 < s.depth := by
      simp only [place] at hdepth
      omega
    obtain ⟨opened, hinner, hposition⟩ := innermost_of_keeps hkeeps hcount
    refine ⟨.neverClosed opened.position, ?_, rfl, fun _ => ⟨opened, hinner, rfl⟩⟩
    simp [step, hwants, operatorStep, finish, hopen, hposition]

end Progress

/-! ## Whole sources -/

theorem FirstIllegal.exists_of_after {ts b c : List Token} {t : Token} {q : Place}
    (hsplit : ts = b ++ t :: c) (hafter : Place.first.after? (b.map Token.symbol) = some q)
    (hnext : q.next? t.symbol = none) (hend : t.symbol = .endOfInput → q ≠ .last) :
    ∃ kind, FirstIllegal ts b t kind := by
  obtain ⟨kind, hill⟩ := Place.exists_illegal hafter hnext hend
  refine ⟨kind, ⟨c, hsplit⟩, hill, fun b' t' c' heq => ?_⟩
  apply Place.not_illegal_of_after hafter (c := c'.map Token.symbol)
  rw [heq, List.map_append, List.map_cons]

theorem FirstIllegal.exists_after {ts before : List Token} {t : Token} {kind : FaultKind}
    (h : FirstIllegal ts before t kind) (hend : ∀ t' ∈ before, t'.symbol ≠ .endOfInput) :
    ∃ q, Place.first.after? (before.map Token.symbol) = some q := by
  apply Place.exists_after
  · simpa using hend
  · intro b x c heq kind'
    obtain ⟨b', rest, hbefore, rfl, hrest⟩ := List.map_eq_append_iff.mp heq
    obtain ⟨t', c', rfl, rfl, -⟩ := List.map_eq_cons_iff.mp hrest
    exact h.legal b' t' c' hbefore kind'

theorem Cursor.Drained.WellEnded.symbol_ne_of_split {d : Cursor.Drained} (hd : d.WellEnded)
    {b c : List Token} {t : Token} (hsplit : d.tokens = b ++ t :: c) :
    ∀ t' ∈ b, t'.symbol ≠ .endOfInput := by
  intro t' ht'
  obtain ⟨i, hi, rfl⟩ := List.getElem_of_mem ht'
  apply hd.symbol_ne_of_lt (i := i)
  · rw [hsplit, List.getElem?_append_left hi, List.getElem?_eq_getElem hi]
  · rw [hsplit, List.length_append, List.length_cons]
    omega

theorem parse_of_firstIllegal {decimals : Bool} {source : String} {ts before : List Token}
    {t : Token} {kind : FaultKind} (htokens : tokenize decimals source = .ok ts)
    (h : FirstIllegal ts before t kind) :
    ∃ cause, parse decimals source = .error (.fault ⟨cause, t.position⟩) ∧ cause.kind = kind ∧
      (kind = .unclosedParen →
        ∃ opened, InnermostOpen before opened ∧ cause = .neverClosed opened.position) := by
  obtain ⟨-, rfl⟩ := tokenize_eq_ok_iff.mp htokens
  obtain ⟨c, hsplit⟩ := h.split
  have hend := (wellEnded_scan decimals source).symbol_ne_of_split hsplit
  obtain ⟨q, hafter⟩ := h.exists_after hend
  obtain ⟨s, hread, rfl, -⟩ := Progress.read_of_after Progress.builds_initial hafter
  have hkeeps : s.Keeps before := by simpa using Progress.keeps_initial.read hread
  obtain ⟨cause, hstep, hkind, hinner⟩ := Progress.step_of_illegal hafter hkeeps h.illegal
  have houtcome := outcome_parse decimals source
  rw [hsplit, Progress.read_append hread, Progress.read_cons_of_failure hstep] at houtcome
  exact ⟨cause, houtcome.unique (.failed _ _), hkind, hinner⟩

theorem exists_firstIllegal {decimals : Bool} {source : String} {ts : List Token} {failure : Failure}
    (htokens : tokenize decimals source = .ok ts) (h : parse decimals source = .error failure) :
    ∃ before t kind, FirstIllegal ts before t kind := by
  obtain ⟨hnone, rfl⟩ := tokenize_eq_ok_iff.mp htokens
  have hd := wellEnded_scan decimals source
  have hverdict := verdict_parse decimals source
  rw [h] at hverdict
  cases hverdict with
  | @deadEnd b c t q cause hlexemes hb hnext =>
    have hmem : t ∈ (scan decimals source).lexemes := by simp [hlexemes]
    obtain ⟨rest, hrest⟩ := hd.tokens_eq
    have hsplit : (scan decimals source).tokens = b ++ t :: (c ++ rest) := by simp [hrest, hlexemes]
    exact ⟨b, t, FirstIllegal.exists_of_after hsplit hb hnext
      (absurd · (Cursor.Drained.symbol_ne_of_mem_lexemes hmem))⟩
  | cut _ hfault _ => simp [hnone] at hfault
  | @tooShort q last cause hafter hplace _ hsplit hend =>
    have hnext : q.next? last.symbol = none := by rw [hend, Place.next?_endOfInput]
    exact ⟨_, last, FirstIllegal.exists_of_after hsplit hafter hnext fun _ => hplace⟩

/-- A source that can be scanned is refused just when one of its tokens is illegal where it stands. What
is reported is the place of the first such token and the kind that belongs to it; where the input ends
too early, the description names the place of the innermost parenthesis that is left open. -/
theorem parse_fails_at_first_illegal {decimals : Bool} {source : String} {ts : List Token}
    (htokens : tokenize decimals source = .ok ts) :
    ((∃ failure, parse decimals source = .error failure) ↔
      ∃ before t kind, FirstIllegal ts before t kind) ∧
    ∀ before t kind, FirstIllegal ts before t kind →
      ∃ fault, parse decimals source = .error (.fault fault) ∧
        fault.diagnostic.position = t.position ∧ fault.diagnostic.kind = kind ∧
        (kind = .unclosedParen → ∃ opened, (∀ o, InnermostOpen before o ↔ o = opened) ∧
          fault.diagnostic.description =
            "'(' opened at " ++ opened.position.text ++ " is never closed") := by
  refine ⟨⟨?_, ?_⟩, ?_⟩
  · rintro ⟨failure, h⟩
    exact exists_firstIllegal htokens h
  · rintro ⟨before, t, kind, h⟩
    obtain ⟨cause, hparse, -⟩ := parse_of_firstIllegal htokens h
    exact ⟨_, hparse⟩
  · intro before t kind h
    obtain ⟨cause, hparse, hkind, hinner⟩ := parse_of_firstIllegal htokens h
    refine ⟨⟨cause, t.position⟩, hparse, rfl, hkind, fun hunclosed => ?_⟩
    obtain ⟨opened, hopened, rfl⟩ := hinner hunclosed
    refine ⟨opened, fun o => ⟨fun ho => ho.unique hopened, ?_⟩, rfl⟩
    rintro rfl
    exact hopened

/-- Of the three parentheses that open here the first is closed and the last is innermost. -/
theorem parse_fails_at_first_illegal_unclosed :
    ∃ fault, parse false "(1)+((2" = .error (.fault fault) ∧ fault.diagnostic.position = ⟨1, 8⟩ ∧
      fault.diagnostic.kind = .unclosedParen ∧
      fault.diagnostic.description = "'(' opened at line 1, column 6 is never closed" := by
  let inner : Token := ⟨.openParen, ⟨1, 6⟩⟩
  let front : List Token := [⟨.openParen, ⟨1, 1⟩⟩, ⟨.number (.int 1), ⟨1, 2⟩⟩,
    ⟨.closeParen, ⟨1, 3⟩⟩, ⟨.operator .add, ⟨1, 4⟩⟩, ⟨.openParen, ⟨1, 5⟩⟩]
  let before : List Token := front ++ inner :: [⟨.number (.int 2), ⟨1, 7⟩⟩]
  let last : Token := ⟨.endOfInput, ⟨1, 8⟩⟩
  have htokens : tokenize false "(1)+((2" = .ok (before ++ [last]) := by decide +kernel
  have hafter : Place.first.after? (before.map Token.symbol) = some ⟨2, false⟩ := rfl
  have hill : Illegal (before.map Token.symbol) last.symbol .unclosedParen :=
    .neverClosed ⟨.number (.int 2), rfl, .inr ⟨.int 2, rfl⟩⟩ (by decide)
  have hfirst : FirstIllegal (before ++ [last]) before last .unclosedParen := by
    refine ⟨⟨[], rfl⟩, hill, fun b t c heq => ?_⟩
    apply Place.not_illegal_of_after hafter (c := c.map Token.symbol)
    rw [heq, List.map_append, List.map_cons]
  obtain ⟨fault, hparse, hposition, hkind, hunclosed⟩ :=
    (parse_fails_at_first_illegal htokens).2 before last .unclosedParen hfirst
  obtain ⟨opened, hopened, hdescription⟩ := hunclosed rfl
  have hinner : InnermostOpen before inner :=
    .of_matched rfl (.other (by simp) (by simp) .nil)
  obtain rfl := (hopened inner).mp hinner
  exact ⟨fault, hparse, hposition, hkind, hdescription.trans (by decide +kernel)⟩

end Arith
