import Mathlib.Data.List.Forall2
import Arith.Proofs.Counting
import Arith.Proofs.Earliest

/-!
# Two runs side by side

Tokens may differ in where they stand, and numbers in their value. Two runs over such tokens keep in
step: their stacks differ in nothing else, and they end in trees of one shape or in faults of one kind at
tokens of one index. A layout therefore changes no more than the positions in a report.
-/

namespace Arith

/-! ## What is alike -/

/-- Two outcomes that both fail or both succeed. -/
inductive Agree {ε α : Type} (failure : ε → ε → Prop) (value : α → α → Prop) :
    Except ε α → Except ε α → Prop where
  | error {e e' : ε} : failure e e' → Agree failure value (.error e) (.error e')
  | ok {a a' : α} : value a a' → Agree failure value (.ok a) (.ok a')

theorem Agree.outcomes {ε α : Type} {failure : ε → ε → Prop} {value : α → α → Prop}
    {result result' : Except ε α} (h : Agree failure value result result') :
    (∃ e e', result = .error e ∧ result' = .error e' ∧ failure e e') ∨
      ∃ a a', result = .ok a ∧ result' = .ok a' ∧ value a a' := by
  cases h with
  | error he => exact .inl ⟨_, _, rfl, rfl, he⟩
  | ok ha => exact .inr ⟨_, _, rfl, rfl, ha⟩

section
variable (value : Literal → Literal → Prop) (place : Position → Position → Prop)

inductive Symbol.Like : Symbol → Symbol → Prop where
  | number {v v' : Literal} : value v v' → Like (.number v) (.number v')
  | name (text : String) : Like (.name text) (.name text)
  | openParen : Like .openParen .openParen
  | closeParen : Like .closeParen .closeParen
  | operator (op : Op) : Like (.operator op) (.operator op)
  | endOfInput : Like .endOfInput .endOfInput

inductive Token.Like : Token → Token → Prop where
  | mk {x x' : Symbol} {p p' : Position} : x.Like value x' → place p p' → Like ⟨x, p⟩ ⟨x', p'⟩

inductive Expr.Like : Expr → Expr → Prop where
  | number {v v' : Literal} : value v v' → Like (.number v) (.number v')
  | unary (op : Op) {e e' : Expr} : Like e e' → Like (.unary op e) (.unary op e')
  | binary (op : Op) {l l' r r' : Expr} : Like l l' → Like r r' →
    Like (.binary op l r) (.binary op l' r')

/-- Causes that name the same things. Two characters that belong to no token need not be the same. -/
inductive Cause.Like : Cause → Cause → Prop where
  | foreignCharacter (c c' : Char) : Like (.foreignCharacter c) (.foreignCharacter c')
  | notASign (op : Op) : Like (.notASign op) (.notASign op)
  | unexpected (wanted : Expectation) {x x' : Symbol} : x.Like value x' →
    Like (.unexpected wanted x) (.unexpected wanted x')
  | neverClosed {p p' : Position} : place p p' → Like (.neverClosed p) (.neverClosed p')
  | neverOpened : Like .neverOpened .neverOpened
  | lacksOperand (op : Op) : Like (.lacksOperand op) (.lacksOperand op)

inductive Fault.Like : Fault → Fault → Prop where
  | mk {cause cause' : Cause} {p p' : Position} : cause.Like value place cause' → place p p' →
    Like ⟨cause, p⟩ ⟨cause', p'⟩

inductive Failure.Like : Failure → Failure → Prop where
  | fault {fault fault' : Fault} : fault.Like value place fault' → Like (.fault fault) (.fault fault')
  | defect (defect : Defect) : Like (.defect defect) (.defect defect)

inductive PendingOp.Like : PendingOp → PendingOp → Prop where
  | mk (stance : Stance) (op : Op) {p p' : Position} : place p p' →
    Like ⟨stance, op, p⟩ ⟨stance, op, p'⟩

inductive Pending.Like : Pending → Pending → Prop where
  | operator {entry entry' : PendingOp} : entry.Like place entry' →
    Like (.operator entry) (.operator entry')
  | group {p p' : Position} : place p p' → Like (.group p) (.group p')

inductive Pending.Settled.Like : Pending.Settled → Pending.Settled → Prop where
  | mk {fault? fault?' : Option Fault} {operands operands' : List Expr} {pending pending' : List Pending} :
    Option.Rel (Fault.Like value place) fault? fault?' →
    List.Forall₂ (Expr.Like value) operands operands' →
    List.Forall₂ (Pending.Like place) pending pending' →
    Like ⟨fault?, operands, pending⟩ ⟨fault?', operands', pending'⟩

inductive Progress.Like : Progress → Progress → Prop where
  | mk {operands operands' : List Expr} {pending pending' : List Pending} (depth : Nat)
    (wantsOperand : Bool) : List.Forall₂ (Expr.Like value) operands operands' →
    List.Forall₂ (Pending.Like place) pending pending' →
    Like ⟨operands, pending, depth, wantsOperand⟩ ⟨operands', pending', depth, wantsOperand⟩

inductive Step.Like : Step → Step → Prop where
  | more {s s' : Progress} : s.Like value place s' → Like (.more s) (.more s')
  | done {e e' : Expr} : e.Like value e' → Like (.done e) (.done e')

end

section
variable {value : Literal → Literal → Prop} {place : Position → Position → Prop}

theorem Token.like_refl (hvalue : ∀ v, value v v) (hplace : ∀ p, place p p) (t : Token) :
    t.Like value place t := by
  obtain ⟨symbol, position⟩ := t
  refine .mk ?_ (hplace position)
  cases symbol with
  | number v => exact .number (hvalue v)
  | name text => exact .name text
  | openParen => exact .openParen
  | closeParen => exact .closeParen
  | operator op => exact .operator op
  | endOfInput => exact .endOfInput

theorem Expr.Like.eq {e e' : Expr} (hvalue : ∀ v v', value v v' → v = v') (h : e.Like value e') :
    e = e' := by
  induction h with
  | number hv => rw [hvalue _ _ hv]
  | unary op _ ih => rw [ih]
  | binary op _ _ ihl ihr => rw [ihl, ihr]

theorem Cause.Like.kind_eq {cause cause' : Cause} (h : cause.Like value place cause') :
    cause.kind = cause'.kind := by
  cases h <;> rfl

/-! ## The two stacks -/

variable {operands operands' : List Expr} {pending pending' : List Pending}

theorem PendingOp.Like.attach {entry entry' : PendingOp} (h : entry.Like place entry')
    (hoperands : List.Forall₂ (Expr.Like value) operands operands') :
    Agree (Fault.Like value place) (List.Forall₂ (Expr.Like value)) (entry.attach operands)
      (entry'.attach operands') := by
  cases h with
  | mk stance op hplace =>
    cases stance with
    | sign =>
      cases hoperands with
      | nil => exact .error (.mk (.lacksOperand op) hplace)
      | cons hoperand hrest => exact .ok (.cons (.unary op hoperand) hrest)
    | between =>
      cases hoperands with
      | nil => exact .error (.mk (.lacksOperand op) hplace)
      | cons hright hrest =>
        cases hrest with
        | nil => exact .error (.mk (.lacksOperand op) hplace)
        | cons hleft hrest => exact .ok (.cons (.binary op hleft hright) hrest)

namespace Pending

theorem Like.yieldsTo_eq {top top' : Pending} {incoming incoming' : PendingOp} (h : top.Like place top')
    (hincoming : incoming.Like place incoming') : top.yieldsTo incoming = top'.yieldsTo incoming' := by
  cases h with
  | group _ => rfl
  | operator hentry =>
    cases hentry
    cases hincoming
    rfl

theorem makeRoom_like {incoming incoming' : PendingOp} (hincoming : incoming.Like place incoming')
    (hoperands : List.Forall₂ (Expr.Like value) operands operands')
    (hpending : List.Forall₂ (Like place) pending pending') :
    Agree (Fault.Like value place) (fun room room' =>
        List.Forall₂ (Expr.Like value) room.1 room'.1 ∧ List.Forall₂ (Like place) room.2 room'.2)
      (makeRoom incoming operands pending) (makeRoom incoming' operands' pending') := by
  induction hpending generalizing operands operands' with
  | nil => exact .ok ⟨hoperands, .nil⟩
  | cons htop hrest ih =>
    cases htop with
    | group hplace => exact .ok ⟨hoperands, .cons (.group hplace) hrest⟩
    | operator hentry =>
      rw [makeRoom, makeRoom, (Like.operator hentry).yieldsTo_eq hincoming]
      split
      · obtain ⟨_, _, heq, heq', hfault⟩ | ⟨_, _, heq, heq', hattached⟩ :=
          (hentry.attach hoperands).outcomes
        · rw [heq, heq']
          exact .error hfault
        · rw [heq, heq']
          exact ih hattached
      · exact .ok ⟨hoperands, .cons (.operator hentry) hrest⟩

theorem closeGroup_like {p p' : Position} (hplace : place p p')
    (hoperands : List.Forall₂ (Expr.Like value) operands operands')
    (hpending : List.Forall₂ (Like place) pending pending') :
    (closeGroup p operands pending).Like value place (closeGroup p' operands' pending') := by
  induction hpending generalizing operands operands' with
  | nil => exact .mk (.some (.mk .neverOpened hplace)) hoperands .nil
  | cons htop hrest ih =>
    cases htop with
    | group _ => exact .mk .none hoperands hrest
    | operator hentry =>
      rw [closeGroup, closeGroup]
      obtain ⟨_, _, heq, heq', hfault⟩ | ⟨_, _, heq, heq', hattached⟩ :=
        (hentry.attach hoperands).outcomes
      · rw [heq, heq']
        exact .mk (.some hfault) hoperands hrest
      · rw [heq, heq']
        exact ih hattached

theorem attachAll_like (hoperands : List.Forall₂ (Expr.Like value) operands operands')
    (hpending : List.Forall₂ (Like place) pending pending') :
    Agree (Failure.Like value place) (List.Forall₂ (Expr.Like value)) (attachAll operands pending)
      (attachAll operands' pending') := by
  induction hpending generalizing operands operands' with
  | nil => exact .ok hoperands
  | cons htop hrest ih =>
    cases htop with
    | group _ => exact .error (.defect .openGroup)
    | operator hentry =>
      rw [attachAll, attachAll]
      obtain ⟨_, _, heq, heq', hfault⟩ | ⟨_, _, heq, heq', hattached⟩ :=
        (hentry.attach hoperands).outcomes
      · rw [heq, heq']
        exact .error (.fault hfault)
      · rw [heq, heq']
        exact ih hattached

theorem innermost?_like (hpending : List.Forall₂ (Like place) pending pending') :
    Option.Rel place (innermost? pending) (innermost? pending') := by
  induction hpending with
  | nil => exact .none
  | cons htop _ ih =>
    cases htop with
    | group hplace => exact .some hplace
    | operator _ => exact ih

end Pending

/-! ## Steps -/

namespace Progress.Like

variable {s s' : Progress} {t t' : Token}

theorem operandStep (h : s.Like value place s') (ht : t.Like value place t') :
    Agree (Failure.Like value place) (Step.Like value place) (s.operandStep t) (s'.operandStep t') := by
  cases h with
  | mk depth wantsOperand hoperands hpending =>
    cases ht with
    | mk hsymbol hplace =>
      cases hsymbol with
      | number hv => exact .ok (.more (.mk depth false (.cons (.number hv) hoperands) hpending))
      | openParen =>
        exact .ok (.more (.mk (depth + 1) wantsOperand hoperands (.cons (.group hplace) hpending)))
      | operator op =>
        unfold Progress.operandStep
        simp only
        split
        · exact .ok (.more (.mk depth wantsOperand hoperands
            (.cons (.operator (.mk .sign op hplace)) hpending)))
        · exact .error (.fault (.mk (.notASign op) hplace))
      | name text => exact .error (.fault (.mk (.unexpected .operand (.name text)) hplace))
      | closeParen => exact .error (.fault (.mk (.unexpected .operand .closeParen) hplace))
      | endOfInput => exact .error (.fault (.mk (.unexpected .operand .endOfInput) hplace))

theorem finish (h : s.Like value place s') (ht : t.Like value place t') :
    Agree (Failure.Like value place) (Step.Like value place) (s.finish t) (s'.finish t') := by
  cases h with
  | mk depth wantsOperand hoperands hpending =>
    cases ht with
    | mk hsymbol hplace =>
      unfold Progress.finish
      simp only
      split
      · have hopened := Pending.innermost?_like hpending
        revert hopened
        generalize Pending.innermost? _ = opened, Pending.innermost? _ = opened'
        rintro (hopened | _)
        · exact .error (.fault (.mk (.neverClosed hopened) hplace))
        · exact .error (.defect .missingGroup)
      · obtain ⟨_, _, heq, heq', hfailure⟩ | ⟨_, _, heq, heq', htrees⟩ :=
          (Pending.attachAll_like hoperands hpending).outcomes
        · rw [heq, heq']
          exact .error hfailure
        · rw [heq, heq']
          cases htrees with
          | nil => exact .error (.fault (.mk (.unexpected .wholeExpression hsymbol) hplace))
          | cons htree hrest =>
            cases hrest with
            | nil => exact .ok (.done htree)
            | cons _ _ => exact .error (.fault (.mk (.unexpected .wholeExpression hsymbol) hplace))

theorem operatorStep (h : s.Like value place s') (ht : t.Like value place t') :
    Agree (Failure.Like value place) (Step.Like value place) (s.operatorStep t)
      (s'.operatorStep t') := by
  have hfinish := h.finish ht
  cases h with
  | mk depth wantsOperand hoperands hpending =>
    cases ht with
    | mk hsymbol hplace =>
      cases hsymbol with
      | operator op =>
        unfold Progress.operatorStep
        simp only
        have hincoming := PendingOp.Like.mk .between op hplace
        obtain ⟨_, _, heq, heq', hfault⟩ | ⟨_, _, heq, heq', hroom⟩ :=
          (Pending.makeRoom_like hincoming hoperands hpending).outcomes
        · rw [heq, heq']
          exact .error (.fault hfault)
        · rw [heq, heq']
          exact .ok (.more (.mk depth true hroom.1 (.cons (.operator hincoming) hroom.2)))
      | closeParen =>
        unfold Progress.operatorStep
        simp only
        split
        · exact .error (.fault (.mk .neverOpened hplace))
        · have hsettled := Pending.closeGroup_like hplace hoperands hpending
          revert hsettled
          generalize Pending.closeGroup _ _ _ = settled, Pending.closeGroup _ _ _ = settled'
          rintro ⟨hfault | _, hoperands, hpending⟩
          · exact .error (.fault hfault)
          · exact .ok (.more (.mk (depth - 1) wantsOperand hoperands hpending))
      | endOfInput => exact hfinish
      | number hv => exact .error (.fault (.mk (.unexpected .afterOperand (.number hv)) hplace))
      | name text => exact .error (.fault (.mk (.unexpected .afterOperand (.name text)) hplace))
      | openParen => exact .error (.fault (.mk (.unexpected .afterOperand .openParen) hplace))

theorem step (h : s.Like value place s') (ht : t.Like value place t') :
    Agree (Failure.Like value place) (Step.Like value place) (s.step t) (s'.step t') := by
  have hwants : s.wantsOperand = s'.wantsOperand := by
    cases h
    rfl
  unfold Progress.step
  rw [hwants]
  split
  · exact h.operandStep ht
  · exact h.operatorStep ht

theorem initial : Progress.initial.Like value place Progress.initial := .mk 0 true .nil .nil

theorem read {ts ts' : List Token} (h : s.Like value place s')
    (hts : List.Forall₂ (Token.Like value place) ts ts') :
    Agree (Failure.Like value place) (Step.Like value place) (s.read ts) (s'.read ts') := by
  induction hts generalizing s s' with
  | nil => exact .ok (.more h)
  | cons ht _ ih =>
    unfold Progress.read
    obtain ⟨_, _, heq, heq', hfailure⟩ | ⟨_, _, heq, heq', hstep⟩ := (h.step ht).outcomes
    · rw [heq, heq']
      exact .error hfailure
    · rw [heq, heq']
      cases hstep with
      | more hs => exact ih hs
      | done htree => exact .ok (.done htree)

end Progress.Like

/-! ## Whole sources -/

theorem Cause.eq_foreignCharacter {cause : Cause} (h : cause.kind.stage = .scanning) :
    ∃ c, cause = .foreignCharacter c := by
  cases cause with
  | foreignCharacter c => exact ⟨c, rfl⟩
  | _ => cases h

namespace Cursor.Drained

/-- Where the tokens stand, the end of input among them, and behind them the character that belongs to
no token if there is one. -/
def places (d : Drained) : List Position :=
  d.tokens.map Token.position ++ d.fault?.toList.map Fault.position

/-- Two positions with one index. -/
def SamePlace (d d' : Drained) (p p' : Position) : Prop :=
  ∃ i : Nat, d.places[i]? = some p ∧ d'.places[i]? = some p'

variable {d d' : Drained}

theorem getElem?_places {i : Nat} {t : Token} (h : d.tokens[i]? = some t) :
    d.places[i]? = some t.position := by
  unfold places
  rw [List.getElem?_append_left (by simpa using (List.getElem?_eq_some_iff.mp h).1)]
  simp [h]

theorem samePlace_of_token {i : Nat} {t t' : Token} (h : d.tokens[i]? = some t)
    (h' : d'.tokens[i]? = some t') : d.SamePlace d' t.position t'.position :=
  ⟨i, getElem?_places h, getElem?_places h'⟩

theorem samePlace_of_fault {fault fault' : Fault} (h : d.fault? = some fault)
    (h' : d'.fault? = some fault') (hlength : d.tokens.length = d'.tokens.length) :
    d.SamePlace d' fault.position fault'.position := by
  refine ⟨d.tokens.length, ?_, ?_⟩
  · simp [places, h]
  · simp [places, h', hlength]

theorem WellEnded.symbols_like (hd : d.WellEnded) (hd' : d'.WellEnded)
    (hsymbols : List.Forall₂ (Symbol.Like value) (d.lexemes.map Token.symbol)
      (d'.lexemes.map Token.symbol)) (hstop : d.fault? = none ↔ d'.fault? = none) :
    List.Forall₂ (Symbol.Like value) (d.tokens.map Token.symbol) (d'.tokens.map Token.symbol) := by
  cases hfault : d.fault? with
  | some fault =>
    cases hfault' : d'.fault? with
    | none => simp [hfault, hfault'] at hstop
    | some fault' =>
      unfold WellEnded at hd hd'
      rw [hfault] at hd
      rw [hfault'] at hd'
      rw [hd.1, hd'.1]
      exact hsymbols
  | none =>
    obtain ⟨last, htokens, hend⟩ := hd.last_of_no_fault hfault
    obtain ⟨last', htokens', hend'⟩ := hd'.last_of_no_fault (hstop.mp hfault)
    rw [htokens, htokens', List.map_append, List.map_append]
    apply List.rel_append hsymbols
    simp only [List.map_cons, List.map_nil, hend, hend']
    exact .cons .endOfInput .nil

theorem tokens_like
    (h : List.Forall₂ (Symbol.Like value) (d.tokens.map Token.symbol) (d'.tokens.map Token.symbol)) :
    List.Forall₂ (Token.Like value (d.SamePlace d')) d.tokens d'.tokens := by
  rw [List.forall₂_map_left_iff, List.forall₂_map_right_iff, List.forall₂_iff_zip] at h
  rw [List.forall₂_iff_zip]
  obtain ⟨hlength, hsymbol⟩ := h
  refine ⟨hlength, fun {t t'} hmem => ?_⟩
  obtain ⟨i, hi⟩ := List.getElem?_of_mem hmem
  rw [List.getElem?_zip_eq_some] at hi
  exact .mk (hsymbol hmem) (samePlace_of_token hi.1 hi.2)

theorem WellEnded.fault_like (hd : d.WellEnded) (hd' : d'.WellEnded)
    (hlength : d.tokens.length = d'.tokens.length) {fault fault' : Fault}
    (h : d.fault? = some fault) (h' : d'.fault? = some fault') :
    fault.Like value (d.SamePlace d') fault' := by
  have hplace := samePlace_of_fault h h' hlength
  unfold WellEnded at hd hd'
  rw [h] at hd
  rw [h'] at hd'
  obtain ⟨c, hc⟩ := Cause.eq_foreignCharacter hd.2
  obtain ⟨c', hc'⟩ := Cause.eq_foreignCharacter hd'.2
  obtain ⟨cause, p⟩ := fault
  obtain ⟨cause', p'⟩ := fault'
  subst hc hc'
  exact .mk (.foreignCharacter c c') hplace

end Cursor.Drained

theorem Parser.Outcome.like {read read' : Except Failure Step} {fault? fault?' : Option Fault}
    {result result' : Except Failure Expr} (h : Outcome read fault? result)
    (h' : Outcome read' fault?' result')
    (hread : Agree (Failure.Like value place) (Step.Like value place) read read')
    (hfault : ∀ fault fault', fault? = some fault → fault?' = some fault' →
      fault.Like value place fault') :
    Agree (Failure.Like value place) (Expr.Like value) result result' := by
  cases hread with
  | error hfailure =>
    cases h
    cases h'
    exact .error hfailure
  | ok hstep =>
    cases hstep with
    | more hs =>
      cases h
      cases h'
      exact .error (.fault (hfault _ _ rfl rfl))
    | done htree =>
      cases h
      cases h'
      exact .ok htree

end

/-- What `parse` makes of a source depends on the symbols and on nothing else about it. Let two sources
have symbols that are the same up to a relation of values, and stop alike, at the end of input or at a
character that belongs to no token. Then both have trees, the same ones up to that relation, or both fail
for one kind of cause at the same index. The causes then differ in no more than a position, or are the
two characters at which the sources stop. -/
theorem parse_ignores_positions {value : Literal → Literal → Prop} {decimals decimals' : Bool}
    {source source' : String}
    (hsymbols : List.Forall₂ (Symbol.Like value) ((lexemes decimals source).map Token.symbol)
      ((lexemes decimals' source').map Token.symbol))
    (hstop : (∃ ts, tokenize decimals source = .ok ts) ↔ ∃ ts, tokenize decimals' source' = .ok ts) :
    (∃ e e', parse decimals source = .ok e ∧ parse decimals' source' = .ok e' ∧ e.Like value e' ∧
      ((∀ v v', value v v' → v = v') → e = e')) ∨
    ∃ fault fault' : Fault, parse decimals source = .error (.fault fault) ∧
      parse decimals' source' = .error (.fault fault') ∧ fault.cause.kind = fault'.cause.kind ∧
      fault.cause.Like value ((scan decimals source).SamePlace (scan decimals' source')) fault'.cause ∧
      (fault.cause.kind.stage = .scanning →
        tokenize decimals source = .error fault ∧ tokenize decimals' source' = .error fault') ∧
      ∃ i : Nat, (scan decimals source).places[i]? = some fault.position ∧
        (scan decimals' source').places[i]? = some fault'.position := by
  have hd := wellEnded_scan decimals source
  have hd' := wellEnded_scan decimals' source'
  have hfaults : (scan decimals source).fault? = none ↔ (scan decimals' source').fault? = none := by
    simpa [tokenize_eq_ok_iff] using hstop
  have htokens := Cursor.Drained.tokens_like (hd.symbols_like hd' hsymbols hfaults)
  have hread := Progress.Like.initial.read htokens
  have hresult := (outcome_parse decimals source).like (outcome_parse decimals' source') hread
    fun _ _ => hd.fault_like hd' htokens.length_eq
  obtain ⟨_, _, heq, heq', hfailure⟩ | ⟨e, e', heq, heq', htree⟩ := hresult.outcomes
  · cases hfailure with
    | defect defect =>
      obtain ⟨fault, hdefect, -⟩ := parse_not_guarded heq
      cases hdefect
    | fault hfault =>
      cases hfault with
      | mk hcause hplace =>
        refine .inr ⟨_, _, heq, heq', hcause.kind_eq, hcause, fun hstage => ?_, hplace⟩
        exact ⟨tokenize_of_parse_fault heq hstage,
          tokenize_of_parse_fault heq' (hcause.kind_eq ▸ hstage)⟩
  · exact .inl ⟨e, e', heq, heq', htree, fun hvalue => htree.eq hvalue⟩

/-- Two layouts of a sentence that breaks off, its numbers written with a point in one of them. -/
theorem parse_ignores_positions_unclosed :
    List.Forall₂ (Symbol.Like fun v v' => v.toDouble = v'.toDouble)
        ((lexemes false "2*(7").map Token.symbol) ((lexemes true "2.0\n* ( 007").map Token.symbol) ∧
      ((∃ ts, tokenize false "2*(7" = .ok ts) ↔ ∃ ts, tokenize true "2.0\n* ( 007" = .ok ts) ∧
      ∃ fault fault' : Fault, parse false "2*(7" = .error (.fault fault) ∧
        parse true "2.0\n* ( 007" = .error (.fault fault') ∧ fault.cause.kind = fault'.cause.kind ∧
        ∃ i : Nat, (scan false "2*(7").places[i]? = some fault.position ∧
          (scan true "2.0\n* ( 007").places[i]? = some fault'.position := by
  have hleft : (lexemes false "2*(7").map Token.symbol =
      [.number (.int 2), .operator .mul, .openParen, .number (.int 7)] := by decide +kernel
  have hright : (lexemes true "2.0\n* ( 007").map Token.symbol =
      [.number (.real (.ofDecimal 20 1)), .operator .mul, .openParen, .number (.int 7)] := by
    decide +kernel
  have hvalue : (Literal.int 2).toDouble = (Literal.real (.ofDecimal 20 1)).toDouble := by
    decide +kernel
  have hsymbols : List.Forall₂ (Symbol.Like fun v v' => v.toDouble = v'.toDouble)
      ((lexemes false "2*(7").map Token.symbol) ((lexemes true "2.0\n* ( 007").map Token.symbol) := by
    rw [hleft, hright]
    exact .cons (.number hvalue) (.cons (.operator .mul) (.cons .openParen (.cons (.number rfl) .nil)))
  have hstop : (∃ ts, tokenize false "2*(7" = .ok ts) ↔
      ∃ ts, tokenize true "2.0\n* ( 007" = .ok ts := by
    simp only [tokenize_eq_ok_iff, exists_and_left, exists_eq', and_true]
    decide +kernel
  have hnone : (parse false "2*(7").toOption.isSome = false := by decide +kernel
  refine ⟨hsymbols, hstop, ?_⟩
  obtain ⟨e, _, heq, -⟩ | ⟨fault, fault', heq, heq', hkind, -, -, hplace⟩ :=
    parse_ignores_positions hsymbols hstop
  · rw [heq] at hnone
    cases hnone
  · exact ⟨fault, fault', heq, heq', hkind, hplace⟩

end Arith
