import Arith.Proofs.Counting
import Arith.Proofs.Positions
import Arith.Proofs.Spelling

/-!
# Calls on a parser

A parser may be asked for the next token or for a whole expression, in any order and as often as one
likes, also after it has failed. It then is a finger on the list of its tokens that only moves forward:
each call moves it as the tokens and the fault behind them say, and nothing else is remembered.
-/

namespace Arith

/-! ## The same fault again -/

namespace Cursor

theorem not_blank_of_skipFrom (cs : List Char) (pos line lineStart : Nat) :
    ∀ first ∈ (skipFrom cs pos line lineStart).rest.head?, isBlank first = false := by
  induction cs generalizing pos line lineStart with
  | nil => simp [skipFrom]
  | cons c cs ih =>
    unfold skipFrom
    split
    · exact ih _ _ _
    · split
      · exact ih _ _ _
      · rename_i hblank
        simpa using hblank

theorem skipBlanks_skipBlanks (c : Cursor) : c.skipBlanks.skipBlanks = c.skipBlanks :=
  skipBlanks_of_not_blank (not_blank_of_skipFrom _ _ _ _)

theorem next_of_fault {decimals : Bool} {c after : Cursor} {fault : Fault}
    (h : c.next decimals = (.error fault, after)) :
    after.next decimals = (.error fault, after) := by
  have hafter : after = c.skipBlanks := by
    cases finds h
    rfl
  have hagain : c.skipBlanks.next decimals = c.next decimals := by
    unfold next
    rw [skipBlanks_skipBlanks]
  rw [hafter, hagain, h, hafter]

end Cursor

namespace Parser

variable {q q' : Parser} {fault : Fault}

theorem advance_of_end (h : q.current.symbol = .endOfInput) : q.advance = (.ok q.current, q) := by
  unfold advance
  rw [if_pos h]

theorem advance_of_fault (h : q.advance = (.error fault, q')) :
    q'.current = q.current ∧ q'.ahead = q.ahead ∧ q'.advance = (.error fault, q') := by
  cases advances h with
  | blocked hend hnext =>
    have hagain := Cursor.next_of_fault hnext
    refine ⟨rfl, ?_, ?_⟩
    · simp only [ahead, if_neg hend, Cursor.drain_of_fault hnext, Cursor.drain_of_fault hagain]
    · simp only [advance, if_neg hend, hagain]

/-! ## The place of a parser -/

/-- The parser looks at the token with the given index, and has the rest in front of it. -/
def StandsAt (d : Cursor.Drained) (i : Nat) (q : Parser) : Prop :=
  q.ahead = { d with tokens := d.tokens.drop i }

namespace StandsAt

variable {d : Cursor.Drained} {i : Nat}

theorem drop_eq (h : q.StandsAt d i) : d.tokens.drop i = q.ahead.tokens := by
  rw [h]

theorem fault_eq (h : q.StandsAt d i) : d.fault? = q.ahead.fault? := by
  rw [h]

theorem getElem?_eq (h : q.StandsAt d i) : d.tokens[i]? = some q.current := by
  obtain ⟨ts, hts⟩ := q.head_ahead
  have hdrop := h.drop_eq
  rw [hts] at hdrop
  rw [← List.head?_drop, hdrop, List.head?_cons]

theorem drop (h : q.StandsAt d i) (consumed : List Token)
    (hahead : q.ahead = { q'.ahead with tokens := consumed ++ q'.ahead.tokens }) :
    q'.StandsAt d (i + consumed.length) := by
  unfold StandsAt at h ⊢
  rw [h] at hahead
  have htokens := congrArg Cursor.Drained.tokens hahead
  have hfault := congrArg Cursor.Drained.fault? hahead
  have hcursor := congrArg Cursor.Drained.cursor hahead
  simp only at htokens hfault hcursor
  rw [← List.drop_drop, htokens, List.drop_left, hfault, hcursor]

theorem advance (h : q.StandsAt d i) {t : Token} (hadvance : q.advance = (.ok t, q'))
    (hend : q.current.symbol ≠ .endOfInput) : q'.StandsAt d (i + 1) :=
  h.drop [q.current] (ahead_of_advance hadvance hend)

theorem advance_fault (h : q.StandsAt d i) (hadvance : q.advance = (.error fault, q')) :
    q'.StandsAt d i ∧ i + 1 = d.tokens.length ∧ d.fault? = some fault := by
  obtain ⟨htokens, hfault⟩ := ahead_of_fault hadvance
  have hlength := congrArg List.length (h.drop_eq.trans htokens)
  obtain ⟨-, hahead, -⟩ := advance_of_fault hadvance
  refine ⟨hahead.trans h, ?_, h.fault_eq.trans hfault⟩
  simp only [List.length_drop, List.length_singleton] at hlength
  omega

theorem reaches (h : q.StandsAt d i) {s : Progress} {consumed : List Token}
    (hreaches : q.Reaches q' s consumed) : q'.StandsAt d (i + consumed.length) :=
  h.drop consumed hreaches.ahead_eq

end StandsAt

end Parser

/-! ## One call -/

inductive Call where
  | advance
  | parseExpression

inductive Reply where
  | token (t : Token)
  | tree (e : Expr)
  | failed (failure : Failure)

/-- A token that was taken; the end of input is never taken. -/
def Reply.taken? : Reply → Option Token
  | token t => if t.symbol = .endOfInput then none else some t
  | tree _ | failed _ => none

/-- The reply to a call, and the parser behind it. -/
def Parser.answer (p : Parser) : Call → Reply × Parser
  | .advance =>
    match p.advance with
    | (.ok t, p') => (.token t, p')
    | (.error fault, p') => (.failed (.fault fault), p')
  | .parseExpression =>
    match p.parseExpression with
    | (.ok e, p') => (.tree e, p')
    | (.error failure, p') => (.failed failure, p')

/-- How a finger on a list of tokens, which a fault may cut short, moves by a call: the index before,
the call with its reply, and the index behind it. -/
inductive Moves (d : Cursor.Drained) : Nat → Call → Reply → Nat → Prop where
  | taken {i : Nat} {t : Token} : d.tokens[i]? = some t → t.symbol ≠ .endOfInput →
    i + 1 < d.tokens.length → Moves d i .advance (.token t) (i + 1)
  | atEnd {i : Nat} {t : Token} : d.tokens[i]? = some t → t.symbol = .endOfInput →
    Moves d i .advance (.token t) i
  | blocked {i : Nat} {fault : Fault} : i + 1 = d.tokens.length → d.fault? = some fault →
    Moves d i .advance (.failed (.fault fault)) i
  | parsed {i j : Nat} {t : Token} {e : Expr} : i ≤ j → d.tokens[j]? = some t →
    t.symbol = .endOfInput → Moves d i .parseExpression (.tree e) j
  | rejected {i j : Nat} {t : Token} {fault : Fault} : i ≤ j → d.tokens[j]? = some t →
    fault.position = t.position → fault.cause.kind.stage = .parsing →
    Moves d i .parseExpression (.failed (.fault fault)) j
  | cut {i j : Nat} {fault : Fault} : i ≤ j → j + 1 = d.tokens.length → d.fault? = some fault →
    fault.cause.kind.stage = .scanning → Moves d i .parseExpression (.failed (.fault fault)) j

namespace Parser.StandsAt

variable {d : Cursor.Drained} {i : Nat} {q : Parser}

theorem moves_advance (h : q.StandsAt d i) :
    ∃ j, Moves d i .advance (q.answer .advance).1 j ∧ (q.answer .advance).2.StandsAt d j := by
  by_cases hend : q.current.symbol = .endOfInput
  · simp only [answer, advance_of_end hend]
    exact ⟨i, .atEnd h.getElem?_eq hend, h⟩
  · rcases hadvance : q.advance with ⟨fault | t, q'⟩
    · simp only [answer, hadvance]
      obtain ⟨hstands, hlength, hfault⟩ := h.advance_fault hadvance
      exact ⟨i, .blocked hlength hfault, hstands⟩
    · simp only [answer, hadvance]
      have hstands := h.advance hadvance hend
      have hlength := (List.getElem?_eq_some_iff.mp hstands.getElem?_eq).1
      rw [eq_current_of_advance hadvance]
      exact ⟨i + 1, .taken h.getElem?_eq hend hlength, hstands⟩

theorem moves_parseExpression (h : q.StandsAt d i) :
    ∃ j, Moves d i .parseExpression (q.answer .parseExpression).1 j ∧
      (q.answer .parseExpression).2.StandsAt d j := by
  -- The last head of the run is as far from here as tokens were consumed on the way.
  obtain ⟨q', s, consumed, hreaches, hends⟩ := q.exists_last
  have hstands := h.reaches hreaches
  have hle : i ≤ i + consumed.length := Nat.le_add_right _ _
  rcases hparse : q.parseExpression with ⟨failure | e, q''⟩
  · rw [hparse] at hends
    simp only [answer, hparse]
    obtain ⟨fault, rfl, ⟨hstage, hposition, -, rfl⟩ | hadvance⟩ :=
      hends.fault_of_failure hreaches.balanced
    · exact ⟨_, .rejected hle hstands.getElem?_eq hposition hstage, hstands⟩
    · obtain ⟨hstands', hlength, hfault⟩ := hstands.advance_fault hadvance
      exact ⟨_, .cut hle hlength hfault (stage_of_advance hadvance), hstands'⟩
  · rw [hparse] at hends
    simp only [answer, hparse]
    cases hends with
    | done hstep =>
      have hkept := hreaches.balanced.step q'.current
      rw [hstep] at hkept
      exact ⟨_, .parsed hle hstands.getElem?_eq hkept, hstands⟩

theorem moves (h : q.StandsAt d i) (call : Call) :
    ∃ j, Moves d i call (q.answer call).1 j ∧ (q.answer call).2.StandsAt d j := by
  cases call with
  | advance => exact h.moves_advance
  | parseExpression => exact h.moves_parseExpression

end Parser.StandsAt

theorem Moves.le {d : Cursor.Drained} {i j : Nat} {call : Call} {reply : Reply}
    (h : Moves d i call reply j) : i ≤ j := by
  cases h with
  | taken => exact Nat.le_succ i
  | atEnd | blocked => exact Nat.le_refl i
  | parsed hle | rejected hle | cut hle => exact hle

theorem Moves.taken_sublist {d : Cursor.Drained} {i j : Nat} {call : Call} {reply : Reply}
    (h : Moves d i call reply j) :
    (reply.taken?.toList ++ d.tokens.drop j).Sublist (d.tokens.drop i) := by
  have hdrop := List.drop_sublist_drop_left d.tokens h.le
  cases h with
  | taken htoken hend _ =>
    obtain ⟨hlt, rfl⟩ := List.getElem?_eq_some_iff.mp htoken
    rw [Reply.taken?, if_neg hend, List.drop_eq_getElem_cons hlt]
    exact List.Sublist.refl _
  | atEnd _ hend =>
    rw [Reply.taken?, if_pos hend]
    exact hdrop
  | _ => exact hdrop

/-! ## Many calls -/

def Parser.after (p : Parser) : List Call → Parser
  | [] => p
  | call :: calls => (p.answer call).2.after calls

def Parser.trace (p : Parser) : List Call → List (Call × Reply)
  | [] => []
  | call :: calls => (call, (p.answer call).1) :: (p.answer call).2.trace calls

/-- How a finger moves by a list of calls with their replies. -/
inductive Walk (d : Cursor.Drained) : Nat → List (Call × Reply) → Nat → Prop where
  | stop {i : Nat} : Walk d i [] i
  | call {i j k : Nat} {call : Call} {reply : Reply} {trace : List (Call × Reply)} :
    Moves d i call reply j → Walk d j trace k → Walk d i ((call, reply) :: trace) k

theorem Parser.StandsAt.walk {d : Cursor.Drained} {i : Nat} {q : Parser} (h : q.StandsAt d i)
    (calls : List Call) : ∃ j, Walk d i (q.trace calls) j ∧ (q.after calls).StandsAt d j := by
  induction calls generalizing i q with
  | nil => exact ⟨i, .stop, h⟩
  | cons call calls ih =>
    obtain ⟨j, hmoves, hstands⟩ := h.moves call
    obtain ⟨k, hwalk, hstands'⟩ := ih hstands
    exact ⟨k, .call hmoves hwalk, hstands'⟩

/-- The tokens that were taken one by one, in this order. -/
def taken (trace : List (Call × Reply)) : List Token := trace.filterMap fun x => x.2.taken?

namespace Walk

variable {d : Cursor.Drained} {i j : Nat} {trace : List (Call × Reply)}

theorem le (h : Walk d i trace j) : i ≤ j := by
  induction h with
  | stop => exact Nat.le_refl _
  | call hmoves _ ih => exact Nat.le_trans hmoves.le ih

theorem taken_sublist (h : Walk d i trace j) : (taken trace).Sublist (d.tokens.drop i) := by
  induction h with
  | stop => exact List.nil_sublist _
  | @call i j k call reply trace hmoves _ ih =>
    have hcons : taken ((call, reply) :: trace) = reply.taken?.toList ++ taken trace := by
      unfold taken
      rw [List.filterMap_cons]
      cases reply.taken? <;> rfl
    rw [hcons]
    exact (List.Sublist.append_left ih _).trans hmoves.taken_sublist

end Walk

theorem Parser.after_append (p : Parser) (calls more : List Call) :
    p.after (calls ++ more) = (p.after calls).after more := by
  induction calls generalizing p with
  | nil => rfl
  | cons call calls ih => exact ih _

namespace Parser.StandsAt

variable {d d' : Cursor.Drained} {i i' : Nat} {q q' : Parser}

theorem parseExpression_eq (h : q.StandsAt d i) (h' : q'.StandsAt d' i')
    (htokens : d.tokens.drop i = d'.tokens.drop i') (hfault : d.fault? = d'.fault?) :
    q.parseExpression.1 = q'.parseExpression.1 := by
  have houtcome := q.outcome_run Progress.initial
  rw [← h.drop_eq, ← h.fault_eq, htokens, hfault, h'.drop_eq, h'.fault_eq] at houtcome
  exact houtcome.unique (q'.outcome_run Progress.initial)

theorem advance_of_lt (h : q.StandsAt d i) (hd : d.WellEnded) (hlt : i + 1 < d.tokens.length) :
    ∃ q', q.advance = (.ok q.current, q') ∧ q'.StandsAt d (i + 1) := by
  have hend : q.current.symbol ≠ .endOfInput := hd.symbol_ne_of_lt h.getElem?_eq hlt
  rcases hadvance : q.advance with ⟨fault | t, q'⟩
  · obtain ⟨-, hlast, -⟩ := h.advance_fault hadvance
    omega
  · exact ⟨q', by rw [eq_current_of_advance hadvance], h.advance hadvance hend⟩

theorem advance_of_last (h : q.StandsAt d i) (hd : d.WellEnded) {fault : Fault}
    (hfault : d.fault? = some fault) (hlast : i + 1 = d.tokens.length) :
    ∃ q', q.advance = (.error fault, q') ∧ q'.current = q.current ∧
      q'.advance = (.error fault, q') := by
  have hend : q.current.symbol ≠ .endOfInput := by
    unfold Cursor.Drained.WellEnded at hd
    rw [hfault] at hd
    apply Cursor.Drained.symbol_ne_of_mem_lexemes (d := d)
    rw [← hd.1]
    exact List.mem_of_getElem? h.getElem?_eq
  rcases hadvance : q.advance with ⟨found | t, q'⟩
  · obtain ⟨-, -, hfound⟩ := h.advance_fault hadvance
    obtain rfl : found = fault := Option.some.inj (hfound.symm.trans hfault)
    obtain ⟨hcurrent, -, hagain⟩ := advance_of_fault hadvance
    exact ⟨q', rfl, hcurrent, hagain⟩
  · have hnext := (h.advance hadvance hend).getElem?_eq
    rw [hlast, List.getElem?_eq_none (Nat.le_refl _)] at hnext
    cases hnext

end Parser.StandsAt

/-- A parser moves forward through the tokens of its source under any calls. What it looks at is one of
them, whose index never falls. The tokens it gives away come in their order, and to advance is to go to
the next one; at the end of the input the parser stays as it is, and in front of a fault of the source
it meets that fault again and again. What reading an expression gives depends on nothing but the tokens
from the index on and the fault behind them. -/
theorem parser_moves_forward {decimals : Bool} {source : String} {p : Parser}
    (hstart : Parser.start decimals source = .ok p) (calls : List Call) :
    ∃ i, Walk (scan decimals source) 0 (p.trace calls) i ∧
      (scan decimals source).tokens[i]? = some (p.after calls).current ∧
      (∀ more, ∃ j, i ≤ j ∧ Walk (scan decimals source) i ((p.after calls).trace more) j ∧
        (scan decimals source).tokens[j]? = some (p.after (calls ++ more)).current) ∧
      (taken (p.trace calls)).Sublist (scan decimals source).tokens ∧
      (taken (p.trace calls)).Pairwise (fun t t' => t.position.Before t'.position) ∧
      (i + 1 < (scan decimals source).tokens.length →
        ∃ q, (p.after calls).advance = (.ok (p.after calls).current, q) ∧
          (scan decimals source).tokens[i + 1]? = some q.current) ∧
      ((p.after calls).current.symbol = .endOfInput →
        (p.after calls).advance = (.ok (p.after calls).current, p.after calls)) ∧
      (∀ fault, (scan decimals source).fault? = some fault →
        i + 1 = (scan decimals source).tokens.length →
        ∃ q, (p.after calls).advance = (.error fault, q) ∧ q.current = (p.after calls).current ∧
          q.advance = (.error fault, q)) ∧
      ∀ (d : Cursor.Drained) (k : Nat) (q : Parser), q.StandsAt d k →
        d.tokens.drop k = (scan decimals source).tokens.drop i →
        d.fault? = (scan decimals source).fault? →
        q.parseExpression.1 = (p.after calls).parseExpression.1 := by
  have hd : (scan decimals source).WellEnded := Cursor.wellEnded_drain ..
  have hfirst : p.StandsAt (scan decimals source) 0 := Parser.ahead_of_start hstart
  obtain ⟨i, hwalk, hstands⟩ := hfirst.walk calls
  have htaken : (taken (p.trace calls)).Sublist (scan decimals source).tokens := hwalk.taken_sublist
  refine ⟨i, hwalk, hstands.getElem?_eq, fun more => ?_, htaken, ?_, fun hlt => ?_,
    Parser.advance_of_end,
    fun fault hfault hlast => hstands.advance_of_last hd hfault hlast,
    fun d k q h htokens hfault => h.parseExpression_eq hstands htokens hfault⟩
  · obtain ⟨j, hmore, hstands'⟩ := hstands.walk more
    rw [Parser.after_append]
    exact ⟨j, hmore.le, hmore, hstands'.getElem?_eq⟩
  · exact (scan_pairwise decimals source).sublist htaken
  · obtain ⟨q, hadvance, hnext⟩ := hstands.advance_of_lt hd hlt
    exact ⟨q, hadvance, hnext.getElem?_eq⟩

/-- A number is taken, and the next one stands in front of a foreign character. -/
theorem parser_moves_forward_blocked :
    ∃ (p : Parser) (i : Nat), Parser.start false "1 2 $" = .ok p ∧
      Walk (scan false "1 2 $") 0 (p.trace [.advance, .parseExpression, .advance]) i ∧
      taken (p.trace [.advance, .parseExpression, .advance]) = [⟨.number (.int 1), ⟨1, 1⟩⟩] := by
  let p : Parser := ⟨false, ⟨" 2 $".toList, 1, 1, 0⟩, ⟨.number (.int 1), ⟨1, 1⟩⟩⟩
  have hstart : Parser.start false "1 2 $" = .ok p := rfl
  obtain ⟨i, hwalk, -⟩ := parser_moves_forward hstart [.advance, .parseExpression, .advance]
  exact ⟨p, i, hstart, hwalk, by decide +kernel⟩

end Arith
