import Arith.Proofs.Acceptance
import Arith.Proofs.Positions

/-!
# The earliest place

A fault is reported at the first token that no sentence could go on with. A character that belongs to
no token is reported only if everything in front of it could still have become a sentence.
-/

namespace Arith

open Grammar

namespace Grammar

theorem Viable.front {a b : List Symbol} (h : Viable (a ++ b)) : Viable a := by
  obtain ⟨c, hsentence⟩ := h
  exact ⟨b ++ c, by rwa [← List.append_assoc]⟩

theorem Viable.take {ts : List Token} (h : Viable (ts.map Token.symbol)) (i : Nat) :
    Viable ((ts.take i).map Token.symbol) := by
  rw [← List.take_append_drop i ts, List.map_append] at h
  exact h.front

theorem Viable.take_of_le {ts : List Token} {i j : Nat}
    (h : Viable ((ts.take j).map Token.symbol)) (hle : i ≤ j) :
    Viable ((ts.take i).map Token.symbol) := by
  have hi := h.take i
  rwa [List.take_take, Nat.min_eq_left hle] at hi

theorem viable_border {ts : List Token} {i j : Nat} (hi : Viable ((ts.take i).map Token.symbol))
    (hi' : ¬ Viable ((ts.take (i + 1)).map Token.symbol))
    (hj : Viable ((ts.take j).map Token.symbol))
    (hj' : ¬ Viable ((ts.take (j + 1)).map Token.symbol)) : i = j := by
  rcases Nat.lt_trichotomy i j with hlt | heq | hlt
  · exact absurd (hj.take_of_le hlt) hi'
  · exact heq
  · exact absurd (hi.take_of_le hlt) hj'

end Grammar

/-! ## Reports -/

/-- A fault of the stage, reported at the position. -/
def FailsAt (result : Except Failure Expr) (stage : Stage) (position : Position) : Prop :=
  ∃ fault, result = .error (.fault fault) ∧ fault.cause.kind.stage = stage ∧
    fault.position = position

abbrev InOrder (ts : List Token) : Prop := ts.Pairwise fun t t' => t.position.Before t'.position

theorem InOrder.index_eq {ts : List Token} (h : InOrder ts) {i j : Nat} (hi : i < ts.length)
    (hj : j < ts.length) (heq : ts[i].position = ts[j].position) : i = j := by
  have hpairwise := List.pairwise_iff_getElem.mp h
  rcases Nat.lt_trichotomy i j with hlt | hsame | hlt
  · exact absurd heq (hpairwise i j hi hj hlt).ne
  · exact hsame
  · exact absurd heq.symm (hpairwise j i hj hi hlt).ne

namespace Verdict

variable {d : Cursor.Drained} {result : Except Failure Expr}

theorem border {b c : List Token} {t : Token} {q : Place} (hlexemes : d.lexemes = b ++ t :: c)
    (hb : Place.first.after? (b.map Token.symbol) = some q) (hnext : q.next? t.symbol = none) :
    Viable ((d.lexemes.take b.length).map Token.symbol) ∧
      ¬ Viable ((d.lexemes.take (b.length + 1)).map Token.symbol) := by
  constructor
  · rw [hlexemes, List.take_left']
    · exact viable_iff_after.mpr ⟨q, hb⟩
    · rfl
  · have htake : d.lexemes.take (b.length + 1) = b ++ [t] := by
      rw [hlexemes, List.take_append, List.take_of_length_le (Nat.le_succ _)]
      simp
    rw [htake, viable_iff_after]
    rintro ⟨r, hr⟩
    simp [hb, hnext] at hr

theorem failsAt_lexeme_iff (h : Verdict d result) (horder : InOrder d.tokens)
    {i : Nat} (hi : i < d.lexemes.length) :
    FailsAt result .parsing d.lexemes[i].position ↔
      Viable ((d.lexemes.take i).map Token.symbol) ∧
        ¬ Viable ((d.lexemes.take (i + 1)).map Token.symbol) := by
  have hlexemes : InOrder d.lexemes := horder.filter _
  cases h with
  | @deadEnd b c t q cause hsplit hb hnext hstage =>
    obtain ⟨hfront, hdead⟩ := border hsplit hb hnext
    have hj : b.length < d.lexemes.length := by simp [hsplit]
    have ht : d.lexemes[b.length] = t := by simp [hsplit]
    constructor
    · rintro ⟨fault, hfault, -, hposition⟩
      cases hfault
      obtain rfl := hlexemes.index_eq hj hi (by rw [ht]; exact hposition)
      exact ⟨hfront, hdead⟩
    · rintro ⟨hviable, hnot⟩
      obtain rfl := viable_border hviable hnot hfront hdead
      exact ⟨_, rfl, hstage, by rw [ht]⟩
  | cut hafter hfault hstage =>
    constructor
    · rintro ⟨fault, heq, hparsing, -⟩
      cases heq
      rw [hstage] at hparsing
      cases hparsing
    · rintro ⟨-, hnot⟩
      exact absurd ((viable_of_after hafter).take (i + 1)) hnot
  | @tooShort q last cause hafter hplace hnone htokens hend hstage =>
    constructor
    · rintro ⟨fault, heq, -, hposition⟩
      cases heq
      rw [htokens, InOrder, List.pairwise_append] at horder
      have hbefore := horder.2.2 _ (List.getElem_mem hi) last (List.mem_singleton.mpr rfl)
      exact absurd hposition.symm hbefore.ne
    · rintro ⟨-, hnot⟩
      exact absurd ((viable_of_after hafter).take (i + 1)) hnot
  | tree hafter =>
    constructor
    · rintro ⟨fault, heq, -⟩
      cases heq
    · rintro ⟨-, hnot⟩
      exact absurd ((viable_of_after hafter).take (i + 1)) hnot

theorem failsAt_end_iff (h : Verdict d result) (horder : InOrder d.tokens) :
    (∃ last, d.tokens = d.lexemes ++ [last] ∧ FailsAt result .parsing last.position) ↔
      d.fault? = none ∧ Viable (d.lexemes.map Token.symbol) ∧
        ¬ Sentence (d.lexemes.map Token.symbol) := by
  cases h with
  | @deadEnd b c t q cause hsplit hb hnext hstage =>
    constructor
    · rintro ⟨last, htokens, fault, heq, -, hposition⟩
      cases heq
      rw [htokens, InOrder, List.pairwise_append] at horder
      have hbefore := horder.2.2 t (by simp [hsplit]) last (List.mem_singleton.mpr rfl)
      exact absurd hposition hbefore.ne
    · rintro ⟨-, hviable, -⟩
      exact absurd (hviable.take _) (border hsplit hb hnext).2
  | cut hafter hfault hstage =>
    constructor
    · rintro ⟨last, -, fault, heq, hparsing, -⟩
      cases heq
      rw [hstage] at hparsing
      cases hparsing
    · rintro ⟨hnone, -⟩
      rw [hfault] at hnone
      cases hnone
  | @tooShort q last cause hafter hplace hnone htokens hend hstage =>
    constructor
    · intro _
      refine ⟨hnone, viable_of_after hafter, fun hsentence => hplace ?_⟩
      rw [sentence_iff_after, hafter] at hsentence
      exact Option.some.inj hsentence
    · intro _
      exact ⟨last, htokens, _, rfl, hstage, rfl⟩
  | tree _ _ _ _ hsum =>
    constructor
    · rintro ⟨last, -, fault, heq, -⟩
      cases heq
    · rintro ⟨-, -, hnot⟩
      exact absurd hsum.sentence hnot

theorem scanning_iff (h : Verdict d result) (fault : Fault) :
    result = .error (.fault fault) ∧ fault.cause.kind.stage = .scanning ↔
      d.fault? = some fault ∧ Viable (d.lexemes.map Token.symbol) := by
  cases h with
  | deadEnd hsplit hb hnext hstage =>
    constructor
    · rintro ⟨heq, hscanning⟩
      cases heq
      rw [hstage] at hscanning
      cases hscanning
    · rintro ⟨-, hviable⟩
      exact absurd (hviable.take _) (border hsplit hb hnext).2
  | cut hafter hfault hstage =>
    constructor
    · rintro ⟨heq, -⟩
      cases heq
      exact ⟨hfault, viable_of_after hafter⟩
    · rintro ⟨heq, -⟩
      rw [hfault] at heq
      cases heq
      exact ⟨rfl, hstage⟩
  | tooShort hafter hplace hnone htokens hend hstage =>
    constructor
    · rintro ⟨heq, hscanning⟩
      cases heq
      rw [hstage] at hscanning
      cases hscanning
    · rintro ⟨heq, -⟩
      rw [hnone] at heq
      cases heq
  | tree _ hnone =>
    constructor
    · rintro ⟨heq, -⟩
      cases heq
    · rintro ⟨heq, -⟩
      rw [hnone] at heq
      cases heq

theorem fault_of_failure {failure : Failure} (h : Verdict d (.error failure))
    (hd : d.WellEnded) : ∃ fault, failure = .fault fault ∧
      (fault.cause.kind.stage = .scanning ∨
        fault.cause.kind.stage = .parsing ∧ ∃ t ∈ d.tokens, fault.position = t.position) := by
  cases h with
  | @deadEnd b c t q cause hsplit hb hnext hstage =>
    obtain ⟨rest, htokens⟩ := hd.tokens_eq
    exact ⟨_, rfl, .inr ⟨hstage, t, by simp [htokens, hsplit], rfl⟩⟩
  | cut _ _ hstage => exact ⟨_, rfl, .inl hstage⟩
  | @tooShort q last cause _ _ _ htokens _ hstage =>
    exact ⟨_, rfl, .inr ⟨hstage, last, by simp [htokens], rfl⟩⟩

end Verdict

theorem tokenize_of_parse_fault {decimals : Bool} {source : String} {fault : Fault}
    (h : parse decimals source = .error (.fault fault)) (hstage : fault.cause.kind.stage = .scanning) :
    tokenize decimals source = .error fault :=
  tokenize_eq_error_iff.mpr (((verdict_parse decimals source).scanning_iff fault).mp ⟨h, hstage⟩).1

/-- The tokens of a source in front of the end of input or of the first fault. -/
def lexemes (decimals : Bool) (source : String) : List Token := (scan decimals source).lexemes

/-- A fault of parsing is reported at a token just when that token is the first that no sentence could
go on with, and at the end of input just when a sentence is begun there and not complete. A fault of
scanning is reported just when everything in front of it could go on, and is the one of `tokenize`. -/
theorem parse_fails_earliest (decimals : Bool) (source : String) :
    (∀ i (hi : i < (lexemes decimals source).length),
      FailsAt (parse decimals source) .parsing (lexemes decimals source)[i].position ↔
        Viable (((lexemes decimals source).take i).map Token.symbol) ∧
          ¬ Viable (((lexemes decimals source).take (i + 1)).map Token.symbol)) ∧
    ((∃ last, tokenize decimals source = .ok (lexemes decimals source ++ [last]) ∧
        FailsAt (parse decimals source) .parsing last.position) ↔
      (∃ ts, tokenize decimals source = .ok ts) ∧
        Viable ((lexemes decimals source).map Token.symbol) ∧
          ¬ Sentence ((lexemes decimals source).map Token.symbol)) ∧
    (∀ fault, parse decimals source = .error (.fault fault) ∧
        fault.cause.kind.stage = .scanning ↔
      tokenize decimals source = .error fault ∧
        Viable ((lexemes decimals source).map Token.symbol)) ∧
    ∀ failure, parse decimals source = .error failure → ∃ fault, failure = .fault fault ∧
      (fault.cause.kind.stage = .scanning ∨ fault.cause.kind.stage = .parsing ∧
        ∃ t ∈ (scan decimals source).tokens, fault.position = t.position) := by
  have hverdict := verdict_parse decimals source
  have hd : (scan decimals source).WellEnded := Cursor.wellEnded_drain ..
  have horder : InOrder (scan decimals source).tokens := scan_pairwise decimals source
  refine ⟨fun i hi => hverdict.failsAt_lexeme_iff horder hi, ?_, fun fault => ?_, ?_⟩
  · have hend := hverdict.failsAt_end_iff horder
    constructor
    · rintro ⟨last, htokenize, hfails⟩
      obtain ⟨-, htokens⟩ := tokenize_eq_ok_iff.mp htokenize
      exact ⟨⟨_, htokenize⟩, (hend.mp ⟨last, htokens, hfails⟩).2⟩
    · rintro ⟨⟨all, htokenize⟩, hbegun⟩
      obtain ⟨hnone, -⟩ := tokenize_eq_ok_iff.mp htokenize
      obtain ⟨last, htokens, hfails⟩ := hend.mpr ⟨hnone, hbegun⟩
      exact ⟨last, tokenize_eq_ok_iff.mpr ⟨hnone, htokens⟩, hfails⟩
  · rw [tokenize_eq_error_iff]
    exact hverdict.scanning_iff fault
  · intro failure hfailure
    exact (hfailure ▸ hverdict).fault_of_failure hd

end Arith
