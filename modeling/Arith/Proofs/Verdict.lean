import Arith.Proofs.Derivation

/-!
# How reading ends

There are four ways: at a token that may not come next, at a fault of the source, at an end of the
input that comes too early, and with the tree of the whole sentence. The places in front of the tokens
decide which of them it is.
-/

namespace Arith

open Grammar

namespace Place

theorem exists_of_after?_eq_none {p : Place} {a : List Symbol} (h : p.after? a = none) :
    ∃ b x c q, a = b ++ x :: c ∧ p.after? b = some q ∧ q.next? x = none := by
  induction a generalizing p with
  | nil => cases h
  | cons x a ih =>
    rw [after?_cons] at h
    cases hnext : p.next? x with
    | none => exact ⟨[], x, a, p, rfl, rfl, hnext⟩
    | some q =>
      rw [hnext, Option.bind_some] at h
      obtain ⟨b, y, c, r, rfl, hb, hy⟩ := ih h
      refine ⟨x :: b, y, c, r, rfl, ?_, hy⟩
      rw [after?_cons, hnext, Option.bind_some, hb]

theorem next?_endOfInput (p : Place) : p.next? .endOfInput = none := by
  obtain ⟨depth, wantsOperand⟩ := p
  cases wantsOperand <;> cases depth <;> rfl

end Place

namespace Progress

theorem read_of_after {s : Progress} {a : List Symbol} (h : s.Builds a) {ts : List Token}
    {q : Place} (hafter : s.place.after? (ts.map Token.symbol) = some q) :
    ∃ s', s.read ts = .ok (.more s') ∧ s'.place = q ∧ s'.Builds (a ++ ts.map Token.symbol) := by
  induction ts generalizing s a with
  | nil =>
    cases hafter
    exact ⟨s, rfl, rfl, by simpa using h⟩
  | cons t ts ih =>
    rw [List.map_cons, Place.after?_cons, Option.bind_eq_some_iff] at hafter
    obtain ⟨r, hnext, hafter⟩ := hafter
    obtain ⟨s₁, hstep, rfl, hbuilds⟩ := step_of_next h hnext
    obtain ⟨s', hread, hplace, hbuilds'⟩ := ih hbuilds hafter
    refine ⟨s', ?_, hplace, by simpa using hbuilds'⟩
    rw [read_cons hstep, hread]

end Progress

/-! ## The four ends -/

inductive Verdict (d : Cursor.Drained) : Except Failure Expr → Prop where
  | deadEnd {b c : List Token} {t : Token} {q : Place} {cause : Cause} :
    d.lexemes = b ++ t :: c → Place.first.after? (b.map Token.symbol) = some q →
    q.next? t.symbol = none → cause.kind.stage = .parsing →
    Verdict d (.error (.fault ⟨cause, t.position⟩))
  | cut {q : Place} {fault : Fault} :
    Place.first.after? (d.lexemes.map Token.symbol) = some q → d.fault? = some fault →
    fault.cause.kind.stage = .scanning → Verdict d (.error (.fault fault))
  | tooShort {q : Place} {last : Token} {cause : Cause} :
    Place.first.after? (d.lexemes.map Token.symbol) = some q → q ≠ .last → d.fault? = none →
    d.tokens = d.lexemes ++ [last] → last.symbol = .endOfInput → cause.kind.stage = .parsing →
    Verdict d (.error (.fault ⟨cause, last.position⟩))
  | tree {last : Token} {e : Expr} :
    Place.first.after? (d.lexemes.map Token.symbol) = some .last → d.fault? = none →
    d.tokens = d.lexemes ++ [last] → last.symbol = .endOfInput →
    Sum (d.lexemes.map Token.symbol) e → Verdict d (.ok e)

theorem verdict_of_outcome {d : Cursor.Drained} {result : Except Failure Expr} (hd : d.WellEnded)
    (h : Parser.Outcome (Progress.initial.read d.tokens) d.fault? result) : Verdict d result := by
  cases hafter : Place.first.after? (d.lexemes.map Token.symbol) with
  | none =>
    obtain ⟨_, _, _, q, heq, hb, hnext⟩ := Place.exists_of_after?_eq_none hafter
    obtain ⟨b, rest, hlexemes, rfl, hrest⟩ := List.map_eq_append_iff.mp heq
    obtain ⟨t, c, rfl, rfl, -⟩ := List.map_eq_cons_iff.mp hrest
    obtain ⟨s, hread, rfl, hbuilds⟩ := Progress.read_of_after Progress.builds_initial hb
    have hmem : t ∈ d.lexemes := by simp [hlexemes]
    have hend := Cursor.Drained.symbol_ne_of_mem_lexemes hmem
    obtain ⟨cause, hstep, hstage⟩ := Progress.step_of_dead_end hbuilds hnext (absurd · hend)
    obtain ⟨more, htokens⟩ := hd.tokens_eq
    rw [htokens, hlexemes, List.append_assoc, List.cons_append, Progress.read_append hread,
      Progress.read_cons_of_failure hstep] at h
    cases h
    exact .deadEnd hlexemes hb hnext hstage
  | some q =>
    obtain ⟨s, hread, rfl, hbuilds⟩ := Progress.read_of_after Progress.builds_initial hafter
    unfold Cursor.Drained.WellEnded at hd
    split at hd
    · rename_i fault hfault
      rw [hd.1, hread, hfault] at h
      cases h
      exact .cut hafter hfault hd.2
    · rename_i hfault
      obtain ⟨last, htokens, hend⟩ := hd
      rw [htokens, Progress.read_append hread] at h
      by_cases hplace : s.place = .last
      · obtain ⟨tree, hstep, hsum⟩ := Progress.step_at_end hbuilds hend hplace
        rw [Progress.read_cons_of_done hstep] at h
        cases h
        exact .tree (hplace ▸ hafter) hfault htokens hend hsum
      · have hnext : s.place.next? last.symbol = none := by rw [hend, Place.next?_endOfInput]
        obtain ⟨cause, hstep, hstage⟩ := Progress.step_of_dead_end hbuilds hnext fun _ => hplace
        rw [Progress.read_cons_of_failure hstep] at h
        cases h
        exact .tooShort hafter hplace hfault htokens hend hstage

theorem verdict_parse (decimals : Bool) (source : String) :
    Verdict (scan decimals source) (parse decimals source) :=
  verdict_of_outcome (wellEnded_scan ..) (outcome_parse decimals source)

theorem verdict_parseExpression (p : Parser) : Verdict p.ahead p.parseExpression.1 :=
  verdict_of_outcome p.wellEnded_ahead (p.outcome_run Progress.initial)

end Arith
