import Arith.Proofs.Reading

/-!
# The course of a run

Reading an expression goes from head to head of one loop. At each head the parser looks at a token
and knows what it has read so far; a step and one more token lead to the next head. The run ends at
a head, and a parser never looks back at what it has consumed.
-/

namespace Arith.Parser

/-- Reading an expression from `p` on comes to a head with the parser `q` and the progress `s`, once
the given tokens are consumed. -/
inductive Reaches (p : Parser) : Parser → Progress → List Token → Prop where
  | start : Reaches p p .initial []
  | step {q q' : Parser} {s s' : Progress} {consumed : List Token} {t : Token} :
    Reaches p q s consumed → s.step q.current = .ok (.more s') → q.advance = (.ok t, q') →
    Reaches p q' s' (consumed ++ [t])

/-- How a run ends at a head: by a step that fails, by a tree, or by a fault of the source behind the
token that was to be consumed. -/
inductive Ends (q : Parser) (s : Progress) : Except Failure Expr × Parser → Prop where
  | failed {failure : Failure} : s.step q.current = .error failure → Ends q s (.error failure, q)
  | done {tree : Expr} : s.step q.current = .ok (.done tree) → Ends q s (.ok tree, q)
  | cut {s' : Progress} {fault : Fault} {q' : Parser} : s.step q.current = .ok (.more s') →
    q.advance = (.error fault, q') → Ends q s (.error (.fault fault), q')

theorem run_of_more {q q' : Parser} {s s' : Progress} {t : Token}
    (hstep : s.step q.current = .ok (.more s')) (hadvance : q.advance = (.ok t, q')) :
    q.run s = q'.run s' := by
  rw [run]
  split
  · rename_i heq
    rw [hstep] at heq
    cases heq
  · rename_i heq
    rw [hstep] at heq
    cases heq
  · rename_i heq
    rw [hstep] at heq
    cases heq
    split
    · rename_i hfault
      rw [hadvance] at hfault
      cases hfault
    · rename_i hnext
      rw [hadvance] at hnext
      cases hnext
      rfl

namespace Reaches

variable {p q : Parser} {s : Progress} {consumed : List Token}

theorem parseExpression_eq (h : p.Reaches q s consumed) : p.parseExpression = q.run s := by
  induction h with
  | start => rfl
  | step _ hstep hadvance ih => rw [ih, run_of_more hstep hadvance]

theorem ahead_eq (h : p.Reaches q s consumed) :
    p.ahead = { q.ahead with tokens := consumed ++ q.ahead.tokens } := by
  induction h with
  | start => rfl
  | @step q q' s s' consumed t _ hstep hadvance ih =>
    have hend := Progress.symbol_ne_endOfInput_of_step hstep
    have ht := eq_current_of_advance hadvance
    rw [ih, ahead_of_advance hadvance hend, ht]
    simp

theorem exists_last_of_run (h : p.Reaches q s consumed) :
    ∃ q' s' consumed', p.Reaches q' s' consumed' ∧ q'.Ends s' (q.run s) := by
  fun_induction run q s generalizing consumed with
  | case1 q s failure hstep => exact ⟨q, s, consumed, h, .failed hstep⟩
  | case2 q s tree hstep => exact ⟨q, s, consumed, h, .done hstep⟩
  | case3 q s s' hstep fault q' hadvance => exact ⟨q, s, consumed, h, .cut hstep hadvance⟩
  | case4 q s s' hstep t q' hadvance _ ih => exact ih (h.step hstep hadvance)

end Reaches

theorem exists_last (p : Parser) :
    ∃ q s consumed, p.Reaches q s consumed ∧ q.Ends s p.parseExpression :=
  Reaches.start.exists_last_of_run

end Arith.Parser
