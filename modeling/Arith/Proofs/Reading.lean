import Arith.Parser

/-!
# Reading a list of tokens

A parser takes its tokens from the source one by one, each when it has consumed the one before.
`Progress.read` takes them from a list. A run of the parser is a reading of the tokens in front of
it, and where a fault of the source cuts these short the run ends with that fault.
-/

namespace Arith

/-! ## The tokens of a source -/

namespace Cursor

/-- The tokens in front of the end of input or of the first fault. -/
def Drained.lexemes (d : Drained) : List Token := d.tokens.filter (·.symbol ≠ .endOfInput)

/-- Tokens that no fault cuts short are closed by the end of input, which is found nowhere else. -/
def Drained.WellEnded (d : Drained) : Prop :=
  match d.fault? with
  | some fault => d.tokens = d.lexemes ∧ fault.cause.kind.stage = .scanning
  | none => ∃ last, d.tokens = d.lexemes ++ [last] ∧ last.symbol = .endOfInput

theorem drain_of_fault {decimals : Bool} {c after : Cursor} {fault : Fault}
    (h : c.next decimals = (.error fault, after)) :
    c.drain decimals = ⟨[], some fault, after⟩ := by
  rw [drain]
  split
  · rename_i hnext
    rw [h] at hnext
    cases hnext
    rfl
  · rename_i hnext
    rw [h] at hnext
    cases hnext

theorem drain_of_end {decimals : Bool} {c after : Cursor} {t : Token}
    (h : c.next decimals = (.ok t, after)) (hend : t.symbol = .endOfInput) :
    c.drain decimals = ⟨[t], none, after⟩ := by
  rw [drain]
  split
  · rename_i hnext
    rw [h] at hnext
    cases hnext
  · rename_i hnext
    rw [h] at hnext
    cases hnext
    simp [hend]

theorem drain_of_token {decimals : Bool} {c after : Cursor} {t : Token}
    (h : c.next decimals = (.ok t, after)) (hend : t.symbol ≠ .endOfInput) :
    c.drain decimals =
      { after.drain decimals with tokens := t :: (after.drain decimals).tokens } := by
  rw [drain]
  split
  · rename_i hnext
    rw [h] at hnext
    cases hnext
  · rename_i hnext
    rw [h] at hnext
    cases hnext
    simp [hend]

theorem Drained.symbol_ne_of_mem_lexemes {d : Drained} {t : Token} (h : t ∈ d.lexemes) :
    t.symbol ≠ .endOfInput := by
  simpa using (List.mem_filter.mp h).2

theorem Drained.wellEnded_cons {d : Drained} {t : Token} (hend : t.symbol ≠ .endOfInput)
    (h : d.WellEnded) : Drained.WellEnded { d with tokens := t :: d.tokens } := by
  unfold WellEnded at h ⊢
  simp only
  split
  · rename_i fault hfault
    rw [hfault] at h
    refine ⟨?_, h.2⟩
    simp only [lexemes] at h ⊢
    rw [List.filter_cons_of_pos (by simpa using hend), ← h.1]
  · rename_i hfault
    rw [hfault] at h
    obtain ⟨last, htokens, hlast⟩ := h
    refine ⟨last, ?_, hlast⟩
    simp only [lexemes] at htokens ⊢
    rw [List.filter_cons_of_pos (by simpa using hend), List.cons_append, ← htokens]

theorem Drained.WellEnded.tokens_eq {d : Drained} (h : d.WellEnded) :
    ∃ rest, d.tokens = d.lexemes ++ rest := by
  unfold WellEnded at h
  split at h
  · exact ⟨[], by simpa using h.1⟩
  · obtain ⟨last, htokens, -⟩ := h
    exact ⟨[last], htokens⟩

theorem Drained.WellEnded.last_of_no_fault {d : Drained} (h : d.WellEnded)
    (hfault : d.fault? = none) :
    ∃ last, d.tokens = d.lexemes ++ [last] ∧ last.symbol = .endOfInput := by
  unfold WellEnded at h
  rwa [hfault] at h

theorem Drained.WellEnded.symbol_ne_of_lt {d : Drained} (hd : d.WellEnded) {i : Nat}
    {t : Token} (ht : d.tokens[i]? = some t) (hlt : i + 1 < d.tokens.length) :
    t.symbol ≠ .endOfInput := by
  apply Drained.symbol_ne_of_mem_lexemes (d := d)
  unfold Drained.WellEnded at hd
  split at hd
  · rw [← hd.1]
    exact List.mem_of_getElem? ht
  · obtain ⟨last, htokens, -⟩ := hd
    rw [htokens, List.length_append, List.length_singleton] at hlt
    rw [htokens, List.getElem?_append_left (by omega)] at ht
    exact List.mem_of_getElem? ht

/-- What a cursor finds behind the blanks: nothing, a symbol, or a character that belongs to none. -/
inductive Finds (decimals : Bool) (c : Cursor) : Except Fault Token × Cursor → Prop where
  | nothing : c.skipBlanks.rest = [] →
    Finds decimals c (.ok ⟨.endOfInput, c.skipBlanks.position⟩, c.skipBlanks)
  | symbol {x : Symbol} {width : Nat} {more : List Char} :
    Symbol.split? decimals c.skipBlanks.rest = some (x, width, more) →
    Finds decimals c (.ok ⟨x, c.skipBlanks.position⟩,
      { c.skipBlanks with rest := more, pos := c.skipBlanks.pos + width })
  | foreign {first : Char} {cs : List Char} : c.skipBlanks.rest = first :: cs →
    Symbol.split? decimals c.skipBlanks.rest = none →
    Finds decimals c (.error ⟨.foreignCharacter first, c.skipBlanks.position⟩, c.skipBlanks)

theorem finds {decimals : Bool} {c : Cursor} {result : Except Fault Token × Cursor}
    (h : c.next decimals = result) : Finds decimals c result := by
  subst h
  simp only [next]
  split
  · rename_i hrest
    exact .nothing hrest
  · rename_i hrest
    split
    · rename_i hsplit
      exact .symbol hsplit
    · rename_i hnone
      exact .foreign hrest hnone

theorem stage_of_next {decimals : Bool} {c after : Cursor} {fault : Fault}
    (h : c.next decimals = (.error fault, after)) : fault.cause.kind.stage = .scanning := by
  cases finds h
  rfl

theorem wellEnded_drain (decimals : Bool) (c : Cursor) : (c.drain decimals).WellEnded := by
  fun_induction drain decimals c with
  | case1 c fault after h => exact ⟨rfl, stage_of_next h⟩
  | case2 c token after h hend => exact ⟨token, by simp [Drained.lexemes, hend], hend⟩
  | case3 c token after h hend _ more ih => exact Drained.wellEnded_cons hend ih

end Cursor

/-! ## Reading -/

namespace Progress

/-- Takes tokens for as long as the steps go on. -/
def read (s : Progress) : List Token → Except Failure Step
  | [] => .ok (.more s)
  | t :: ts =>
    match s.step t with
    | .ok (.more s') => s'.read ts
    | outcome => outcome

theorem read_cons {s s' : Progress} {t : Token} (h : s.step t = .ok (.more s'))
    (ts : List Token) : s.read (t :: ts) = s'.read ts := by
  rw [read, h]

theorem read_cons_of_failure {s : Progress} {t : Token} {failure : Failure}
    (h : s.step t = .error failure) (ts : List Token) : s.read (t :: ts) = .error failure := by
  rw [read, h]

theorem read_cons_of_done {s : Progress} {t : Token} {tree : Expr} (h : s.step t = .ok (.done tree))
    (ts : List Token) : s.read (t :: ts) = .ok (.done tree) := by
  rw [read, h]

theorem read_append {s s' : Progress} {ts : List Token} (h : s.read ts = .ok (.more s'))
    (more : List Token) : s.read (ts ++ more) = s'.read more := by
  induction ts generalizing s with
  | nil =>
    cases h
    rfl
  | cons t ts ih =>
    simp only [List.cons_append, read] at h ⊢
    split at h
    · rename_i hstep
      rw [ih h]
    · rename_i hother
      exact absurd h (hother s')

theorem read_append_of_failure {s : Progress} {ts : List Token} {failure : Failure}
    (h : s.read ts = .error failure) (more : List Token) : s.read (ts ++ more) = .error failure := by
  induction ts generalizing s with
  | nil => cases h
  | cons t ts ih =>
    simp only [List.cons_append, read] at h ⊢
    split at h
    · rename_i hstep
      rw [ih h]
    · exact h

end Progress

/-! ## Running -/

namespace Parser

/-- The tokens in front of a parser, the one it looks at first. -/
def ahead (p : Parser) : Cursor.Drained :=
  if p.current.symbol = .endOfInput then ⟨[p.current], none, p.cursor⟩
  else
    { p.cursor.drain p.decimals with
      tokens := p.current :: (p.cursor.drain p.decimals).tokens }

theorem wellEnded_ahead (p : Parser) : p.ahead.WellEnded := by
  unfold ahead
  split
  · rename_i hend
    exact ⟨p.current, by simp [Cursor.Drained.lexemes, hend], hend⟩
  · rename_i hend
    exact Cursor.Drained.wellEnded_cons hend (Cursor.wellEnded_drain ..)

theorem head_ahead (p : Parser) : ∃ ts, p.ahead.tokens = p.current :: ts := by
  unfold ahead
  split
  · exact ⟨[], rfl⟩
  · exact ⟨_, rfl⟩

/-- What comes of advancing: the end of input stays, and any other token makes room for the next one
unless a fault is in the way. -/
inductive Advances (p : Parser) : Except Fault Token × Parser → Prop where
  | atEnd : p.current.symbol = .endOfInput → Advances p (.ok p.current, p)
  | taken {t : Token} {after : Cursor} : p.current.symbol ≠ .endOfInput →
    p.cursor.next p.decimals = (.ok t, after) →
    Advances p (.ok p.current, { p with cursor := after, current := t })
  | blocked {fault : Fault} {after : Cursor} : p.current.symbol ≠ .endOfInput →
    p.cursor.next p.decimals = (.error fault, after) →
    Advances p (.error fault, { p with cursor := after })

theorem advances {p : Parser} {result : Except Fault Token × Parser} (h : p.advance = result) :
    p.Advances result := by
  subst h
  unfold advance
  split
  · rename_i hend
    exact .atEnd hend
  · rename_i hend
    split
    · rename_i hnext
      exact .taken hend hnext
    · rename_i hnext
      exact .blocked hend hnext

theorem eq_current_of_advance {p p' : Parser} {t : Token} (h : p.advance = (.ok t, p')) :
    t = p.current := by
  cases advances h <;> rfl

theorem ahead_of_advance {p p' : Parser} {t : Token} (h : p.advance = (.ok t, p'))
    (hend : p.current.symbol ≠ .endOfInput) :
    p.ahead = { p'.ahead with tokens := p.current :: p'.ahead.tokens } := by
  cases advances h with
  | atEnd hlast => exact absurd hlast hend
  | taken _ hnext =>
    simp only [ahead, if_neg hend]
    split
    · rename_i hlast
      rw [Cursor.drain_of_end hnext hlast]
    · rename_i hmore
      rw [Cursor.drain_of_token hnext hmore]

theorem ahead_of_fault {p p' : Parser} {fault : Fault} (h : p.advance = (.error fault, p')) :
    p.ahead.tokens = [p.current] ∧ p.ahead.fault? = some fault := by
  cases advances h with
  | blocked hend hnext => simp [ahead, hend, Cursor.drain_of_fault hnext]

theorem stage_of_advance {p p' : Parser} {fault : Fault} (h : p.advance = (.error fault, p')) :
    fault.cause.kind.stage = .scanning := by
  cases advances h with
  | blocked _ hnext => exact Cursor.stage_of_next hnext

/-- What comes of a reading: a failure and a tree stand, and a reading that could go on was cut short
by a fault of the source. -/
inductive Outcome : Except Failure Step → Option Fault → Except Failure Expr → Prop where
  | failed (failure : Failure) (fault? : Option Fault) :
    Outcome (.error failure) fault? (.error failure)
  | done (tree : Expr) (fault? : Option Fault) : Outcome (.ok (.done tree)) fault? (.ok tree)
  | cut (s : Progress) (fault : Fault) :
    Outcome (.ok (.more s)) (some fault) (.error (.fault fault))

theorem Outcome.unique {read : Except Failure Step} {fault? : Option Fault}
    {result result' : Except Failure Expr} (h : Outcome read fault? result)
    (h' : Outcome read fault? result') : result = result' := by
  cases h <;> cases h' <;> rfl

/-- A run is a reading of the tokens in front of the parser. -/
theorem outcome_run (p : Parser) (s : Progress) :
    Outcome (s.read p.ahead.tokens) p.ahead.fault? (p.run s).1 := by
  fun_induction run p s with
  | case1 p s failure hstep =>
    obtain ⟨ts, hts⟩ := head_ahead p
    rw [hts, Progress.read_cons_of_failure hstep]
    exact .failed failure _
  | case2 p s tree hstep =>
    obtain ⟨ts, hts⟩ := head_ahead p
    rw [hts, Progress.read_cons_of_done hstep]
    exact .done tree _
  | case3 p s s' hstep fault p' hadvance =>
    obtain ⟨htokens, hfault⟩ := ahead_of_fault hadvance
    rw [htokens, hfault, Progress.read_cons hstep]
    exact .cut s' fault
  | case4 p s s' hstep t p' hadvance _ ih =>
    rw [ahead_of_advance hadvance (Progress.symbol_ne_endOfInput_of_step hstep)]
    rw [Progress.read_cons hstep]
    exact ih

end Parser

/-! ## Whole sources -/

/-- The tokens of a source text, and the fault that cuts them short if there is one. -/
def scan (decimals : Bool) (source : String) : Cursor.Drained :=
  (Cursor.start source.toList).drain decimals

theorem wellEnded_scan (decimals : Bool) (source : String) : (scan decimals source).WellEnded :=
  Cursor.wellEnded_drain ..

theorem Parser.ahead_of_start {decimals : Bool} {source : String} {p : Parser}
    (h : Parser.start decimals source = .ok p) : p.ahead = scan decimals source := by
  unfold Parser.start at h
  split at h
  · rename_i token after hnext
    cases h
    unfold ahead scan
    split
    · rename_i hend
      exact (Cursor.drain_of_end hnext hend).symm
    · rename_i hend
      exact (Cursor.drain_of_token hnext hend).symm
  · cases h

theorem Parser.scan_of_start {decimals : Bool} {source : String} {fault : Fault}
    (h : Parser.start decimals source = .error fault) :
    (scan decimals source).tokens = [] ∧ (scan decimals source).fault? = some fault := by
  unfold Parser.start at h
  split at h
  · cases h
  · rename_i fault' after hnext
    cases h
    simp [scan, Cursor.drain_of_fault hnext]

theorem outcome_parse (decimals : Bool) (source : String) :
    Parser.Outcome (Progress.initial.read (scan decimals source).tokens)
      (scan decimals source).fault? (parse decimals source) := by
  unfold parse
  split
  · rename_i p hstart
    rw [← Parser.ahead_of_start hstart]
    exact p.outcome_run Progress.initial
  · rename_i fault hstart
    obtain ⟨htokens, hfault⟩ := Parser.scan_of_start hstart
    rw [htokens, hfault]
    exact .cut _ fault

theorem tokenize_eq_ok_iff {decimals : Bool} {source : String} {ts : List Token} :
    tokenize decimals source = .ok ts ↔
      (scan decimals source).fault? = none ∧ (scan decimals source).tokens = ts := by
  unfold tokenize scan
  simp only
  split
  · rename_i fault hfault
    simp [hfault]
  · rename_i hfault
    simp [hfault]

theorem tokenize_eq_error_iff {decimals : Bool} {source : String} {fault : Fault} :
    tokenize decimals source = .error fault ↔ (scan decimals source).fault? = some fault := by
  unfold tokenize scan
  simp only
  split
  · rename_i fault' hfault
    simp [hfault]
  · rename_i hfault
    simp [hfault]

end Arith
