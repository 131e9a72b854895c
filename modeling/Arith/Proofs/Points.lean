import Arith.Proofs.Counting
import Arith.Proofs.Offsets
import Arith.Proofs.Quoting
import Arith.Source

/-!
# Sources of code points

Up to the first surrogate a source comes apart as the characters in front of it do alone. There the cursor
meets the surrogate instead of the end of the input. Without surrogates a source has the tree and
the value of the text that it is.
-/

namespace Arith

/-! ## Quoted code points -/

namespace Text

theorem plain_escapeCode (n : Nat) : (escapeCode n).all isPlain := by
  unfold escapeCode
  split_ifs <;> rw [List.all_cons, List.all_cons, plain_hex] <;> rfl

theorem escapeCode_surrogate {n : Nat} (hlow : 0xD800 ≤ n) (hhigh : n < 0xE000) :
    escapeCode n = '\\' :: 'u' :: hex 4 n := by
  rw [escapeCode, if_neg (by omega), if_pos (by omega)]

theorem escape_ne_surrogate {quote c : Char} {n : Nat} (hlow : 0xD800 ≤ n) (hhigh : n < 0xE000) :
    escape quote c ≠ escapeCode n := by
  intro heq
  have hescaped := escaped quote c
  have hlength : (hex 4 n).length = 4 := length_hex (by decide) (Nat.lt_trans hhigh (by decide))
  have hvalue := hexValue_hex 4 n
  rw [heq, escapeCode_surrogate hlow hhigh] at hescaped
  generalize hex 4 n = digits at hescaped hlength hvalue
  cases hescaped with
  | marked => cases hlength
  | named hname => simp at hname
  | @coded _ width hname hlt =>
    rw [hexValue_hex] at hvalue
    have hvalid := c.valid
    have hcode : c.val.toNat = n := hvalue
    simp only [UInt32.isValidChar, Nat.isValidChar] at hvalid
    omega

end Text

namespace Point

theorem code_surrogate (offset : Fin 0x800) :
    0xD800 ≤ (surrogate offset).code ∧ (surrogate offset).code < 0xE000 := by
  simp only [code]
  omega

theorem not_isPrintable_surrogate (offset : Fin 0x800) : (surrogate offset).isPrintable = false := by
  have hrange : (0xD7FC, 0xF8FF) ∈ Text.hiddenRanges := by decide +kernel
  have hcode := code_surrogate offset
  simp only [isPrintable, Bool.not_eq_false', List.any_eq_true, Bool.and_eq_true, decide_eq_true_eq]
  exact ⟨_, hrange, by simp only; omega, by simp only; omega⟩

theorem escape_surrogate (quote : Char) (offset : Fin 0x800) :
    (surrogate offset).escape quote = (Text.escapeCode (surrogate offset).code).map char := by
  rw [escape, not_isPrintable_surrogate]
  rfl

theorem isQuote_quote (p : Point) : Text.IsQuote p.quote := by
  unfold quote
  split
  · exact .inr rfl
  · exact .inl rfl

theorem quoted_char (c : Char) : (char c).quoted = ofString (Text.quoted (String.singleton c)) := by
  have hquote : Text.quoteFor [c] = (char c).quote := by
    unfold Text.quoteFor quote
    by_cases hc : c = '\''
    · subst hc
      rfl
    · simp [hc, Ne.symm hc]
  simp [quoted, ofString, Text.quoted, hquote, escape]

theorem exists_quoted (p : Point) : ∃ s : String, p.quoted = ofString s ∧ Text.Prints s.toList := by
  cases p with
  | char c => exact ⟨_, quoted_char c, Text.prints_quoted _⟩
  | surrogate offset =>
    refine ⟨String.ofList ('\'' :: Text.escapeCode (surrogate offset).code ++ ['\'']), ?_, ?_⟩
    · simp [quoted, quote, escape_surrogate, ofString]
    · refine Text.prints_of_plain ?_
      rw [String.toList_ofList, List.cons_append, List.all_cons, List.all_append, Text.plain_escapeCode]
      rfl

theorem char_injective : Function.Injective char := by
  rintro c d ⟨⟩
  rfl

theorem escapeCode_injective {offset offset' : Fin 0x800}
    (h : Text.escapeCode (surrogate offset).code = Text.escapeCode (surrogate offset').code) :
    offset = offset' := by
  obtain ⟨hlow, hhigh⟩ := code_surrogate offset
  obtain ⟨hlow', hhigh'⟩ := code_surrogate offset'
  rw [Text.escapeCode_surrogate hlow hhigh, Text.escapeCode_surrogate hlow' hhigh'] at h
  simp only [List.cons.injEq, true_and] at h
  have hvalue := congrArg Text.hexValue h
  simp only [Text.hexValue_hex, code, Nat.add_left_cancel_iff] at hvalue
  exact Fin.ext hvalue

theorem escape_injective {quote : Char} (hquote : Text.IsQuote quote) :
    Function.Injective (escape quote) := by
  intro p q h
  cases p with
  | char c =>
    cases q with
    | char d =>
      have hread := (Text.escaped quote c).unescape? hquote []
      rw [char_injective.list_map h, (Text.escaped quote d).unescape? hquote []] at hread
      cases hread
      rfl
    | surrogate offset =>
      rw [escape_surrogate] at h
      obtain ⟨hlow, hhigh⟩ := code_surrogate offset
      exact absurd (char_injective.list_map h) (Text.escape_ne_surrogate hlow hhigh)
  | surrogate offset =>
    obtain ⟨hlow, hhigh⟩ := code_surrogate offset
    rw [escape_surrogate] at h
    cases q with
    | char d => exact absurd (char_injective.list_map h).symm (Text.escape_ne_surrogate hlow hhigh)
    | surrogate offset' =>
      rw [escape_surrogate] at h
      rw [escapeCode_injective (char_injective.list_map h)]

theorem quoted_injective : Function.Injective quoted := by
  intro p q h
  have hquote : p.quote = q.quote := char_injective (List.cons.inj h).1
  have hinside := (List.cons.inj h).2
  rw [hquote] at hinside
  exact escape_injective q.isQuote_quote (List.append_cancel_right hinside)

/-! ## Characters in front of a surrogate -/

variable {tail : List Point}

theorem front_map_append (htail : front tail = []) (cs : List Char) :
    front (cs.map char ++ tail) = cs := by
  induction cs with
  | nil => exact htail
  | cons c cs ih => exact congrArg (c :: ·) ih

theorem beyond_map_append (htail : front tail = []) (cs : List Char) :
    beyond (cs.map char ++ tail) = tail := by
  have hsplit := front_append_beyond (cs.map char ++ tail)
  rw [front_map_append htail] at hsplit
  exact List.append_cancel_left hsplit

theorem front_beyond (ps : List Point) : front (beyond ps) = [] := by
  induction ps with
  | nil => rfl
  | cons p ps ih =>
    cases p with
    | char c => exact ih
    | surrogate offset => rfl

@[simp]
theorem front_nil : front [] = [] := rfl

@[simp]
theorem front_ofString (s : String) : front (ofString s) = s.toList := by
  simpa [ofString] using front_map_append front_nil s.toList

@[simp]
theorem ofString_append (s t : String) : ofString (s ++ t) = ofString s ++ ofString t := by
  simp [ofString]

end Point

/-! ## One call -/

theorem Report.foreign_char (c : Char) (position : Position) :
    foreign (.char c) position = (Fault.mk (.foreignCharacter c) position).diagnostic.report := by
  simp [foreign, Point.quoted_char, Diagnostic.report, Fault.diagnostic, Cause.kind, Cause.description]

/-- The cursor in front of more code points than it knows of. -/
def Cursor.over (tail : List Point) (c : Cursor) : PointCursor :=
  ⟨c.rest.map .char ++ tail, c.pos, c.line, c.lineStart⟩

/-- What a reply becomes in front of more code points: where the end of the input was, there is the first
of these. -/
def replyOver (tail : List Point) : Except Fault Token → Except Report Token
  | .error fault => .error fault.diagnostic.report
  | .ok t =>
    match tail with
    | [] => .ok t
    | p :: _ => if t.symbol = .endOfInput then .error (.foreign p t.position) else .ok t

section
variable {tail : List Point} {decimals : Bool}

theorem replyOver_of_ne {t : Token} (h : t.symbol ≠ .endOfInput) : replyOver tail (.ok t) = .ok t := by
  cases tail with
  | nil => rfl
  | cons p tail => exact if_neg h

theorem PointCursor.skipFrom_map_append (htail : Point.front tail = []) (cs : List Char)
    (pos line lineStart : Nat) : skipFrom (cs.map .char ++ tail) pos line lineStart =
      (Cursor.skipFrom cs pos line lineStart).over tail := by
  induction cs generalizing pos line lineStart with
  | nil =>
    rcases tail with _ | ⟨c | offset, tail⟩
    · rfl
    · cases htail
    · rfl
  | cons c cs ih =>
    have hfeed : Point.char c = .char '\n' ↔ c = '\n' := Point.char_injective.eq_iff
    have hblank : (Point.char c).isBlank = isBlank c := rfl
    rw [List.map_cons, List.cons_append, skipFrom, Cursor.skipFrom]
    simp only [hfeed, hblank]
    split_ifs
    · exact ih ..
    · exact ih ..
    · rfl

/-- A surrogate ends what a cursor can read, and takes part in nothing in front of it. -/
theorem PointCursor.next_over (htail : Point.front tail = []) {c after : Cursor}
    {reply : Except Fault Token} (h : c.next decimals = (reply, after)) :
    (c.over tail).next decimals = (replyOver tail reply, after.over tail) := by
  have hskip : (c.over tail).skipBlanks = c.skipBlanks.over tail := skipFrom_map_append htail ..
  have hfront : Point.front (c.skipBlanks.over tail).rest = c.skipBlanks.rest :=
    Point.front_map_append htail _
  have hbeyond : Point.beyond (c.skipBlanks.over tail).rest = tail := Point.beyond_map_append htail _
  unfold next
  rw [hskip]
  simp only [hfront, hbeyond]
  cases Cursor.finds h with
  | nothing hnone =>
    simp only [Cursor.over, hnone, List.map_nil, List.nil_append]
    cases tail with
    | nil => rfl
    | cons p tail => rfl
  | @symbol x width more hsplit =>
    have hend := Symbol.ne_endOfInput_of_split? hsplit
    rw [replyOver_of_ne hend]
    cases hrest : c.skipBlanks.rest with
    | nil =>
      rw [hrest] at hsplit
      cases hsplit
    | cons first cs =>
      rw [hrest] at hsplit
      simp only [Cursor.over, hrest, List.map_cons, List.cons_append, hsplit]
      rfl
  | @foreign first cs hrest hnone =>
    rw [hrest] at hnone
    simp only [Cursor.over, hrest, List.map_cons, List.cons_append, hnone, Report.foreign_char]
    rfl

end

/-! ## Whole sources without surrogates -/

/-- A parser of characters as one of code points. -/
def Parser.points (q : Parser) : PointParser := ⟨q.decimals, q.cursor.over [], q.current⟩

theorem replyOver_nil (reply : Except Fault Token) :
    replyOver [] reply = reply.mapError fun fault => fault.diagnostic.report := by
  cases reply <;> rfl

theorem PointCursor.start_ofString (s : String) :
    start (Point.ofString s) = (Cursor.start s.toList).over [] := by
  simp [start, Cursor.over, Cursor.start, Point.ofString]

theorem PointParser.advance_points {q q' : Parser} {t : Token} (h : q.advance = (.ok t, q')) :
    q.points.advance = .ok q'.points := by
  cases Parser.advances h with
  | atEnd hend => exact if_pos hend
  | taken hend hnext =>
    have hover := PointCursor.next_over Point.front_nil hnext
    rw [replyOver_nil] at hover
    rw [advance, if_neg (by exact hend), Parser.points, hover]
    rfl

theorem PointParser.advance_points_of_fault {q q' : Parser} {fault : Fault}
    (h : q.advance = (.error fault, q')) :
    q.points.advance = .error fault.diagnostic.report := by
  cases Parser.advances h with
  | blocked hend hnext =>
    have hover := PointCursor.next_over Point.front_nil hnext
    rw [advance, if_neg (by exact hend), Parser.points, hover]
    rfl

theorem PointParser.run_points (q : Parser) (s : Progress) :
    q.points.run s = (q.run s).1.mapError Failure.halt := by
  fun_induction Parser.run q s with
  | case1 q s failure hstep =>
    rw [run]
    split <;> rename_i heq <;> cases hstep.symm.trans heq
    rfl
  | case2 q s tree hstep =>
    rw [run]
    split <;> rename_i heq <;> cases hstep.symm.trans heq
    rfl
  | case3 q s s' hstep fault q' hadvance =>
    rw [run]
    split <;> rename_i heq <;> cases hstep.symm.trans heq
    split <;> rename_i hnext <;> cases (advance_points_of_fault hadvance).symm.trans hnext
    rfl
  | case4 q s s' hstep t q' hadvance _ ih =>
    rw [run]
    split <;> rename_i heq <;> cases hstep.symm.trans heq
    split <;> rename_i hnext <;> cases (advance_points hadvance).symm.trans hnext
    exact ih

theorem parsePoints_ofString (decimals : Bool) (s : String) :
    parsePoints decimals (Point.ofString s) = (parse decimals s).mapError Failure.halt := by
  have hstart := PointCursor.start_ofString s
  unfold parsePoints parse PointParser.start Parser.start
  rw [hstart]
  cases hnext : (Cursor.start s.toList).next decimals with
  | mk reply after =>
    rw [PointCursor.next_over Point.front_nil hnext, replyOver_nil]
    cases reply with
    | error fault => rfl
    | ok t => exact PointParser.run_points ⟨decimals, after, t⟩ .initial

/-- On a source without surrogates the code points change nothing. -/
theorem evaluatePoints_ofString (decimals : Bool) (s : String) :
    evaluatePoints decimals (Point.ofString s) = (evaluate decimals s).mapError Failure.halt := by
  unfold evaluatePoints evaluate
  rw [parsePoints_ofString]
  cases parse decimals s with
  | error failure => rfl
  | ok tree =>
    simp only [Except.mapError]
    cases tree.evaluate <;> rfl

/-! ## Where a report comes from -/

theorem Reports.at_end {decimals : Bool} {before rest before' rest' : List Char} {t : Token}
    (h : Reports decimals before rest (.ok t) before' rest') (hend : t.symbol = .endOfInput) :
    rest' = [] ∧ t.position = .behind before' := by
  cases h with
  | @lexeme _ _ l => cases l <;> cases hend
  | endOfInput => exact ⟨rfl, rfl⟩

/-- A cursor that is held up stands in front of the code point that it reports. -/
theorem Reports.exists_point {decimals : Bool} {before rest before' rest' : List Char}
    {found : Except Fault Token} {tail : List Point} {r : Report}
    (h : Reports decimals before rest found before' rest') (hr : replyOver tail found = .error r) :
    ∃ p more, rest'.map .char ++ tail = p :: more ∧ r = .foreign p (.behind before') := by
  cases found with
  | error fault =>
    obtain ⟨first, more, rfl, rfl⟩ := h.foreign_of_fault
    cases hr
    exact ⟨.char first, _, rfl, (Report.foreign_char ..).symm⟩
  | ok t =>
    by_cases hend : t.symbol = .endOfInput
    · obtain ⟨rfl, hposition⟩ := h.at_end hend
      cases tail with
      | nil => cases hr
      | cons p tail =>
        rw [replyOver, if_pos hend] at hr
        cases hr
        exact ⟨p, tail, rfl, congrArg _ hposition⟩
    · rw [replyOver_of_ne hend] at hr
      cases hr

/-- The cursor stands where it says in the characters in front of the first surrogate. -/
def PointCursor.ExactIn (source : List Point) (c : PointCursor) : Prop :=
  ∃ cursor : Cursor, cursor.ExactIn (Point.front source) ∧ c = cursor.over (Point.beyond source)

/-- What a report on a source is about: a token that may not come next, or a code point that starts none
and stands where the report says. -/
inductive Report.On (source : List Point) : Report → Prop where
  | token {cause : Cause} (position : Position) : cause.kind.stage = .parsing →
    On source (Fault.mk cause position).diagnostic.report
  | point {p : Point} {before : List Char} {rest : List Point} :
    source = before.map .char ++ p :: rest → On source (.foreign p (.behind before))

section
variable {decimals : Bool} {source : List Point}

theorem Cursor.ExactIn.source_eq {c : Cursor} (h : c.ExactIn (Point.front source)) :
    source = ((Point.front source).take c.pos).map .char ++
      (c.rest.map .char ++ Point.beyond source) := by
  rw [h.rest_eq, ← List.append_assoc, ← List.map_append, List.take_append_drop,
    Point.front_append_beyond]

theorem PointCursor.ExactIn.start (source : List Point) : (start source).ExactIn source := by
  refine ⟨.start (Point.front source), .start _, ?_⟩
  simp [PointCursor.start, Cursor.over, Cursor.start, Point.front_append_beyond]

theorem PointCursor.ExactIn.next {c after : PointCursor} {reply : Except Report Token}
    (h : c.ExactIn source) (hnext : c.next decimals = (reply, after)) :
    after.ExactIn source ∧ ∀ r, reply = .error r → r.On source := by
  obtain ⟨cursor, hexact, rfl⟩ := h
  cases hchars : cursor.next decimals with
  | mk found stop =>
    rw [next_over (Point.front_beyond source) hchars] at hnext
    cases hnext
    obtain ⟨hstop, hreports⟩ := hexact.next hchars
    refine ⟨⟨stop, hstop, rfl⟩, fun r hr => ?_⟩
    obtain ⟨p, rest, hahead, rfl⟩ := hreports.exists_point hr
    exact .point (hstop.source_eq.trans (congrArg _ hahead))

theorem PointParser.exactIn_advance {p p' : PointParser} (hp : p.cursor.ExactIn source)
    (h : p.advance = .ok p') : p'.cursor.ExactIn source := by
  unfold advance at h
  split at h
  · cases h
    exact hp
  · split at h
    · rename_i hnext
      cases h
      exact (hp.next hnext).1
    · cases h

theorem PointParser.report_of_advance {p : PointParser} {r : Report} (hp : p.cursor.ExactIn source)
    (h : p.advance = .error r) : r.On source := by
  unfold advance at h
  split at h
  · cases h
  · split at h
    · cases h
    · rename_i hnext
      cases h
      exact (hp.next hnext).2 _ rfl

theorem PointParser.report_of_run {p : PointParser} {s : Progress} {r : Report}
    (hp : p.cursor.ExactIn source) (hs : s.Balanced) (h : p.run s = .error (.report r)) :
    r.On source := by
  fun_induction run p s with
  | case1 p s failure hstep =>
    have hkept := hs.step p.current
    rw [hstep] at hkept
    obtain ⟨cause, rfl, hstage, -⟩ := hkept
    cases h
    exact .token _ hstage
  | case2 => cases h
  | case3 p s s' hstep report hadvance =>
    cases h
    exact report_of_advance hp hadvance
  | case4 p s s' hstep p' hadvance _ ih =>
    have hkept := hs.step p.current
    rw [hstep] at hkept
    exact ih (exactIn_advance hp hadvance) hkept.1 h

theorem report_of_parsePoints {r : Report} (h : parsePoints decimals source = .error (.report r)) :
    r.On source := by
  unfold parsePoints PointParser.start at h
  have hstart := PointCursor.ExactIn.start source
  split at h
  · rename_i p hfirst
    split at hfirst
    · rename_i hnext
      cases hfirst
      exact PointParser.report_of_run (hstart.next hnext).1 Progress.balanced_initial h
    · cases hfirst
  · rename_i hfirst
    split at hfirst
    · cases hfirst
    · rename_i hnext
      cases hfirst
      cases h
      exact (hstart.next hnext).2 _ rfl

theorem report_of_evaluatePoints {r : Report}
    (h : evaluatePoints decimals source = .error (.report r)) : r.On source := by
  unfold evaluatePoints at h
  split at h
  · rename_i hparse
    cases h
    exact report_of_parsePoints hparse
  · split at h <;> cases h

end

end Arith
