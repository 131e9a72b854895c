import Arith.Proofs.Verdict

/-!
# What is accepted

The parser accepts the sentences of the grammar and nothing else, and answers with the only tree that
the grammar gives them.
-/

namespace Arith

open Grammar

namespace Grammar

/-! ## Sentences -/

theorem exists_sum_of_after {a : List Symbol} (h : Place.first.after? a = some .last) :
    ∃ e, Sum a e := by
  rw [← map_symbol_placed a] at h
  obtain ⟨s, -, hplace, hbuilds⟩ := Progress.read_of_after Progress.builds_initial h
  have hend : (⟨.endOfInput, ⟨1, 1⟩⟩ : Token).symbol = .endOfInput := rfl
  obtain ⟨e, -, hsum⟩ := Progress.step_at_end hbuilds hend hplace
  exact ⟨e, by simpa using hsum⟩

theorem sentence_iff_after {a : List Symbol} :
    Sentence a ↔ Place.first.after? a = some .last := by
  constructor
  · intro h
    exact h.after 0
  · intro h
    obtain ⟨e, hsum⟩ := exists_sum_of_after h
    exact hsum.sentence

theorem sentence_iff_exists_sum {a : List Symbol} : Sentence a ↔ ∃ e, Sum a e := by
  constructor
  · intro h
    exact exists_sum_of_after (sentence_iff_after.mp h)
  · rintro ⟨e, hsum⟩
    exact hsum.sentence

/-- A sequence that can be completed to a sentence. -/
def Viable (a : List Symbol) : Prop := ∃ b, Sentence (a ++ b)

theorem viable_iff_after {a : List Symbol} : Viable a ↔ ∃ q, Place.first.after? a = some q := by
  constructor
  · rintro ⟨b, h⟩
    rw [sentence_iff_after, Place.after?_append, Option.bind_eq_some_iff] at h
    obtain ⟨q, hq, -⟩ := h
    exact ⟨q, hq⟩
  · rintro ⟨q, hq⟩
    refine ⟨q.completion, ?_⟩
    rw [sentence_iff_after, Place.after?_append, hq, Option.bind_some, Place.after?_completion]

theorem viable_of_after {a : List Symbol} {q : Place} (h : Place.first.after? a = some q) :
    Viable a := viable_iff_after.mpr ⟨q, h⟩

/-! ## Grouping -/

section
variable {a b c : List Symbol} {x y z : Expr}

theorem sum_pow_pow (ha : Atom a x) (hb : Atom b y) (hc : Atom c z) :
    Sum (a ++ .operator .pow :: (b ++ .operator .pow :: c))
      (.binary .pow x (.binary .pow y z)) :=
  .product (.signed (.power (.operation ha (.power (.operation hb (.power (.atom hc)))))))

theorem sum_sign_pow (ha : Atom a x) (hb : Atom b y) {sign : Op} (hsign : sign.isSign) :
    Sum (.operator sign :: (a ++ .operator .pow :: b)) (.unary sign (.binary .pow x y)) :=
  .product (.signed (.sign hsign (.power (.operation ha (.power (.atom hb))))))

theorem sum_pow_sign (ha : Atom a x) (hb : Atom b y) {sign : Op} (hsign : sign.isSign) :
    Sum (a ++ .operator .pow :: .operator sign :: b) (.binary .pow x (.unary sign y)) :=
  .product (.signed (.power (.operation ha (.sign hsign (.power (.atom hb))))))

theorem sum_sign_product (ha : Atom a x) (hb : Atom b y) {sign op : Op} (hsign : sign.isSign)
    (hop : op = .mul ∨ op = .div) :
    Sum (.operator sign :: a ++ .operator op :: b) (.binary op (.unary sign x) y) :=
  .product (.operation (.signed (.sign hsign (.power (.atom ha)))) hop (.power (.atom hb)))

end

end Grammar

/-! ## Accepted tokens -/

theorem Cursor.Drained.WellEnded.lexemes_eq {d : Cursor.Drained} (h : d.WellEnded)
    {ts : List Token} {last : Token} (htokens : d.tokens = ts ++ [last])
    (hend : last.symbol = .endOfInput) : d.fault? = none ∧ d.lexemes = ts := by
  unfold Cursor.Drained.WellEnded at h
  split at h
  · have hmem : last ∈ d.lexemes := by rw [← h.1, htokens]; simp
    exact absurd hend (Cursor.Drained.symbol_ne_of_mem_lexemes hmem)
  · rename_i hfault
    obtain ⟨last', hlast, -⟩ := h
    rw [htokens] at hlast
    exact ⟨hfault, (List.append_inj_left' hlast rfl).symm⟩

theorem Verdict.ok_iff {d : Cursor.Drained} {result : Except Failure Expr} (h : Verdict d result)
    (hd : d.WellEnded) {e : Expr} :
    result = .ok e ↔ ∃ ts last, d.tokens = ts ++ [last] ∧ last.symbol = .endOfInput ∧
      Sum (ts.map Token.symbol) e := by
  constructor
  · rintro rfl
    cases h with
    | tree hafter hfault htokens hend hsum => exact ⟨_, _, htokens, hend, hsum⟩
  · rintro ⟨ts, last, htokens, hend, hsum⟩
    obtain ⟨hnone, rfl⟩ := hd.lexemes_eq htokens hend
    have hlast := sentence_iff_after.mp hsum.sentence
    cases h with
    | deadEnd hlexemes hb hnext _ =>
      rw [hlexemes, List.map_append, List.map_cons] at hlast
      simp [hb, hnext] at hlast
    | cut _ hfault _ => simp [hfault] at hnone
    | tooShort hafter hplace _ _ _ _ =>
      rw [hafter] at hlast
      exact absurd (Option.some.inj hlast) hplace
    | tree _ _ _ _ hsum' => rw [hsum.unique hsum']

theorem parse_eq_ok_iff {decimals : Bool} {source : String} {e : Expr} :
    parse decimals source = .ok e ↔
      (scan decimals source).fault? = none ∧ Sum ((scan decimals source).lexemes.map Token.symbol) e := by
  have hd := wellEnded_scan decimals source
  rw [(verdict_parse decimals source).ok_iff hd]
  constructor
  · rintro ⟨ts, last, htokens, hend, hsum⟩
    obtain ⟨hnone, rfl⟩ := hd.lexemes_eq htokens hend
    exact ⟨hnone, hsum⟩
  · rintro ⟨hnone, hsum⟩
    obtain ⟨last, htokens, hend⟩ := hd.last_of_no_fault hnone
    exact ⟨_, last, htokens, hend, hsum⟩

/-- The parser accepts just the tokens that have a tree, and answers with the one tree they have. That
tree has powers grouped from the right, a power inside the sign in front of it, a sign inside products,
and exponents that may start with a sign. -/
theorem parseExpression_eq_ok_iff (p : Parser) :
    (∀ e, p.parseExpression.1 = .ok e ↔
      ∃ ts last, p.ahead.tokens = ts ++ [last] ∧ last.symbol = .endOfInput ∧
        ∀ e', Sum (ts.map Token.symbol) e' ↔ e' = e) ∧
    ∀ {a b c : List Symbol} {x y z : Expr}, Atom a x → Atom b y → Atom c z →
      (∀ e, Sum (a ++ .operator .pow :: (b ++ .operator .pow :: c)) e ↔
        e = .binary .pow x (.binary .pow y z)) ∧
      ∀ sign : Op, sign.isSign →
        (∀ e, Sum (.operator sign :: (a ++ .operator .pow :: b)) e ↔
          e = .unary sign (.binary .pow x y)) ∧
        (∀ e, Sum (a ++ .operator .pow :: .operator sign :: b) e ↔
          e = .binary .pow x (.unary sign y)) ∧
        ∀ op : Op, op = .mul ∨ op = .div → ∀ e,
          Sum (.operator sign :: a ++ .operator op :: b) e ↔
            e = .binary op (.unary sign x) y := by
  refine ⟨fun e => ?_, fun ha hb hc => ⟨fun e => sum_iff (sum_pow_pow ha hb hc), fun sign hsign =>
    ⟨fun e => sum_iff (sum_sign_pow ha hb hsign), fun e => sum_iff (sum_pow_sign ha hb hsign),
      fun op hop e => sum_iff (sum_sign_product ha hb hsign hop)⟩⟩⟩
  rw [(verdict_parseExpression p).ok_iff p.wellEnded_ahead]
  constructor
  · rintro ⟨ts, last, htokens, hend, hsum⟩
    exact ⟨ts, last, htokens, hend, fun e' => sum_iff hsum⟩
  · rintro ⟨ts, last, htokens, hend, hsum⟩
    exact ⟨ts, last, htokens, hend, (hsum e).mpr rfl⟩

example : (parse false "2 ^ -3 ^ 2 * 4").toOption =
    some (.binary .mul (.binary .pow (.number (.int 2))
      (.unary .sub (.binary .pow (.number (.int 3)) (.number (.int 2))))) (.number (.int 4))) := by
  decide +kernel

/-- A source has a tree just when it scans to the end and its symbols form a sentence. -/
theorem exists_parse_eq_ok_iff (decimals : Bool) (source : String) :
    (∃ e, parse decimals source = .ok e) ↔
      ∃ ts last, tokenize decimals source = .ok (ts ++ [last]) ∧ last.symbol = .endOfInput ∧
        Sentence (ts.map Token.symbol) := by
  have hd : (scan decimals source).WellEnded := Cursor.wellEnded_drain ..
  have hok (e : Expr) := (verdict_parse decimals source).ok_iff hd (e := e)
  constructor
  · rintro ⟨e, hparse⟩
    obtain ⟨ts, last, htokens, hend, hsum⟩ := (hok e).mp hparse
    refine ⟨ts, last, ?_, hend, hsum.sentence⟩
    exact tokenize_eq_ok_iff.mpr ⟨(hd.lexemes_eq htokens hend).1, htokens⟩
  · rintro ⟨ts, last, htokenize, hend, hsentence⟩
    obtain ⟨e, hsum⟩ := sentence_iff_exists_sum.mp hsentence
    exact ⟨e, (hok e).mpr ⟨ts, last, (tokenize_eq_ok_iff.mp htokenize).2, hend, hsum⟩⟩

end Arith
