import Arith.Proofs.Nearest
import Arith.Proofs.Scanning
import Arith.Proofs.Evaluation

/-!
# The value of a numeral

A numeral denotes a rational number, and evaluates to the double that this number rounds to. It is
converted in two ways, which its length or its point decides; the value depends on neither.
-/

namespace Arith

namespace Numeral

variable {decimals : Bool} {n : Numeral}

/-! ## What a numeral denotes -/

def places (n : Numeral) : List Char := n.fraction.getD []

/-- The rational that a numeral denotes. -/
def denoted (n : Numeral) : ℚ :=
  (Nat.ofDigitChars 10 n.whole 0 : ℚ) +
    (Nat.ofDigitChars 10 n.places 0 : ℚ) / (Nat.pow 10 n.places.length : Nat)

theorem denoted_eq (n : Numeral) :
    n.denoted = (digitsValue (n.whole ++ n.places) : ℚ) / (Nat.pow 10 n.places.length : Nat) := by
  rw [digitsValue_eq_ofDigitChars, Nat.ofDigitChars_append, Nat.ofDigitChars_eq_ofDigitChars_zero]
  have hpos : (0 : ℚ) < (Nat.pow 10 n.places.length : Nat) := by
    exact_mod_cast Nat.pow_pos (by decide)
  unfold denoted
  rw [eq_div_iff hpos.ne', add_mul, div_mul_cancel₀ _ hpos.ne', Nat.mul_comm, Nat.cast_add,
    Nat.cast_mul, Nat.pow_eq]

/-! ## Its value -/

theorem toDouble_int (m : Nat) : (Literal.int m).toDouble = .ofDecimal m 0 := by
  have hofInt : Double.ofInt m = .ofDecimal m 0 := ofInt_natCast m
  rw [Literal.toDouble, hofInt]
  unfold Double.ofDecimal Double.ofQuotient
  split <;> rfl

theorem toDouble_value (n : Numeral) :
    n.value.toDouble = .ofDecimal (digitsValue (n.whole ++ n.places)) n.places.length := by
  obtain ⟨whole, fraction⟩ := n
  cases fraction with
  | some digits => rfl
  | none =>
    simp only [value, places, Option.getD_none, List.append_nil, List.length_nil]
    split
    · exact toDouble_int _
    · rfl

theorem roundsTo_value (n : Numeral) : Double.RoundsTo n.denoted n.value.toDouble := by
  have hplaces : 0 < Nat.pow 10 n.places.length := Nat.pow_pos (by decide)
  have hround := Double.ofQuotient_roundsTo
    (digitsValue (n.whole ++ n.places) * Double.one) hplaces
  rw [Nat.cast_mul, div_right_comm, mul_div_cancel_right₀ _ Double.cast_one_pos.ne',
    ← denoted_eq] at hround
  rw [toDouble_value]
  exact hround

-- The first whole number that is no double lies half way between two of them; the lower one is even.
example : (Literal.int 9007199254740993).toDouble = (Literal.int 9007199254740992).toDouble := by
  decide +kernel

/-! ## Zeros in front -/

def padded (k : Nat) (n : Numeral) : Numeral := { n with whole := List.replicate k '0' ++ n.whole }

theorem chars_padded (k : Nat) (n : Numeral) :
    (n.padded k).chars = List.replicate k '0' ++ n.chars := by
  unfold padded chars
  rw [List.append_assoc]

theorem Legal.padded (h : n.Legal decimals) (k : Nat) : (n.padded k).Legal decimals := by
  obtain ⟨hne, hdigits, hfraction⟩ := h
  refine ⟨by simp [Numeral.padded, hne], ?_, hfraction⟩
  refine List.forall_mem_append.mpr ⟨?_, hdigits⟩
  intro c hc
  rw [List.eq_of_mem_replicate hc]
  rfl

theorem toDouble_value_padded (k : Nat) (n : Numeral) :
    (n.padded k).value.toDouble = n.value.toDouble := by
  have hdigits : digitsValue ((n.padded k).whole ++ n.places) = digitsValue (n.whole ++ n.places) := by
    unfold padded
    simp only [digitsValue_eq_ofDigitChars, List.append_assoc]
    rw [Nat.ofDigitChars_append, Nat.ofDigitChars_replicate_zero, Nat.mul_zero]
  rw [toDouble_value, toDouble_value, ← hdigits]
  rfl

/-! ## Its text -/

theorem evaluate_chars (h : n.Legal decimals) :
    evaluate decimals (String.ofList n.chars) = .ok n.value.toDouble := by
  have hsplit : Symbol.split? decimals n.chars = some (.number n.value, n.chars.length, []) := by
    have hstop : (Lexeme.number n).StopsAt decimals [] := by
      simp [Lexeme.StopsAt, StopsAt]
    have hlexeme := Symbol.split?_of_lexeme (l := .number n) h hstop
    rwa [List.append_nil] at hlexeme
  have hspells : Spells decimals (String.ofList n.chars).toList [.number n.value] [] := by
    rw [String.toList_ofList]
    exact .symbol hsplit (.nil decimals)
  have hparse : parse decimals (String.ofList n.chars) = .ok (.number n.value) :=
    parse_of_spells hspells (.product (.signed (.power (.atom (.number n.value)))))
  refine evaluate_eq_ok_iff.mpr ⟨_, hparse, ?_⟩
  rw [Expr.evaluate, Draft.evaluate_eq_value]
  rfl

end Numeral

/-! ## The numbers of a source -/

theorem Scans.exists_lexeme_of_mem {decimals : Bool} {before cs before' rest : List Char}
    {ts : List Token} (h : Scans decimals before cs ts before' rest) :
    ∀ t ∈ ts, ∃ (l : Lexeme) (front more : List Char), l.Legal decimals ∧ l.StopsAt decimals more ∧
      l.symbol = t.symbol ∧ cs = front ++ l.chars ++ more ∧
      t.position = .behind (before ++ front) := by
  induction h with
  | stop => simp
  | @blank before cs before' rest c ts _ _ ih =>
    intro t ht
    obtain ⟨l, front, more, hlegal, hstop, hsymbol, rfl, hplace⟩ := ih t ht
    exact ⟨l, c :: front, more, hlegal, hstop, hsymbol, rfl, by simpa using hplace⟩
  | @lexeme before more before' rest l ts hlegal hstop _ ih =>
    intro t ht
    rcases List.mem_cons.mp ht with rfl | ht
    · exact ⟨l, [], more, hlegal, hstop, rfl, rfl, by simp⟩
    · obtain ⟨l', front, more', hlegal', hstop', hsymbol, rfl, hplace⟩ := ih t ht
      exact ⟨l', l.chars ++ front, more', hlegal', hstop', hsymbol, by simp, by simpa using hplace⟩

theorem exists_numeral_of_mem {decimals : Bool} {source : String} {t : Token} {value : Literal}
    (ht : t ∈ (scan decimals source).tokens) (hvalue : t.symbol = .number value) :
    ∃ (n : Numeral) (front more : List Char), n.Legal decimals ∧ n.StopsAt decimals more ∧
      n.value = value ∧ source.toList = front ++ n.chars ++ more ∧ t.position = .behind front := by
  obtain ⟨ts, before, rest, hscans⟩ := exists_scans decimals source
  have hmem : t ∈ ts := by
    have hends := scan_of_scans hscans
    cases rest with
    | cons c rest => rwa [hends.2] at ht
    | nil =>
      rw [hends.2] at ht
      rcases List.mem_append.mp ht with ht | ht
      · exact ht
      · rw [List.mem_singleton.mp ht] at hvalue
        cases hvalue
  obtain ⟨l, front, more, hlegal, hstop, hsymbol, hsource, hplace⟩ :=
    hscans.exists_lexeme_of_mem t hmem
  rw [hvalue] at hsymbol
  cases l with
  | number n =>
    cases hsymbol
    exact ⟨n, front, more, hlegal, hstop, rfl, hsource, hplace⟩
  | _ => cases hsymbol

/-- The numbers of a source are the values of the numerals that stand there. A numeral evaluates to the
double that the rational it denotes rounds to, which is infinite just from the overflow threshold on.
Whether digits are read as an integer or as a double makes no difference, and neither do zeros in
front. -/
theorem evaluate_numeral_rounds (decimals : Bool) :
    (∀ source, ∀ t ∈ (scan decimals source).tokens, ∀ value, t.symbol = .number value →
      ∃ (n : Numeral) (front more : List Char), n.Legal decimals ∧ n.StopsAt decimals more ∧
        n.value = value ∧ source.toList = front ++ n.chars ++ more ∧ t.position = .behind front) ∧
    (∀ n : Numeral, n.Legal decimals →
      evaluate decimals (String.ofList n.chars) = .ok n.value.toDouble ∧
      (∀ x, Double.RoundsTo n.denoted x ↔ x = n.value.toDouble) ∧
      (n.value.toDouble = .infinite false ↔ (overflowInt : ℚ) ≤ n.denoted) ∧
      ∀ k, evaluate decimals (String.ofList (List.replicate k '0' ++ n.chars)) =
        evaluate decimals (String.ofList n.chars)) ∧
    ∀ m : Nat, (Literal.int m).toDouble = (Literal.real (.ofDecimal m 0)).toDouble := by
  refine ⟨fun source t ht value hvalue => exists_numeral_of_mem ht hvalue, ?_, Numeral.toDouble_int⟩
  intro n h
  have hround := n.roundsTo_value
  refine ⟨Numeral.evaluate_chars h, fun x => ⟨fun hx => hx.unique hround, ?_⟩, hround.infinite_iff, ?_⟩
  · rintro rfl
    exact hround
  · intro k
    rw [← Numeral.chars_padded, Numeral.evaluate_chars (h.padded k), Numeral.evaluate_chars h,
      Numeral.toDouble_value_padded]

/-- A seven behind so many zeros that it is read as a double. -/
theorem evaluate_numeral_rounds_long :
    (Numeral.mk ['7'] none).Legal false ∧
      evaluate false (String.ofList (List.replicate 4300 '0' ++ ['7'])) =
        .ok (Numeral.mk ['7'] none).value.toDouble ∧
      Double.RoundsTo 7 (Numeral.mk ['7'] none).value.toDouble ∧
      ∃ (n : Numeral) (front more : List Char), n.Legal false ∧ n.StopsAt false more ∧
        n.value = .int 7 ∧ "1+7".toList = front ++ n.chars ++ more ∧
        (⟨1, 3⟩ : Position) = .behind front := by
  obtain ⟨hsource, hnumeral, -⟩ := evaluate_numeral_rounds false
  have hlegal : (Numeral.mk ['7'] none).Legal false :=
    ⟨by simp, List.forall_mem_singleton.mpr rfl, by simp⟩
  obtain ⟨hvalue, hround, -, hzeros⟩ := hnumeral _ hlegal
  have hdenoted : (Numeral.mk ['7'] none).denoted = 7 := by
    simp [Numeral.denoted, Numeral.places, Nat.ofDigitChars_cons]
  have hmem : ⟨.number (.int 7), ⟨1, 3⟩⟩ ∈ (scan false "1+7").tokens := by decide +kernel
  refine ⟨hlegal, (hzeros 4300).trans hvalue, ?_, hsource _ _ hmem _ rfl⟩
  rw [← hdenoted]
  exact (hround _).mpr rfl

end Arith
