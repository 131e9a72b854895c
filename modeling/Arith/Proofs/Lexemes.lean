import Arith.Cursor

/-!
# Lexemes

A lexeme is the stretch of text that one token covers. Which stretches are lexemes, and what may not
follow one, is said here without reading any text. Splitting the front of a text finds a lexeme that
ends where it may, and there is never a second one.
-/

namespace Arith

theorem span_of_run {p : Char → Bool} {run rest : List Char} (hrun : ∀ c ∈ run, p c)
    (hrest : ∀ c ∈ rest.head?, p c = false) :
    (run ++ rest).takeWhile p = run ∧ (run ++ rest).dropWhile p = rest := by
  rw [List.takeWhile_append_of_pos hrun, List.dropWhile_append_of_pos hrun]
  cases rest with
  | nil => simp
  | cons c rest => simp [hrest c rfl]

theorem run_of_span (p : Char → Bool) (cs : List Char) :
    (∀ c ∈ cs.takeWhile p, p c) ∧ ∀ c ∈ (cs.dropWhile p).head?, p c = false := by
  constructor
  · exact List.all_eq_true.mp List.all_takeWhile
  · intro c hc
    have hstop := List.head?_dropWhile_not p cs
    rw [Option.mem_def.mp hc] at hstop
    exact hstop

/-! ## Numerals -/

namespace Numeral

variable {decimals : Bool} {n : Numeral} {more : List Char}

/-- A run of digits, or with decimals on two of them around a point. -/
def Legal (decimals : Bool) (n : Numeral) : Prop :=
  n.whole ≠ [] ∧ (∀ c ∈ n.whole, c.isDigit) ∧
    ∀ digits ∈ n.fraction, decimals ∧ digits ≠ [] ∧ ∀ c ∈ digits, c.isDigit

/-- The text behind a numeral starts with no digit, and with decimals on a run without a point is not
followed by a point and a digit. -/
def StopsAt (decimals : Bool) (more : List Char) (n : Numeral) : Prop :=
  (∀ c ∈ more.head?, c.isDigit = false) ∧
    (decimals → n.fraction = none → ∀ c cs, more = '.' :: c :: cs → c.isDigit = false)

theorem split_chars_append (h : n.Legal decimals) (hstop : n.StopsAt decimals more) :
    split decimals (n.chars ++ more) = (n, more) := by
  obtain ⟨whole, fraction⟩ := n
  obtain ⟨-, hwhole, hfraction⟩ := h
  obtain ⟨hdigit, hpoint⟩ := hstop
  cases fraction with
  | none =>
    obtain ⟨htake, hdrop⟩ := span_of_run hwhole hdigit
    simp only [chars, List.append_nil, split, htake, hdrop]
    split
    · rename_i c cs
      have hplain := hpoint rfl rfl c cs rfl
      rw [if_neg (by simp [hplain])]
    · rfl
  | some digits =>
    obtain ⟨rfl, hne, hdigits⟩ := hfraction digits rfl
    obtain ⟨d, ds, rfl⟩ := List.exists_cons_of_ne_nil hne
    have hfirst : d.isDigit := hdigits d List.mem_cons_self
    have hend : ∀ c ∈ ('.' :: (d :: ds ++ more)).head?, c.isDigit = false := by
      intro c hc
      cases hc
      rfl
    obtain ⟨htake, hdrop⟩ := span_of_run hwhole hend
    obtain ⟨htake', hdrop'⟩ := span_of_run hdigits hdigit
    simp only [chars, List.append_assoc, List.cons_append, split, htake, hdrop] at *
    rw [if_pos hfirst, htake', hdrop']

theorem legal_split {c : Char} (hdigit : c.isDigit) (cs : List Char) :
    (split decimals (c :: cs)).1.Legal decimals := by
  obtain ⟨hrun, -⟩ := run_of_span Char.isDigit (c :: cs)
  have hne : (c :: cs).takeWhile Char.isDigit ≠ [] := by simp [hdigit]
  unfold split
  simp only
  split
  · rename_i d more hdrop
    split
    · rename_i hfirst
      refine ⟨hne, hrun, ?_⟩
      rintro digits ⟨⟩
      refine ⟨rfl, by simp [hfirst], ?_⟩
      exact (run_of_span Char.isDigit (d :: more)).1
    · exact ⟨hne, hrun, by simp⟩
  · exact ⟨hne, hrun, by simp⟩

theorem stopsAt_split (decimals : Bool) (cs : List Char) :
    (split decimals cs).1.StopsAt decimals (split decimals cs).2 := by
  obtain ⟨-, hstop⟩ := run_of_span Char.isDigit cs
  unfold split
  simp only
  split
  · rename_i d more hdrop
    split
    · refine ⟨(run_of_span Char.isDigit (d :: more)).2, ?_⟩
      intro _ hnone
      cases hnone
    · rename_i hfirst
      rw [hdrop] at hstop
      refine ⟨hstop, ?_⟩
      rintro - - c cs ⟨⟩
      simpa using hfirst
  · rename_i hplain
    refine ⟨hstop, ?_⟩
    rintro rfl - c cs hcs
    exact (hplain c cs rfl hcs).elim

end Numeral

/-! ## Lexemes -/

/-- A stretch of text that is one token. -/
inductive Lexeme where
  | number (numeral : Numeral)
  | word (letters : List Char)
  | openParen
  | closeParen
  | operator (op : Op)

namespace Lexeme

def chars : Lexeme → List Char
  | number n => n.chars
  | word letters => letters
  | openParen => ['(']
  | closeParen => [')']
  | operator op => [op.symbol]

def symbol : Lexeme → Symbol
  | number n => .number n.value
  | word letters => .name (String.ofList letters)
  | openParen => .openParen
  | closeParen => .closeParen
  | operator op => .operator op

def Legal (decimals : Bool) : Lexeme → Prop
  | number n => n.Legal decimals
  | word letters => letters ≠ [] ∧ ∀ c ∈ letters, c.isAlpha
  | openParen | closeParen | operator _ => True

/-- What follows a lexeme does not make it longer. -/
def StopsAt (decimals : Bool) (more : List Char) : Lexeme → Prop
  | number n => n.StopsAt decimals more
  | word _ => ∀ c ∈ more.head?, c.isAlpha = false
  | openParen | closeParen | operator _ => True

end Lexeme

theorem not_digit_of_alpha {c : Char} (h : c.isAlpha) : c.isDigit = false := by
  have hletter : (decide ('A'.val ≤ c.val ∧ c.val ≤ 'Z'.val) ||
      (decide ('a'.val ≤ c.val) && decide (c.val ≤ 'z'.val))) = true := h
  rw [Bool.eq_false_iff]
  intro hdigit
  simp only [Char.isDigit, Bool.or_eq_true, Bool.and_eq_true, decide_eq_true_eq,
    UInt32.le_iff_toNat_le] at hletter hdigit
  simp at hletter hdigit
  omega

namespace Symbol

variable {decimals : Bool} {l : Lexeme} {more : List Char}

theorem split?_of_lexeme (h : l.Legal decimals) (hstop : l.StopsAt decimals more) :
    split? decimals (l.chars ++ more) = some (l.symbol, l.chars.length, more) := by
  cases l with
  | number n =>
    have hsplit := Numeral.split_chars_append h hstop
    obtain ⟨d, ds, hwhole⟩ := List.exists_cons_of_ne_nil h.1
    obtain ⟨cs, hcs⟩ : ∃ cs, n.chars ++ more = d :: cs := by simp [Numeral.chars, hwhole]
    have hdigit : d.isDigit := h.2.1 d (by simp [hwhole])
    simp only [Lexeme.chars, Lexeme.symbol]
    rw [hcs] at hsplit ⊢
    rw [split?, if_pos hdigit, hsplit]
  | word letters =>
    obtain ⟨hne, hletters⟩ := h
    obtain ⟨htake, hdrop⟩ := span_of_run hletters hstop
    obtain ⟨d, ds, rfl⟩ := List.exists_cons_of_ne_nil hne
    have halpha : d.isAlpha := hletters d List.mem_cons_self
    simp only [Lexeme.chars, Lexeme.symbol, List.cons_append] at htake hdrop ⊢
    rw [split?, if_neg (by simp [not_digit_of_alpha halpha]), if_pos halpha, htake, hdrop]
  | openParen => rfl
  | closeParen => rfl
  | operator op => cases op <;> rfl

theorem exists_lexeme_of_ofMark? (decimals : Bool) {c : Char} {x : Symbol} (h : ofMark? c = some x) :
    ∃ l : Lexeme, l.Legal decimals ∧ (∀ more, l.StopsAt decimals more) ∧ l.chars = [c] ∧
      l.symbol = x := by
  unfold ofMark? at h
  split at h
  · rename_i hc
    cases h
    exact ⟨.openParen, trivial, fun _ => trivial, by simp [Lexeme.chars, hc], rfl⟩
  · split at h
    · rename_i hc
      cases h
      exact ⟨.closeParen, trivial, fun _ => trivial, by simp [Lexeme.chars, hc], rfl⟩
    · obtain ⟨op, hop, rfl⟩ := Option.map_eq_some_iff.mp h
      have hc := List.find?_some hop
      simp only [decide_eq_true_eq] at hc
      exact ⟨.operator op, trivial, fun _ => trivial, by simp [Lexeme.chars, hc], rfl⟩

theorem exists_lexeme_of_split? {cs : List Char} {x : Symbol} {width : Nat}
    (h : split? decimals cs = some (x, width, more)) :
    ∃ l : Lexeme, l.Legal decimals ∧ l.StopsAt decimals more ∧ l.chars ++ more = cs ∧
      l.symbol = x := by
  cases cs with
  | nil => cases h
  | cons c cs =>
    simp only [split?] at h
    split at h
    · rename_i hdigit
      cases h
      exact ⟨.number _, Numeral.legal_split hdigit cs, Numeral.stopsAt_split decimals (c :: cs),
        Numeral.chars_split decimals (c :: cs), rfl⟩
    · split at h
      · rename_i halpha
        cases h
        obtain ⟨hletters, hstop⟩ := run_of_span Char.isAlpha (c :: cs)
        refine ⟨.word _, ⟨?_, hletters⟩, hstop, List.takeWhile_append_dropWhile, rfl⟩
        simp [halpha]
      · obtain ⟨symbol, hmark, heq⟩ := Option.map_eq_some_iff.mp h
        cases heq
        obtain ⟨l, hlegal, hstop, hchars, hsymbol⟩ := exists_lexeme_of_ofMark? decimals hmark
        exact ⟨l, hlegal, hstop _, by simp [hchars], hsymbol⟩

end Symbol

theorem Lexeme.eq_of_append_eq {decimals : Bool} {l l' : Lexeme} {more more' : List Char}
    (h : l.Legal decimals) (h' : l'.Legal decimals) (hstop : l.StopsAt decimals more)
    (hstop' : l'.StopsAt decimals more') (heq : l.chars ++ more = l'.chars ++ more') :
    l = l' ∧ more = more' := by
  have hsplit := Symbol.split?_of_lexeme h hstop
  rw [heq, Symbol.split?_of_lexeme h' hstop'] at hsplit
  simp only [Option.some.injEq, Prod.mk.injEq] at hsplit
  obtain ⟨hsymbol, -, rfl⟩ := hsplit
  refine ⟨?_, rfl⟩
  have hchars := List.append_cancel_right heq
  cases l with
  | number n =>
    cases l' with
    | number n' =>
      have hsplit := Numeral.split_chars_append h hstop
      rw [show n.chars = n'.chars from hchars, Numeral.split_chars_append h' hstop'] at hsplit
      cases hsplit
      rfl
    | _ => cases hsymbol
  | word letters =>
    cases l' with
    | word letters' => exact congrArg word hchars
    | _ => cases hsymbol
  | openParen | closeParen | operator _ =>
    cases l' <;> cases hsymbol
    rfl

end Arith
