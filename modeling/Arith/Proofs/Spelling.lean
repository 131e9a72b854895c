import Arith.Proofs.Acceptance
import Arith.Proofs.Lexemes

/-!
# The symbols of a text

`Spells` says which symbols a text comes apart into and what is left of it, without any positions.
Scanning finds just these symbols, and a fault just when something is left.
-/

namespace Arith

open Grammar

/-- The text comes apart into the symbols, and the rest starts with no blank and no symbol. -/
inductive Spells (decimals : Bool) : List Char → List Symbol → List Char → Prop where
  | stop {rest : List Char} : (∀ c ∈ rest.head?, isBlank c = false) →
    Symbol.split? decimals rest = none → Spells decimals rest [] rest
  | blank {c : Char} {cs rest : List Char} {a : List Symbol} : isBlank c →
    Spells decimals cs a rest → Spells decimals (c :: cs) a rest
  | symbol {cs more rest : List Char} {x : Symbol} {width : Nat} {a : List Symbol} :
    Symbol.split? decimals cs = some (x, width, more) → Spells decimals more a rest →
    Spells decimals cs (x :: a) rest

/-! ## Scanning -/

theorem Symbol.not_blank_of_split? {decimals : Bool} {c : Char} {cs : List Char}
    {result : Symbol × Nat × List Char} (h : Symbol.split? decimals (c :: cs) = some result) :
    isBlank c = false := by
  rw [Bool.eq_false_iff]
  intro hblank
  simp only [isBlank, Bool.or_eq_true, decide_eq_true_eq] at hblank
  rcases hblank with ((rfl | rfl) | rfl) | rfl <;> cases h

theorem Symbol.ne_endOfInput_of_split? {decimals : Bool} {cs more : List Char} {x : Symbol}
    {width : Nat} (h : Symbol.split? decimals cs = some (x, width, more)) : x ≠ .endOfInput := by
  obtain ⟨l, -, -, -, rfl⟩ := exists_lexeme_of_split? h
  cases l <;> simp [Lexeme.symbol]

theorem Spells.nil (decimals : Bool) : Spells decimals [] [] [] := .stop (by simp) rfl

theorem Spells.exists_of_text (decimals : Bool) (cs : List Char) : ∃ a rest, Spells decimals cs a rest := by
  -- On the length: a blank takes one character away, and a symbol at least one.
  induction hlength : cs.length using Nat.strongRecOn generalizing cs with
  | _ length ih =>
    cases hsplit : Symbol.split? decimals cs with
    | some found =>
      obtain ⟨x, width, more⟩ := found
      have hlt := Symbol.length_lt_of_split? hsplit
      obtain ⟨a, rest, hmore⟩ := ih more.length (hlength ▸ hlt) more rfl
      exact ⟨x :: a, rest, .symbol hsplit hmore⟩
    | none =>
      by_cases hstop : ∀ c ∈ cs.head?, isBlank c = false
      · exact ⟨[], cs, .stop hstop hsplit⟩
      · cases cs with
        | nil => simp at hstop
        | cons c cs =>
          have hblank : isBlank c := by simpa using hstop
          obtain ⟨a, rest, hmore⟩ := ih cs.length (hlength ▸ Nat.lt_succ_self _) cs rfl
          exact ⟨a, rest, .blank hblank hmore⟩

namespace Cursor

theorem next_of_end {decimals : Bool} {c : Cursor} (h : c.skipBlanks.rest = []) :
    c.next decimals = (.ok ⟨.endOfInput, c.skipBlanks.position⟩, c.skipBlanks) := by
  simp only [next]
  split
  · rfl
  · rename_i heq
    rw [h] at heq
    cases heq

theorem next_of_symbol {decimals : Bool} {c : Cursor} {x : Symbol} {width : Nat} {more : List Char}
    (h : Symbol.split? decimals c.skipBlanks.rest = some (x, width, more)) :
    c.next decimals = (.ok ⟨x, c.skipBlanks.position⟩,
      { c.skipBlanks with rest := more, pos := c.skipBlanks.pos + width }) := by
  simp only [next]
  split
  · rename_i heq
    rw [heq] at h
    cases h
  · rw [h]

theorem next_of_foreign {decimals : Bool} {c : Cursor} {first : Char} {cs : List Char}
    (hrest : c.skipBlanks.rest = first :: cs)
    (h : Symbol.split? decimals c.skipBlanks.rest = none) :
    c.next decimals = (.error ⟨.foreignCharacter first, c.skipBlanks.position⟩, c.skipBlanks) := by
  simp only [next]
  split
  · rename_i heq
    rw [hrest] at heq
    cases heq
  · rename_i heq
    rw [hrest] at heq
    cases heq
    rw [h]

theorem drain_eq_of_next_eq {decimals : Bool} {c c' : Cursor}
    (h : c.next decimals = c'.next decimals) : c.drain decimals = c'.drain decimals := by
  rcases hnext : c'.next decimals with ⟨fault | token, after⟩
  · rw [drain_of_fault hnext, drain_of_fault (h.trans hnext)]
  · by_cases hend : token.symbol = .endOfInput
    · rw [drain_of_end hnext hend, drain_of_end (h.trans hnext) hend]
    · rw [drain_of_token hnext hend, drain_of_token (h.trans hnext) hend]

theorem exists_drain_eq_of_blank {decimals : Bool} {c : Cursor} {blank : Char} {cs : List Char}
    (hrest : c.rest = blank :: cs) (hblank : isBlank blank) :
    ∃ c' : Cursor, c'.rest = cs ∧ c.drain decimals = c'.drain decimals := by
  by_cases hline : blank = '\n'
  · refine ⟨⟨cs, c.pos + 1, c.line + 1, c.pos + 1⟩, rfl, drain_eq_of_next_eq ?_⟩
    simp only [next, skipBlanks, hrest]
    rw [skipFrom, if_pos hline]
  · refine ⟨⟨cs, c.pos + 1, c.line, c.lineStart⟩, rfl, drain_eq_of_next_eq ?_⟩
    simp only [next, skipBlanks, hrest]
    rw [skipFrom, if_neg hline, if_pos hblank]

theorem skipBlanks_of_not_blank {c : Cursor} (h : ∀ first ∈ c.rest.head?, isBlank first = false) :
    c.skipBlanks = c := by
  obtain ⟨rest, pos, line, lineStart⟩ := c
  cases rest with
  | nil => rfl
  | cons first cs =>
    have hblank : isBlank first = false := h first rfl
    have hline : first ≠ '\n' := by
      rintro rfl
      cases hblank
    simp only [skipBlanks]
    rw [skipFrom, if_neg hline, if_neg (by simp [hblank])]

theorem drain_of_spells {decimals : Bool} {cs rest : List Char} {a : List Symbol}
    (h : Spells decimals cs a rest) {c : Cursor} (hc : c.rest = cs) :
    (c.drain decimals).lexemes.map Token.symbol = a ∧
      (c.drain decimals).fault?.map Fault.cause = rest.head?.map Cause.foreignCharacter := by
  induction h generalizing c with
  | @stop rest hblank hsplit =>
    subst hc
    have hskip := skipBlanks_of_not_blank hblank
    cases hrest : c.rest with
    | nil =>
      rw [drain_of_end (next_of_end (by rw [hskip, hrest])) rfl]
      exact ⟨rfl, rfl⟩
    | cons first more =>
      rw [drain_of_fault (next_of_foreign (by rw [hskip, hrest]) (by rw [hskip, hsplit]))]
      exact ⟨rfl, rfl⟩
  | blank hblank _ ih =>
    obtain ⟨c', hrest, hdrain⟩ := exists_drain_eq_of_blank hc hblank
    rw [hdrain]
    exact ih hrest
  | @symbol cs more rest x width a hsplit _ ih =>
    subst hc
    have hskip : c.skipBlanks = c := by
      apply skipBlanks_of_not_blank
      intro first hfirst
      obtain ⟨cs, hrest⟩ := List.head?_eq_some_iff.mp hfirst
      rw [hrest] at hsplit
      exact Symbol.not_blank_of_split? hsplit
    have hend := Symbol.ne_endOfInput_of_split? hsplit
    have hnext := next_of_symbol (by rw [hskip, hsplit] : Symbol.split? decimals c.skipBlanks.rest = _)
    obtain ⟨hlexemes, hfault⟩ := ih (c := { c.skipBlanks with
      rest := more, pos := c.skipBlanks.pos + width }) rfl
    rw [drain_of_token hnext hend]
    refine ⟨?_, hfault⟩
    simp only [Drained.lexemes] at hlexemes ⊢
    rw [List.filter_cons_of_pos (by simpa using hend), List.map_cons, hlexemes]

end Cursor

theorem scan_of_spells {decimals : Bool} {source : String} {a : List Symbol} {rest : List Char}
    (h : Spells decimals source.toList a rest) :
    (scan decimals source).lexemes.map Token.symbol = a ∧
      (scan decimals source).fault?.map Fault.cause = rest.head?.map Cause.foreignCharacter :=
  Cursor.drain_of_spells h rfl

/-! ## The text of single symbols -/

theorem Symbol.split?_of_ofMark? {decimals : Bool} {c : Char} {cs : List Char} {x : Symbol}
    (h : Symbol.ofMark? c = some x) : Symbol.split? decimals (c :: cs) = some (x, 1, cs) := by
  obtain ⟨l, hlegal, hstop, hchars, rfl⟩ := exists_lexeme_of_ofMark? decimals h
  have hsplit := split?_of_lexeme hlegal (hstop cs)
  rwa [hchars] at hsplit

theorem Symbol.ofMark?_symbol (op : Op) : Symbol.ofMark? op.symbol = some (.operator op) := by
  cases op <;> rfl

theorem Spells.mark {decimals : Bool} {c : Char} {cs rest : List Char} {x : Symbol}
    {a : List Symbol} (hc : Symbol.ofMark? c = some x) (h : Spells decimals cs a rest) :
    Spells decimals (c :: cs) (x :: a) rest :=
  .symbol (Symbol.split?_of_ofMark? hc) h

/-- A numeral in front of this text ends there. -/
def Numeral.EndsBefore (cs : List Char) : Prop := ∀ c ∈ cs.head?, c.isDigit = false ∧ c ≠ '.'

theorem Numeral.endsBefore_nil : EndsBefore [] := by
  intro first hfirst
  cases hfirst

theorem Numeral.endsBefore_cons {c : Char} {cs : List Char} (hdigit : c.isDigit = false)
    (hpoint : c ≠ '.') : EndsBefore (c :: cs) := by
  intro first hfirst
  obtain rfl : c = first := by simpa using hfirst
  exact ⟨hdigit, hpoint⟩

theorem Symbol.split?_of_digits {decimals : Bool} {digits cs : List Char} (hne : digits ≠ [])
    (hdigits : ∀ c ∈ digits, c.isDigit) (hcs : Numeral.EndsBefore cs) :
    Symbol.split? decimals (digits ++ cs) =
      some (.number (Numeral.value ⟨digits, none⟩), digits.length, cs) := by
  have hlegal : (Lexeme.number ⟨digits, none⟩).Legal decimals := ⟨hne, hdigits, by simp⟩
  have hstop : (Lexeme.number ⟨digits, none⟩).StopsAt decimals cs := by
    refine ⟨fun c hc => (hcs c hc).1, ?_⟩
    rintro - - c more rfl
    exact absurd rfl (hcs '.' rfl).2
  have hsplit := split?_of_lexeme hlegal hstop
  simpa only [Lexeme.chars, Lexeme.symbol, Numeral.chars, List.append_nil] using hsplit

theorem digitsValue_eq_ofDigitChars (digits : List Char) :
    digitsValue digits = Nat.ofDigitChars 10 digits 0 := by
  simp only [digitsValue, Nat.ofDigitChars_eq_foldl, Nat.mul_comm]

theorem digitsValue_toDigits (n : Nat) : digitsValue (Nat.toDigits 10 n) = n := by
  rw [digitsValue_eq_ofDigitChars]
  exact Nat.ofDigitChars_ten_toDigits

theorem Spells.natural {decimals : Bool} {n : Nat} {cs rest : List Char} {a : List Symbol}
    (hn : (Nat.toDigits 10 n).length ≤ digitRunLimit) (hcs : Numeral.EndsBefore cs)
    (h : Spells decimals cs a rest) :
    Spells decimals (Nat.toDigits 10 n ++ cs) (.number (.int n) :: a) rest := by
  have hvalue : Numeral.value ⟨Nat.toDigits 10 n, none⟩ = .int n := by
    simp [Numeral.value, hn, digitsValue_toDigits]
  have hdigits : ∀ c ∈ Nat.toDigits 10 n, c.isDigit := fun c hc =>
    Nat.isDigit_of_mem_toDigits (by omega) (by omega) hc
  rw [← hvalue]
  exact .symbol (Symbol.split?_of_digits Nat.toDigits_ne_nil hdigits hcs) h

/-! ## Reading -/

theorem parse_of_spells {decimals : Bool} {source : String} {a : List Symbol} {e : Expr}
    (h : Spells decimals source.toList a []) (hsum : Sum a e) : parse decimals source = .ok e := by
  obtain ⟨hlexemes, hfault⟩ := scan_of_spells h
  exact parse_eq_ok_iff.mpr ⟨by simpa using hfault, hlexemes ▸ hsum⟩

end Arith
