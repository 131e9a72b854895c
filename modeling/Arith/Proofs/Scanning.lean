import Arith.Proofs.Offsets

/-!
# Tokens with their places

`Scans` says which tokens a text comes apart into and where each of them stands, from a place in the
text on and up to the first character that starts none. It knows nothing of cursors: a place is the text
in front of it. Scanning from an exact cursor on finds just these tokens.
-/

namespace Arith

theorem Lexeme.StopsAt.of_append {decimals : Bool} {l : Lexeme} {more tail : List Char}
    (h : l.StopsAt decimals (more ++ tail)) : l.StopsAt decimals more := by
  have hhead {p : Char → Bool} (hp : ∀ c ∈ (more ++ tail).head?, p c = false) :
      ∀ c ∈ more.head?, p c = false := by
    intro c hc
    obtain ⟨cs, rfl⟩ := List.head?_eq_some_iff.mp hc
    exact hp c rfl
  cases l with
  | number n =>
    obtain ⟨hdigit, hpoint⟩ := h
    refine ⟨hhead hdigit, ?_⟩
    rintro hdecimals hplain c cs rfl
    exact hpoint hdecimals hplain c (cs ++ tail) rfl
  | word letters => exact hhead h
  | openParen | closeParen | operator _ => trivial

/-- `Scans decimals before cs ts before' rest`: behind the text `before` the text `cs` comes apart into
the tokens `ts`, which ends behind the text `before'`, with a `rest` that starts with no blank and no
lexeme. -/
inductive Scans (decimals : Bool) :
    List Char → List Char → List Token → List Char → List Char → Prop where
  | stop {before rest : List Char} : (∀ c ∈ rest.head?, isBlank c = false) →
    Symbol.split? decimals rest = none → Scans decimals before rest [] before rest
  | blank {before cs before' rest : List Char} {c : Char} {ts : List Token} : isBlank c →
    Scans decimals (before ++ [c]) cs ts before' rest → Scans decimals before (c :: cs) ts before' rest
  | lexeme {before more before' rest : List Char} {l : Lexeme} {ts : List Token} :
    l.Legal decimals → l.StopsAt decimals more →
    Scans decimals (before ++ l.chars) more ts before' rest →
    Scans decimals before (l.chars ++ more) (⟨l.symbol, .behind before⟩ :: ts) before' rest

namespace Scans

variable {decimals : Bool} {before cs before' rest : List Char} {ts : List Token}

theorem exists_of_spells {a : List Symbol} (h : Spells decimals cs a rest) (before : List Char) :
    ∃ ts before', Scans decimals before cs ts before' rest := by
  induction h generalizing before with
  | stop hblank hsplit => exact ⟨[], before, .stop hblank hsplit⟩
  | @blank c cs rest a hblank _ ih =>
    obtain ⟨ts, before', h⟩ := ih (before ++ [c])
    exact ⟨ts, before', .blank hblank h⟩
  | symbol hsplit _ ih =>
    obtain ⟨l, hlegal, hstop, rfl, -⟩ := Symbol.exists_lexeme_of_split? hsplit
    obtain ⟨ts, before', h⟩ := ih (before ++ l.chars)
    exact ⟨_, before', .lexeme hlegal hstop h⟩

theorem stops (h : Scans decimals before cs ts before' rest) :
    (∀ c ∈ rest.head?, isBlank c = false) ∧ Symbol.split? decimals rest = none := by
  induction h with
  | stop hblank hsplit => exact ⟨hblank, hsplit⟩
  | blank _ _ ih => exact ih
  | lexeme _ _ _ ih => exact ih

theorem exists_run (h : Scans decimals before cs ts before' rest) :
    ∃ run, cs = run ++ rest ∧ before' = before ++ run := by
  induction h with
  | stop => exact ⟨[], rfl, by simp⟩
  | @blank before cs before' rest c ts _ _ ih =>
    obtain ⟨run, rfl, rfl⟩ := ih
    exact ⟨c :: run, rfl, by simp⟩
  | @lexeme before more before' rest l ts _ _ _ ih =>
    obtain ⟨run, rfl, rfl⟩ := ih
    exact ⟨l.chars ++ run, by simp, by simp⟩

theorem cut (h : Scans decimals before cs ts before' rest) {run : List Char} (hrun : cs = run ++ rest) :
    Scans decimals before run ts before' [] := by
  induction h generalizing run with
  | stop =>
    obtain rfl : run = [] := List.self_eq_append_left.mp hrun
    exact .stop (by simp) rfl
  | @blank before cs before' rest c ts hblank hmore ih =>
    obtain ⟨run', rfl, -⟩ := hmore.exists_run
    obtain rfl : c :: run' = run := List.append_cancel_right hrun
    exact .blank hblank (ih rfl)
  | @lexeme before more before' rest l ts hlegal hstop hmore ih =>
    obtain ⟨run', rfl, -⟩ := hmore.exists_run
    rw [← List.append_assoc] at hrun
    obtain rfl : l.chars ++ run' = run := List.append_cancel_right hrun
    exact .lexeme hlegal hstop.of_append (ih rfl)

end Scans

namespace Cursor

/-- Scanning ends with the end of the text, or with a fault at the first character of what is left. -/
def Drained.Ends (d : Drained) (ts : List Token) (before : List Char) : List Char → Prop
  | [] => d.fault? = none ∧ d.tokens = ts ++ [⟨.endOfInput, .behind before⟩]
  | c :: _ => d.fault? = some ⟨.foreignCharacter c, .behind before⟩ ∧ d.tokens = ts

theorem ExactIn.drain {decimals : Bool} {text before cs before' rest : List Char} {ts : List Token}
    {c : Cursor} (h : c.ExactIn text) (hbefore : text.take c.pos = before) (hrest : c.rest = cs)
    (hscans : Scans decimals before cs ts before' rest) : (c.drain decimals).Ends ts before' rest := by
  induction hscans generalizing c with
  | @stop before rest hblank hsplit =>
    subst hrest
    have hskip := skipBlanks_of_not_blank hblank
    have hplace := h.position_eq
    rw [hbefore] at hplace
    cases hrest : c.rest with
    | nil =>
      rw [drain_of_end (next_of_end (by rw [hskip, hrest])) rfl, hskip, hplace]
      exact ⟨rfl, rfl⟩
    | cons first more =>
      rw [drain_of_fault (next_of_foreign (by rw [hskip, hrest]) (by rw [hskip, hsplit])), hskip, hplace]
      exact ⟨rfl, rfl⟩
  | @blank before cs before' rest first ts hblank _ ih =>
    have hfirst : c.rest = [first] ++ cs := hrest
    obtain ⟨c', hexact, hmore, hpos, hskip⟩ := h.skipBlank hrest hblank
    have hnext : c.next decimals = c'.next decimals := by
      unfold Cursor.next
      rw [hskip]
    rw [drain_eq_of_next_eq hnext]
    apply ih hexact _ hmore
    rw [hpos, ← hbefore]
    exact (h.split hfirst).1
  | @lexeme before more before' rest l ts hlegal hstop _ ih =>
    have hsplit := Symbol.split?_of_lexeme hlegal hstop
    have hskip : c.skipBlanks = c := by
      apply skipBlanks_of_not_blank
      intro first hfirst
      rw [hrest] at hfirst
      obtain ⟨cs, hcs⟩ := List.head?_eq_some_iff.mp hfirst
      rw [hcs] at hsplit
      exact Symbol.not_blank_of_split? hsplit
    have hplace := h.position_eq
    have hnext := next_of_symbol (c := c) (by rw [hskip, hrest, hsplit])
    rw [hskip, hplace, hbefore] at hnext
    have hread := h.read hrest (Lexeme.lineFeed_not_mem hlegal)
    have hdrain := ih hread (by rw [(h.split hrest).1, hbefore]) rfl
    rw [drain_of_token hnext (Symbol.ne_endOfInput_of_split? hsplit)]
    cases rest with
    | nil => exact ⟨hdrain.1, congrArg (_ :: ·) hdrain.2⟩
    | cons first rest => exact ⟨hdrain.1, congrArg (_ :: ·) hdrain.2⟩

end Cursor

section
variable {decimals : Bool} {source : String} {before rest : List Char} {ts : List Token}

theorem exists_scans (decimals : Bool) (source : String) :
    ∃ ts before rest, Scans decimals [] source.toList ts before rest := by
  obtain ⟨a, rest, hspells⟩ := Spells.exists_of_text decimals source.toList
  obtain ⟨ts, before, h⟩ := Scans.exists_of_spells hspells []
  exact ⟨ts, before, rest, h⟩

theorem scan_of_scans (h : Scans decimals [] source.toList ts before rest) :
    (scan decimals source).Ends ts before rest :=
  (Cursor.ExactIn.start source.toList).drain rfl rfl h

theorem tokenize_of_scans (h : Scans decimals [] source.toList ts before []) :
    tokenize decimals source = .ok (ts ++ [⟨.endOfInput, .behind before⟩]) := by
  obtain ⟨hnone, htokens⟩ := scan_of_scans h
  exact tokenize_eq_ok_iff.mpr ⟨hnone, htokens⟩

theorem tokenize_of_scans_cons {c : Char}
    (h : Scans decimals [] source.toList ts before (c :: rest)) :
    tokenize decimals source = .error ⟨.foreignCharacter c, .behind before⟩ ∧
      (scan decimals source).tokens = ts := by
  obtain ⟨hfault, htokens⟩ := scan_of_scans h
  exact ⟨tokenize_eq_error_iff.mpr hfault, htokens⟩

end

end Arith
