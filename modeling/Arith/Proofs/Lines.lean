import Arith.Proofs.Composing
import Arith.Proofs.Scanning

/-!
# Texts line by line

No lexeme goes on with a line feed, and a fault in front of one does not go away. So the tokens of two
texts with a line feed between them are those of the first and then those of the second, which stand in
the columns where they stand without the first text, on later lines.
-/

namespace Arith

/-! ## Later lines -/

/-- The same column, so many lines further down. -/
def Position.lower (lines : Nat) (p : Position) : Position := ⟨p.line + lines, p.column⟩

def Token.lower (lines : Nat) (t : Token) : Token := { t with position := t.position.lower lines }

def Fault.lower (lines : Nat) (f : Fault) : Fault := { f with position := f.position.lower lines }

def lowered (lines : Nat) (found : Except Fault (List Token)) : Except Fault (List Token) :=
  (found.mapError (Fault.lower lines)).map (List.map (Token.lower lines))

theorem Position.behind_lower (front before : List Char) :
    behind (front ++ '\n' :: before) = (behind before).lower (front.count '\n' + 1) := by
  induction before using List.reverseRecOn with
  | nil =>
    rw [behind_lineFeed]
    simp [behind, lower, Nat.add_comm]
  | append_singleton before c ih =>
    have hsplit : front ++ '\n' :: (before ++ [c]) = front ++ '\n' :: before ++ [c] := by simp
    rw [hsplit]
    by_cases hc : c = '\n'
    · rw [hc, behind_lineFeed, behind_lineFeed, ih]
      simp only [lower, Nat.add_right_comm]
    · rw [behind_singleton _ hc, behind_singleton _ hc, ih]
      rfl

/-! ## Across a line feed -/

theorem delimits_lineFeed : Delimits '\n' := ⟨rfl, rfl, by decide⟩

theorem Symbol.split?_eq_none_iff {decimals : Bool} {c : Char} {cs : List Char} :
    split? decimals (c :: cs) = none ↔
      c.isDigit = false ∧ c.isAlpha = false ∧ ofMark? c = none := by
  simp only [split?]
  split_ifs with hdigit halpha <;> simp [*]

namespace Scans

variable {decimals : Bool} {before cs before' rest : List Char} {ts : List Token}

theorem ne_endOfInput (h : Scans decimals before cs ts before' rest) :
    ∀ t ∈ ts, t.symbol ≠ .endOfInput := by
  induction h with
  | stop => simp
  | blank _ _ ih => exact ih
  | lexeme hlegal hstop _ ih =>
    have hsymbol := Symbol.ne_endOfInput_of_split? (Symbol.split?_of_lexeme hlegal hstop)
    exact List.forall_mem_cons.mpr ⟨hsymbol, ih⟩

theorem append {c : Char} {tail before'' rest' : List Char} {us : List Token}
    (h : Scans decimals before cs ts before' rest) (hc : Delimits c)
    (hmore : Scans decimals before' (rest ++ c :: tail) us before'' rest') :
    Scans decimals before (cs ++ c :: tail) (ts ++ us) before'' rest' := by
  induction h with
  | stop => exact hmore
  | blank hblank _ ih => exact .blank hblank (ih hmore)
  | lexeme hlegal hstop _ ih =>
    rw [List.append_assoc]
    exact .lexeme hlegal (hstop.append hc tail) (ih hmore)

theorem append_stopped {c first : Char}
    (h : Scans decimals before cs ts before' (first :: rest)) (hc : Delimits c) (tail : List Char) :
    Scans decimals before (cs ++ c :: tail) ts before' (first :: (rest ++ c :: tail)) := by
  obtain ⟨hblank, hnone⟩ := h.stops
  rw [Symbol.split?_eq_none_iff] at hnone
  have hstop : Scans decimals before' (first :: (rest ++ c :: tail)) [] before'
      (first :: (rest ++ c :: tail)) := by
    apply Scans.stop
    · simpa using hblank
    · rw [Symbol.split?_eq_none_iff]
      exact hnone
  simpa using h.append hc hstop

theorem lower (front : List Char) (h : Scans decimals before cs ts before' rest) :
    Scans decimals (front ++ '\n' :: before) cs (ts.map (Token.lower (front.count '\n' + 1)))
      (front ++ '\n' :: before') rest := by
  induction h with
  | stop hblank hnone => exact .stop hblank hnone
  | blank hblank _ ih =>
    apply Scans.blank hblank
    simpa using ih
  | @lexeme before more before' rest l ts hlegal hstop _ ih =>
    have hplace : Token.lower (front.count '\n' + 1) ⟨l.symbol, .behind before⟩ =
        ⟨l.symbol, .behind (front ++ '\n' :: before)⟩ := by
      rw [Position.behind_lower]
      rfl
    rw [List.map_cons, hplace]
    apply Scans.lexeme hlegal hstop
    simpa using ih

/-- The second of two texts with a line feed between them, behind all of the first. -/
theorem nextLine {text run : List Char} {us : List Token}
    (h : Scans decimals [] text ts before' []) (hmore : Scans decimals [] cs us run rest) :
    Scans decimals [] (text ++ '\n' :: cs) (ts ++ us.map (Token.lower (text.count '\n' + 1)))
      (text ++ '\n' :: run) rest := by
  obtain ⟨whole, hwhole, hbefore⟩ := h.exists_run
  rw [List.append_nil] at hwhole
  rw [List.nil_append] at hbefore
  subst hwhole hbefore
  apply h.append delimits_lineFeed
  apply Scans.blank rfl
  exact hmore.lower before'

end Scans

/-- The tokens of two texts with a line feed between them: those of the first without its end of input,
and then those of the second on later lines. A fault of the first text is the fault of both, and
otherwise one of the second is, on its later line. -/
theorem tokenize_append_lineFeed (decimals : Bool) (a b : String) :
    tokenize decimals (a ++ "\n" ++ b) = (do
      let ts ← tokenize decimals a
      let us ← lowered (a.toList.count '\n' + 1) (tokenize decimals b)
      return ts.filter (·.symbol ≠ .endOfInput) ++ us) := by
  have htext : (a ++ "\n" ++ b).toList = a.toList ++ '\n' :: b.toList := by simp
  obtain ⟨ts, read, rest, ha⟩ := exists_scans decimals a
  obtain ⟨us, read', rest', hb⟩ := exists_scans decimals b
  cases rest with
  | cons first rest =>
    have hstopped := ha.append_stopped delimits_lineFeed b.toList
    rw [← htext] at hstopped
    rw [(tokenize_of_scans_cons ha).1, (tokenize_of_scans_cons hstopped).1]
    rfl
  | nil =>
    have hlexemes (last : Token) (hlast : last.symbol = .endOfInput) :
        (ts ++ [last]).filter (·.symbol ≠ .endOfInput) = ts := by
      simpa [hlast] using ha.ne_endOfInput
    have hboth := ha.nextLine hb
    rw [← htext] at hboth
    cases rest' with
    | nil =>
      rw [tokenize_of_scans ha, tokenize_of_scans hb, tokenize_of_scans hboth, Position.behind_lower]
      change Except.ok _ = Except.ok (List.filter _ _ ++ List.map _ _)
      rw [hlexemes _ rfl, List.map_append, List.append_assoc]
      rfl
    | cons first rest' =>
      rw [tokenize_of_scans ha, (tokenize_of_scans_cons hb).1, (tokenize_of_scans_cons hboth).1,
        Position.behind_lower]
      rfl

-- A point that no digit follows stays the first fault when a line is appended.
example : tokenize true "2.\n$" = tokenize true "2." := by decide +kernel

end Arith
