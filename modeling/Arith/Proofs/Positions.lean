import Arith.Proofs.Lexemes
import Arith.Proofs.Reading

/-!
# The order of positions

Scanning only moves forward, so that the tokens of a source stand at different positions, each behind
the one before.
-/

namespace Arith

/-- A later line, or a later column of the same line. -/
def Position.Before (p q : Position) : Prop :=
  p.line < q.line ∨ p.line = q.line ∧ p.column < q.column

theorem Position.Before.ne {p q : Position} (h : p.Before q) : p ≠ q := by
  rintro rfl
  unfold Before at h
  omega

theorem Symbol.width_of_split? {decimals : Bool} {cs rest : List Char} {symbol : Symbol}
    {width : Nat} (h : Symbol.split? decimals cs = some (symbol, width, rest)) :
    width + rest.length = cs.length := by
  obtain ⟨l, hlegal, hstop, rfl, -⟩ := exists_lexeme_of_split? h
  rw [split?_of_lexeme hlegal hstop] at h
  cases h
  rw [List.length_append]

namespace Cursor

/-- No line starts behind the cursor on it. -/
def Sound (c : Cursor) : Prop := c.lineStart ≤ c.pos

theorem sound_start (source : List Char) : (start source).Sound := Nat.le_refl 0

/-- The cursor has not moved back. -/
def NotBehind (c c' : Cursor) : Prop :=
  c.line < c'.line ∨ c.line = c'.line ∧ c.lineStart = c'.lineStart ∧ c.pos ≤ c'.pos

theorem skipFrom_forward (cs : List Char) (pos line lineStart : Nat) (h : lineStart ≤ pos) :
    (skipFrom cs pos line lineStart).Sound ∧
      NotBehind ⟨cs, pos, line, lineStart⟩ (skipFrom cs pos line lineStart) := by
  induction cs generalizing pos line lineStart with
  | nil => exact ⟨h, .inr ⟨rfl, rfl, Nat.le_refl pos⟩⟩
  | cons c cs ih =>
    unfold skipFrom
    split
    · obtain ⟨hsound, hforward⟩ := ih (pos + 1) (line + 1) (pos + 1) (Nat.le_refl _)
      refine ⟨hsound, ?_⟩
      simp only [NotBehind] at hforward ⊢
      omega
    · split
      · obtain ⟨hsound, hforward⟩ := ih (pos + 1) line lineStart (Nat.le_succ_of_le h)
        refine ⟨hsound, ?_⟩
        simp only [NotBehind] at hforward ⊢
        omega
      · exact ⟨h, .inr ⟨rfl, rfl, Nat.le_refl pos⟩⟩

theorem next_forward {decimals : Bool} {c after : Cursor} {t : Token} (hc : c.Sound)
    (h : c.next decimals = (.ok t, after)) :
    after.Sound ∧ ¬ t.position.Before c.position ∧
      (t.symbol ≠ .endOfInput → t.position.Before after.position) := by
  obtain ⟨hsound, hforward⟩ := skipFrom_forward c.rest c.pos c.line c.lineStart hc
  have hposition : ¬ c.skipBlanks.position.Before c.position := by
    simp only [NotBehind, Sound, Position.Before, position, column, skipBlanks] at *
    omega
  cases finds h with
  | nothing _ => exact ⟨hsound, hposition, fun hend => absurd rfl hend⟩
  | symbol hsplit =>
    have hlt := Symbol.length_lt_of_split? hsplit
    have hwidth := Symbol.width_of_split? hsplit
    refine ⟨Nat.le_trans hsound (Nat.le_add_right _ _), hposition, fun _ => ?_⟩
    simp only [Sound, Position.Before, position, column] at *
    right
    refine ⟨trivial, ?_⟩
    change c.skipBlanks.lineStart ≤ c.skipBlanks.pos at hsound
    omega

theorem drain_forward {decimals : Bool} {c : Cursor} (hc : c.Sound) :
    (∀ t ∈ (c.drain decimals).tokens, ¬ t.position.Before c.position) ∧
      (c.drain decimals).tokens.Pairwise fun t t' => t.position.Before t'.position := by
  fun_induction drain decimals c with
  | case1 c fault after h => simp
  | case2 c token after h hend =>
    obtain ⟨-, hposition, -⟩ := next_forward hc h
    simpa using hposition
  | case3 c token after h hend _ more ih =>
    obtain ⟨hsound, hposition, hbefore⟩ := next_forward hc h
    obtain ⟨hmore, hpairwise⟩ := ih hsound
    have hbehind (t : Token) (ht : t ∈ more.tokens) : token.position.Before t.position := by
      have hnot := hmore t ht
      have hlt := hbefore hend
      simp only [Position.Before] at hnot hlt ⊢
      omega
    refine ⟨?_, List.pairwise_cons.mpr ⟨hbehind, hpairwise⟩⟩
    intro t ht
    rcases List.mem_cons.mp ht with rfl | ht
    · exact hposition
    · have hlt := hbehind t ht
      simp only [Position.Before] at hposition hlt ⊢
      omega

end Cursor

theorem scan_pairwise (decimals : Bool) (source : String) :
    (scan decimals source).tokens.Pairwise fun t t' => t.position.Before t'.position :=
  (Cursor.drain_forward (Cursor.sound_start source.toList)).2

end Arith
