import Arith.Grammar
import Arith.Parser

/-!
# Sentences

Which symbol may come next in a sentence depends on two things only: how many parentheses are open,
and whether an operand is due. A `Place` is these two. Every sequence that has a tree is a sentence,
and every sentence leads from the first place back to depth zero.
-/

namespace Arith

/-! ## Places -/

/-- What is open behind a sequence of symbols. -/
structure Place where
  depth : Nat
  wantsOperand : Bool
deriving DecidableEq

namespace Place

def first : Place := ⟨0, true⟩

/-- Behind a complete sentence. -/
def last : Place := ⟨0, false⟩

/-- The place behind one more symbol; there is none where the symbol may not stand. -/
def next? : Place → Symbol → Option Place
  | ⟨depth, true⟩, .operator op => if op.isSign then some ⟨depth, true⟩ else none
  | ⟨depth, true⟩, .number _ => some ⟨depth, false⟩
  | ⟨depth, true⟩, .openParen => some ⟨depth + 1, true⟩
  | ⟨depth, false⟩, .operator _ => some ⟨depth, true⟩
  | ⟨depth + 1, false⟩, .closeParen => some ⟨depth, false⟩
  | _, _ => none

/-- The place behind a sequence of symbols. -/
def after? (p : Place) (a : List Symbol) : Option Place := a.foldlM next? p

@[simp]
theorem after?_nil (p : Place) : p.after? [] = some p := rfl

@[simp]
theorem after?_cons (p : Place) (x : Symbol) (a : List Symbol) :
    p.after? (x :: a) = (p.next? x).bind fun q => q.after? a := rfl

@[simp]
theorem after?_append (p : Place) (a b : List Symbol) :
    p.after? (a ++ b) = (p.after? a).bind fun q => q.after? b := by
  simp [after?, List.foldlM_append]

theorem after?_replicate_closeParen (depth : Nat) :
    after? ⟨depth, false⟩ (List.replicate depth .closeParen) = some last := by
  induction depth with
  | zero => rfl
  | succ depth ih => rw [List.replicate_succ, after?_cons, next?, Option.bind_some, ih]

/-- What completes a sequence that leads to a place. -/
def completion (p : Place) : List Symbol :=
  if p.wantsOperand then .number (.int 0) :: List.replicate p.depth .closeParen
  else List.replicate p.depth .closeParen

theorem after?_completion (p : Place) : p.after? p.completion = some last := by
  obtain ⟨depth, wantsOperand⟩ := p
  cases wantsOperand with
  | false => exact after?_replicate_closeParen depth
  | true =>
    rw [completion, if_pos rfl, after?_cons, next?, Option.bind_some]
    exact after?_replicate_closeParen depth

end Place

namespace Grammar

/-! ## Sentences and places -/

mutual

theorem Sentence.after {a : List Symbol} :
    Sentence a → ∀ depth, Place.after? ⟨depth, true⟩ a = some ⟨depth, false⟩
  | .last h, depth => Operand.after h depth
  | .more op h h', depth => by
    rw [Place.after?_append, Operand.after h depth, Option.bind_some, Place.after?_cons,
      Place.next?, Option.bind_some]
    exact Sentence.after h' depth

theorem Operand.after {a : List Symbol} :
    Operand a → ∀ depth, Place.after? ⟨depth, true⟩ a = some ⟨depth, false⟩
  | .term h, depth => Term.after h depth
  | .sign op hsign h, depth => by
    rw [Place.after?_cons, Place.next?, if_pos hsign, Option.bind_some]
    exact Operand.after h depth

theorem Term.after {a : List Symbol} :
    Term a → ∀ depth, Place.after? ⟨depth, true⟩ a = some ⟨depth, false⟩
  | .number value, depth => rfl
  | .group h, depth => by
    rw [List.cons_append, Place.after?_cons, Place.next?, Option.bind_some, Place.after?_append,
      Sentence.after h (depth + 1)]
    rfl

end

/-! ## Trees and sentences -/

theorem Sentence.join {a b : List Symbol} (op : Op) :
    Sentence a → Sentence b → Sentence (a ++ .operator op :: b)
  | .last h, hb => .more op h hb
  | .more op' h h', hb => by
    rw [List.append_assoc, List.cons_append]
    exact .more op' h (Sentence.join op h' hb)

theorem Sentence.sign {a : List Symbol} {op : Op} (hsign : op.isSign) :
    Sentence a → Sentence (.operator op :: a)
  | .last h => .last (.sign op hsign h)
  | .more op' h h' => .more op' (.sign op hsign h) h'

mutual

theorem Sum.sentence {a : List Symbol} {e : Expr} : Sum a e → Sentence a
  | .product h => Product.sentence h
  | .operation h _ h' => Sentence.join _ (Sum.sentence h) (Product.sentence h')

theorem Product.sentence {a : List Symbol} {e : Expr} : Product a e → Sentence a
  | .signed h => Signed.sentence h
  | .operation h _ h' => Sentence.join _ (Product.sentence h) (Signed.sentence h')

theorem Signed.sentence {a : List Symbol} {e : Expr} : Signed a e → Sentence a
  | .power h => Power.sentence h
  | .sign hsign h => Sentence.sign hsign (Signed.sentence h)

theorem Power.sentence {a : List Symbol} {e : Expr} : Power a e → Sentence a
  | .atom h => .last (.term (Atom.term h))
  | .operation h h' => .more .pow (.term (Atom.term h)) (Signed.sentence h')

theorem Atom.term {a : List Symbol} {e : Expr} : Atom a e → Term a
  | .number value => .number value
  | .group h => .group (Sum.sentence h)

end

end Grammar
end Arith
