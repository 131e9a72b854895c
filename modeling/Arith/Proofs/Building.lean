import Arith.Proofs.Attaching
import Arith.Proofs.Sentence

/-!
# What the two stacks hold

In the middle of a sentence the stacks hold a derivation that is open at its right end. `Opening` is
that derivation, `Builds` says that a progress holds one of the symbols read so far, and every step
that goes on keeps it. A step fails, and at its own token, exactly where no place follows; it finishes
exactly at the end of a sentence, with the tree of the sentence.
-/

namespace Arith

open Grammar Pending

/-! ## Open derivations -/

/-- The level of the grammar that has to come next. -/
inductive Level where
  | sum
  | product
  | signed
deriving DecidableEq

namespace Level

/-- The weakest operator that has a place in front of this level. -/
def rank : Level → Nat
  | sum => 1
  | product => 2
  | signed => 3

def Derives : Level → List Symbol → Expr → Prop
  | sum => Sum
  | product => Product
  | signed => Signed

end Level

/-- `Opening level a operands pending depth`: the symbols `a` begin a sentence that goes on with a whole
`level`; the stacks hold what they stand for, with `depth` open parentheses. -/
inductive Opening : Level → List Symbol → List Expr → List Pending → Nat → Prop where
  | start : Opening .sum [] [] [] 0
  | group {a : List Symbol} {operands : List Expr} {pending : List Pending} {depth : Nat}
    (position : Position) : Opening .signed a operands pending depth →
      Opening .sum (a ++ [.openParen]) operands (group position :: pending) (depth + 1)
  | added {a b : List Symbol} {operands : List Expr} {pending : List Pending} {depth : Nat}
    {l : Expr} {op : Op} (position : Position) : Opening .sum a operands pending depth → Sum b l →
      op = .add ∨ op = .sub →
      Opening .product (a ++ b ++ [.operator op]) (l :: operands)
        (operator (between op position) :: pending) depth
  | multiplied {a b : List Symbol} {operands : List Expr} {pending : List Pending} {depth : Nat}
    {l : Expr} {op : Op} (position : Position) : Opening .product a operands pending depth →
      Product b l → op = .mul ∨ op = .div →
      Opening .signed (a ++ b ++ [.operator op]) (l :: operands)
        (operator (between op position) :: pending) depth
  | sign {a : List Symbol} {operands : List Expr} {pending : List Pending} {depth : Nat} {op : Op}
    (position : Position) : Opening .signed a operands pending depth → op.isSign →
      Opening .signed (a ++ [.operator op]) operands
        (operator ⟨.sign, op, position⟩ :: pending) depth
  | raised {a b : List Symbol} {operands : List Expr} {pending : List Pending} {depth : Nat}
    {l : Expr} (position : Position) : Opening .signed a operands pending depth → Atom b l →
      Opening .signed (a ++ b ++ [.operator .pow]) (l :: operands)
        (operator (between .pow position) :: pending) depth
  | product {a : List Symbol} {operands : List Expr} {pending : List Pending} {depth : Nat} :
    Opening .sum a operands pending depth → Opening .product a operands pending depth
  | signed {a : List Symbol} {operands : List Expr} {pending : List Pending} {depth : Nat} :
    Opening .product a operands pending depth → Opening .signed a operands pending depth

namespace Opening

variable {level : Level} {a b : List Symbol} {e : Expr} {operands : List Expr}
  {pending : List Pending} {depth : Nat}

theorem firm (h : Opening level a operands pending depth) : Firm level.rank pending := by
  induction h with
  | start => exact firm_nil _
  | group position _ => exact firm_group _ position _
  | added position _ _ hop =>
    have hrank := Op.precedence_eq_one hop
    exact firm_between (by rw [hrank]; decide) position _
  | multiplied position _ _ hop =>
    have hrank := Op.precedence_eq_two hop
    exact firm_between (by rw [hrank]; decide) position _
  | sign => exact firm_three _
  | raised => exact firm_three _
  | product _ ih => exact ih.mono (by decide)
  | signed _ ih => exact ih.mono (by decide)

/-- An operator that comes in behind the symbols `c` finds a whole `level` on top, with the rest of
the derivation still open below it. -/
def RoomFor (level : Level) (op : Op) (position : Position) (c : List Symbol) (operands : List Expr)
    (pending : List Pending) (depth : Nat) : Prop :=
  ∃ a b e operands' pending', c = a ++ b ∧ Opening level a operands' pending' depth ∧
    level.Derives b e ∧
    makeRoom (between op position) operands pending = .ok (e :: operands', pending')

theorem room_of_rank (h : Opening level a operands pending depth) (hb : level.Derives b e) {op : Op}
    (position : Position) (hop : op.precedence = level.rank) :
    RoomFor level op position (a ++ b) (e :: operands) pending depth :=
  ⟨a, b, e, operands, pending, rfl, h, hb,
    makeRoom_of_firm h.firm (Nat.le_of_eq hop.symm) position _⟩

theorem room (h : Opening level a operands pending depth) (hb : level.Derives b e) {op : Op}
    (position : Position) (target : Level) (hop : op.precedence = target.rank)
    (hle : target.rank ≤ level.rank) :
    RoomFor target op position (a ++ b) (e :: operands) pending depth := by
  have hne : op ≠ .pow := by
    rintro rfl
    cases target <;> simp [Level.rank, Op.precedence] at hop
  have hle' : target.rank ≤ Level.product.rank :=
    Nat.le_of_lt_succ (hop ▸ Op.precedence_lt_three.mpr hne)
  have hthree := op.precedence_ne_three
  -- The induction goes down the stack. An entry of the target level stays and ends it; any other is
  -- attached, and then the operand on top stands for the symbols on both sides of it.
  induction h generalizing b e with
  | start =>
    obtain rfl : target = .sum := by cases target <;> simp [Level.rank] at hle ⊢
    exact room_of_rank .start hb position hop
  | group opened hrest =>
    obtain rfl : target = .sum := by cases target <;> simp [Level.rank] at hle ⊢
    exact room_of_rank (.group opened hrest) hb position hop
  | @added a b' operands pending depth l op' opened hrest hl hop' ih =>
    cases target with
    | product => exact room_of_rank (.added opened hrest hl hop') hb position hop
    | signed => exact absurd hop hthree
    | sum =>
      have hyields : op.precedence ≤ op'.precedence := hop ▸ op'.one_le_precedence
      unfold RoomFor
      rw [makeRoom_between hne hyields, List.append_assoc, List.append_assoc]
      exact ih (Sum.operation hl hop' hb) (by decide)
  | @multiplied a b' operands pending depth l op' opened hrest hl hop' ih =>
    have hyields : op.precedence ≤ op'.precedence := by
      rw [hop, Op.precedence_eq_two hop']
      exact hle'
    unfold RoomFor
    rw [makeRoom_between hne hyields, List.append_assoc, List.append_assoc]
    exact ih (Product.operation hl hop' hb) hle'
  | sign opened hrest hsign ih =>
    unfold RoomFor
    rw [makeRoom_sign hne, List.append_assoc]
    exact ih (Signed.sign hsign hb) hle
  | raised opened hrest hl ih =>
    have hyields : op.precedence ≤ Op.pow.precedence := by cases op <;> decide
    unfold RoomFor
    rw [makeRoom_between hne hyields, List.append_assoc, List.append_assoc]
    exact ih (Signed.power (Power.operation hl hb)) hle
  | product hrest ih =>
    cases target with
    | product => exact room_of_rank (.product hrest) hb position hop
    | signed => exact absurd hop hthree
    | sum => exact ih (Sum.product hb) (by decide)
  | signed hrest ih =>
    exact ih (Product.signed hb) hle'

/-- Once everything down to the level of sums is attached, only the beginning of the sentence or an
open parenthesis can lie below. -/
theorem sum_cases (h : Opening .sum a operands pending depth) :
    (a = [] ∧ operands = [] ∧ pending = [] ∧ depth = 0) ∨
      ∃ a' position pending' depth', a = a' ++ [.openParen] ∧
        pending = .group position :: pending' ∧ depth = depth' + 1 ∧
        Opening .signed a' operands pending' depth' := by
  cases h with
  | start => exact .inl ⟨rfl, rfl, rfl, rfl⟩
  | group position hrest => exact .inr ⟨_, position, _, _, rfl, rfl, rfl, hrest⟩

theorem innermost (h : Opening level a operands pending depth) (hdepth : 0 < depth) :
    ∃ position, innermost? pending = some position := by
  induction h with
  | start => exact absurd hdepth (Nat.lt_irrefl 0)
  | group position _ => exact ⟨position, rfl⟩
  | added _ _ _ _ ih => exact ih hdepth
  | multiplied _ _ _ _ ih => exact ih hdepth
  | sign _ _ _ ih => exact ih hdepth
  | raised _ _ _ ih => exact ih hdepth
  | product _ ih => exact ih hdepth
  | signed _ ih => exact ih hdepth

/-! ## Operators and ends -/

theorem push (h : Opening .signed a operands pending depth) (hatom : Atom b e) (op : Op)
    (position : Position) :
    ∃ operands' pending',
      makeRoom (between op position) (e :: operands) pending = .ok (operands', pending') ∧
      Opening .signed (a ++ b ++ [.operator op]) operands'
        (operator (between op position) :: pending') depth := by
  have hsigned : Signed b e := .power (.atom hatom)
  have hop : (op = .add ∨ op = .sub) ∨ (op = .mul ∨ op = .div) ∨ op = .pow := by cases op <;> simp
  rcases hop with hop | hop | rfl
  · have hrank : op.precedence = Level.sum.rank := Op.precedence_eq_one hop
    obtain ⟨a', b', e', operands', pending', heq, hopen, hsum, hroom⟩ :=
      h.room hsigned position .sum hrank (by decide)
    rw [heq]
    exact ⟨_, _, hroom, .signed (hopen.added position hsum hop)⟩
  · have hrank : op.precedence = Level.product.rank := Op.precedence_eq_two hop
    obtain ⟨a', b', e', operands', pending', heq, hopen, hproduct, hroom⟩ :=
      h.room hsigned position .product hrank (by decide)
    rw [heq]
    exact ⟨_, _, hroom, hopen.multiplied position hproduct hop⟩
  · exact ⟨_, _, makeRoom_of_firm h.firm (by decide) position _, h.raised position hatom⟩

theorem settle (h : Opening .signed a operands pending depth) (hatom : Atom b e) :
    RoomFor .sum .add ⟨0, 0⟩ (a ++ b) (e :: operands) pending depth :=
  h.room (Signed.power (.atom hatom)) _ .sum rfl (by decide)

theorem close (h : Opening .signed a operands pending (depth + 1)) (hatom : Atom b e)
    (closed : Position) :
    ∃ a' b' e' operands' pending',
      closeGroup closed (e :: operands) pending = ⟨none, e' :: operands', pending'⟩ ∧
      a ++ b ++ [.closeParen] = a' ++ b' ∧ Opening .signed a' operands' pending' depth ∧
      Atom b' e' := by
  obtain ⟨a', b', e', operands', pending', heq, hopen, hsum, hroom⟩ := h.settle hatom
  rcases hopen.sum_cases with ⟨-, -, -, hdepth⟩ |
    ⟨a'', opened, pending'', depth', rfl, rfl, hdepth, hrest⟩
  · cases hdepth
  · cases hdepth
    refine ⟨a'', _, e', operands', pending'', closeGroup_of_makeRoom rfl hroom closed, ?_, hrest,
      Atom.group hsum⟩
    rw [heq]
    simp

theorem finish (h : Opening .signed a operands pending 0) (hatom : Atom b e) :
    ∃ tree, attachAll (e :: operands) pending = .ok [tree] ∧ Sum (a ++ b) tree := by
  obtain ⟨a', b', e', operands', pending', heq, hopen, hsum, hroom⟩ := h.settle hatom
  rcases hopen.sum_cases with ⟨rfl, rfl, rfl, -⟩ | ⟨_, _, _, _, _, _, hdepth, _⟩
  · refine ⟨e', attachAll_of_makeRoom rfl hroom, ?_⟩
    rw [heq]
    exact hsum
  · cases hdepth

end Opening

/-! ## Steps -/

namespace Progress

def place (s : Progress) : Place := ⟨s.depth, s.wantsOperand⟩

/-- The stacks hold a derivation of the symbols read so far. -/
inductive Builds : Progress → List Symbol → Prop where
  | due {a : List Symbol} {operands : List Expr} {pending : List Pending} {depth : Nat} :
    Opening .signed a operands pending depth → Builds ⟨operands, pending, depth, true⟩ a
  | whole {a b : List Symbol} {e : Expr} {operands : List Expr} {pending : List Pending}
    {depth : Nat} : Opening .signed a operands pending depth → Atom b e →
    Builds ⟨e :: operands, pending, depth, false⟩ (a ++ b)

theorem builds_initial : Builds initial [] := .due (.signed (.product .start))

theorem step_of_next {s : Progress} {a : List Symbol} (h : s.Builds a) {t : Token} {q : Place}
    (hnext : s.place.next? t.symbol = some q) :
    ∃ s', s.step t = .ok (.more s') ∧ s'.place = q ∧ s'.Builds (a ++ [t.symbol]) := by
  obtain ⟨symbol, position⟩ := t
  cases h with
  | @due a operands pending depth hopen =>
    cases symbol with
    | operator op =>
      have hsign : op.isSign := by
        by_cases hsign : op.isSign
        · exact hsign
        · simp [place, Place.next?, hsign] at hnext
      refine ⟨⟨operands, .operator ⟨.sign, op, position⟩ :: pending, depth, true⟩, ?_, ?_, ?_⟩
      · simp [step, operandStep, hsign]
      · simpa [place, Place.next?, hsign] using hnext
      · exact .due (hopen.sign position hsign)
    | number value =>
      refine ⟨⟨.number value :: operands, pending, depth, false⟩, rfl, ?_, ?_⟩
      · simpa [place, Place.next?] using hnext
      · exact .whole hopen (.number value)
    | openParen =>
      refine ⟨⟨operands, .group position :: pending, depth + 1, true⟩, rfl, ?_, ?_⟩
      · simpa [place, Place.next?] using hnext
      · exact .due (.signed (.product (hopen.group position)))
    | _ => cases hnext
  | @whole a b e operands pending depth hopen hatom =>
    cases symbol with
    | operator op =>
      obtain ⟨operands', pending', hroom, hpushed⟩ := hopen.push hatom op position
      refine ⟨⟨operands', .operator (between op position) :: pending', depth, true⟩, ?_, ?_, ?_⟩
      · simp [step, operatorStep, hroom]
      · simpa [place, Place.next?] using hnext
      · exact .due hpushed
    | closeParen =>
      cases depth with
      | zero => cases hnext
      | succ depth =>
        obtain ⟨a', b', e', operands', pending', hclose, heq, hclosed, hgroup⟩ :=
          hopen.close hatom position
        refine ⟨⟨e' :: operands', pending', depth, false⟩, ?_, ?_, ?_⟩
        · simp [step, operatorStep, hclose]
        · simpa [place, Place.next?] using hnext
        · rw [heq]
          exact .whole hclosed hgroup
    | _ => cases hnext

theorem step_at_end {s : Progress} {a : List Symbol} (h : s.Builds a) {t : Token}
    (hend : t.symbol = .endOfInput) (hplace : s.place = .last) :
    ∃ tree, s.step t = .ok (.done tree) ∧ Sum a tree := by
  cases h with
  | due hopen => cases hplace
  | whole hopen hatom =>
    obtain ⟨rfl⟩ : _ = 0 := congrArg Place.depth hplace
    obtain ⟨tree, hattach, hsum⟩ := hopen.finish hatom
    refine ⟨tree, ?_, hsum⟩
    simp [step, operatorStep, Progress.finish, hend, hattach]

theorem step_of_dead_end {s : Progress} {a : List Symbol} (h : s.Builds a) {t : Token}
    (hnext : s.place.next? t.symbol = none) (hopen : t.symbol = .endOfInput → s.place ≠ .last) :
    ∃ cause, s.step t = .error (.fault ⟨cause, t.position⟩) ∧ cause.kind.stage = .parsing := by
  obtain ⟨symbol, position⟩ := t
  cases h with
  | due hopen =>
    cases symbol with
    | operator op =>
      by_cases hsign : op.isSign
      · simp [place, Place.next?, hsign] at hnext
      · exact ⟨.notASign op, by simp [step, operandStep, hsign], rfl⟩
    | number value => cases hnext
    | openParen => cases hnext
    | _ => exact ⟨_, rfl, rfl⟩
  | @whole a b e operands pending depth hstacks hatom =>
    cases symbol with
    | operator op => cases hnext
    | closeParen =>
      cases depth with
      | zero => exact ⟨.neverOpened, rfl, rfl⟩
      | succ depth => cases hnext
    | endOfInput =>
      cases depth with
      | zero => exact absurd rfl (hopen rfl)
      | succ depth =>
        obtain ⟨opened, hinner⟩ := hstacks.innermost (Nat.succ_pos depth)
        refine ⟨.neverClosed opened, ?_, rfl⟩
        simp [step, operatorStep, Progress.finish, hinner]
    | _ => exact ⟨_, rfl, rfl⟩

end Progress
end Arith
