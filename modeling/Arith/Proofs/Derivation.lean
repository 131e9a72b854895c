import Arith.Proofs.Building
import Arith.Proofs.Reading

/-!
# The tree of a sentence

What the grammar derives, the parser reads back: in front of any stacks that may be followed by a sum,
the symbols of a sum leave its tree on the operands as soon as an operator comes that binds no more
strongly. The grammar is therefore unambiguous, and the parser finds its one tree.
-/

namespace Arith

open Grammar Pending

namespace Progress

/-! ## Reading a derivation -/

/-- Reading `ts` adds the operand `e`, up to what an operator of rank at most `rank` still attaches. -/
def Reads (rank : Nat) (s : Progress) (ts : List Token) (e : Expr) : Prop :=
  ∃ operands pending,
    s.read ts = .ok (.more ⟨operands, pending, s.depth, false⟩) ∧
    ∀ (op : Op) (position : Position), op.precedence ≤ rank →
      makeRoom (between op position) operands pending =
        makeRoom (between op position) (e :: s.operands) s.pending

section
variable {operands : List Expr} {pending : List Pending} {depth : Nat}

theorem reads_of_read {s : Progress} {ts : List Token} {e : Expr} (rank : Nat)
    (h : s.read ts = .ok (.more ⟨e :: s.operands, s.pending, s.depth, false⟩)) :
    Reads rank s ts e :=
  ⟨_, _, h, fun _ _ _ => rfl⟩

theorem Reads.mono {rank rank' : Nat} {s : Progress} {ts : List Token} {e : Expr}
    (h : Reads rank s ts e) (hle : rank' ≤ rank) : Reads rank' s ts e := by
  obtain ⟨operands, pending, hread, hroom⟩ := h
  exact ⟨operands, pending, hread, fun op position hop => hroom op position (Nat.le_trans hop hle)⟩

theorem Reads.sign {ts : List Token} {t : Token} {e : Expr} {op : Op}
    (ht : t.symbol = .operator op) (hsign : op.isSign)
    (h : Reads 3 ⟨operands, .operator ⟨.sign, op, t.position⟩ :: pending, depth, true⟩ ts e) :
    Reads 3 ⟨operands, pending, depth, true⟩ (t :: ts) (.unary op e) := by
  obtain ⟨operands', pending', hread, hroom⟩ := h
  refine ⟨operands', pending', ?_, ?_⟩
  · rw [read_cons _ ts, hread]
    simp [step, operandStep, ht, hsign]
  · intro incoming position hrank
    have hne : incoming ≠ .pow := by
      rintro rfl
      simp [Op.precedence] at hrank
    rw [hroom incoming position hrank]
    exact makeRoom_sign hne e operands pending

theorem Reads.operation {rank rank' result : Nat} {ts ts' : List Token} {t : Token} {l r : Expr}
    {op : Op} (ht : t.symbol = .operator op) (hfirm : Firm op.precedence pending)
    (hl : Reads rank ⟨operands, pending, depth, true⟩ ts l) (hrank : op.precedence ≤ rank)
    (hr : Reads rank' ⟨l :: operands, .operator (between op t.position) :: pending, depth, true⟩ ts' r)
    (hresult : result ≤ rank') (hle : result ≤ op.precedence) (hthree : result ≤ 3) :
    Reads result ⟨operands, pending, depth, true⟩ (ts ++ t :: ts') (.binary op l r) := by
  obtain ⟨operands₁, pending₁, hread₁, hroom₁⟩ := hl
  obtain ⟨operands₂, pending₂, hread₂, hroom₂⟩ := hr
  refine ⟨operands₂, pending₂, ?_, ?_⟩
  · rw [read_append hread₁, read_cons _ ts', hread₂]
    have hmake := (hroom₁ op t.position hrank).trans
      (makeRoom_of_firm hfirm (Nat.le_refl _) t.position (l :: operands))
    simp [step, operatorStep, ht, hmake]
  · intro incoming position hincoming
    have hne : incoming ≠ .pow := by
      rintro rfl
      have : Op.pow.precedence = 4 := rfl
      omega
    rw [hroom₂ incoming position (Nat.le_trans hincoming hresult)]
    exact makeRoom_between hne (Nat.le_trans hincoming hle) r l operands pending

theorem Reads.group {ts : List Token} {t t' : Token} {e : Expr} (ht : t.symbol = .openParen)
    (ht' : t'.symbol = .closeParen)
    (h : Reads 1 ⟨operands, .group t.position :: pending, depth + 1, true⟩ ts e) :
    Progress.read ⟨operands, pending, depth, true⟩ (t :: ts ++ [t']) =
      .ok (.more ⟨e :: operands, pending, depth, false⟩) := by
  obtain ⟨operands', pending', hread, hroom⟩ := h
  have hmake := (hroom .add t'.position (by decide)).trans
    (makeRoom_of_firm (firm_group 1 t.position pending) (by decide) t'.position (e :: operands))
  have hclose := closeGroup_of_makeRoom rfl hmake t'.position
  rw [List.cons_append, read_cons _ (ts ++ [t']), read_append hread, read_cons _ []]
  · rfl
  · simp [step, operatorStep, ht', hclose]
  · simp [step, operandStep, ht]

end

mutual

theorem reads_sum {a : List Symbol} {e : Expr} : Sum a e →
    ∀ {ts : List Token} {operands : List Expr} {pending : List Pending} {depth : Nat},
      ts.map Token.symbol = a → Firm 1 pending →
      Reads 1 ⟨operands, pending, depth, true⟩ ts e
  | .product h, _, _, _, _, hts, hfirm =>
    (reads_product h hts (hfirm.mono (by decide))).mono (by decide)
  | .operation h hop h', _, _, _, _, hts, hfirm => by
    obtain ⟨ts, rest, rfl, ha, hrest⟩ := List.map_eq_append_iff.mp hts
    obtain ⟨t, ts', rfl, ht, hb⟩ := List.map_eq_cons_iff.mp hrest
    have hrank := Op.precedence_eq_one hop
    exact Reads.operation ht (hrank ▸ hfirm) (reads_sum h ha hfirm) (Nat.le_of_eq hrank)
      (reads_product h' hb (firm_between (by omega) t.position _)) (by decide) (Nat.le_of_eq hrank.symm)
      (by decide)

theorem reads_product {a : List Symbol} {e : Expr} : Product a e →
    ∀ {ts : List Token} {operands : List Expr} {pending : List Pending} {depth : Nat},
      ts.map Token.symbol = a → Firm 2 pending →
      Reads 2 ⟨operands, pending, depth, true⟩ ts e
  | .signed h, _, _, _, _, hts, _ => (reads_signed h hts).mono (by decide)
  | .operation h hop h', _, _, _, _, hts, hfirm => by
    obtain ⟨ts, rest, rfl, ha, hrest⟩ := List.map_eq_append_iff.mp hts
    obtain ⟨t, ts', rfl, ht, hb⟩ := List.map_eq_cons_iff.mp hrest
    have hrank := Op.precedence_eq_two hop
    exact Reads.operation ht (hrank ▸ hfirm) (reads_product h ha hfirm) (Nat.le_of_eq hrank)
      (reads_signed h' hb) (by decide) (Nat.le_of_eq hrank.symm) (by decide)

theorem reads_signed {a : List Symbol} {e : Expr} : Signed a e →
    ∀ {ts : List Token} {operands : List Expr} {pending : List Pending} {depth : Nat},
      ts.map Token.symbol = a → Reads 3 ⟨operands, pending, depth, true⟩ ts e
  | .power h, _, _, _, _, hts => reads_power h hts
  | .sign hsign h, _, _, _, _, hts => by
    obtain ⟨t, ts, rfl, ht, ha⟩ := List.map_eq_cons_iff.mp hts
    exact Reads.sign ht hsign (reads_signed h ha)

theorem reads_power {a : List Symbol} {e : Expr} : Power a e →
    ∀ {ts : List Token} {operands : List Expr} {pending : List Pending} {depth : Nat},
      ts.map Token.symbol = a → Reads 3 ⟨operands, pending, depth, true⟩ ts e
  | .atom h, _, _, _, _, hts => reads_of_read 3 (read_atom h hts)
  | .operation h h', _, _, _, _, hts => by
    obtain ⟨ts, rest, rfl, ha, hrest⟩ := List.map_eq_append_iff.mp hts
    obtain ⟨t, ts', rfl, ht, hb⟩ := List.map_eq_cons_iff.mp hrest
    exact Reads.operation ht ((firm_three _).mono (by decide)) (reads_of_read 4 (read_atom h ha))
      (by decide) (reads_signed h' hb) (by decide) (by decide) (by decide)

theorem read_atom {a : List Symbol} {e : Expr} : Atom a e →
    ∀ {ts : List Token} {operands : List Expr} {pending : List Pending} {depth : Nat},
      ts.map Token.symbol = a →
      read ⟨operands, pending, depth, true⟩ ts =
        .ok (.more ⟨e :: operands, pending, depth, false⟩)
  | .number value, _, _, _, _, hts => by
    obtain ⟨t, ts, rfl, ht, ha⟩ := List.map_eq_cons_iff.mp hts
    obtain rfl := List.map_eq_nil_iff.mp ha
    rw [read_cons _ []]
    · rfl
    · simp [step, operandStep, ht]
  | .group h, _, _, _, _, hts => by
    obtain ⟨front, rest, rfl, hfront, hrest⟩ := List.map_eq_append_iff.mp hts
    obtain ⟨t, ts, rfl, ht, ha⟩ := List.map_eq_cons_iff.mp hfront
    obtain ⟨t', ts', rfl, ht', hnil⟩ := List.map_eq_cons_iff.mp hrest
    obtain rfl := List.map_eq_nil_iff.mp hnil
    exact Reads.group ht ht' (reads_sum h ha (firm_group 1 t.position _))

end

theorem read_sentence {ts : List Token} {e : Expr} (h : Sum (ts.map Token.symbol) e) {last : Token}
    (hend : last.symbol = .endOfInput) : initial.read (ts ++ [last]) = .ok (.done e) := by
  obtain ⟨operands, pending, hread, hroom⟩ := reads_sum h rfl (firm_nil 1)
  have hmake := (hroom .add last.position (by decide)).trans
    (makeRoom_of_firm (firm_nil 1) (by decide) last.position [e])
  have hattach := attachAll_of_makeRoom rfl hmake
  rw [initial, read_append hread, read]
  simp [step, operatorStep, finish, hend, hattach]

end Progress

/-! ## One tree -/

namespace Grammar

/-- Any tokens will do to read a sequence of symbols. -/
def placed (a : List Symbol) : List Token := a.map fun symbol => ⟨symbol, ⟨1, 1⟩⟩

@[simp]
theorem map_symbol_placed (a : List Symbol) : (placed a).map Token.symbol = a := by
  simp [placed, Function.comp_def]

theorem Sum.unique {a : List Symbol} {e e' : Expr} (h : Sum a e) (h' : Sum a e') : e = e' := by
  rw [← map_symbol_placed a] at h h'
  have hend : (⟨.endOfInput, ⟨1, 1⟩⟩ : Token).symbol = .endOfInput := rfl
  have hread := Progress.read_sentence h hend
  rw [Progress.read_sentence h' hend] at hread
  cases hread
  rfl

theorem sum_iff {a : List Symbol} {e e' : Expr} (h : Sum a e) : Sum a e' ↔ e' = e :=
  ⟨fun h' => h'.unique h, fun heq => heq ▸ h⟩

end Grammar
end Arith
