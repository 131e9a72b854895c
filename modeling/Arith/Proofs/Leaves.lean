import Arith.Pending

/-!
# Numbers on the two stacks

The helpers that work on the stacks are safe on any stacks, also on those that no source leads to. They only
put the trees on the operand stack together: no number is lost, doubled or moved, whether they fail or not.
An operator fails when it has too few operands, and a group is closed up to the first one that does.
-/

namespace Arith

/-- The numbers of a tree, from left to right. -/
def Expr.leaves : Expr → List Literal
  | number value => [value]
  | unary _ operand => operand.leaves
  | binary _ left right => left.leaves ++ right.leaves

/-- The numbers on a stack, from the bottom up. -/
def leavesOf (operands : List Expr) : List Literal := operands.reverse.flatMap Expr.leaves

theorem leavesOf_cons (e : Expr) (operands : List Expr) :
    leavesOf (e :: operands) = leavesOf operands ++ e.leaves := by
  simp [leavesOf]

/-! ## One operator -/

namespace PendingOp

/-- How many operands an operator takes. -/
def needs (entry : PendingOp) : Nat :=
  match entry.stance with
  | .sign => 1
  | .between => 2

variable {entry : PendingOp} {operands operands' : List Expr}

theorem attach_of_lt (h : operands.length < entry.needs) :
    entry.attach operands = .error ⟨.lacksOperand entry.op, entry.position⟩ := by
  obtain ⟨stance, op, position⟩ := entry
  cases stance with
  | sign =>
    obtain rfl : operands = [] := List.length_eq_zero_iff.mp (Nat.lt_one_iff.mp h)
    rfl
  | between =>
    cases operands with
    | nil => rfl
    | cons right rest =>
      obtain rfl : rest = [] := List.length_eq_zero_iff.mp (Nat.lt_one_iff.mp (Nat.lt_of_succ_lt_succ h))
      rfl

theorem exists_attach (h : entry.needs ≤ operands.length) :
    ∃ operands', entry.attach operands = .ok operands' ∧
      operands'.length + entry.needs = operands.length + 1 ∧
      leavesOf operands' = leavesOf operands := by
  obtain ⟨stance, op, position⟩ := entry
  cases stance with
  | sign =>
    obtain ⟨operand, rest, rfl⟩ := List.exists_cons_of_length_pos h
    refine ⟨.unary op operand :: rest, rfl, rfl, ?_⟩
    simp [leavesOf_cons, Expr.leaves]
  | between =>
    obtain ⟨right, rest, rfl⟩ := List.exists_cons_of_length_pos (Nat.lt_of_succ_lt h)
    obtain ⟨left, rest, rfl⟩ := List.exists_cons_of_length_pos (Nat.lt_of_succ_lt_succ h)
    refine ⟨.binary op left right :: rest, rfl, rfl, ?_⟩
    simp [leavesOf_cons, Expr.leaves]

theorem leavesOf_attach (h : entry.attach operands = .ok operands') :
    leavesOf operands' = leavesOf operands := by
  by_cases hneeds : entry.needs ≤ operands.length
  · obtain ⟨attached, hattach, -, hleaves⟩ := exists_attach hneeds
    rw [hattach] at h
    cases h
    exact hleaves
  · rw [attach_of_lt (Nat.lt_of_not_le hneeds)] at h
    cases h

end PendingOp

/-! ## The innermost group -/

namespace Pending

/-- How many of the operators stand between two operands. -/
def betweens (ops : List PendingOp) : Nat := ops.countP (·.stance = .between)

/-- With `n` operands none of the operators runs short: each operator between two operands, from the top
one on, has left one operand less. -/
def Enough (n : Nat) (ops : List PendingOp) : Prop :=
  ∀ above o later, ops = above ++ o :: later → betweens above + o.needs ≤ n

/-- The operators are attached one after the other. -/
def attachEach (ops : List PendingOp) (operands : List Expr) : Except Fault (List Expr) :=
  ops.foldlM (fun operands entry => entry.attach operands) operands

/-- How closing a group ends, with the operators `ops` above it, or above the bottom if no group is open:
at the first of them that runs short, or else at the group, or else at the bottom. -/
inductive Closing (position : Position) (operands : List Expr) (ops : List PendingOp) :
    List Pending → Settled → Prop where
  | short {above later : List PendingOp} {o : PendingOp} {rest : List Pending}
      {operands' : List Expr} : ops = above ++ o :: later → Enough operands.length above →
    operands.length < betweens above + o.needs → attachEach above operands = .ok operands' →
    Closing position operands ops rest
      ⟨some ⟨.lacksOperand o.op, o.position⟩, operands', later.map .operator ++ rest⟩
  | closed {opened : Position} {below : List Pending} {operands' : List Expr} :
    Enough operands.length ops → attachEach ops operands = .ok operands' →
    Closing position operands ops (.group opened :: below) ⟨none, operands', below⟩
  | unopened {operands' : List Expr} :
    Enough operands.length ops → attachEach ops operands = .ok operands' →
    Closing position operands ops [] ⟨some ⟨.neverOpened, position⟩, operands', []⟩

theorem needs_add_betweens (o : PendingOp) (ops : List PendingOp) :
    o.needs + betweens ops = betweens (o :: ops) + 1 := by
  obtain ⟨stance, op, position⟩ := o
  cases stance <;> simp [PendingOp.needs, betweens] <;> omega

theorem Enough.head {n : Nat} {o : PendingOp} {ops : List PendingOp} (h : Enough n (o :: ops)) :
    o.needs ≤ n := by
  simpa [betweens] using h [] o ops rfl

theorem enough_cons_iff {n m : Nat} {o : PendingOp} {ops : List PendingOp}
    (hm : m + o.needs = n + 1) : Enough n (o :: ops) ↔ o.needs ≤ n ∧ Enough m ops := by
  constructor
  · intro h
    refine ⟨h.head, ?_⟩
    rintro above x later rfl
    have hx := h (o :: above) x later rfl
    have hcount := needs_add_betweens o above
    omega
  · rintro ⟨hneeds, h⟩ above x later heq
    cases above with
    | nil =>
      cases heq
      simpa [betweens] using hneeds
    | cons first above =>
      cases heq
      have hx := h above x later rfl
      have hcount := needs_add_betweens o above
      omega

theorem enough_or_short (n : Nat) (ops : List PendingOp) : Enough n ops ∨
    ∃ above o later, ops = above ++ o :: later ∧ Enough n above ∧ n < betweens above + o.needs := by
  induction ops generalizing n with
  | nil =>
    left
    simp [Enough]
  | cons o ops ih =>
    by_cases hneeds : o.needs ≤ n
    · have hm : n + 1 - o.needs + o.needs = n + 1 := by omega
      rcases ih (n + 1 - o.needs) with h | ⟨above, x, later, rfl, habove, hshort⟩
      · left
        exact (enough_cons_iff hm).mpr ⟨hneeds, h⟩
      · right
        refine ⟨o :: above, x, later, rfl, (enough_cons_iff hm).mpr ⟨hneeds, habove⟩, ?_⟩
        have hcount := needs_add_betweens o above
        omega
    · right
      refine ⟨[], o, ops, rfl, by simp [Enough], ?_⟩
      simpa [betweens] using hneeds

theorem closeGroup_of_enough (position : Position) {operands : List Expr} {above : List PendingOp}
    (h : Enough operands.length above) (pending : List Pending) :
    ∃ operands', attachEach above operands = .ok operands' ∧
      operands'.length + betweens above = operands.length ∧
      closeGroup position operands (above.map .operator ++ pending) =
        closeGroup position operands' pending := by
  induction above generalizing operands with
  | nil => exact ⟨operands, rfl, rfl, rfl⟩
  | cons o above ih =>
    obtain ⟨attached, hattach, hlength, -⟩ := PendingOp.exists_attach h.head
    obtain ⟨operands', heach, hleft, hclose⟩ := ih ((enough_cons_iff hlength).mp h).2
    have hcount := needs_add_betweens o above
    refine ⟨operands', ?_, by omega, ?_⟩
    · unfold attachEach at heach ⊢
      rw [List.foldlM_cons, hattach]
      exact heach
    · rw [List.map_cons, List.cons_append, closeGroup, hattach]
      exact hclose

theorem closeGroup_of_closing {position : Position} {operands : List Expr} {ops : List PendingOp}
    {rest : List Pending} {settled : Settled} (h : Closing position operands ops rest settled) :
    closeGroup position operands (ops.map .operator ++ rest) = settled := by
  cases h with
  | @short above later o _ operands' hops henough hshort heach =>
    obtain ⟨found, hfound, hleft, hclose⟩ :=
      closeGroup_of_enough position henough (.operator o :: later.map .operator ++ rest)
    rw [heach] at hfound
    cases hfound
    have hattach : o.attach operands' = .error ⟨.lacksOperand o.op, o.position⟩ :=
      PendingOp.attach_of_lt (by omega)
    simp only [hops, List.map_append, List.map_cons, List.append_assoc, List.cons_append] at hclose ⊢
    rw [hclose, closeGroup, hattach]
  | closed henough heach =>
    obtain ⟨found, hfound, -, hclose⟩ := closeGroup_of_enough position henough _
    rw [heach] at hfound
    cases hfound
    rw [hclose, closeGroup]
  | unopened henough heach =>
    obtain ⟨found, hfound, -, hclose⟩ := closeGroup_of_enough position henough _
    rw [heach] at hfound
    cases hfound
    rw [hclose, closeGroup]

theorem exists_closing (position : Position) (operands : List Expr) (ops : List PendingOp)
    {rest : List Pending} (hrest : ∀ top ∈ rest.head?, top.isGroup) :
    ∃ settled, Closing position operands ops rest settled := by
  rcases enough_or_short operands.length ops with henough | ⟨above, o, later, hops, henough, hshort⟩
  · obtain ⟨operands', heach, -⟩ := closeGroup_of_enough position henough rest
    cases rest with
    | nil => exact ⟨_, .unopened henough heach⟩
    | cons top below =>
      cases top with
      | group opened => exact ⟨_, .closed henough heach⟩
      | operator entry => cases hrest _ rfl
  · obtain ⟨operands', heach, -⟩ := closeGroup_of_enough position henough rest
    exact ⟨_, .short hops henough hshort heach⟩

theorem closeGroup_eq_iff_closing (position : Position) (operands : List Expr) (ops : List PendingOp)
    {rest : List Pending} (hrest : ∀ top ∈ rest.head?, top.isGroup) (settled : Settled) :
    closeGroup position operands (ops.map .operator ++ rest) = settled ↔
      Closing position operands ops rest settled := by
  constructor
  · rintro rfl
    obtain ⟨settled, hclosing⟩ := exists_closing position operands ops hrest
    rwa [closeGroup_of_closing hclosing]
  · exact closeGroup_of_closing

theorem leavesOf_closeGroup (position : Position) (operands : List Expr) (pending : List Pending) :
    leavesOf (closeGroup position operands pending).operands = leavesOf operands := by
  induction pending generalizing operands with
  | nil => rfl
  | cons top pending ih =>
    cases top with
    | group opened => rfl
    | operator entry =>
      rw [closeGroup]
      split
      · rename_i attached hattach
        rw [ih, PendingOp.leavesOf_attach hattach]
      · rfl

theorem exists_operators (pending : List Pending) : ∃ (ops : List PendingOp) (rest : List Pending),
    pending = ops.map .operator ++ rest ∧ ∀ top ∈ rest.head?, top.isGroup := by
  induction pending with
  | nil => exact ⟨[], [], rfl, by simp⟩
  | cons top pending ih =>
    cases top with
    | group opened => exact ⟨[], .group opened :: pending, rfl, by simp [isGroup]⟩
    | operator entry =>
      obtain ⟨ops, rest, rfl, hrest⟩ := ih
      exact ⟨entry :: ops, rest, rfl, hrest⟩

end Pending

/-! ## Any acts on any stacks -/

structure Stacks where
  operands : List Expr
  pending : List Pending
deriving DecidableEq

/-- What may be done with the two stacks. -/
inductive Act where
  | operand (e : Expr)
  | push (entry : Pending)
  | attach
  | close (position : Position)

namespace Stacks

/-- The fault, if any, and the stacks behind an act. To attach takes the top entry, which has to be an
operator. -/
def act? (s : Stacks) : Act → Option (Option Fault × Stacks)
  | .operand e => some (none, { s with operands := e :: s.operands })
  | .push entry => some (none, { s with pending := entry :: s.pending })
  | .attach =>
    match s.pending with
    | .operator entry :: pending =>
      match entry.attach s.operands with
      | .ok operands => some (none, ⟨operands, pending⟩)
      | .error fault => some (some fault, ⟨s.operands, pending⟩)
    | _ => none
  | .close position =>
    let settled := Pending.closeGroup position s.operands s.pending
    some (settled.fault?, ⟨settled.operands, settled.pending⟩)

/-- The stacks behind some acts; those behind a fault go on from what it has left. -/
def acts? (s : Stacks) : List Act → Option Stacks
  | [] => some s
  | act :: acts => s.act? act >>= fun (_, s') => s'.acts? acts

/-- The numbers that come onto the operand stack. -/
def pushed (acts : List Act) : List Literal :=
  acts.flatMap fun
    | .operand e => e.leaves
    | _ => []

variable {s s' : Stacks}

theorem leavesOf_act {act : Act} {fault? : Option Fault} (h : s.act? act = some (fault?, s')) :
    leavesOf s'.operands = leavesOf s.operands ++ pushed [act] := by
  cases act with
  | operand e =>
    cases h
    simp [leavesOf_cons, pushed]
  | push entry =>
    cases h
    simp [pushed]
  | close position =>
    cases h
    simp [Pending.leavesOf_closeGroup, pushed]
  | attach =>
    simp only [act?] at h
    split at h
    · split at h
      · rename_i hattach
        cases h
        simp [PendingOp.leavesOf_attach hattach, pushed]
      · cases h
        simp [pushed]
    · cases h

theorem leavesOf_acts {acts : List Act} (h : s.acts? acts = some s') :
    leavesOf s'.operands = leavesOf s.operands ++ pushed acts := by
  induction acts generalizing s with
  | nil =>
    cases h
    simp [pushed]
  | cons act acts ih =>
    obtain ⟨⟨fault?, between⟩, hact, hacts⟩ := Option.bind_eq_some_iff.mp h
    rw [ih hacts, leavesOf_act hact, List.append_assoc]
    simp [pushed]

theorem act_attach (operands : List Expr) (entry : PendingOp) (pending : List Pending) :
    (operands.length < entry.needs → act? ⟨operands, .operator entry :: pending⟩ .attach =
      some (some ⟨.lacksOperand entry.op, entry.position⟩, ⟨operands, pending⟩)) ∧
    (entry.needs ≤ operands.length → ∃ operands',
      act? ⟨operands, .operator entry :: pending⟩ .attach = some (none, ⟨operands', pending⟩)) := by
  constructor
  · intro h
    simp only [act?, PendingOp.attach_of_lt h]
  · intro h
    obtain ⟨operands', hattach, -⟩ := PendingOp.exists_attach h
    exact ⟨operands', by simp only [act?, hattach]⟩

end Stacks

/-- Whatever is done with any stacks, and however much of it fails, the numbers on the operand stack are
those that were there and those that were pushed, in this order. To attach an operator fails just when it
has too few operands, which then stay. Closing a group goes on down to the first operator that runs
short, or else to the group, or else to the bottom, and leaves all below as it is. -/
theorem stacks_keep_leaves :
    (∀ (s s' : Stacks) (acts : List Act), s.acts? acts = some s' →
      leavesOf s'.operands = leavesOf s.operands ++ Stacks.pushed acts) ∧
    (∀ (operands : List Expr) (entry : PendingOp) (pending : List Pending),
      (operands.length < entry.needs → Stacks.act? ⟨operands, .operator entry :: pending⟩ .attach =
        some (some ⟨.lacksOperand entry.op, entry.position⟩, ⟨operands, pending⟩)) ∧
      (entry.needs ≤ operands.length → ∃ operands',
        Stacks.act? ⟨operands, .operator entry :: pending⟩ .attach =
          some (none, ⟨operands', pending⟩))) ∧
    ∀ (position : Position) (operands : List Expr) (pending : List Pending),
      ∃ (ops : List PendingOp) (rest : List Pending), pending = ops.map .operator ++ rest ∧
        (∀ top ∈ rest.head?, top.isGroup) ∧ ∀ settled,
          Pending.closeGroup position operands pending = settled ↔
            Pending.Closing position operands ops rest settled := by
  refine ⟨fun s s' acts h => Stacks.leavesOf_acts h, Stacks.act_attach, ?_⟩
  intro position operands pending
  obtain ⟨ops, rest, rfl, hrest⟩ := Pending.exists_operators pending
  exact ⟨ops, rest, rfl, hrest, Pending.closeGroup_eq_iff_closing position operands ops hrest⟩

/-- A sum that lacks its second number when a group is closed that was not opened, and a number and a
group that come after this. -/
theorem stacks_keep_leaves_after_fault :
    let acts : List Act := [.operand (.number (.int 1)), .push (.operator ⟨.between, .add, ⟨1, 2⟩⟩),
      .close ⟨1, 3⟩, .operand (.number (.int 2)), .push (.group ⟨1, 4⟩),
      .push (.operator ⟨.sign, .sub, ⟨1, 5⟩⟩), .close ⟨1, 6⟩]
    ∃ s', Stacks.acts? ⟨[], []⟩ acts = some s' ∧ leavesOf s'.operands = [.int 1, .int 2] ∧
      s'.operands = [.unary .sub (.number (.int 2)), .number (.int 1)] := by
  intro acts
  have h : Stacks.acts? ⟨[], []⟩ acts =
      some ⟨[.unary .sub (.number (.int 2)), .number (.int 1)], []⟩ := rfl
  exact ⟨_, h, stacks_keep_leaves.1 _ _ _ h, rfl⟩

end Arith
