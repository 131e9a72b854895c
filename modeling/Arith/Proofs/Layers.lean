import Mathlib.Data.List.Chain
import Arith.Proofs.Attaching
import Arith.Proofs.Brackets
import Arith.Proofs.Counting

/-!
# Layers of pending operators

Between two open parentheses the pending operators lie in layers: at the bottom at most one addition
or subtraction, on it at most one product or quotient, and on top signs and powers in any order. The
same can be said of neighbours alone: no operator between two operands lies on an entry that had to
be attached before it. Steps keep it in this second form, and the first one tells what an incoming
operator leaves of the layers.
-/

namespace Arith

namespace Pending

/-! ## Layers -/

/-- An addition or a subtraction between two operands. -/
def isSum : Pending → Bool
  | operator ⟨.between, .add, _⟩ | operator ⟨.between, .sub, _⟩ => true
  | _ => false

/-- A product or a quotient of two operands. -/
def isProduct : Pending → Bool
  | operator ⟨.between, .mul, _⟩ | operator ⟨.between, .div, _⟩ => true
  | _ => false

/-- A sign, or a power of two operands. -/
def isTight : Pending → Bool
  | operator ⟨.sign, _, _⟩ | operator ⟨.between, .pow, _⟩ => true
  | _ => false

/-- From the bottom up: at most one sum, then at most one product, then signs and powers. -/
def Layered (segment : List Pending) : Prop :=
  ∃ (sum? product? : Option Pending) (tight : List Pending),
    segment = sum?.toList ++ product?.toList ++ tight ∧ (∀ x ∈ sum?, x.isSum) ∧
      (∀ x ∈ product?, x.isProduct) ∧ ∀ x ∈ tight, x.isTight

/-- What lies above, between and below the open parentheses, each part read from the bottom up. -/
def segments (pending : List Pending) : List (List Pending) :=
  (pending.splitOnP isGroup).map List.reverse

/-- The entry may lie on the one below: if it stands between two operands, the one below does not yield
to it. -/
def Rests (top below : Pending) : Prop :=
  ∀ o, top = operator o → o.stance = .between → below.yieldsTo o = false

def InOrder (pending : List Pending) : Prop := pending.IsChain Rests

/-! ## Neighbours -/

theorem rests_of_group (position : Position) (below : Pending) : Rests (group position) below := by
  intro o h
  cases h

theorem rests_on_group (top : Pending) (position : Position) : Rests top (group position) := by
  intro o _ _
  rfl

theorem rests_between_iff {op : Op} {position : Position} {below : Pending} :
    Rests (operator (between op position)) below ↔
      below.yieldsTo (between op position) = false := by
  constructor
  · intro h
    exact h _ rfl rfl
  · rintro h o ⟨⟩ -
    exact h

theorem rests_of_tight {top : Pending} (h : top.isTight) (below : Pending) : Rests top below := by
  rintro ⟨stance, op, position⟩ rfl hstance
  cases hstance
  cases op with
  | pow => exact yieldsTo_pow below position
  | _ => cases h

theorem rests_of_product {top below : Pending} (h : top.isProduct) :
    Rests top below ↔ below.isSum ∨ below.isGroup := by
  rcases top with ⟨_ | _, _ | _ | _ | _ | _, _⟩ | _ <;> try cases h
  all_goals
    rcases below with ⟨_ | _, _ | _ | _ | _ | _, _⟩ | _ <;>
      simp [Rests, isSum, isGroup, yieldsTo, PendingOp.precedence, Op.precedence]

theorem rests_of_sum {top below : Pending} (h : top.isSum) : Rests top below ↔ below.isGroup := by
  rcases top with ⟨_ | _, _ | _ | _ | _ | _, _⟩ | _ <;> try cases h
  all_goals
    rcases below with ⟨_ | _, _ | _ | _ | _ | _, _⟩ | _ <;>
      simp [Rests, isGroup, yieldsTo, PendingOp.precedence, Op.precedence]

theorem layer_cases (o : PendingOp) :
    (operator o).isSum ∨ (operator o).isProduct ∨ (operator o).isTight := by
  rcases o with ⟨_ | _, _ | _ | _ | _ | _, _⟩ <;> simp [isSum, isProduct, isTight]

theorem isSum_alone {x : Pending} (h : x.isSum) : x.isProduct = false ∧ x.isTight = false := by
  rcases x with ⟨_ | _, _ | _ | _ | _ | _, _⟩ | _ <;> cases h <;> exact ⟨rfl, rfl⟩

/-! ## Segments -/

section
variable {segment : List Pending} {o : PendingOp}

theorem layered_nil : Layered [] := ⟨none, none, [], rfl, by simp, by simp, by simp⟩

theorem Layered.eq_singleton (h : Layered segment) {top : Pending} (htop : top ∈ segment.getLast?)
    (hsum : top.isSum) : segment = [top] := by
  obtain ⟨hproduct', htight'⟩ := isSum_alone hsum
  obtain ⟨sum?, product?, tight, rfl, -, hproduct, htight⟩ := h
  rcases List.eq_nil_or_concat' tight with rfl | ⟨tight, last, rfl⟩
  · cases product? with
    | none =>
      cases sum? with
      | none => cases htop
      | some sum =>
        cases htop
        rfl
    | some product =>
      obtain rfl : product = top := by simpa using htop
      exact absurd (hproduct product rfl) (by simp [hproduct'])
  · obtain rfl : last = top := by simpa using htop
    exact absurd (htight last (by simp)) (by simp [htight'])

theorem Layered.of_concat (h : Layered (segment ++ [operator o])) :
    Layered segment ∧ ∀ below ∈ segment.getLast?, Rests (operator o) below := by
  obtain ⟨sum?, product?, tight, heq, hsum, hproduct, htight⟩ := h
  rcases List.eq_nil_or_concat' tight with rfl | ⟨tight, last, rfl⟩
  · rw [List.append_nil] at heq
    cases product? with
    | none =>
      rw [Option.toList_none, List.append_nil] at heq
      cases sum? with
      | none => simp at heq
      | some sum =>
        obtain rfl : segment = [] := by simpa using (List.append_singleton_inj.mp heq).1
        exact ⟨layered_nil, by simp⟩
    | some product =>
      obtain ⟨rfl, rfl⟩ := List.append_singleton_inj.mp heq
      refine ⟨⟨sum?, none, [], by simp, hsum, by simp, by simp⟩, fun below hbelow => ?_⟩
      cases sum? with
      | none => cases hbelow
      | some sum =>
        cases hbelow
        exact (rests_of_product (hproduct _ rfl)).mpr (.inl (hsum sum rfl))
  · rw [← List.append_assoc] at heq
    obtain ⟨rfl, rfl⟩ := List.append_singleton_inj.mp heq
    refine ⟨⟨sum?, product?, tight, rfl, hsum, hproduct, fun x hx => htight x (by simp [hx])⟩,
      fun below _ => rests_of_tight (htight _ (by simp)) below⟩

theorem Layered.concat (h : Layered segment) (hgroup : ∀ x ∈ segment, x.isGroup = false)
    (hrests : ∀ below ∈ segment.getLast?, Rests (operator o) below) :
    Layered (segment ++ [operator o]) := by
  rcases List.eq_nil_or_concat' segment with rfl | ⟨lower, below, rfl⟩
  · rcases layer_cases o with ho | ho | ho
    · exact ⟨some (operator o), none, [], rfl, by simpa using ho, by simp, by simp⟩
    · exact ⟨none, some (operator o), [], rfl, by simp, by simpa using ho, by simp⟩
    · exact ⟨none, none, [operator o], rfl, by simp, by simp, by simpa using ho⟩
  · have hbelow := hgroup below (by simp)
    have hrest := hrests below (by simp)
    rcases layer_cases o with ho | ho | ho
    · rw [rests_of_sum ho, hbelow] at hrest
      cases hrest
    · rw [rests_of_product ho, hbelow] at hrest
      have hsum : below.isSum := by simpa using hrest
      rw [h.eq_singleton (by simp) hsum]
      exact ⟨some below, some (operator o), [], rfl, by simpa using hsum, by simpa using ho, by simp⟩
    · obtain ⟨sum?, product?, tight, heq, hsum, hproduct, htight⟩ := h
      refine ⟨sum?, product?, tight ++ [operator o], by simp [heq], hsum, hproduct, ?_⟩
      exact List.forall_mem_append.mpr ⟨htight, by simpa using ho⟩

end

/-- The entries above the innermost open parenthesis, the top one first. -/
def aboveGroup (pending : List Pending) : List Pending := pending.takeWhile fun x => !x.isGroup

/-- The innermost open parenthesis and everything below it. -/
def fromGroup (pending : List Pending) : List Pending := pending.dropWhile fun x => !x.isGroup

theorem not_group_of_mem_aboveGroup {pending : List Pending} :
    ∀ x ∈ aboveGroup pending, x.isGroup = false := by
  intro x hx
  simpa using List.all_eq_true.mp List.all_takeWhile x hx

@[simp]
theorem aboveGroup_operator (o : PendingOp) (pending : List Pending) :
    aboveGroup (operator o :: pending) = operator o :: aboveGroup pending := rfl

@[simp]
theorem fromGroup_operator (o : PendingOp) (pending : List Pending) :
    fromGroup (operator o :: pending) = fromGroup pending := rfl

theorem exists_segments (pending : List Pending) : ∃ lower : List (List Pending),
    segments pending = (aboveGroup pending).reverse :: lower ∧ ∀ o,
      segments (operator o :: pending) = ((aboveGroup pending).reverse ++ [operator o]) :: lower := by
  have hsplit : ∃ lower, pending.splitOnP isGroup = aboveGroup pending :: lower := by
    induction pending with
    | nil => exact ⟨[], rfl⟩
    | cons top pending ih =>
      obtain ⟨lower, ih⟩ := ih
      cases top with
      | group position => exact ⟨_, by rw [List.splitOnP_cons_eq_if_modifyHead]; rfl⟩
      | operator o =>
        refine ⟨lower, ?_⟩
        rw [List.splitOnP_cons_eq_if_modifyHead, ih]
        rfl
  obtain ⟨lower, hsplit⟩ := hsplit
  refine ⟨lower.map List.reverse, by simp [segments, hsplit], fun o => ?_⟩
  simp [segments, List.splitOnP_cons_eq_if_modifyHead, isGroup, hsplit]

theorem rests_on_head_iff (top : Pending) (pending : List Pending) :
    (∀ below ∈ pending.head?, Rests top below) ↔
      ∀ below ∈ (aboveGroup pending).head?, Rests top below := by
  cases pending with
  | nil => rfl
  | cons below pending =>
    cases below with
    | group position => simp [aboveGroup, isGroup, rests_on_group]
    | operator o => simp

/-- The layers of all segments and the order of neighbours say the same. -/
theorem layered_segments_iff (pending : List Pending) :
    (∀ segment ∈ segments pending, Layered segment) ↔ InOrder pending := by
  induction pending with
  | nil => simp [segments, InOrder, layered_nil]
  | cons top pending ih =>
    unfold InOrder at ih ⊢
    rw [List.isChain_cons, ← ih]
    cases top with
    | group position =>
      simp [segments, List.splitOnP_cons_eq_if_modifyHead, isGroup, layered_nil, rests_of_group]
    | operator o =>
      obtain ⟨lower, hsegments, hcons⟩ := exists_segments pending
      rw [hsegments, hcons, rests_on_head_iff, ← List.getLast?_reverse, List.forall_mem_cons,
        List.forall_mem_cons]
      constructor
      · rintro ⟨htop, hlower⟩
        obtain ⟨hlayered, hrests⟩ := htop.of_concat
        exact ⟨hrests, hlayered, hlower⟩
      · rintro ⟨hrests, hlayered, hlower⟩
        refine ⟨hlayered.concat (fun x hx => ?_) hrests, hlower⟩
        exact not_group_of_mem_aboveGroup x (List.mem_reverse.mp hx)

/-! ## Steps -/

section
variable {operands operands' : List Expr} {pending pending' : List Pending}

theorem suffix_of_makeRoom {incoming : PendingOp}
    (h : makeRoom incoming operands pending = .ok (operands', pending')) :
    pending' <:+ pending ∧ ∀ top ∈ pending'.head?, top.yieldsTo incoming = false := by
  fun_induction makeRoom incoming operands pending with
  | case1 operands entry pending hyields attached hattach ih =>
    obtain ⟨hsuffix, hhead⟩ := ih h
    exact ⟨hsuffix.trans (List.suffix_cons _ _), hhead⟩
  | case2 => cases h
  | case3 operands entry pending hstays =>
    cases h
    exact ⟨List.suffix_rfl, by simpa using hstays⟩
  | case4 operands pending hgroup =>
    cases h
    refine ⟨List.suffix_rfl, fun top htop => ?_⟩
    cases top with
    | group position => rfl
    | operator entry =>
      obtain ⟨rest, rfl⟩ := List.head?_eq_some_iff.mp htop
      exact absurd rfl (hgroup entry rest)

theorem suffix_of_closeGroup {position : Position}
    (h : closeGroup position operands pending = ⟨none, operands', pending'⟩) :
    pending' <:+ pending := by
  fun_induction closeGroup position operands pending with
  | case1 => cases h
  | case2 operands opened pending =>
    cases h
    exact List.suffix_cons _ _
  | case3 operands entry pending attached hattach ih => exact (ih h).trans (List.suffix_cons _ _)
  | case4 => cases h

end

/-- What the steps keep of a pending stack. -/
structure WellLaid (pending : List Pending) : Prop where
  inOrder : InOrder pending
  signs : ∀ op position, operator ⟨.sign, op, position⟩ ∈ pending → op.isSign

namespace WellLaid

variable {pending pending' : List Pending}

theorem nil : WellLaid [] := ⟨.nil, by simp⟩

theorem suffix (h : WellLaid pending) (hsuffix : pending' <:+ pending) : WellLaid pending' :=
  ⟨h.inOrder.suffix hsuffix, fun op position hmem => h.signs op position (hsuffix.mem hmem)⟩

theorem push (h : WellLaid pending) {top : Pending} (htop : ∀ below ∈ pending.head?, Rests top below)
    (hsign : ∀ op position, top = operator ⟨.sign, op, position⟩ → op.isSign) :
    WellLaid (top :: pending) := by
  refine ⟨List.isChain_cons.mpr ⟨htop, h.inOrder⟩, fun op position hmem => ?_⟩
  rcases List.mem_cons.mp hmem with heq | hmem
  · exact hsign op position heq.symm
  · exact h.signs op position hmem

theorem step {s s' : Progress} {t : Token} (h : WellLaid s.pending)
    (hstep : s.step t = .ok (.more s')) : WellLaid s'.pending := by
  cases Progress.goes hstep with
  | sign _ _ hsign =>
    refine h.push (fun below _ => rests_of_tight rfl below) ?_
    rintro op position ⟨⟩
    exact hsign
  | number => exact h
  | opening => exact h.push (fun below _ => rests_of_group _ below) (by simp)
  | between _ _ hroom =>
    obtain ⟨hsuffix, hhead⟩ := suffix_of_makeRoom hroom
    refine (h.suffix hsuffix).push ?_ (by simp)
    rintro below hbelow o ⟨⟩ -
    exact hhead below hbelow
  | closing _ _ _ hclose => exact h.suffix (suffix_of_closeGroup hclose)

end WellLaid

/-! ## What an incoming operator leaves -/

section
variable {op : Op} {position : Position} {operands operands' : List Expr}
  {pending pending' : List Pending}

theorem stays_iff_sum (hop : op.precedence = 2) (o : PendingOp) :
    (operator o).yieldsTo (between op position) = false ↔ (operator o).isSum := by
  have hproduct : (operator (between op position)).isProduct := by
    cases op <;> first | rfl | cases hop
  rw [← rests_between_iff, rests_of_product hproduct]
  simp [isGroup]

theorem fromGroup_eq_self (h : ∀ entry rest, pending = operator entry :: rest → False) :
    aboveGroup pending = [] ∧ fromGroup pending = pending := by
  cases pending with
  | nil => exact ⟨rfl, rfl⟩
  | cons top pending =>
    cases top with
    | group opened => exact ⟨rfl, rfl⟩
    | operator entry => exact (h entry pending rfl).elim

theorem eq_fromGroup_of_makeRoom (hop : op.precedence = 1)
    (h : makeRoom (between op position) operands pending = .ok (operands', pending')) :
    pending' = fromGroup pending := by
  fun_induction makeRoom (between op position) operands pending with
  | case1 operands entry pending hyields attached hattach ih => exact ih h
  | case2 => cases h
  | case3 operands entry pending hstays => exact absurd (yieldsTo_weakest entry position hop) hstays
  | case4 operands pending hgroup =>
    cases h
    exact (fromGroup_eq_self hgroup).2.symm

theorem eq_sums_of_makeRoom (horder : InOrder pending) (hop : op.precedence = 2)
    (h : makeRoom (between op position) operands pending = .ok (operands', pending')) :
    pending' = (aboveGroup pending).filter isSum ++ fromGroup pending := by
  fun_induction makeRoom (between op position) operands pending with
  | case1 operands entry pending hyields attached hattach ih =>
    have hsum : ¬ (operator entry).isSum := by
      rw [← stays_iff_sum hop, hyields]
      exact Bool.noConfusion
    rw [aboveGroup_operator, List.filter_cons_of_neg hsum]
    exact ih horder.tail h
  | case2 => cases h
  | case3 operands entry pending hstays =>
    cases h
    have hsum := (stays_iff_sum hop entry).mp (by simpa using hstays)
    rw [aboveGroup_operator, List.filter_cons_of_pos hsum, fromGroup_operator]
    -- Nothing but a parenthesis can be below a sum.
    cases pending with
    | nil => rfl
    | cons below pending =>
      have hgroup := (rests_of_sum hsum).mp (List.isChain_cons_cons.mp horder).1
      cases below with
      | group opened => rfl
      | operator o => cases hgroup
  | case4 operands pending hgroup =>
    cases h
    obtain ⟨habove, hfrom⟩ := fromGroup_eq_self hgroup
    rw [habove, hfrom]
    rfl

theorem Layered.length_sums_le {segment : List Pending} (h : Layered segment) :
    (segment.filter isSum).length ≤ 1 := by
  obtain ⟨sum?, product?, tight, rfl, -, hproduct, htight⟩ := h
  have hno {x : Pending} (hx : x.isProduct ∨ x.isTight) : ¬ x.isSum := by
    intro hsum
    simp [isSum_alone hsum] at hx
  have hproducts : product?.toList.filter isSum = [] :=
    List.filter_eq_nil_iff.mpr fun x hx => hno (.inl (hproduct x (Option.mem_toList.mp hx)))
  have htights : tight.filter isSum = [] :=
    List.filter_eq_nil_iff.mpr fun x hx => hno (.inr (htight x hx))
  rw [List.filter_append, List.filter_append, hproducts, htights, List.append_nil, List.append_nil]
  refine (List.length_filter_le _ _).trans ?_
  cases sum? <;> simp

theorem length_sums_le (h : InOrder pending) : ((aboveGroup pending).filter isSum).length ≤ 1 := by
  obtain ⟨lower, hsegments, -⟩ := exists_segments pending
  have hlayered := (layered_segments_iff pending).mpr h (aboveGroup pending).reverse (by simp [hsegments])
  simpa using hlayered.length_sums_le

end

end Pending

/-! ## Whole runs -/

theorem Parser.Reaches.wellLaid {p q : Parser} {s : Progress} {consumed : List Token}
    (h : p.Reaches q s consumed) : Pending.WellLaid s.pending := by
  induction h with
  | start => exact .nil
  | step _ hstep _ ih => exact ih.step hstep

theorem Progress.Balanced.exists_operator_step {s : Progress} (h : s.Balanced)
    (hwants : s.wantsOperand = false) {t : Token} {op : Op} (ht : t.symbol = .operator op) :
    ∃ operands pending,
      Pending.makeRoom ⟨.between, op, t.position⟩ s.operands s.pending = .ok (operands, pending) ∧
      s.step t = .ok (.more ⟨operands, .operator ⟨.between, op, t.position⟩ :: pending, s.depth,
        true⟩) := by
  have hlength := h.length_eq
  rw [hwants] at hlength
  obtain ⟨operands, pending, hroom, -⟩ :=
    Pending.makeRoom_of_length ⟨.between, op, t.position⟩ hlength
  refine ⟨operands, pending, hroom, ?_⟩
  rw [Progress.step, if_neg (by simp [hwants])]
  simp only [Progress.operatorStep, ht, hroom]

open Pending in
/-- At every head of a run the pending operators between two neighbouring parentheses lie in layers, and
only signs stand before an operand. That they lie in layers says the same, of any stack, as that no
operator between two operands lies on an entry that had to be attached before it. So an incoming sum
clears all down to the innermost parenthesis, an incoming product all but the one sum that may be there,
and an incoming power attaches nothing. -/
theorem layers_at_heads :
    (∀ (p q : Parser) (s : Progress) (consumed : List Token), p.Reaches q s consumed →
      (∀ segment ∈ segments s.pending, Layered segment) ∧
      (∀ op position, operator ⟨.sign, op, position⟩ ∈ s.pending → op.isSign) ∧
      InOrder s.pending ∧
      ∀ t op, s.wantsOperand = false → t.symbol = .operator op → ∃ operands left,
        s.step t = .ok (.more ⟨operands, operator ⟨.between, op, t.position⟩ :: left, s.depth,
          true⟩) ∧
        (op = .add ∨ op = .sub → left = fromGroup s.pending) ∧
        (op = .mul ∨ op = .div → left = (aboveGroup s.pending).filter isSum ++ fromGroup s.pending ∧
          ((aboveGroup s.pending).filter isSum).length ≤ 1) ∧
        (op = .pow → operands = s.operands ∧ left = s.pending)) ∧
    ∀ pending, (∀ segment ∈ segments pending, Layered segment) ↔ InOrder pending := by
  refine ⟨fun p q s consumed hreaches => ?_, layered_segments_iff⟩
  have hlaid := hreaches.wellLaid
  refine ⟨(layered_segments_iff s.pending).mpr hlaid.inOrder, hlaid.signs, hlaid.inOrder, ?_⟩
  intro t op hwants ht
  obtain ⟨operands, left, hroom, hstep⟩ := hreaches.balanced.exists_operator_step hwants ht
  refine ⟨operands, left, hstep, fun hop => ?_, fun hop => ?_, ?_⟩
  · exact eq_fromGroup_of_makeRoom (Op.precedence_eq_one hop) hroom
  · exact ⟨eq_sums_of_makeRoom hlaid.inOrder (Op.precedence_eq_two hop) hroom,
      length_sums_le hlaid.inOrder⟩
  · rintro rfl
    rw [makeRoom_of_firm (firm_three s.pending) (by decide)] at hroom
    cases hroom
    exact ⟨rfl, rfl⟩

open Pending in
/-- The head in front of the quotient in `(1+-2^3/4`. A power and a sign lie on a sum there, and only the
sum stays. -/
theorem layers_at_heads_quotient :
    ∃ (p q : Parser) (s : Progress) (consumed : List Token) (operands : List Expr),
      Parser.start false "(1+-2^3/4" = .ok p ∧ p.Reaches q s consumed ∧ s.wantsOperand = false ∧
      q.current.symbol = .operator .div ∧
      s.pending = [operator (between .pow ⟨1, 6⟩), operator ⟨.sign, .sub, ⟨1, 4⟩⟩,
        operator (between .add ⟨1, 3⟩), group ⟨1, 1⟩] ∧
      (∀ segment ∈ segments s.pending, Layered segment) ∧
      s.step q.current = .ok (.more ⟨operands, [operator (between .div ⟨1, 8⟩),
        operator (between .add ⟨1, 3⟩), group ⟨1, 1⟩], 1, true⟩) := by
  let p : Parser := ⟨false, ⟨"1+-2^3/4".toList, 1, 1, 0⟩, ⟨.openParen, ⟨1, 1⟩⟩⟩
  let q : Parser := ⟨false, ⟨['4'], 8, 1, 0⟩, ⟨.operator .div, ⟨1, 8⟩⟩⟩
  let s : Progress := ⟨[.number (.int 3), .number (.int 2), .number (.int 1)],
    [operator (between .pow ⟨1, 6⟩), operator ⟨.sign, .sub, ⟨1, 4⟩⟩,
      operator (between .add ⟨1, 3⟩), group ⟨1, 1⟩], 1, false⟩
  have hstart : Parser.start false "(1+-2^3/4" = .ok p := rfl
  have hreaches : p.Reaches q s [⟨.openParen, ⟨1, 1⟩⟩, ⟨.number (.int 1), ⟨1, 2⟩⟩,
      ⟨.operator .add, ⟨1, 3⟩⟩, ⟨.operator .sub, ⟨1, 4⟩⟩, ⟨.number (.int 2), ⟨1, 5⟩⟩,
      ⟨.operator .pow, ⟨1, 6⟩⟩, ⟨.number (.int 3), ⟨1, 7⟩⟩] :=
    .step (.step (.step (.step (.step (.step (.step .start rfl rfl) rfl rfl) rfl rfl) rfl rfl)
      rfl rfl) rfl rfl) rfl rfl
  obtain ⟨hlayered, -, -, hincoming⟩ := layers_at_heads.1 p q s _ hreaches
  obtain ⟨operands, left, hstep, -, hproduct, -⟩ := hincoming q.current .div rfl rfl
  obtain ⟨rfl, -⟩ := hproduct (.inr rfl)
  exact ⟨p, q, s, _, operands, hstart, hreaches, rfl, rfl, rfl, hlayered, hstep⟩

end Arith
