import Arith.Proofs.Likeness
import Arith.Proofs.Spelling

/-!
# Allowing decimals

Scanning with decimals on finds what it finds with decimals off, up to the first point that has a digit
in front of it and one behind. There the number in front of the point gets a fraction; with decimals off
the point is the fault. So a reading changes only where that fault would have been its end.
-/

namespace Arith

/-! ## Scanning -/

theorem Numeral.split_decimals (cs : List Char) :
    split true cs = split false cs ∨ ∃ more, (split false cs).2 = '.' :: more := by
  unfold split
  simp only
  split
  · rename_i c more hdrop
    split
    · exact .inr ⟨_, hdrop⟩
    · exact .inl (by rw [hdrop])
  · exact .inl rfl

theorem Symbol.split?_decimals (cs : List Char) :
    split? true cs = split? false cs ∨ ∃ v v' width width' more more',
      split? false cs = some (.number v, width, '.' :: more) ∧
        split? true cs = some (.number v', width', more') := by
  cases cs with
  | nil => exact .inl rfl
  | cons c cs =>
    simp only [split?]
    split
    · rcases Numeral.split_decimals (c :: cs) with heq | ⟨more, hmore⟩
      · exact .inl (by rw [heq])
      · rw [hmore]
        exact .inr ⟨_, _, _, _, more, _, rfl, rfl⟩
    · exact .inl rfl

namespace Cursor

theorem next_decimals (c : Cursor) :
    c.next true = c.next false ∨ ∃ v v' position after after' more,
      c.next false = (.ok ⟨.number v, position⟩, after) ∧ after.rest = '.' :: more ∧
        c.next true = (.ok ⟨.number v', position⟩, after') := by
  rcases Symbol.split?_decimals c.skipBlanks.rest with heq | ⟨v, v', _, _, more, _, hoff, hon⟩
  · left
    unfold next
    simp only [heq]
  · exact .inr ⟨v, v', _, _, _, more, next_of_symbol hoff, rfl, next_of_symbol hon⟩

theorem drain_of_point {c : Cursor} {more : List Char} (h : c.rest = '.' :: more) :
    ∃ position, c.drain false = ⟨[], some ⟨.foreignCharacter '.', position⟩, c⟩ := by
  have hskip : c.skipBlanks = c := by
    apply skipBlanks_of_not_blank
    rw [h]
    rintro first ⟨⟩
    rfl
  have hnone : Symbol.split? false c.skipBlanks.rest = none := by
    rw [hskip, h]
    rfl
  have hnext := next_of_foreign (by rw [hskip, h]) hnone
  rw [hskip] at hnext
  exact ⟨_, drain_of_fault hnext⟩

/-- The tokens are the same with decimals on, or they are the same up to a last number, which is of
another value with decimals on and has the point behind it with decimals off. -/
theorem drain_decimals (c : Cursor) :
    c.drain true = c.drain false ∨ ∃ b v v' position point more,
      (c.drain false).tokens = b ++ [⟨.number v, position⟩] ∧
        (c.drain false).fault? = some ⟨.foreignCharacter '.', point⟩ ∧
        (c.drain true).tokens = b ++ ⟨.number v', position⟩ :: more := by
  fun_induction drain false c with
  | case1 c fault after h =>
    rcases next_decimals c with heq | ⟨_, _, _, _, _, _, hoff, -⟩
    · exact .inl (drain_of_fault (heq.trans h))
    · rw [h] at hoff
      cases hoff
  | case2 c t after h hend =>
    rcases next_decimals c with heq | ⟨_, _, _, _, _, _, hoff, -⟩
    · exact .inl (drain_of_end (heq.trans h) hend)
    · rw [h] at hoff
      cases hoff
      cases hend
  | case3 c t after h hend _ more ih =>
    rcases next_decimals c with heq | ⟨v, v', position, _, after', rest, hoff, hrest, hon⟩
    · rw [drain_of_token (heq.trans h) hend]
      rcases ih with hmore | ⟨b, v, v', position, point, rest, hoff, hfault, hon⟩
      · exact .inl (by rw [hmore])
      · refine .inr ⟨t :: b, v, v', position, point, rest, ?_, hfault, ?_⟩
        · simp only [more, hoff, List.cons_append]
        · simp only [hon, List.cons_append]
    · rw [h] at hoff
      cases hoff
      obtain ⟨point, hpoint⟩ := drain_of_point hrest
      refine .inr ⟨[], v, v', position, point, (after'.drain true).tokens, ?_, ?_, ?_⟩
      · simp only [more, hpoint, List.nil_append]
      · simp only [more, hpoint]
      · rw [drain_of_token hon (by simp), List.nil_append]

end Cursor

theorem scan_decimals (source : String) :
    scan true source = scan false source ∨ ∃ b v v' position point more,
      (scan false source).tokens = b ++ [⟨.number v, position⟩] ∧
        (scan false source).fault? = some ⟨.foreignCharacter '.', point⟩ ∧
        (scan true source).tokens = b ++ ⟨.number v', position⟩ :: more :=
  (Cursor.start source.toList).drain_decimals

/-! ## Reading -/

theorem like_of_last_number (b : List Token) (v v' : Literal) (position : Position) :
    List.Forall₂ (Token.Like (fun _ _ => True) Eq) (b ++ [⟨.number v, position⟩])
      (b ++ [⟨.number v', position⟩]) := by
  apply List.rel_append
  · exact List.forall₂_same.mpr fun t _ => Token.like_refl (fun _ => trivial) (fun _ => rfl) t
  · exact .cons (.mk (.number trivial) rfl) .nil

theorem parse_decimals (source : String) :
    parse true source = parse false source ∨
    (∃ fault fault' : Fault, parse false source = .error (.fault fault) ∧
      parse true source = .error (.fault fault') ∧ fault.cause.kind.stage = .parsing ∧
      fault'.cause.kind = fault.cause.kind ∧ fault'.position = fault.position) ∨
    ∃ point, parse false source = .error (.fault ⟨.foreignCharacter '.', point⟩) := by
  have hoff := outcome_parse false source
  have hon := outcome_parse true source
  rcases scan_decimals source with
    heq | ⟨b, v, v', position, point, more, htokens, hfault, htokens'⟩
  · rw [heq] at hon
    exact .inl (hon.unique hoff)
  · rw [htokens, hfault] at hoff
    rw [htokens', List.append_cons] at hon
    -- Up to the number the readings are one and the same, and the number itself is read alike.
    have hread := Progress.Like.initial.read (like_of_last_number b v v' position)
    obtain ⟨failure, failure', heq, heq', hlike⟩ | ⟨_, _, heq, -, hstep⟩ := hread.outcomes
    · rw [heq] at hoff
      rw [Progress.read_append_of_failure heq'] at hon
      have hparse := hoff.unique (.failed failure _)
      have hparse' := hon.unique (.failed failure' _)
      obtain ⟨fault, rfl, hstage | ⟨hstage, -⟩⟩ :=
        (hparse ▸ verdict_parse false source).fault_of_failure (wellEnded_scan ..)
      · have hpoint := tokenize_eq_error_iff.mp (tokenize_of_parse_fault hparse hstage)
        rw [hfault] at hpoint
        cases hpoint
        exact .inr (.inr ⟨point, hparse⟩)
      · cases hlike with
        | fault hlike =>
          cases hlike with
          | mk hcause hplace =>
            exact .inr (.inl ⟨_, _, hparse, hparse', hstage, hcause.kind_eq.symm, hplace.symm⟩)
    · rw [heq] at hoff
      cases hstep with
      | more _ => exact .inr (.inr ⟨point, hoff.unique (.cut _ _)⟩)
      | done _ =>
        have hnone := (parse_eq_ok_iff.mp (hoff.unique (.done _ _))).1
        rw [hfault] at hnone
        cases hnone

/-- Allowing decimals is conservative. A tree stays the tree, a fault of parsing stays one of its kind at its
place, and a fault of scanning stays the fault it is, unless it is a point. No other outcome changes in
kind. -/
theorem decimals_conservative (source : String) :
    (∀ e, parse false source = .ok e → parse true source = .ok e) ∧
    (∀ fault : Fault, parse false source = .error (.fault fault) → fault.cause.kind.stage = .parsing →
      ∃ fault' : Fault, parse true source = .error (.fault fault') ∧
        fault'.cause.kind = fault.cause.kind ∧ fault'.position = fault.position) ∧
    (∀ fault : Fault, parse false source = .error (.fault fault) →
      fault.cause.kind.stage = .scanning → fault.cause ≠ .foreignCharacter '.' →
      parse true source = .error (.fault fault)) ∧
    ((∀ point, parse false source ≠ .error (.fault ⟨.foreignCharacter '.', point⟩)) →
      (∃ e, parse false source = .ok e ∧ parse true source = .ok e) ∨
      ∃ fault fault' : Fault, parse false source = .error (.fault fault) ∧
        parse true source = .error (.fault fault') ∧ fault'.cause.kind = fault.cause.kind ∧
        fault'.position = fault.position) := by
  rcases parse_decimals source with heq | ⟨found, found', hoff, hon, hstage, hkind, hplace⟩ | ⟨point, hoff⟩
  · rw [heq]
    refine ⟨fun e h => h, fun fault h _ => ⟨fault, h, rfl, rfl⟩, fun fault h _ _ => h, fun _ => ?_⟩
    cases hparse : parse false source with
    | ok e => exact .inl ⟨e, rfl, rfl⟩
    | error failure =>
      obtain ⟨fault, rfl, -⟩ := parse_not_guarded hparse
      exact .inr ⟨fault, fault, rfl, rfl, rfl, rfl⟩
  · rw [hoff]
    refine ⟨?_, ?_, ?_, fun _ => .inr ⟨found, found', rfl, hon, hkind, hplace⟩⟩
    · rintro e ⟨⟩
    · rintro fault ⟨⟩ -
      exact ⟨found', hon, hkind, hplace⟩
    · rintro fault ⟨⟩ hscanning -
      rw [hstage] at hscanning
      cases hscanning
  · rw [hoff]
    refine ⟨?_, ?_, ?_, fun hpoint => absurd rfl (hpoint point)⟩
    · rintro e ⟨⟩
    · rintro fault ⟨⟩ hparsing
      cases hparsing
    · rintro fault ⟨⟩ - hcause
      exact absurd rfl hcause

/-- A number too many, which is another number with decimals on. -/
theorem decimals_conservative_at_number :
    ∃ fault fault' : Fault, parse false "1 2.5" = .error (.fault fault) ∧
      fault.cause.kind.stage = .parsing ∧ parse true "1 2.5" = .error (.fault fault') ∧
      fault.cause ≠ fault'.cause ∧ fault'.cause.kind = fault.cause.kind ∧
      fault'.position = fault.position := by
  have hoff : parse false "1 2.5" =
      .error (.fault ⟨.unexpected .afterOperand (.number (.int 2)), ⟨1, 3⟩⟩) := by decide +kernel
  obtain ⟨fault', hon, hkind, hplace⟩ := (decimals_conservative "1 2.5").2.1 _ hoff rfl
  have hon' : parse true "1 2.5" =
      .error (.fault ⟨.unexpected .afterOperand (.number (.real (.ofDecimal 25 1))), ⟨1, 3⟩⟩) := by
    decide +kernel
  refine ⟨_, fault', hoff, rfl, hon, ?_, hkind, hplace⟩
  rw [hon] at hon'
  cases hon'
  simp

end Arith
