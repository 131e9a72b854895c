import Arith.Proofs.Scanning

/-!
# Characters out of place

Which character stops a scan can be read off the text: it is the first one that is no letter, digit, mark
or blank, apart from a point with decimals on that stands between the digits of one number. The tokens in
front of it are those of the text in front of it.
-/

namespace Arith

/-- A character that belongs to a lexeme or is blank, whatever stands around it. -/
def InAlphabet (c : Char) : Prop :=
  c.isDigit ∨ c.isAlpha ∨ c ∈ ['(', ')', '+', '-', '*', '/', '^'] ∨ c ∈ [' ', '\t', '\r', '\n']

/-- A point between two texts stands in a number: a digit is directly behind it, and directly in front
of it a run of digits that is not itself directly behind a point. -/
def PointFits (before after : List Char) : Prop :=
  (∃ d ∈ after.head?, d.isDigit) ∧ before.rtakeWhile Char.isDigit ≠ [] ∧
    (before.rdropWhile Char.isDigit).getLast? ≠ some '.'

/-- A character between two texts is out of place there. -/
def Offends (decimals : Bool) (before : List Char) (c : Char) (after : List Char) : Prop :=
  ¬ InAlphabet c ∧ (decimals → c = '.' → ¬ PointFits before after)

/-- None of the characters of `run` is out of place between the two texts. -/
def Harmless (decimals : Bool) (before run after : List Char) : Prop :=
  ∀ b c e, run = b ++ c :: e → ¬ Offends decimals (before ++ b) c (e ++ after)

/-- The first character out of place in the text `before ++ c :: after`. -/
def FirstOffence (decimals : Bool) (before : List Char) (c : Char) (after : List Char) : Prop :=
  Offends decimals before c after ∧ Harmless decimals [] before (c :: after)

variable {decimals : Bool}

theorem FirstOffence.unique {before before' after after' : List Char} {c c' : Char}
    (h : FirstOffence decimals before c after) (h' : FirstOffence decimals before' c' after')
    (heq : before ++ c :: after = before' ++ c' :: after') :
    before = before' ∧ c = c' ∧ after = after' := by
  rcases List.append_eq_append_iff.mp heq with ⟨run, rfl, hrun⟩ | ⟨run, rfl, hrun⟩
  · cases run with
    | nil =>
      cases hrun
      simp
    | cons d run =>
      cases hrun
      exact absurd h.1 (h'.2 before c run rfl)
  · cases run with
    | nil =>
      cases hrun
      simp
    | cons d run =>
      cases hrun
      exact absurd h'.1 (h.2 before' c' run rfl)

/-! ## Harmless runs -/

theorem harmless_nil (before after : List Char) : Harmless decimals before [] after := by
  intro b c e heq
  simp at heq

theorem Harmless.append {before run run' after : List Char}
    (h : Harmless decimals before run (run' ++ after))
    (h' : Harmless decimals (before ++ run) run' after) :
    Harmless decimals before (run ++ run') after := by
  intro b c e heq
  rcases List.append_eq_append_iff.mp heq with ⟨b', rfl, hb'⟩ | ⟨e', hrun, he'⟩
  · rw [← List.append_assoc]
    exact h' b' c e hb'
  · cases e' with
    | nil =>
      rw [List.append_nil] at hrun
      rw [List.nil_append] at he'
      have hfirst := h' [] c e he'.symm
      rwa [List.append_nil, hrun] at hfirst
    | cons d e' =>
      obtain ⟨rfl, hend⟩ := List.cons.inj he'
      rw [show e = e' ++ run' from hend, List.append_assoc]
      exact h b c e' hrun

theorem harmless_of_alphabet {run : List Char} (h : ∀ c ∈ run, InAlphabet c)
    (before after : List Char) : Harmless decimals before run after := by
  rintro b c e rfl ⟨hnot, -⟩
  exact hnot (h c (by simp))

theorem harmless_point {before after : List Char} (h : PointFits before after) :
    Harmless true before ['.'] after := by
  intro b c e heq
  obtain ⟨rfl, rfl, rfl⟩ : b = [] ∧ c = '.' ∧ e = [] := by
    cases b with
    | nil => simpa [eq_comm] using heq
    | cons b bs => simp at heq
  rintro ⟨-, hmisfit⟩
  rw [List.append_nil] at hmisfit
  exact hmisfit rfl rfl h

theorem inAlphabet_of_blank {c : Char} (h : isBlank c) : InAlphabet c := by
  simp only [isBlank, Bool.or_eq_true, decide_eq_true_eq] at h
  unfold InAlphabet
  rcases h with ((rfl | rfl) | rfl) | rfl <;> simp

/-! ## Digits at the end of a text -/

theorem rspan_of_run {p : Char → Bool} {front run : List Char} (hrun : ∀ c ∈ run, p c)
    (hfront : ∀ c ∈ front.getLast?, p c = false) :
    (front ++ run).rtakeWhile p = run ∧ (front ++ run).rdropWhile p = front := by
  have hrun' : ∀ c ∈ run.reverse, p c := fun c hc => hrun c (List.mem_reverse.mp hc)
  have hfront' : ∀ c ∈ front.reverse.head?, p c = false := by
    rw [List.head?_reverse]
    exact hfront
  obtain ⟨htake, hdrop⟩ := span_of_run hrun' hfront'
  simp only [List.rtakeWhile, List.rdropWhile, List.reverse_append, htake, hdrop,
    List.reverse_reverse, and_self]

theorem not_pointFits_of_last {before : List Char} (h : ∀ c ∈ before.getLast?, c.isDigit = false)
    (after : List Char) : ¬ PointFits before after := by
  rintro ⟨-, hrun, -⟩
  have hnone : ∀ c ∈ ([] : List Char), c.isDigit := by simp
  obtain ⟨htake, -⟩ := rspan_of_run hnone h
  rw [List.append_nil] at htake
  exact hrun htake

/-! ## Between two lexemes -/

/-- At this place no lexeme goes on: what is in front ends with no point and, if a digit follows, with
no digit, and a point that follows is out of place. -/
structure Parted (decimals : Bool) (before after : List Char) : Prop where
  point : before.getLast? ≠ some '.'
  digit : (∃ d ∈ after.head?, d.isDigit) → ∀ d ∈ before.getLast?, d.isDigit = false
  misfit : decimals → ∀ more, after = '.' :: more → ¬ PointFits before more

theorem parted_of_last {before : List Char}
    (h : ∀ c ∈ before.getLast?, c.isDigit = false ∧ c ≠ '.') (after : List Char) :
    Parted decimals before after := by
  refine ⟨fun hlast => (h '.' hlast).2 rfl, fun _ d hd => (h d hd).1, fun _ more _ => ?_⟩
  exact not_pointFits_of_last (fun c hc => (h c hc).1) more

theorem mem_of_getLast?_append {before run : List Char} (hne : run ≠ []) :
    ∀ c ∈ (before ++ run).getLast?, c ∈ run := by
  intro c hc
  rw [List.getLast?_append_of_ne_nil _ hne] at hc
  exact List.mem_of_getLast? hc

theorem inAlphabet_of_digit {c : Char} (h : c.isDigit) : InAlphabet c := .inl h

section
variable {before more : List Char}

theorem Parted.whole {whole : List Char} (hne : whole ≠ []) (hwhole : ∀ c ∈ whole, c.isDigit)
    (hstop : Numeral.StopsAt decimals more ⟨whole, none⟩) : Parted decimals (before ++ whole) more := by
  obtain ⟨hdigit, hpoint⟩ := hstop
  refine ⟨fun hlast => ?_, ?_, ?_⟩
  · exact absurd (hwhole '.' (mem_of_getLast?_append hne '.' hlast)) (by decide)
  · rintro ⟨d, hd, hd'⟩
    rw [hdigit d hd] at hd'
    cases hd'
  · rintro hdecimals after rfl ⟨⟨d, hd, hd'⟩, -⟩
    obtain ⟨cs, rfl⟩ := List.head?_eq_some_iff.mp hd
    rw [hpoint hdecimals rfl d cs rfl] at hd'
    cases hd'

theorem Parted.fraction {front digits : List Char} (hne : digits ≠ [])
    (hdigits : ∀ c ∈ digits, c.isDigit) (hdigit : ∀ c ∈ more.head?, c.isDigit = false) :
    Parted decimals (front ++ ['.'] ++ digits) more := by
  have hpoint : ∀ c ∈ (front ++ ['.']).getLast?, c.isDigit = false := by
    rw [List.getLast?_concat]
    rintro c ⟨⟩
    rfl
  obtain ⟨-, hdrop⟩ := rspan_of_run hdigits hpoint
  refine ⟨fun hlast => ?_, ?_, ?_⟩
  · exact absurd (hdigits '.' (mem_of_getLast?_append hne '.' hlast)) (by decide)
  · rintro ⟨d, hd, hd'⟩
    rw [hdigit d hd] at hd'
    cases hd'
  · rintro - after - ⟨-, -, hlast⟩
    rw [hdrop, List.getLast?_concat] at hlast
    exact hlast rfl

theorem Parted.number {n : Numeral} (h : Parted decimals before (n.chars ++ more))
    (hlegal : n.Legal decimals) (hstop : n.StopsAt decimals more) :
    Harmless decimals before n.chars more ∧ Parted decimals (before ++ n.chars) more := by
  obtain ⟨whole, fraction⟩ := n
  obtain ⟨hne, hwhole, hfraction⟩ := hlegal
  have hplain : ∀ c ∈ whole, InAlphabet c := fun c hc => inAlphabet_of_digit (hwhole c hc)
  cases fraction with
  | none =>
    simp only [Numeral.chars, List.append_nil]
    exact ⟨harmless_of_alphabet hplain _ _, .whole hne hwhole hstop⟩
  | some digits =>
    obtain ⟨rfl, hsome, hdigits⟩ := hfraction digits rfl
    simp only [Numeral.chars] at h ⊢
    obtain ⟨d, ds, rfl⟩ := List.exists_cons_of_ne_nil hsome
    obtain ⟨w, ws, rfl⟩ := List.exists_cons_of_ne_nil hne
    have hfront := h.digit ⟨w, rfl, hwhole w List.mem_cons_self⟩
    obtain ⟨htake, hdrop⟩ := rspan_of_run hwhole hfront
    have hfits : PointFits (before ++ w :: ws) (d :: ds ++ more) := by
      refine ⟨⟨d, rfl, hdigits d List.mem_cons_self⟩, ?_, ?_⟩
      · rw [htake]
        exact hne
      · rw [hdrop]
        exact h.point
    have hrest : Harmless true (before ++ w :: ws ++ ['.']) (d :: ds) more :=
      harmless_of_alphabet (fun c hc => inAlphabet_of_digit (hdigits c hc)) _ _
    refine ⟨?_, ?_⟩
    · exact (harmless_of_alphabet hplain _ _).append ((harmless_point hfits).append hrest)
    · have hend : Parted true (before ++ w :: ws ++ ['.'] ++ d :: ds) more :=
        .fraction hsome hdigits hstop.1
      simpa using hend

end

theorem Parted.lexeme {before more : List Char} {l : Lexeme}
    (h : Parted decimals before (l.chars ++ more)) (hlegal : l.Legal decimals)
    (hstop : l.StopsAt decimals more) :
    Harmless decimals before l.chars more ∧ Parted decimals (before ++ l.chars) more := by
  have hmarks {c : Char} (hc : c ∈ ['(', ')', '+', '-', '*', '/', '^']) :
      Harmless decimals before [c] more ∧ Parted decimals (before ++ [c]) more := by
    refine ⟨harmless_of_alphabet (by simpa using .inr (.inr (.inl hc))) _ _, parted_of_last ?_ _⟩
    rw [List.getLast?_concat]
    rintro d ⟨⟩
    simp only [List.mem_cons, List.not_mem_nil, or_false] at hc
    rcases hc with rfl | rfl | rfl | rfl | rfl | rfl | rfl <;> exact ⟨rfl, by decide⟩
  cases l with
  | number n => exact Parted.number h hlegal hstop
  | word letters =>
    obtain ⟨hne, hletters⟩ := hlegal
    refine ⟨harmless_of_alphabet (fun c hc => .inr (.inl (hletters c hc))) _ _, parted_of_last ?_ _⟩
    intro c hc
    have halpha := hletters c (mem_of_getLast?_append hne c hc)
    refine ⟨not_digit_of_alpha halpha, ?_⟩
    rintro rfl
    cases halpha
  | openParen => exact hmarks (by simp)
  | closeParen => exact hmarks (by simp)
  | operator op => exact hmarks (by cases op <;> simp [Op.symbol])

theorem Parted.blank {before more : List Char} {c : Char} (hblank : isBlank c) :
    Harmless decimals before [c] more ∧ Parted decimals (before ++ [c]) more := by
  refine ⟨harmless_of_alphabet (by simpa using inAlphabet_of_blank hblank) _ _, parted_of_last ?_ _⟩
  rw [List.getLast?_concat]
  rintro d ⟨⟩
  simp only [isBlank, Bool.or_eq_true, decide_eq_true_eq] at hblank
  rcases hblank with ((rfl | rfl) | rfl) | rfl <;> exact ⟨rfl, by decide⟩

theorem Parted.offends {before more : List Char} {c : Char} (h : Parted decimals before (c :: more))
    (hblank : isBlank c = false) (hsplit : Symbol.split? decimals (c :: more) = none) :
    Offends decimals before c more := by
  refine ⟨?_, fun hdecimals hpoint => h.misfit hdecimals more (by rw [hpoint])⟩
  rintro (hdigit | halpha | hmark | hspace)
  · simp [Symbol.split?, hdigit] at hsplit
  · simp [Symbol.split?, not_digit_of_alpha halpha, halpha] at hsplit
  · have hsome : ∃ x, Symbol.ofMark? c = some x := by
      simp only [List.mem_cons, List.not_mem_nil, or_false] at hmark
      rcases hmark with rfl | rfl | rfl | rfl | rfl | rfl | rfl <;> exact ⟨_, rfl⟩
    obtain ⟨x, hx⟩ := hsome
    rw [Symbol.split?_of_ofMark? hx] at hsplit
    cases hsplit
  · simp only [List.mem_cons, List.not_mem_nil, or_false] at hspace
    rcases hspace with rfl | rfl | rfl | rfl <;> cases hblank

/-! ## Whole texts -/

namespace Scans

variable {before cs before' rest : List Char} {ts : List Token}

theorem parted (h : Scans decimals before cs ts before' rest) (hparted : Parted decimals before cs) :
    Parted decimals before' rest := by
  induction h with
  | stop => exact hparted
  | blank hblank _ ih => exact ih (Parted.blank hblank).2
  | lexeme hlegal hstop _ ih => exact ih (hparted.lexeme hlegal hstop).2

theorem harmless (h : Scans decimals before cs ts before' rest) (hparted : Parted decimals before cs)
    {run : List Char} (hrun : cs = run ++ rest) : Harmless decimals before run rest := by
  induction h generalizing run with
  | stop =>
    obtain rfl : run = [] := List.self_eq_append_left.mp hrun
    exact harmless_nil _ _
  | @blank before cs before' rest c ts hblank hmore ih =>
    obtain ⟨run', rfl, -⟩ := hmore.exists_run
    obtain rfl : c :: run' = run := List.append_cancel_right hrun
    have hfirst : Harmless decimals before [c] (run' ++ rest) := (Parted.blank hblank).1
    exact hfirst.append (ih (Parted.blank hblank).2 rfl)
  | @lexeme before more before' rest l ts hlegal hstop hmore ih =>
    obtain ⟨run', rfl, -⟩ := hmore.exists_run
    rw [← List.append_assoc] at hrun
    obtain rfl : l.chars ++ run' = run := List.append_cancel_right hrun
    obtain ⟨hfirst, hnext⟩ := hparted.lexeme hlegal hstop
    exact hfirst.append (ih hnext rfl)

theorem firstOffence {c : Char} {more : List Char} (h : Scans decimals [] cs ts before' (c :: more)) :
    cs = before' ++ c :: more ∧ FirstOffence decimals before' c more := by
  have hstart : Parted decimals [] cs := parted_of_last (by simp) cs
  obtain ⟨run, hrun, hbefore⟩ := h.exists_run
  obtain ⟨hblank, hsplit⟩ := h.stops
  obtain rfl : before' = run := hbefore
  exact ⟨hrun, (h.parted hstart).offends (hblank c rfl) hsplit, h.harmless hstart hrun⟩

theorem not_offends (h : Scans decimals [] cs ts before' []) {before after : List Char} {c : Char}
    (heq : cs = before ++ c :: after) : ¬ Offends decimals before c after := by
  have hstart : Parted decimals [] cs := parted_of_last (by simp) cs
  have hharmless := h.harmless hstart (List.append_nil cs).symm before c after heq
  rwa [List.nil_append, List.append_nil] at hharmless

end Scans

section
variable {source : String} {before after : List Char} {c : Char} {fault : Fault}

theorem firstOffence_of_tokenize (h : tokenize decimals source = .error fault) :
    ∃ before c after, source.toList = before ++ c :: after ∧
      FirstOffence decimals before c after ∧ fault = ⟨.foreignCharacter c, .behind before⟩ := by
  obtain ⟨ts, before, rest, hscans⟩ := exists_scans decimals source
  cases rest with
  | nil =>
    rw [tokenize_of_scans hscans] at h
    cases h
  | cons c after =>
    rw [(tokenize_of_scans_cons hscans).1] at h
    obtain ⟨htext, hfirst⟩ := hscans.firstOffence
    exact ⟨before, c, after, htext, hfirst, (Except.error.inj h).symm⟩

theorem exists_fault_of_offends (heq : source.toList = before ++ c :: after)
    (h : Offends decimals before c after) : ∃ fault, tokenize decimals source = .error fault := by
  obtain ⟨ts, read, rest, hscans⟩ := exists_scans decimals source
  cases rest with
  | nil => exact absurd h (hscans.not_offends heq)
  | cons first more => exact ⟨_, (tokenize_of_scans_cons hscans).1⟩

theorem tokenize_of_firstOffence (heq : source.toList = before ++ c :: after)
    (h : FirstOffence decimals before c after) :
    tokenize decimals source = .error ⟨.foreignCharacter c, .behind before⟩ ∧
      tokenize decimals (String.ofList before) =
        .ok ((scan decimals source).tokens ++ [⟨.endOfInput, .behind before⟩]) := by
  obtain ⟨ts, read, rest, hscans⟩ := exists_scans decimals source
  cases rest with
  | nil => exact absurd h.1 (hscans.not_offends heq)
  | cons first more =>
    obtain ⟨htext, hfirst⟩ := hscans.firstOffence
    obtain ⟨rfl, rfl, rfl⟩ := hfirst.unique h (htext.symm.trans heq)
    obtain ⟨hfault, htokens⟩ := tokenize_of_scans_cons hscans
    refine ⟨hfault, ?_⟩
    rw [htokens]
    apply tokenize_of_scans
    rw [String.toList_ofList]
    exact hscans.cut htext

end

/-- Scanning fails just when some character of the source is out of place. The fault is the first such
character, at its place, and the tokens in front of it are those of the text in front of it. -/
theorem tokenize_fails_at_first_offence (decimals : Bool) (source : String) :
    ((∃ fault, tokenize decimals source = .error fault) ↔
      ∃ before c after, source.toList = before ++ c :: after ∧ Offends decimals before c after) ∧
    (∀ fault, tokenize decimals source = .error fault ↔
      ∃ before c after, source.toList = before ++ c :: after ∧
        FirstOffence decimals before c after ∧ fault = ⟨.foreignCharacter c, .behind before⟩) ∧
    ∀ before c after, source.toList = before ++ c :: after → FirstOffence decimals before c after →
      tokenize decimals (String.ofList before) =
        .ok ((scan decimals source).tokens ++ [⟨.endOfInput, .behind before⟩]) := by
  refine ⟨⟨?_, ?_⟩, fun fault => ⟨firstOffence_of_tokenize, ?_⟩, ?_⟩
  · rintro ⟨fault, h⟩
    obtain ⟨before, c, after, heq, hfirst, -⟩ := firstOffence_of_tokenize h
    exact ⟨before, c, after, heq, hfirst.1⟩
  · rintro ⟨before, c, after, heq, h⟩
    exact exists_fault_of_offends heq h
  · rintro ⟨before, c, after, heq, h, rfl⟩
    exact (tokenize_of_firstOffence heq h).1
  · intro before c after heq h
    exact (tokenize_of_firstOffence heq h).2

/-- Of the two points of `1.2.3` the second is out of place. -/
theorem tokenize_fails_at_first_offence_second_point :
    FirstOffence true "1.2".toList '.' "3".toList ∧
      tokenize true "1.2.3" = .error ⟨.foreignCharacter '.', ⟨1, 4⟩⟩ ∧
      tokenize true (String.ofList "1.2".toList) =
        .ok ((scan true "1.2.3").tokens ++ [⟨.endOfInput, ⟨1, 4⟩⟩]) := by
  have hpoint : ¬ InAlphabet '.' := by
    unfold InAlphabet
    decide
  have hsecond : Offends true "1.2".toList '.' "3".toList := by
    refine ⟨hpoint, fun _ _ => ?_⟩
    rintro ⟨-, -, hlast⟩
    exact hlast rfl
  have hfirst : Harmless true [] "1.2".toList ".3".toList := by
    have hone : Harmless true [] ['1'] (['.', '2'] ++ ['.', '3']) :=
      harmless_of_alphabet (List.forall_mem_singleton.mpr (.inl rfl)) _ _
    have htwo : Harmless true ([] ++ ['1'] ++ ['.']) ['2'] ['.', '3'] :=
      harmless_of_alphabet (List.forall_mem_singleton.mpr (.inl rfl)) _ _
    have hbetween : Harmless true ([] ++ ['1']) ['.'] (['2'] ++ ['.', '3']) :=
      harmless_point ⟨⟨'2', rfl, rfl⟩, by decide, by decide⟩
    exact hone.append (hbetween.append htwo)
  have hoffence : FirstOffence true "1.2".toList '.' "3".toList := ⟨hsecond, hfirst⟩
  obtain ⟨-, hfault, hfront⟩ := tokenize_fails_at_first_offence true "1.2.3"
  exact ⟨hoffence, (hfault _).mpr ⟨_, _, _, rfl, hoffence, rfl⟩, hfront _ _ _ rfl hoffence⟩

end Arith
