import Arith.Proofs.Spelling

/-!
# Layouts

A layout takes a text apart into lexemes, with blanks around them and nothing else. Scanning a text
goes through just when there is a layout of it, and finds the symbols of its lexemes. A text has one
layout at most, so that no character is lost or read twice.
-/

namespace Arith

/-- The blanks in front of each lexeme, and the blanks behind the last one. -/
inductive Layout where
  | last (blanks : List Char)
  | lexeme (blanks : List Char) (l : Lexeme) (more : Layout)

namespace Layout

variable {decimals : Bool}

def text : Layout → List Char
  | last blanks => blanks
  | lexeme blanks l more => blanks ++ (l.chars ++ more.text)

def symbols : Layout → List Symbol
  | last _ => []
  | lexeme _ l more => l.symbol :: more.symbols

/-- Blanks are blank, and every lexeme is a legal one that what follows does not make longer. -/
def WellCut (decimals : Bool) : Layout → Prop
  | last blanks => ∀ c ∈ blanks, isBlank c
  | lexeme blanks l more =>
    (∀ c ∈ blanks, isBlank c) ∧ l.Legal decimals ∧ l.StopsAt decimals more.text ∧
      more.WellCut decimals

/-! ## One layout for each text -/

theorem exists_cons_of_legal {l : Lexeme} {more : List Char} (h : l.Legal decimals)
    (hstop : l.StopsAt decimals more) :
    ∃ c cs, l.chars ++ more = c :: cs ∧ isBlank c = false := by
  have hsplit := Symbol.split?_of_lexeme h hstop
  cases hcs : l.chars ++ more with
  | nil =>
    rw [hcs] at hsplit
    cases hsplit
  | cons c cs =>
    rw [hcs] at hsplit
    exact ⟨c, cs, rfl, Symbol.not_blank_of_split? hsplit⟩

theorem span_of_lexeme {blanks : List Char} {l : Lexeme} {more : Layout}
    (h : (lexeme blanks l more).WellCut decimals) :
    (lexeme blanks l more).text.takeWhile isBlank = blanks ∧
      (lexeme blanks l more).text.dropWhile isBlank = l.chars ++ more.text := by
  obtain ⟨hblanks, hlegal, hstop, -⟩ := h
  obtain ⟨c, cs, hcs, hblank⟩ := exists_cons_of_legal hlegal hstop
  apply span_of_run hblanks
  intro first hfirst
  rw [hcs] at hfirst
  cases hfirst
  exact hblank

theorem span_of_last {blanks : List Char} (h : (last blanks).WellCut decimals) :
    (last blanks).text.takeWhile isBlank = blanks ∧
      (last blanks).text.dropWhile isBlank = [] := by
  have hend : ∀ c ∈ ([] : List Char).head?, isBlank c = false := by simp
  have hspan := span_of_run h hend
  rwa [List.append_nil] at hspan

theorem text_ne_of_last {blanks blanks' : List Char} {l : Lexeme} {more : Layout}
    (h : (last blanks).WellCut decimals) (h' : (lexeme blanks' l more).WellCut decimals) :
    (last blanks).text ≠ (lexeme blanks' l more).text := by
  intro heq
  obtain ⟨c, cs, hcs, -⟩ := exists_cons_of_legal h'.2.1 h'.2.2.1
  have hnone := (span_of_last h).2
  rw [heq, (span_of_lexeme h').2, hcs] at hnone
  cases hnone

theorem eq_of_text_eq {layout layout' : Layout} (h : layout.WellCut decimals)
    (h' : layout'.WellCut decimals) (heq : layout.text = layout'.text) : layout = layout' := by
  induction layout generalizing layout' with
  | last blanks =>
    cases layout' with
    | last blanks' => exact congrArg last heq
    | lexeme blanks' l' more' => exact absurd heq (text_ne_of_last h h')
  | lexeme blanks l more ih =>
    cases layout' with
    | last blanks' => exact absurd heq.symm (text_ne_of_last h' h)
    | lexeme blanks' l' more' =>
      -- Both are cut at the first character that is no blank, and then behind the lexeme there.
      obtain ⟨htake, hdrop⟩ := span_of_lexeme h
      obtain ⟨htake', hdrop'⟩ := span_of_lexeme h'
      rw [heq, htake'] at htake
      rw [heq, hdrop'] at hdrop
      obtain ⟨-, hlegal, hstop, hmore⟩ := h
      obtain ⟨-, hlegal', hstop', hmore'⟩ := h'
      obtain ⟨rfl, htext⟩ := Lexeme.eq_of_append_eq hlegal hlegal' hstop hstop' hdrop.symm
      rw [htake, ih hmore hmore' htext]

end Layout

/-! ## Layouts and symbols -/

namespace Spells

variable {decimals : Bool} {cs rest : List Char} {a : List Symbol}

theorem blanks {blanks : List Char} (hblanks : ∀ c ∈ blanks, isBlank c)
    (h : Spells decimals cs a rest) : Spells decimals (blanks ++ cs) a rest := by
  induction blanks with
  | nil => exact h
  | cons c blanks ih =>
    obtain ⟨hc, hmore⟩ := List.forall_mem_cons.mp hblanks
    exact .blank hc (ih hmore)

theorem of_layout {layout : Layout} (h : layout.WellCut decimals) :
    Spells decimals layout.text layout.symbols [] := by
  induction layout with
  | last blanks =>
    have hblanks := Spells.blanks h (.nil decimals)
    rwa [List.append_nil] at hblanks
  | lexeme blanks l more ih =>
    obtain ⟨hblanks, hlegal, hstop, hmore⟩ := h
    exact .blanks hblanks (.symbol (Symbol.split?_of_lexeme hlegal hstop) (ih hmore))

theorem exists_layout (h : Spells decimals cs a rest) (hrest : rest = []) :
    ∃ layout : Layout, layout.text = cs ∧ layout.WellCut decimals ∧ layout.symbols = a := by
  induction h with
  | stop _ _ =>
    subst hrest
    exact ⟨.last [], rfl, by simp [Layout.WellCut], rfl⟩
  | @blank c cs rest a hblank _ ih =>
    obtain ⟨layout, rfl, hcut, rfl⟩ := ih hrest
    cases layout with
    | last blanks => exact ⟨.last (c :: blanks), rfl, List.forall_mem_cons.mpr ⟨hblank, hcut⟩, rfl⟩
    | lexeme blanks l more =>
      obtain ⟨hblanks, hlexeme⟩ := hcut
      exact ⟨.lexeme (c :: blanks) l more, rfl,
        ⟨List.forall_mem_cons.mpr ⟨hblank, hblanks⟩, hlexeme⟩, rfl⟩
  | @symbol cs more rest x width a hsplit _ ih =>
    obtain ⟨layout, rfl, hcut, rfl⟩ := ih hrest
    obtain ⟨l, hlegal, hstop, rfl, rfl⟩ := Symbol.exists_lexeme_of_split? hsplit
    exact ⟨.lexeme [] l layout, rfl, ⟨by simp, hlegal, hstop, hcut⟩, rfl⟩

end Spells

/-! ## Whole sources -/

theorem tokenize_of_spells {decimals : Bool} {source : String} {a : List Symbol}
    (h : Spells decimals source.toList a []) :
    (tokenize decimals source).map (List.map Token.symbol) = .ok (a ++ [.endOfInput]) := by
  obtain ⟨hlexemes, hfault⟩ := scan_of_spells h
  have hnone : (scan decimals source).fault? = none := by simpa using hfault
  obtain ⟨last, htokens, hend⟩ := (wellEnded_scan decimals source).last_of_no_fault hnone
  rw [tokenize_eq_ok_iff.mpr ⟨hnone, rfl⟩, Except.map, htokens, List.map_append, hlexemes]
  simp only [List.map_cons, List.map_nil, hend]

/-- Scanning goes through just when the source has a layout, and gives the symbols of its lexemes and
the end of input. There is only one layout. -/
theorem tokenize_eq_ok_iff_layout (decimals : Bool) (source : String) :
    (∀ a, (tokenize decimals source).map (List.map Token.symbol) = .ok a ↔
      ∃ layout : Layout, layout.text = source.toList ∧ layout.WellCut decimals ∧
        a = layout.symbols ++ [.endOfInput]) ∧
    ∀ layout layout' : Layout, layout.text = source.toList → layout'.text = source.toList →
      layout.WellCut decimals → layout'.WellCut decimals → layout = layout' := by
  refine ⟨fun a => ⟨fun htokens => ?_, ?_⟩, fun layout layout' htext htext' h h' => ?_⟩
  · obtain ⟨b, rest, hspells⟩ := Spells.exists_of_text decimals source.toList
    obtain ⟨-, hfault⟩ := Cursor.drain_of_spells hspells (c := Cursor.start source.toList) rfl
    have hrest : rest = [] := by
      cases htokenize : tokenize decimals source with
      | error fault =>
        rw [htokenize] at htokens
        cases htokens
      | ok ts =>
        have hnone := (tokenize_eq_ok_iff.mp htokenize).1
        simp only [scan] at hnone
        rw [hnone] at hfault
        simpa using hfault.symm
    obtain ⟨layout, htext, hcut, rfl⟩ := hspells.exists_layout hrest
    refine ⟨layout, htext, hcut, ?_⟩
    rw [tokenize_of_spells (hrest ▸ hspells)] at htokens
    exact (Except.ok.inj htokens).symm
  · rintro ⟨layout, htext, hcut, rfl⟩
    apply tokenize_of_spells
    rw [← htext]
    exact .of_layout hcut
  · exact Layout.eq_of_text_eq h h' (htext.trans htext'.symm)

/-- A fraction and a name that nothing keeps apart, and a parenthesis behind blanks. -/
theorem tokenize_eq_ok_iff_layout_adjacent :
    ∃ layout : Layout, layout.text = "1.5a \t(".toList ∧ layout.WellCut true ∧
      (tokenize true "1.5a \t(").map (List.map Token.symbol) =
        .ok [.number (.real (.ofDecimal 15 1)), .name "a", .openParen, .endOfInput] ∧
      ∀ layout' : Layout, layout'.text = "1.5a \t(".toList → layout'.WellCut true →
        layout' = layout := by
  let layout : Layout := .lexeme [] (.number ⟨['1'], some ['5']⟩) <| .lexeme [] (.word ['a']) <|
    .lexeme [' ', '\t'] .openParen <| .last []
  have htext : layout.text = "1.5a \t(".toList := rfl
  have hnumber : (Lexeme.number ⟨['1'], some ['5']⟩).Legal true := by
    refine ⟨by simp, List.forall_mem_singleton.mpr rfl, ?_⟩
    rintro digits ⟨⟩
    exact ⟨rfl, by simp, List.forall_mem_singleton.mpr rfl⟩
  have hstop : (Lexeme.number ⟨['1'], some ['5']⟩).StopsAt true ['a', ' ', '\t', '('] := by
    refine ⟨?_, ?_⟩
    · rintro c ⟨⟩
      rfl
    · rintro - ⟨⟩
  have hword : (Lexeme.word ['a']).StopsAt true [' ', '\t', '('] := by
    rintro c ⟨⟩
    rfl
  have hcut : layout.WellCut true :=
    ⟨by simp, hnumber, hstop, by simp, ⟨by simp, List.forall_mem_singleton.mpr rfl⟩, hword,
      by simp [isBlank], trivial, trivial, by simp [Layout.WellCut]⟩
  obtain ⟨htokens, hunique⟩ := tokenize_eq_ok_iff_layout true "1.5a \t("
  refine ⟨layout, htext, hcut, (htokens _).mpr ⟨layout, htext, hcut, rfl⟩, ?_⟩
  intro layout' htext' hcut'
  exact hunique layout' layout htext' htext hcut' hcut

end Arith
