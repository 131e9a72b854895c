import Mathlib.Data.List.Count
import Arith.Proofs.Figures
import Arith.Proofs.Points

/-!
# Messages

What is reported of a fault is one heading and one line below it, of printable characters only. The
report can be read back: it tells the kind of the fault, its place and its description, and of a
character that belongs to no token it tells which one it was.
-/

namespace Arith

open Text

/-! ## Numbers -/

theorem Text.isPlain_of_figure {c : Char} (h : isFigure c) : isPlain c := by
  simp only [isFigure, Bool.or_eq_true] at h
  rcases h with hdigit | hmark
  · exact isPlain_of_digit hdigit
  · have hmarks : ['+', '-', '.', 'e', 'i', 'n', 'f', 'a'].all isPlain := rfl
    exact List.all_eq_true.mp hmarks c (List.contains_iff_mem.mp hmark)

theorem Text.Figures.prints {cs : List Char} (h : Figures cs) : Prints cs := fun c hc =>
  isPrintable_of_plain (isPlain_of_figure (h c hc))

theorem Text.prints_nat (n : Nat) : Prints (toString n).toList := (figures_nat n).prints

theorem Literal.prints_text (value : Literal) : Prints value.text.toList := value.figures_text.prints

theorem Text.prints_append {s t : String} (hs : Prints s.toList) (ht : Prints t.toList) :
    Prints (s ++ t).toList := by
  rw [String.toList_append]
  exact hs.append ht

/-! ## Descriptions -/

theorem Op.prints_text (op : Op) : Prints op.text.toList := by
  cases op <;> exact prints_of_plain rfl

theorem Position.prints_text (p : Position) : Prints p.text.toList :=
  prints_append (prints_append (prints_append (prints_of_plain rfl) (prints_nat _))
    (prints_of_plain rfl)) (prints_nat _)

theorem Symbol.prints_describe (x : Symbol) : Prints x.describe.toList := by
  cases x with
  | number value => exact prints_append (prints_of_plain rfl) value.prints_text
  | name text => exact prints_append (prints_of_plain rfl) (prints_quoted text)
  | operator op =>
    exact prints_append (prints_append (prints_of_plain rfl) op.prints_text) (prints_of_plain rfl)
  | openParen | closeParen | endOfInput => exact prints_of_plain rfl

theorem Cause.prints_description (cause : Cause) : Prints cause.description.toList := by
  cases cause with
  | foreignCharacter c =>
    exact prints_append (prints_append (prints_of_plain rfl) (prints_quoted _)) (prints_of_plain rfl)
  | notASign op =>
    exact prints_append (prints_append (prints_of_plain rfl) op.prints_text) (prints_of_plain rfl)
  | unexpected wanted found =>
    refine prints_append (prints_append (prints_append (prints_append (prints_of_plain rfl) ?_)
      (prints_of_plain rfl)) found.prints_describe) ?_
    · cases wanted <;> exact prints_of_plain rfl
    · split <;> exact prints_of_plain rfl
  | neverClosed opened =>
    exact prints_append (prints_append (prints_of_plain rfl) opened.prints_text)
      (prints_of_plain rfl)
  | neverOpened => exact prints_of_plain rfl
  | lacksOperand op =>
    exact prints_append (prints_append (prints_of_plain rfl) op.prints_text) (prints_of_plain rfl)

/-! ## Reports -/

theorem FaultKind.prints_title (kind : FaultKind) : Prints kind.title.toList := by
  cases kind <;> exact prints_of_plain rfl

def Diagnostic.heading (d : Diagnostic) : String := d.kind.title ++ " at " ++ d.position.text

theorem Diagnostic.toList_message (d : Diagnostic) :
    d.message.toList = d.heading.toList ++ '\n' :: d.description.toList := by
  rw [message, heading, String.toList_append, String.toList_append, List.append_assoc]
  rfl

theorem Diagnostic.prints_heading (d : Diagnostic) : Prints d.heading.toList :=
  prints_append (prints_append d.kind.prints_title (prints_of_plain rfl)) d.position.prints_text

theorem Text.Prints.count_lineFeed {cs : List Char} (h : Prints cs) : cs.count '\n' = 0 := by
  rw [List.count_eq_zero]
  intro hmem
  have hprint := h _ hmem
  rw [not_printable_lineFeed] at hprint
  cases hprint

theorem Diagnostic.message_lines {d : Diagnostic} (h : Prints d.description.toList) :
    d.message.toList.count '\n' = 1 ∧ ∀ c ∈ d.message.toList, c ≠ '\n' → isPrintable c := by
  rw [toList_message]
  constructor
  · rw [List.count_append, List.count_cons_self, d.prints_heading.count_lineFeed, h.count_lineFeed]
  · intro c hc hne
    rcases List.mem_append.mp hc with hc | hc
    · exact d.prints_heading c hc
    · exact h c ((List.mem_cons.mp hc).resolve_left hne)

/-! ## Reading a report back -/

namespace Diagnostic

def number (cs : List Char) : Nat × List Char :=
  (digitsValue (cs.takeWhile Char.isDigit), cs.dropWhile Char.isDigit)

/-- The place and the description behind the title of a report. -/
def rest? (kind : FaultKind) (cs : List Char) : Option Diagnostic := do
  let cs ← cs.dropPrefix? " at line ".toList
  let (line, cs) := number cs
  let cs ← cs.dropPrefix? ", column ".toList
  let (column, cs) := number cs
  let description ← cs.dropPrefix? ['\n']
  some ⟨kind, String.ofList description, ⟨line, column⟩⟩

/-- The diagnostic that a report is of. -/
def read? (report : String) : Option Diagnostic :=
  FaultKind.all.findSome? fun kind => report.toList.dropPrefix? kind.title.toList >>= rest? kind

theorem number_toDigits (n : Nat) {cs : List Char} (h : ∀ c ∈ cs.head?, c.isDigit = false) :
    number (Nat.toDigits 10 n ++ cs) = (n, cs) := by
  have hdigits : ∀ c ∈ Nat.toDigits 10 n, c.isDigit := fun c hc =>
    Nat.isDigit_of_mem_toDigits (by decide) (by decide) hc
  obtain ⟨htake, hdrop⟩ := span_of_run hdigits h
  rw [number, htake, hdrop, digitsValue_toDigits]

theorem dropPrefix?_self (front cs : List Char) : (front ++ cs).dropPrefix? front = some cs :=
  List.dropPrefix?_append_of_beq cs (beq_self_eq_true front)

theorem rest?_message (d : Diagnostic) :
    rest? d.kind (" at ".toList ++ d.position.text.toList ++ '\n' :: d.description.toList) =
      some d := by
  have htext : " at ".toList ++ d.position.text.toList ++ '\n' :: d.description.toList =
      " at line ".toList ++ (Nat.toDigits 10 d.position.line ++ (", column ".toList ++
        (Nat.toDigits 10 d.position.column ++ (['\n'] ++ d.description.toList)))) := by
    simp [Position.text, Nat.toString_eq_repr, Nat.toList_repr]
  have hline : ∀ cs, ∀ c ∈ (", column ".toList ++ cs).head?, c.isDigit = false := by
    simp
  have hcolumn : ∀ cs, ∀ c ∈ (['\n'] ++ cs).head?, c.isDigit = false := by
    simp
  rw [htext, rest?, dropPrefix?_self]
  simp only [Option.bind_eq_bind, Option.bind_some, number_toDigits _ (hline _), dropPrefix?_self,
    number_toDigits _ (hcolumn _), String.ofList_toList]

theorem dropPrefix?_title {kind found : FaultKind} (h : kind ≠ found) (cs : List Char) :
    (found.title.toList ++ cs).dropPrefix? kind.title.toList = none := by
  cases kind <;> cases found <;> first | exact absurd rfl h | rfl

theorem read?_message (d : Diagnostic) : read? d.message = some d := by
  have hmessage : d.message.toList = d.kind.title.toList ++
      (" at ".toList ++ d.position.text.toList ++ '\n' :: d.description.toList) := by
    simp [toList_message, heading]
  have hmem : d.kind ∈ FaultKind.all := by
    cases d.kind <;> decide
  obtain ⟨front, back, hall, hfront⟩ := List.eq_append_cons_of_mem hmem
  rw [read?, hmessage, List.findSome?_eq_some_iff]
  refine ⟨front, d.kind, back, hall, ?_, ?_⟩
  · rw [dropPrefix?_self, Option.bind_eq_bind, Option.bind_some, rest?_message]
  · intro kind hkind
    have hne : kind ≠ d.kind := by
      rintro rfl
      exact hfront hkind
    rw [dropPrefix?_title hne, Option.bind_eq_bind, Option.bind_none]

end Diagnostic

/-! ## Messages of code points -/

/-- The report that a message is of. -/
def Report.read? (message : List Point) : Option Report :=
  (Diagnostic.read? (String.ofList (Point.front message))).map Diagnostic.report

theorem Diagnostic.message_report (d : Diagnostic) : d.report.message = Point.ofString d.message := by
  simp [Report.message, report, message]

theorem Report.read?_message (d : Diagnostic) : read? d.report.message = some d.report := by
  rw [read?, d.message_report, Point.front_ofString, String.ofList_toList, d.read?_message]
  rfl

theorem Report.message_lines {d : Diagnostic} (h : Prints d.description.toList) :
    d.report.message.count (.char '\n') = 1 ∧
      ∀ p ∈ d.report.message, p ≠ .char '\n' → p.isPrintable := by
  obtain ⟨hlines, hprints⟩ := Diagnostic.message_lines h
  rw [d.message_report, Point.ofString]
  constructor
  · rw [List.count_map_of_injective _ _ Point.char_injective, hlines]
  · intro p hp hne
    obtain ⟨c, hc, rfl⟩ := List.mem_map.mp hp
    exact hprints c hc fun hfeed => hne (congrArg _ hfeed)

theorem Report.exists_diagnostic_foreign (p : Point) (position : Position) :
    ∃ d : Diagnostic, foreign p position = d.report ∧ Prints d.description.toList := by
  obtain ⟨s, hquoted, hprints⟩ := p.exists_quoted
  refine ⟨⟨.unexpectedCharacter, "Character " ++ s ++ " is not part of an arithmetic expression",
    position⟩, ?_, ?_⟩
  · simp [foreign, hquoted, Diagnostic.report]
  · exact prints_append (prints_append (prints_of_plain rfl) hprints) (prints_of_plain rfl)

theorem Report.On.exists_diagnostic {source : List Point} {r : Report} (h : r.On source) :
    ∃ d : Diagnostic, r = d.report ∧ Prints d.description.toList := by
  cases h with
  | @token cause position => exact ⟨_, rfl, cause.prints_description⟩
  | point => exact Report.exists_diagnostic_foreign _ _

theorem Report.foreign_injective {p q : Point} {position position' : Position}
    (h : (foreign p position).description = (foreign q position').description) : p = q :=
  Point.quoted_injective (List.append_cancel_left (List.append_cancel_right h))

theorem Report.On.exists_point {source : List Point} {r : Report} (h : r.On source)
    (hkind : r.kind = .unexpectedCharacter) : ∃ p before rest,
      source = before.map .char ++ p :: rest ∧ r = .foreign p (.behind before) := by
  cases h with
  | @token cause position hstage =>
    rw [show cause.kind = .unexpectedCharacter from hkind] at hstage
    cases hstage
  | @point p before rest hsource => exact ⟨p, before, rest, hsource, rfl⟩

/-- A source without surrogates is evaluated as the text that it is. A report on any source is one heading
and one line below it, of printable code points only, and can be read back. A code point that it says
belongs to no token stands in the source at its place, and no other one has the same description. -/
theorem evaluate_report (decimals : Bool) :
    (∀ s, evaluatePoints decimals (Point.ofString s) = (evaluate decimals s).mapError Failure.halt) ∧
    ∀ source r, evaluatePoints decimals source = .error (.report r) →
      r.message.count (.char '\n') = 1 ∧
      (∀ p ∈ r.message, p ≠ .char '\n' → p.isPrintable) ∧
      Report.read? r.message = some r ∧
      (r.kind = .unexpectedCharacter → ∃ p before rest,
        source = before.map .char ++ p :: rest ∧ r = .foreign p (.behind before) ∧
        ∀ q position, (Report.foreign q position).description = r.description → q = p) := by
  refine ⟨evaluatePoints_ofString decimals, fun source r h => ?_⟩
  have hon := report_of_evaluatePoints h
  obtain ⟨d, hreport, hdescription⟩ := hon.exists_diagnostic
  obtain ⟨hlines, hprints⟩ := Report.message_lines hdescription
  refine ⟨hreport ▸ hlines, hreport ▸ hprints, hreport ▸ Report.read?_message d, fun hkind => ?_⟩
  obtain ⟨p, before, rest, hsource, rfl⟩ := hon.exists_point hkind
  exact ⟨p, before, rest, hsource, rfl, fun q position => Report.foreign_injective⟩

/-- A surrogate in the middle of a line. -/
theorem evaluate_report_surrogate :
    evaluatePoints false (Point.ofString "1\n+" ++ [.surrogate 0x20, .char '1']) =
      .error (.report (.foreign (.surrogate 0x20) ⟨2, 2⟩)) ∧
    (Report.foreign (.surrogate 0x20) ⟨2, 2⟩).message = Point.ofString
      "Unexpected character at line 2, column 2\nCharacter '\\ud820' is not part of an arithmetic expression" ∧
    (Report.foreign (.surrogate 0x20) ⟨2, 2⟩).message.count (.char '\n') = 1 := by
  have h : evaluatePoints false (Point.ofString "1\n+" ++ [.surrogate 0x20, .char '1']) =
      .error (.report (.foreign (.surrogate 0x20) ⟨2, 2⟩)) := by
    decide +kernel
  obtain ⟨hlines, -⟩ := (evaluate_report false).2 _ _ h
  exact ⟨h, by decide +kernel, hlines⟩

end Arith
