import Mathlib.Data.List.DropRight
import Arith.Proofs.Calls

/-!
# Exact positions

A cursor knows where it stands in its text: how much of the text it has read, on which line it is and
where that line starts. However often it is asked for a token, all this stays exact, so that every token
and every fault is reported at the place of its first character.
-/

namespace Arith

/-! ## Places in a text -/

namespace Position

/-- The position behind a text: a line for each line feed, and a column for each character behind the
last of them, both counted from one. -/
def behind (before : List Char) : Position :=
  ⟨before.count '\n' + 1, (before.rtakeWhile (· ≠ '\n')).length + 1⟩

theorem behind_lineFeed (before : List Char) :
    behind (before ++ ['\n']) = ⟨(behind before).line + 1, 1⟩ := by
  simp [behind]

theorem behind_singleton (before : List Char) {c : Char} (h : c ≠ '\n') :
    behind (before ++ [c]) = ⟨(behind before).line, (behind before).column + 1⟩ := by
  unfold behind
  rw [List.rtakeWhile_concat_pos _ _ _ (by simpa using h), List.count_append, List.length_append]
  simp [h]

theorem behind_append (before : List Char) {run : List Char} (h : '\n' ∉ run) :
    behind (before ++ run) = ⟨(behind before).line, (behind before).column + run.length⟩ := by
  induction run using List.reverseRecOn with
  | nil => simp
  | append_singleton run c ih =>
    simp only [List.mem_append, List.mem_singleton, not_or] at h
    rw [← List.append_assoc, behind_singleton _ (Ne.symm h.2), ih h.1, List.length_append]
    rfl

theorem behind_append_before (before : List Char) {run : List Char} (h : run ≠ []) :
    (behind before).Before (behind (before ++ run)) := by
  have hstep (front : List Char) (c : Char) : (behind front).Before (behind (front ++ [c])) := by
    unfold Before
    by_cases hc : c = '\n'
    · simp [hc, behind_lineFeed]
    · simp [behind_singleton front hc]
  induction run using List.reverseRecOn with
  | nil => exact absurd rfl h
  | append_singleton run c ih =>
    rw [← List.append_assoc]
    have hlast := hstep (before ++ run) c
    by_cases hrun : run = []
    · rwa [hrun, List.append_nil] at hlast ⊢
    · have hmore := ih hrun
      unfold Before at hmore hlast ⊢
      omega

end Position

namespace Cursor

/-! ## Exact cursors -/

/-- The cursor stands in the text where it says: what is left is the text from its offset on, its line
is counted by the line feeds in front of it, and the line starts behind the last of these. -/
structure ExactIn (text : List Char) (c : Cursor) : Prop where
  rest_eq : c.rest = text.drop c.pos
  pos_le : c.pos ≤ text.length
  line_eq : c.line = (text.take c.pos).count '\n' + 1
  lineStart_le : c.lineStart ≤ c.pos
  lineStart_eq : c.lineStart = 0 ∨ text[c.lineStart - 1]? = some '\n'
  no_lineFeed : '\n' ∉ (text.take c.pos).drop c.lineStart

namespace ExactIn

variable {text run more : List Char} {c : Cursor}

theorem start (source : List Char) : (Cursor.start source).ExactIn source :=
  ⟨rfl, Nat.zero_le _, rfl, Nat.le_refl 0, .inl rfl, by simp [Cursor.start]⟩

theorem split (h : c.ExactIn text) (hrest : c.rest = run ++ more) :
    text.take (c.pos + run.length) = text.take c.pos ++ run ∧
      text.drop (c.pos + run.length) = more ∧ c.pos + run.length ≤ text.length := by
  have hdrop : text.drop c.pos = run ++ more := by rw [← h.rest_eq, hrest]
  have hlength := congrArg List.length hdrop
  simp only [List.length_drop, List.length_append] at hlength
  have hle := h.pos_le
  refine ⟨?_, ?_, by omega⟩
  · rw [List.take_add, hdrop, List.take_left]
  · rw [← List.drop_drop, hdrop, List.drop_left]

theorem read (h : c.ExactIn text) (hrest : c.rest = run ++ more) (hrun : '\n' ∉ run) :
    ExactIn text { c with rest := more, pos := c.pos + run.length } := by
  obtain ⟨htake, hdrop, hle⟩ := h.split hrest
  have hstart := h.lineStart_le
  refine ⟨hdrop.symm, hle, ?_, Nat.le_add_right_of_le hstart, h.lineStart_eq, ?_⟩
  · simp only [htake, List.count_append, List.count_eq_zero.mpr hrun]
    exact h.line_eq
  · have hpos : c.lineStart ≤ (text.take c.pos).length := by
      rw [List.length_take, Nat.min_eq_left h.pos_le]
      exact hstart
    simp only [htake, List.drop_append_of_le_length hpos, List.mem_append, not_or]
    exact ⟨h.no_lineFeed, hrun⟩

theorem readLineFeed (h : c.ExactIn text) (hrest : c.rest = '\n' :: more) :
    ExactIn text ⟨more, c.pos + 1, c.line + 1, c.pos + 1⟩ := by
  have hfeed : c.rest = ['\n'] ++ more := hrest
  obtain ⟨htake, hdrop, hle⟩ := h.split hfeed
  simp only [List.length_singleton] at htake hdrop hle
  refine ⟨hdrop.symm, hle, ?_, Nat.le_refl _, ?_, by simp⟩
  · simp only [htake, List.count_append, List.count_singleton_self]
    rw [h.line_eq]
  · right
    have hfirst : (text.drop c.pos)[0]? = some '\n' := by rw [← h.rest_eq, hrest]; rfl
    rw [List.getElem?_drop] at hfirst
    exact hfirst

theorem position_eq (h : c.ExactIn text) : c.position = .behind (text.take c.pos) := by
  -- What has been read is the lines in front of the last one, and of that one what has been read.
  have hsplit := List.take_append_drop c.lineStart (text.take c.pos)
  have hlines : (text.take c.pos).take c.lineStart = text.take c.lineStart := by
    rw [List.take_take, Nat.min_eq_left h.lineStart_le]
  have hcolumn : (Position.behind (text.take c.lineStart)).column = 1 := by
    have hfeed := h.lineStart_eq
    cases hstart : c.lineStart with
    | zero => rfl
    | succ k =>
      simp only [hstart, Nat.add_one_ne_zero, Nat.add_one_sub_one, false_or] at hfeed
      rw [List.take_add_one, hfeed]
      exact congrArg Position.column (Position.behind_lineFeed _)
  have hbehind := Position.behind_append (text.take c.lineStart) h.no_lineFeed
  rw [← hlines, hsplit, hlines, hcolumn, List.length_drop, List.length_take,
    Nat.min_eq_left h.pos_le] at hbehind
  have hline := congrArg Position.line hbehind
  rw [hbehind, ← hline, position, column, h.line_eq, Nat.add_comm 1]
  rfl

/-! ## One call -/

theorem skipBlank (h : c.ExactIn text) {first : Char} (hrest : c.rest = first :: more)
    (hblank : isBlank first) : ∃ c' : Cursor, c'.ExactIn text ∧ c'.rest = more ∧
      c'.pos = c.pos + 1 ∧ c.skipBlanks = c'.skipBlanks := by
  have hfirst : c.rest = [first] ++ more := hrest
  by_cases hfeed : first = '\n'
  · refine ⟨⟨more, c.pos + 1, c.line + 1, c.pos + 1⟩, h.readLineFeed (hfeed ▸ hrest), rfl, rfl, ?_⟩
    unfold Cursor.skipBlanks
    rw [hrest, skipFrom, if_pos hfeed]
  · refine ⟨⟨more, c.pos + 1, c.line, c.lineStart⟩, h.read hfirst ?_, rfl, rfl, ?_⟩
    · simpa using Ne.symm hfeed
    · unfold Cursor.skipBlanks
      rw [hrest, skipFrom, if_neg hfeed, if_pos hblank]

theorem skipBlanks (h : c.ExactIn text) :
    c.skipBlanks.ExactIn text ∧ ∃ blanks, c.rest = blanks ++ c.skipBlanks.rest ∧
      (∀ b ∈ blanks, isBlank b) ∧ c.skipBlanks.pos = c.pos + blanks.length := by
  induction hrest : c.rest generalizing c with
  | nil =>
    have hskip : c.skipBlanks = c := skipBlanks_of_not_blank (by simp [hrest])
    rw [hskip, hrest]
    exact ⟨h, [], rfl, by simp, rfl⟩
  | cons first more ih =>
    by_cases hblank : isBlank first
    · obtain ⟨c', hexact, hmore, hpos, hskip⟩ := h.skipBlank hrest hblank
      obtain ⟨hskipped, blanks, hsplit, hblanks, hend⟩ := ih hexact hmore
      rw [hskip]
      refine ⟨hskipped, first :: blanks, by rw [hsplit, List.cons_append],
        List.forall_mem_cons.mpr ⟨hblank, hblanks⟩, ?_⟩
      rw [hend, hpos, List.length_cons]
      omega
    · have hskip : c.skipBlanks = c := by
        apply skipBlanks_of_not_blank
        rw [hrest]
        rintro d ⟨⟩
        simpa using hblank
      rw [hskip, hrest]
      exact ⟨h, [], rfl, by simp, rfl⟩

end ExactIn
end Cursor

theorem Lexeme.lineFeed_not_mem {decimals : Bool} {l : Lexeme} (h : l.Legal decimals) :
    '\n' ∉ l.chars := by
  intro hmem
  cases l with
  | number n =>
    obtain ⟨-, hwhole, hfraction⟩ := h
    simp only [chars, Numeral.chars, List.mem_append] at hmem
    rcases hmem with hmem | hmem
    · exact absurd (hwhole _ hmem) (by decide)
    · cases hdigits : n.fraction with
      | none => simp [hdigits] at hmem
      | some digits =>
        simp only [hdigits, List.mem_cons] at hmem
        rcases hmem with hmem | hmem
        · cases hmem
        · exact absurd ((hfraction digits hdigits).2.2 _ hmem) (by decide)
  | word letters => exact absurd (h.2 _ hmem) (by decide)
  | openParen => simp [chars] at hmem
  | closeParen => simp [chars] at hmem
  | operator op => cases op <;> simp [chars, Op.symbol] at hmem

def placeOf : Except Fault Token → Position
  | .ok t => t.position
  | .error fault => fault.position

/-- `Reports decimals before rest reply before' rest'`: with `before` read of a text and `rest` left, the
reply is about what comes behind the blanks at the front of `rest`, and is placed at its first character.
A lexeme is then read; the end of the text and a foreign character stay where they are. -/
inductive Reports (decimals : Bool) (before : List Char) :
    List Char → Except Fault Token → List Char → List Char → Prop where
  | lexeme {blanks more : List Char} {l : Lexeme} : (∀ b ∈ blanks, isBlank b) → l.Legal decimals →
    l.StopsAt decimals more → Reports decimals before (blanks ++ (l.chars ++ more))
      (.ok ⟨l.symbol, .behind (before ++ blanks)⟩) (before ++ blanks ++ l.chars) more
  | endOfInput {blanks : List Char} : (∀ b ∈ blanks, isBlank b) →
    Reports decimals before blanks (.ok ⟨.endOfInput, .behind (before ++ blanks)⟩)
      (before ++ blanks) []
  | foreign {blanks more : List Char} {c : Char} : (∀ b ∈ blanks, isBlank b) → isBlank c = false →
    Symbol.split? decimals (c :: more) = none → Reports decimals before (blanks ++ c :: more)
      (.error ⟨.foreignCharacter c, .behind (before ++ blanks)⟩) (before ++ blanks) (c :: more)

theorem Reports.forward {decimals : Bool} {before rest before' rest' : List Char}
    {reply : Except Fault Token} (h : Reports decimals before rest reply before' rest') :
    ∃ blanks run, placeOf reply = .behind (before ++ blanks) ∧ before' = before ++ blanks ++ run ∧
      ∀ t, reply = .ok t → t.symbol ≠ .endOfInput → run ≠ [] := by
  cases h with
  | @lexeme blanks more l _ hlegal hstop =>
    refine ⟨blanks, l.chars, rfl, rfl, ?_⟩
    intro _ _ _ hnone
    have hlt := Symbol.length_lt_of_split? (Symbol.split?_of_lexeme hlegal hstop)
    simp [hnone] at hlt
  | @endOfInput =>
    refine ⟨rest, [], rfl, by simp, ?_⟩
    rintro t ⟨⟩ hend
    exact absurd rfl hend
  | @foreign blanks more c =>
    refine ⟨blanks, [], rfl, by simp, ?_⟩
    rintro t ⟨⟩

theorem Reports.foreign_of_fault {decimals : Bool} {before rest before' rest' : List Char}
    {fault : Fault} (h : Reports decimals before rest (.error fault) before' rest') :
    ∃ c more, rest' = c :: more ∧ fault = ⟨.foreignCharacter c, .behind before'⟩ := by
  cases h with
  | foreign => exact ⟨_, _, rfl, rfl⟩

theorem Cursor.ExactIn.next {decimals : Bool} {text : List Char} {c after : Cursor}
    {reply : Except Fault Token} (h : c.ExactIn text) (hnext : c.next decimals = (reply, after)) :
    after.ExactIn text ∧
      Reports decimals (text.take c.pos) c.rest reply (text.take after.pos) after.rest := by
  obtain ⟨hskipped, blanks, hrest, hblanks, hpos⟩ := h.skipBlanks
  obtain ⟨htake, -, -⟩ := h.split hrest
  rw [← hpos] at htake
  have hplace := hskipped.position_eq
  rw [htake] at hplace
  cases finds hnext with
  | nothing hnone =>
    rw [hnone, List.append_nil] at hrest
    refine ⟨hskipped, ?_⟩
    rw [hrest, htake, hplace, hnone]
    exact .endOfInput hblanks
  | @symbol x width more hsplit =>
    obtain ⟨l, hlegal, hstop, hchars, hsymbol⟩ := Symbol.exists_lexeme_of_split? hsplit
    rw [← hchars, Symbol.split?_of_lexeme hlegal hstop] at hsplit
    obtain ⟨rfl, rfl, -⟩ := hsplit
    obtain ⟨hread, -, -⟩ := hskipped.split hchars.symm
    refine ⟨hskipped.read hchars.symm (Lexeme.lineFeed_not_mem hlegal), ?_⟩
    rw [hrest, ← hchars, hplace, hread, htake]
    exact .lexeme hblanks hlegal hstop
  | @foreign first more hfirst hnone =>
    refine ⟨hskipped, ?_⟩
    rw [hrest, htake, hplace, hfirst]
    rw [hfirst] at hnone
    refine .foreign hblanks ?_ hnone
    have hstop := not_blank_of_skipFrom c.rest c.pos c.line c.lineStart
    exact hstop first (by rw [show (skipFrom c.rest c.pos c.line c.lineStart).rest = _ from hfirst]; rfl)

/-! ## Many calls -/

namespace Cursor

/-- The cursor behind so many calls on a fresh one. -/
def afterCalls (decimals : Bool) (source : String) : Nat → Cursor
  | 0 => start source.toList
  | n + 1 => ((afterCalls decimals source n).next decimals).2

/-- What the call replies that comes behind so many calls. -/
def reply (decimals : Bool) (source : String) (n : Nat) : Except Fault Token :=
  ((afterCalls decimals source n).next decimals).1

/-- How much of the source has been read behind so many calls. -/
def readBy (decimals : Bool) (source : String) (n : Nat) : List Char :=
  source.toList.take (afterCalls decimals source n).pos

section
variable (decimals : Bool) (source : String)

theorem exactIn_afterCalls (n : Nat) : (afterCalls decimals source n).ExactIn source.toList := by
  induction n with
  | zero => exact .start source.toList
  | succ n ih => exact (ih.next rfl).1

theorem reports_reply (n : Nat) :
    Reports decimals (readBy decimals source n) (afterCalls decimals source n).rest
      (reply decimals source n) (readBy decimals source (n + 1))
      (afterCalls decimals source (n + 1)).rest :=
  ((exactIn_afterCalls decimals source n).next rfl).2

theorem readBy_prefix {n m : Nat} (h : n ≤ m) :
    readBy decimals source n <+: readBy decimals source m := by
  induction m, h using Nat.le_induction with
  | base => exact List.prefix_rfl
  | succ m _ ih =>
    obtain ⟨blanks, run, -, hread, -⟩ := (reports_reply decimals source m).forward
    rw [hread, List.append_assoc]
    exact ih.trans (List.prefix_append _ _)

theorem reply_before {n m : Nat} (h : n < m) {t : Token} (ht : reply decimals source n = .ok t)
    (hend : t.symbol ≠ .endOfInput) : t.position.Before (placeOf (reply decimals source m)) := by
  obtain ⟨blanks, run, hplace, hread, hrun⟩ := (reports_reply decimals source n).forward
  obtain ⟨blanks', run', hplace', -, -⟩ := (reports_reply decimals source m).forward
  obtain ⟨between, hbetween⟩ := readBy_prefix decimals source h
  have hfirst : t.position = placeOf (reply decimals source n) := by rw [ht]; rfl
  rw [hfirst, hplace, hplace', ← hbetween, hread, List.append_assoc _ run, List.append_assoc _ _ blanks']
  exact Position.behind_append_before _ (by simp [hrun t ht hend])

/-- However often a cursor is asked for a token, and whatever it replies, it stays exact in its source.
Each reply is placed at the first character of what it is about, a fault names the character that the
cursor then stands at, and the places of successive tokens come one behind the other. -/
theorem cursor_stays_exact :
    (∀ n, (afterCalls decimals source n).ExactIn source.toList) ∧
    (∀ n, Reports decimals (readBy decimals source n) (afterCalls decimals source n).rest
      (reply decimals source n) (readBy decimals source (n + 1))
      (afterCalls decimals source (n + 1)).rest) ∧
    (∀ n fault, reply decimals source n = .error fault → ∃ c,
      source.toList[(afterCalls decimals source (n + 1)).pos]? = some c ∧
      fault.position = .behind (readBy decimals source (n + 1)) ∧
      fault.diagnostic.description =
        "Character " ++ Text.quoted (String.singleton c) ++ " is not part of an arithmetic expression") ∧
    ∀ n m t, n < m → reply decimals source n = .ok t → t.symbol ≠ .endOfInput →
      t.position.Before (placeOf (reply decimals source m)) := by
  have hexact := exactIn_afterCalls decimals source
  refine ⟨hexact, reports_reply decimals source, fun n fault hfault => ?_,
    fun n m t h ht hend => reply_before decimals source h ht hend⟩
  obtain ⟨c, more, hrest, rfl⟩ := (hfault ▸ reports_reply decimals source n).foreign_of_fault
  refine ⟨c, ?_, rfl, rfl⟩
  rw [← List.head?_drop, ← (hexact (n + 1)).rest_eq, hrest]
  rfl

/-- A word behind a line feed, and a foreign character behind it that is met twice. -/
theorem cursor_stays_exact_two_lines :
    reply false "1\n ab$" 1 = .ok ⟨.name "ab", ⟨2, 2⟩⟩ ∧
      reply false "1\n ab$" 3 = .error ⟨.foreignCharacter '$', ⟨2, 4⟩⟩ ∧
      (afterCalls false "1\n ab$" 4).lineStart = 2 ∧
      Position.Before ⟨2, 2⟩ (placeOf (reply false "1\n ab$" 3)) ∧
      ∃ c, "1\n ab$".toList[(afterCalls false "1\n ab$" 4).pos]? = some c ∧
        (⟨2, 4⟩ : Position) = .behind (readBy false "1\n ab$" 4) := by
  have hword : reply false "1\n ab$" 1 = .ok ⟨.name "ab", ⟨2, 2⟩⟩ := by decide +kernel
  have hfault : reply false "1\n ab$" 3 = .error ⟨.foreignCharacter '$', ⟨2, 4⟩⟩ := by
    decide +kernel
  obtain ⟨-, -, hnames, horder⟩ := cursor_stays_exact false "1\n ab$"
  obtain ⟨c, hc, hplace, -⟩ := hnames 3 _ hfault
  exact ⟨hword, hfault, by decide +kernel, horder 1 3 _ (by decide) hword (by simp), c, hc, hplace⟩

end

end Cursor
end Arith
