import Mathlib.Data.Nat.Digits.Defs
import Arith.Text.Quoted
import Arith.Toml.Lexical

/-!
# Quoted text

Whatever a text holds, its quoted form is printable and shows which text it was: each character is
written so that it can be read off the front again.
-/

namespace Arith.Text

/-! ## Printable texts -/

/-- Every character of the text is printable. -/
def Prints (cs : List Char) : Prop := ∀ c ∈ cs, isPrintable c

theorem not_printable_lineFeed : isPrintable '\n' = false := by decide +kernel

/-- The characters of ASCII that are no control characters. -/
def isPlain (c : Char) : Bool := 32 ≤ c.toNat && c.toNat < 127

theorem isPrintable_of_plain {c : Char} (h : isPlain c) : isPrintable c := by
  have hranges : hiddenRanges.all fun range => range.2 < 32 || 127 ≤ range.1 := by decide +kernel
  simp only [isPlain, Bool.and_eq_true, decide_eq_true_eq] at h
  simp only [isPrintable, Bool.not_eq_true', List.any_eq_false]
  intro range hrange
  have hapart := List.all_eq_true.mp hranges range hrange
  simp only [Bool.or_eq_true, Bool.and_eq_true, decide_eq_true_eq] at hapart ⊢
  omega

theorem prints_of_plain {cs : List Char} (h : cs.all isPlain) : Prints cs := fun c hc =>
  isPrintable_of_plain (List.all_eq_true.mp h c hc)

theorem Prints.append {a b : List Char} (ha : Prints a) (hb : Prints b) : Prints (a ++ b) :=
  List.forall_mem_append.mpr ⟨ha, hb⟩

theorem isPlain_of_digit {c : Char} (h : c.isDigit) : isPlain c := by
  simp only [Char.isDigit, Bool.and_eq_true, decide_eq_true_eq, UInt32.le_iff_toNat_le] at h
  have hbounds : 48 ≤ c.toNat ∧ c.toNat ≤ 57 := h
  simp only [isPlain, Bool.and_eq_true, decide_eq_true_eq]
  omega

/-! ## Hexadecimal digits -/

/-- The number that hexadecimal digits stand for. -/
def hexValue (digits : List Char) : Nat := digits.foldl (fun n c => n * 16 + Toml.hexDigit c) 0

theorem hexDigit_digitChar {n : Nat} (h : n < 16) : Toml.hexDigit n.digitChar = n := by
  decide +revert

theorem isPlain_digitChar {n : Nat} (h : n < 16) : isPlain n.digitChar := by
  decide +revert

theorem hexValue_toDigits (n : Nat) : hexValue (Nat.toDigits 16 n) = n := by
  induction n using Nat.strongRecOn with
  | _ n ih =>
    rw [Nat.toDigits_eq_if (by decide)]
    split
    · rename_i hn
      simpa [hexValue] using hexDigit_digitChar hn
    · rename_i hn
      have hlow := hexDigit_digitChar (Nat.mod_lt n (by decide : 0 < 16))
      have hhigh := ih (n / 16) (by omega)
      simp only [hexValue, List.foldl_append, List.foldl_cons, List.foldl_nil] at hhigh ⊢
      rw [hhigh, hlow]
      omega

theorem plain_toDigits (n : Nat) : (Nat.toDigits 16 n).all isPlain := by
  induction n using Nat.strongRecOn with
  | _ n ih =>
    rw [Nat.toDigits_eq_if (by decide)]
    split
    · rename_i hn
      simpa using isPlain_digitChar hn
    · rename_i hn
      rw [List.all_append, ih (n / 16) (by omega)]
      simpa using isPlain_digitChar (Nat.mod_lt n (by decide : 0 < 16))

theorem length_hex {width n : Nat} (hwidth : 0 < width) (h : n < Nat.pow 16 width) :
    (hex width n).length = width := by
  have hle := (Nat.length_toDigits_le_iff (by decide : 1 < 16) hwidth).mpr h
  simp only [hex, List.length_append, List.length_replicate]
  omega

theorem hexValue_hex (width n : Nat) : hexValue (hex width n) = n := by
  have hzeros : ∀ k, (List.replicate k '0').foldl (fun n c => n * 16 + Toml.hexDigit c) 0 = 0 := by
    intro k
    induction k with
    | zero => rfl
    | succ k ih => rw [List.replicate_succ, List.foldl_cons]; exact ih
  rw [hexValue, hex, List.foldl_append, hzeros]
  exact hexValue_toDigits n

theorem plain_hex (width n : Nat) : (hex width n).all isPlain := by
  rw [hex, List.all_append, plain_toDigits, Bool.and_true]
  exact List.all_eq_true.mpr fun c hc => List.eq_of_mem_replicate hc ▸ rfl

/-! ## Escapes -/

/-- The two quotes that a text may stand in. -/
def IsQuote (c : Char) : Prop := c = '\'' ∨ c = '"'

theorem isQuote_quoteFor (cs : List Char) : IsQuote (quoteFor cs) := by
  unfold quoteFor IsQuote
  split
  · exact .inr rfl
  · exact .inl rfl

/-- How a character is written inside quotes. -/
inductive Escaped (quote c : Char) : List Char → Prop where
  | marked : c = '\\' ∨ c = quote → Escaped quote c ['\\', c]
  | named {name : Char} : (c, name) ∈ [('\t', 't'), ('\n', 'n'), ('\r', 'r')] →
    Escaped quote c ['\\', name]
  | bare : isPrintable c → c ≠ '\\' → c ≠ quote → Escaped quote c [c]
  | coded {name : Char} {width : Nat} : (name, width) ∈ [('x', 2), ('u', 4), ('U', 8)] →
    c.toNat < Nat.pow 16 width → Escaped quote c ('\\' :: name :: hex width c.toNat)

theorem escaped (quote c : Char) : Escaped quote c (escape quote c) := by
  unfold escape escapeCode
  split_ifs with hmark htab hfeed hreturn hprint hbyte hword
  · exact .marked hmark
  · exact .named (by simp [htab])
  · exact .named (by simp [hfeed])
  · exact .named (by simp [hreturn])
  · exact .bare hprint (fun h => hmark (.inl h)) (fun h => hmark (.inr h))
  · exact .coded (by simp) hbyte
  · exact .coded (by simp) hword
  · exact .coded (by simp) c.val.toNat_lt

variable {quote : Char}

theorem Escaped.prints (hquote : IsQuote quote) {c : Char} {cs : List Char}
    (h : Escaped quote c cs) : Prints cs := by
  cases h with
  | marked hc =>
    rcases hc with rfl | rfl
    · exact prints_of_plain rfl
    · rcases hquote with rfl | rfl <;> exact prints_of_plain rfl
  | @named name hname =>
    simp only [List.mem_cons, Prod.mk.injEq, List.not_mem_nil, or_false] at hname
    rcases hname with ⟨-, rfl⟩ | ⟨-, rfl⟩ | ⟨-, rfl⟩ <;> exact prints_of_plain rfl
  | bare hprint => exact fun d hd => List.mem_singleton.mp hd ▸ hprint
  | @coded name width hname _ =>
    simp only [List.mem_cons, Prod.mk.injEq, List.not_mem_nil, or_false] at hname
    refine prints_of_plain ?_
    rw [List.all_cons, List.all_cons, plain_hex]
    rcases hname with ⟨rfl, -⟩ | ⟨rfl, -⟩ | ⟨rfl, -⟩ <;> rfl

/-- The character of a code of the given width, and what follows it. -/
def code (width : Nat) (cs : List Char) : Char × List Char :=
  (Char.ofNat (hexValue (cs.take width)), cs.drop width)

/-- The character that stands at the front of the inside of a quoted text, and what follows it. -/
def unescape? : List Char → Option (Char × List Char)
  | '\\' :: 't' :: cs => some ('\t', cs)
  | '\\' :: 'n' :: cs => some ('\n', cs)
  | '\\' :: 'r' :: cs => some ('\r', cs)
  | '\\' :: 'x' :: cs => some (code 2 cs)
  | '\\' :: 'u' :: cs => some (code 4 cs)
  | '\\' :: 'U' :: cs => some (code 8 cs)
  | '\\' :: c :: cs => some (c, cs)
  | c :: cs => some (c, cs)
  | [] => none

theorem code_hex {width : Nat} (hwidth : 0 < width) {c : Char} (h : c.toNat < Nat.pow 16 width)
    (rest : List Char) : code width (hex width c.toNat ++ rest) = (c, rest) := by
  have hlength := length_hex hwidth h
  rw [code, List.take_left' hlength, List.drop_left' hlength, hexValue_hex, Char.ofNat_toNat]

theorem unescape?_cons_of_ne {c : Char} (h : c ≠ '\\') (cs : List Char) :
    unescape? (c :: cs) = some (c, cs) := by
  unfold unescape?
  split <;> simp_all

theorem Escaped.unescape? (hquote : IsQuote quote) {c : Char} {cs : List Char}
    (h : Escaped quote c cs) (rest : List Char) : Text.unescape? (cs ++ rest) = some (c, rest) := by
  cases h with
  | marked hc =>
    rcases hc with rfl | rfl
    · rfl
    · rcases hquote with rfl | rfl <;> rfl
  | @named name hname =>
    simp only [List.mem_cons, Prod.mk.injEq, List.not_mem_nil, or_false] at hname
    rcases hname with ⟨rfl, rfl⟩ | ⟨rfl, rfl⟩ | ⟨rfl, rfl⟩ <;> rfl
  | bare _ hne => exact unescape?_cons_of_ne hne rest
  | @coded name width hname hlt =>
    simp only [List.mem_cons, Prod.mk.injEq, List.not_mem_nil, or_false] at hname
    rcases hname with ⟨rfl, rfl⟩ | ⟨rfl, rfl⟩ | ⟨rfl, rfl⟩ <;>
      exact congrArg some (code_hex (by decide) hlt rest)

/-! ## Whole texts -/

theorem prints_quoted (s : String) : Prints (quoted s).toList := by
  have hquote := isQuote_quoteFor s.toList
  have hprint : Prints [quoteFor s.toList] := by
    rcases hquote with h | h <;> rw [h] <;> exact prints_of_plain rfl
  have hinside : Prints (s.toList.flatMap (escape (quoteFor s.toList))) := by
    intro d hd
    obtain ⟨c, -, hd⟩ := List.mem_flatMap.mp hd
    exact (escaped _ c).prints hquote d hd
  rw [quoted, String.toList_ofList]
  exact (hprint.append hinside).append hprint

theorem flatMap_escape_injective (hquote : IsQuote quote) {cs ds : List Char}
    (h : cs.flatMap (escape quote) = ds.flatMap (escape quote)) : cs = ds := by
  have hfront := fun (c : Char) rest => (escaped quote c).unescape? hquote rest
  induction cs generalizing ds with
  | nil =>
    cases ds with
    | nil => rfl
    | cons d ds =>
      have hread := congrArg Text.unescape? h
      rw [List.flatMap_cons, hfront] at hread
      cases hread
  | cons c cs ih =>
    have hread := congrArg Text.unescape? h
    cases ds with
    | nil =>
      rw [List.flatMap_cons, hfront] at hread
      cases hread
    | cons d ds =>
      rw [List.flatMap_cons, List.flatMap_cons, hfront, hfront, Option.some.injEq,
        Prod.mk.injEq] at hread
      rw [hread.1, ih hread.2]

theorem quoted_injective {s t : String} (h : quoted s = quoted t) : s = t := by
  have hlist := congrArg String.toList h
  simp only [quoted, String.toList_ofList, List.cons_append, List.cons.injEq] at hlist
  obtain ⟨hquote, hinside⟩ := hlist
  rw [← hquote] at hinside
  have hcancel := List.append_cancel_right hinside
  exact String.toList_inj.mp (flatMap_escape_injective (isQuote_quoteFor _) hcancel)

end Arith.Text
