import Arith.Proofs.Offsets

/-!
# Requests to a cursor

A cursor may be asked for the next token or for all tokens up to the end, in any order and as often as one
likes. It gives the tokens of its source away one behind the other, at most as many as the source has
characters, and comes to rest at the end of the source or in front of a character that belongs to none.
From then on it replies the same, and moves no more.
-/

namespace Arith.Cursor

/-! ## Replies -/

inductive Request where
  | next
  | drain

/-- The tokens of a drain one by one, and the fault that has ended it. -/
def Drained.replies (d : Drained) : List (Except Fault Token) :=
  d.tokens.map .ok ++ d.fault?.toList.map .error

/-- The replies to a request, and the cursor behind it. -/
def answer (decimals : Bool) (c : Cursor) : Request → List (Except Fault Token) × Cursor
  | .next => ([(c.next decimals).1], (c.next decimals).2)
  | .drain => ((c.drain decimals).replies, (c.drain decimals).cursor)

def replies (decimals : Bool) (c : Cursor) : List Request → List (Except Fault Token)
  | [] => []
  | request :: requests =>
    (c.answer decimals request).1 ++ (c.answer decimals request).2.replies decimals requests

def after (decimals : Bool) (c : Cursor) : List Request → Cursor
  | [] => c
  | request :: requests => (c.answer decimals request).2.after decimals requests

section
variable (decimals : Bool) (c : Cursor) (requests more : List Request)

theorem replies_append : c.replies decimals (requests ++ more) =
    c.replies decimals requests ++ (c.after decimals requests).replies decimals more := by
  induction requests generalizing c with
  | nil => rfl
  | cons request requests ih => simp [replies, after, ih]

theorem after_append : c.after decimals (requests ++ more) =
    (c.after decimals requests).after decimals more := by
  induction requests generalizing c with
  | nil => rfl
  | cons request requests ih => simp [after, ih]

end

/-! ## At rest -/

/-- A reply that is the last of its kind: the end of input, or a fault. -/
def Final : Except Fault Token → Prop
  | .ok t => t.symbol = .endOfInput
  | .error _ => True

section
variable {decimals : Bool} {c stop : Cursor} {last : Except Fault Token} {ts : List Token}

theorem next_of_final (hlast : Final last) (h : c.next decimals = (last, stop)) :
    stop.next decimals = (last, stop) := by
  cases last with
  | error fault => exact next_of_fault h
  | ok t =>
    cases finds h with
    | symbol hsplit => exact absurd hlast (Symbol.ne_endOfInput_of_split? hsplit)
    | nothing hnone =>
      have hskip := skipBlanks_skipBlanks c
      rw [next_of_end (by rw [hskip, hnone]), hskip]

/-- Asked for one token after the other, the cursor gives these away and then rests at `stop`, where it
replies `last`. -/
inductive Leads (decimals : Bool) (last : Except Fault Token) (stop : Cursor) :
    Cursor → List Token → Prop where
  | stop {c : Cursor} : c.next decimals = (last, stop) → Leads decimals last stop c []
  | token {c c' : Cursor} {t : Token} {ts : List Token} : c.next decimals = (.ok t, c') →
    t.symbol ≠ .endOfInput → Leads decimals last stop c' ts → Leads decimals last stop c (t :: ts)

theorem exists_leads (decimals : Bool) (c : Cursor) : ∃ ts last stop,
    Final last ∧ Leads decimals last stop c ts ∧ ts.length ≤ c.rest.length := by
  fun_induction drain decimals c with
  | case1 c fault stop h => exact ⟨[], .error fault, stop, trivial, .stop h, Nat.zero_le _⟩
  | case2 c t stop h hend => exact ⟨[], .ok t, stop, hend, .stop h, Nat.zero_le _⟩
  | case3 c t c' h hend hlt _ ih =>
    obtain ⟨ts, last, stop, hlast, hleads, hlength⟩ := ih
    exact ⟨t :: ts, last, stop, hlast, .token h hend hleads, Nat.lt_of_le_of_lt hlength hlt⟩

namespace Leads

theorem ne_endOfInput (h : Leads decimals last stop c ts) : ∀ t ∈ ts, t.symbol ≠ .endOfInput := by
  induction h with
  | stop => simp
  | token _ hend _ ih => exact List.forall_mem_cons.mpr ⟨hend, ih⟩

theorem drain_eq (h : Leads decimals last stop c ts) (hlast : Final last) :
    c.answer decimals .drain = (ts.map .ok ++ [last], stop) := by
  unfold answer
  induction h with
  | stop h =>
    cases last with
    | error fault =>
      rw [drain_of_fault h]
      rfl
    | ok t =>
      rw [drain_of_end h hlast]
      rfl
  | @token c c' t ts h hend _ ih =>
    rw [drain_of_token h hend]
    simp only [Prod.mk.injEq, Drained.replies, List.map_cons, List.cons_append] at ih ⊢
    rw [ih.1]
    exact ⟨rfl, ih.2⟩

theorem next_all (h : Leads decimals last stop c ts) :
    c.replies decimals (List.replicate (ts.length + 1) .next) = ts.map .ok ++ [last] ∧
      c.after decimals (List.replicate (ts.length + 1) .next) = stop := by
  induction h with
  | stop h =>
    simp only [List.length_nil, Nat.zero_add, List.replicate_one, replies, after, answer, h]
    simp
  | token h _ _ ih =>
    rw [List.length_cons, List.replicate_succ]
    simp only [replies, after, answer, h]
    simp [ih]

theorem at_rest (h : Leads decimals last stop c ts) (hlast : Final last) :
    stop.next decimals = (last, stop) := by
  induction h with
  | stop h => exact next_of_final hlast h
  | token _ _ _ ih => exact ih

theorem answer_cases (h : Leads decimals last stop c ts) (hlast : Final last) (request : Request) :
    c.answer decimals request = (ts.map .ok ++ [last], stop) ∨
      request = .next ∧ ∃ t more c', ts = t :: more ∧ c.answer decimals .next = ([.ok t], c') ∧
        Leads decimals last stop c' more := by
  cases request with
  | drain => exact .inl (h.drain_eq hlast)
  | next =>
    cases h with
    | stop hnext =>
      left
      simp [answer, hnext]
    | token hnext _ hmore =>
      right
      exact ⟨rfl, _, _, _, rfl, by simp [answer, hnext], hmore⟩

theorem replies_at_rest (h : Leads decimals last stop stop []) (hlast : Final last)
    (requests : List Request) :
    stop.replies decimals requests = List.replicate requests.length last ∧
      stop.after decimals requests = stop := by
  induction requests with
  | nil => exact ⟨rfl, rfl⟩
  | cons request requests ih =>
    have hanswer : stop.answer decimals request = ([last], stop) := by
      simpa using h.answer_cases hlast request
    simp [replies, after, hanswer, ih, List.replicate_succ]

/-- Any requests take some of the tokens, and from the first last reply on the cursor is at rest. -/
theorem serve (h : Leads decimals last stop c ts) (hlast : Final last) (requests : List Request) :
    ∃ front back k, ts = front ++ back ∧
      c.replies decimals requests = front.map .ok ++ List.replicate k last ∧
      Leads decimals last stop (c.after decimals requests) back ∧
      (0 < k → back = [] ∧ c.after decimals requests = stop) ∧
      requests.length ≤ front.length + k ∧ (.drain ∈ requests → 0 < k) := by
  induction requests generalizing c ts with
  | nil => exact ⟨[], ts, 0, rfl, rfl, h, by simp, Nat.zero_le _, by simp⟩
  | cons request requests ih =>
    rcases h.answer_cases hlast request with hanswer | ⟨rfl, t, more, c', rfl, hanswer, hmore⟩
    · have hstop : Leads decimals last stop stop [] := .stop (h.at_rest hlast)
      obtain ⟨hreplies, hafter⟩ := hstop.replies_at_rest hlast requests
      refine ⟨ts, [], requests.length + 1, by simp, ?_, ?_, ?_, ?_, by simp⟩
      · simp [replies, hanswer, hreplies, List.replicate_succ]
      · simpa [after, hanswer, hafter] using hstop
      · simp [after, hanswer, hafter]
      · simp
    · obtain ⟨front, back, k, rfl, hreplies, hleads, hrest, hlength, hdrain⟩ := ih hmore
      refine ⟨t :: front, back, k, rfl, ?_, ?_, ?_, ?_, ?_⟩
      · simp [replies, hanswer, hreplies]
      · simpa [after, hanswer] using hleads
      · simpa [after, hanswer] using hrest
      · simp only [List.length_cons]
        omega
      · simpa using hdrain

end Leads

/-! ## Where a cursor rests -/

/-- The cursor is where the last reply places it: behind the whole text, or in front of the character that
the fault is about. -/
def RestsAt (text : List Char) (stop : Cursor) : Except Fault Token → Prop
  | .ok t => t = ⟨.endOfInput, stop.position⟩ ∧ stop.pos = text.length
  | .error fault => ∃ c, text[stop.pos]? = some c ∧ fault = ⟨.foreignCharacter c, stop.position⟩

theorem Leads.restsAt {text : List Char} (h : Leads decimals last stop c ts) (hlast : Final last)
    (hc : c.ExactIn text) : RestsAt text stop last := by
  induction h with
  | token h _ _ ih => exact ih (hc.next h).1
  | stop h =>
    obtain ⟨hexact, -⟩ := hc.next h
    have hdrop := hexact.rest_eq
    cases finds h with
    | symbol hsplit => exact absurd hlast (Symbol.ne_endOfInput_of_split? hsplit)
    | nothing hnone =>
      refine ⟨rfl, Nat.le_antisymm hexact.pos_le ?_⟩
      rw [hnone] at hdrop
      exact List.drop_eq_nil_iff.mp hdrop.symm
    | @foreign first more hfirst _ =>
      refine ⟨first, ?_, rfl⟩
      rw [← List.head?_drop, ← hdrop, hfirst]
      rfl

end

/-- However a cursor is asked, it gives away the same tokens of its source in their order, at most one for
each character, and then nothing but one last reply: the end of input, or a fault. From the first time
that it makes this reply it rests where the reply is placed. It makes it at the latest when it has been
asked more often than the source has characters, and at the end of every drain; and a drain does
nothing that asking for so many tokens one by one would not do. -/
theorem requests_come_to_rest (decimals : Bool) (source : String) :
    ∃ (ts : List Token) (last : Except Fault Token) (stop : Cursor),
      ts.length ≤ source.length ∧ (∀ t ∈ ts, t.symbol ≠ .endOfInput) ∧
      RestsAt source.toList stop last ∧
      ∀ requests : List Request, ∃ front k, front <+: ts ∧
        (start source.toList).replies decimals requests = front.map .ok ++ List.replicate k last ∧
        (0 < k → front = ts ∧ (start source.toList).after decimals requests = stop) ∧
        (source.length < requests.length ∨ .drain ∈ requests → 0 < k) ∧
        ∃ m ≤ source.length + 1,
          (start source.toList).replies decimals (requests ++ [.drain]) =
            (start source.toList).replies decimals (requests ++ List.replicate m .next) ∧
          (start source.toList).after decimals (requests ++ [.drain]) =
            (start source.toList).after decimals (requests ++ List.replicate m .next) := by
  obtain ⟨ts, last, stop, hlast, hleads, hlength⟩ := exists_leads decimals (start source.toList)
  have hsource : (start source.toList).rest.length = source.length := String.length_toList
  rw [hsource] at hlength
  refine ⟨ts, last, stop, hlength, hleads.ne_endOfInput, hleads.restsAt hlast (.start _), ?_⟩
  intro requests
  obtain ⟨front, back, k, rfl, hreplies, hback, hrest, hmany, hdrain⟩ := hleads.serve hlast requests
  rw [List.length_append] at hlength
  refine ⟨front, k, List.prefix_append _ _, hreplies, ?_, ?_, back.length + 1, by omega, ?_⟩
  · intro hk
    obtain ⟨rfl, hstop⟩ := hrest hk
    exact ⟨(List.append_nil front).symm, hstop⟩
  · rintro (hlong | hmem)
    · omega
    · exact hdrain hmem
  · obtain ⟨hall, hstop⟩ := hback.next_all
    simp only [replies_append, after_append, hall, hstop]
    simp [replies, after, hback.drain_eq hlast]

end Arith.Cursor
