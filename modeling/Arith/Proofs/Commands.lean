import Arith.Command.Run
import Arith.Proofs.Evaluation

/-!
# The commands agree

Words that prepare a command prepare all three of them for the same text. `eval` and `tree` then go through
on the same texts and report the same faults. `tokens` only scans, but does so to the end; where it reports
a fault the other two report one as well. A report is all that a failed command writes.
-/

namespace Arith.Command

/-! ## The words around a command -/

theorem Options.read?_append {front : List String} {o o' : Options}
    (h : read? front o = some (o', [])) {word : String}
    (hword : ∀ o, effect word o = .notAnOption) (words : List String) :
    read? (front ++ word :: words) o = some (o', word :: words) := by
  fun_induction read? front o with
  | case1 o =>
    cases h
    rw [List.nil_append, read?, hword]
  | case2 o first more o₁ heffect ih | case3 o first o₁ heffect path more ih =>
    rw [List.cons_append, read?, heffect]
    exact ih h
  | case5 o first more heffect =>
    cases h
    rw [List.cons_append, read?, heffect, List.nil_append]
  | case4 | case6 | case7 => cases h

theorem Verb.effect_name (verb : Verb) (o : Options) : Options.effect verb.name o = .notAnOption := by
  cases verb <;> rfl

theorem Verb.ofName?_name (verb : Verb) : Verb.ofName? verb.name = some verb := by
  cases verb <;> decide

/-- The text that a command works on: the one it is given, or the standard input. -/
def textOf (given? : Option String) (stdin : String) : String :=
  (given?.filter (· ≠ "-")).getD (String.ofList (unifyLineEnds stdin.toList))

/-- Words in front of a command and behind it that make it ready to run on a text: options that ask no
question and load valid settings, and then at most one source. -/
def Prepared (front rest : List String) (stdin : String) (look : String → Entry) (decimals : Bool)
    (text : String) : Prop :=
  ∃ options settings given?, Options.read? front .none = some (options, []) ∧
    options.outcome? = none ∧ Command.settings options look = .ok settings ∧
    arguments? rest = some (Option.toList given?, false) ∧
    decimals = (options.decimals || settings.allowDecimals) ∧ text = textOf given? stdin

section
variable {front rest : List String} {stdin : String} {look : String → Entry} {decimals : Bool}
  {text : String}

theorem Prepared.run_eq (h : Prepared front rest stdin look decimals text) :
    ∃ verbose source?, ∀ verb : Verb,
      run (front ++ verb.name :: rest) stdin look = Job.run ⟨verb, decimals, verbose, source?⟩ text := by
  obtain ⟨options, settings, given?, hoptions, houtcome, hsettings, harguments, rfl, rfl⟩ := h
  refine ⟨options.verbose || settings.logLevel = .debug, given?.filter (· ≠ "-"), fun verb => ?_⟩
  unfold run plan
  rw [Options.read?_append hoptions verb.effect_name]
  simp only [houtcome, Verb.ofName?_name, hsettings, harguments]
  cases given? with
  | none => rfl
  | some source =>
    by_cases hsource : source = "-"
    · simp [textOf, hsource, Option.filter]
    · simp [textOf, hsource, Option.filter]

theorem prepared_of_text {options : Options} {settings : Settings}
    (hoptions : Options.read? front .none = some (options, [])) (houtcome : options.outcome? = none)
    (hsettings : Command.settings options look = .ok settings) (hne : text ≠ "-") :
    Prepared front ["--", text] stdin look (options.decimals || settings.allowDecimals) text := by
  refine ⟨options, settings, some text, hoptions, houtcome, hsettings, ?_, rfl, ?_⟩
  · simp [arguments?]
  · simp [textOf, hne, Option.filter]

/-! ## One job -/

/-- A fault is reported, and nothing else is written. -/
structure Outcome.Reports (o : Outcome) (fault : Fault) : Prop where
  exitCode_eq : o.exitCode = 1
  stdout_eq : o.stdout = ""
  stderr_eq : ∀ time, o.stderr time = fault.message ++ "\n"
  crash_eq : o.crash? = none

theorem Job.reports_failed (fault : Fault) : (failed (.fault fault)).Reports fault where
  exitCode_eq := rfl
  stdout_eq := rfl
  stderr_eq := fun time => by simp [failed, Outcome.reported, Outcome.stderr]
  crash_eq := rfl

end

namespace Job

variable {verb : Verb} {decimals verbose : Bool} {source? : Option String} {text : String}
  {fault : Fault}

theorem exitCode_of_tree {e : Expr} (hverb : verb ≠ .tokens) (h : parse decimals text = .ok e) :
    (run ⟨verb, decimals, verbose, source?⟩ text).exitCode = 0 := by
  obtain ⟨x, hx, -⟩ := evaluate_of_parse h
  unfold run
  cases verb with
  | eval => simp only [h, hx, Outcome.success]
  | tokens => exact absurd rfl hverb
  | tree => simp only [h, Outcome.success]

theorem reports_of_parse (hverb : verb ≠ .tokens) (h : parse decimals text = .error (.fault fault)) :
    (run ⟨verb, decimals, verbose, source?⟩ text).Reports fault := by
  unfold run
  cases verb with
  | eval => simp only [h, reports_failed]
  | tokens => exact absurd rfl hverb
  | tree => simp only [h, reports_failed]

theorem exitCode_eq_zero_iff (hverb : verb ≠ .tokens) :
    (run ⟨verb, decimals, verbose, source?⟩ text).exitCode = 0 ↔
      ∃ e, parse decimals text = .ok e := by
  cases hparse : parse decimals text with
  | ok e => simp [exitCode_of_tree hverb hparse]
  | error failure =>
    obtain ⟨fault, rfl, -⟩ := parse_not_guarded hparse
    simp [(reports_of_parse hverb hparse).exitCode_eq]

theorem exitCode_of_tokens {ts : List Token} (h : tokenize decimals text = .ok ts) :
    (run ⟨.tokens, decimals, verbose, source?⟩ text).exitCode = 0 := by
  unfold run
  simp only [h, Outcome.success]

theorem reports_of_tokenize (h : tokenize decimals text = .error fault) :
    (run ⟨.tokens, decimals, verbose, source?⟩ text).Reports fault := by
  unfold run
  simp only [h, reports_failed]

theorem exitCode_tokens_eq_one_iff :
    (run ⟨.tokens, decimals, verbose, source?⟩ text).exitCode = 1 ↔
      ∃ fault, tokenize decimals text = .error fault := by
  cases htokenize : tokenize decimals text with
  | error fault => simp [(reports_of_tokenize htokenize).exitCode_eq]
  | ok ts => simp [exitCode_of_tokens htokenize]

end Job

/-! ## Three jobs -/

theorem exists_fault_of_no_tree {decimals : Bool} {text : String}
    (h : ¬ ∃ e, parse decimals text = .ok e) : ∃ fault, parse decimals text = .error (.fault fault) := by
  cases hparse : parse decimals text with
  | ok e => exact absurd ⟨e, hparse⟩ h
  | error failure =>
    obtain ⟨fault, rfl, -⟩ := parse_not_guarded hparse
    exact ⟨fault, rfl⟩

theorem exists_fault_of_tokenize {decimals : Bool} {text : String} {fault : Fault}
    (h : tokenize decimals text = .error fault) :
    ∃ found, parse decimals text = .error (.fault found) := by
  apply exists_fault_of_no_tree
  rintro ⟨e, hparse⟩
  have hnone := (parse_eq_ok_iff.mp hparse).1
  rw [tokenize_eq_error_iff.mp h] at hnone
  cases hnone

/-- Any command on the same words: `eval` and `tree` go through just when the text has a tree, and else
both report the fault of reading it and write nothing more. `tokens` fails just when the text has a fault of
scanning anywhere, reports that one and no token in front of it, and then the other two fail as well. -/
theorem commands_agree {front rest : List String} {stdin : String} {look : String → Entry}
    {decimals : Bool} {text : String} (h : Prepared front rest stdin look decimals text) :
    (∀ verb : Verb, verb ≠ .tokens → ((run (front ++ verb.name :: rest) stdin look).exitCode = 0 ↔
      ∃ e, parse decimals text = .ok e)) ∧
    ((¬ ∃ e, parse decimals text = .ok e) → ∃ fault, parse decimals text = .error (.fault fault) ∧
      ∀ verb : Verb, verb ≠ .tokens → (run (front ++ verb.name :: rest) stdin look).Reports fault) ∧
    ((run (front ++ Verb.tokens.name :: rest) stdin look).exitCode = 1 ↔
      ∃ fault, tokenize decimals text = .error fault) ∧
    (∀ fault, tokenize decimals text = .error fault →
      (run (front ++ Verb.tokens.name :: rest) stdin look).Reports fault) ∧
    ((run (front ++ Verb.tokens.name :: rest) stdin look).exitCode = 1 →
      ∀ verb : Verb, (run (front ++ verb.name :: rest) stdin look).exitCode = 1) := by
  obtain ⟨verbose, source?, hrun⟩ := h.run_eq
  simp only [hrun]
  refine ⟨fun verb hverb => Job.exitCode_eq_zero_iff hverb, fun hnone => ?_,
    Job.exitCode_tokens_eq_one_iff, fun fault => Job.reports_of_tokenize, fun hfails verb => ?_⟩
  · obtain ⟨fault, hparse⟩ := exists_fault_of_no_tree hnone
    exact ⟨fault, hparse, fun verb hverb => Job.reports_of_parse hverb hparse⟩
  · obtain ⟨fault, htokenize⟩ := Job.exitCode_tokens_eq_one_iff.mp hfails
    obtain ⟨found, hparse⟩ := exists_fault_of_tokenize htokenize
    by_cases hverb : verb = .tokens
    · rw [hverb]
      exact hfails
    · exact (Job.reports_of_parse hverb hparse).exitCode_eq

/-- A number too many in front of a character that belongs to no token. -/
theorem commands_agree_two_faults :
    Prepared ["-d"] ["--", "1 2 $"] "" (fun _ => .missing) true "1 2 $" ∧
      ∃ fault found, tokenize true "1 2 $" = .error fault ∧ fault.cause = .foreignCharacter '$' ∧
        (run ["-d", "tokens", "--", "1 2 $"] "" fun _ => .missing).Reports fault ∧
        parse true "1 2 $" = .error (.fault found) ∧ found.cause.kind = .unexpectedToken ∧
        (run ["-d", "eval", "--", "1 2 $"] "" fun _ => .missing).Reports found ∧
        (run ["-d", "tree", "--", "1 2 $"] "" fun _ => .missing).Reports found := by
  have hoptions : Options.read? ["-d"] .none = some (⟨none, true, false, none⟩, []) := rfl
  have hsettings : Command.settings ⟨none, true, false, none⟩ (fun _ => .missing) = .ok .default := rfl
  have hprepared : Prepared ["-d"] ["--", "1 2 $"] "" (fun _ => .missing) true "1 2 $" :=
    prepared_of_text hoptions rfl hsettings (by decide)
  have htokenize : tokenize true "1 2 $" = .error ⟨.foreignCharacter '$', ⟨1, 5⟩⟩ := by decide +kernel
  have hparse : parse true "1 2 $" =
      .error (.fault ⟨.unexpected .afterOperand (.number (.int 2)), ⟨1, 3⟩⟩) := by decide +kernel
  obtain ⟨-, hreports, -, hscan, -⟩ := commands_agree hprepared
  obtain ⟨found, hfound, hboth⟩ := hreports (by simp [hparse])
  rw [hparse] at hfound
  cases hfound
  exact ⟨hprepared, _, _, htokenize, rfl, hscan _ htokenize, hparse, rfl,
    hboth .eval (by decide), hboth .tree (by decide)⟩

end Arith.Command
