import Mathlib.Data.String.Basic
import Arith.Proofs.Commands

/-!
# Loading settings

The content of a settings file decides between three ways a run can go. It goes on with the settings that
the file holds; or it ends with a report that they are invalid; or, for three kinds of content that the
report does not cover, it breaks off.
-/

namespace Arith

namespace Settings

/-! ## Paths -/

theorem splitOnAux_slash (before rest : List Char) (h : '/' ∉ rest) :
    String.splitOnAux (.ofList (before ++ rest)) "/" 0 ⟨String.utf8Len before⟩ 0 [] =
      [.ofList (before ++ rest)] := by
  induction rest generalizing before with
  | nil =>
    rw [String.splitOnAux]
    simpa using String.extract_of_valid [] before []
  | cons c rest ih =>
    rw [List.mem_cons, not_or] at h
    have hend : ¬ String.Pos.Raw.atEnd (.ofList (before ++ c :: rest)) ⟨String.utf8Len before⟩ := by
      rw [String.atEnd_of_valid]
      exact List.cons_ne_nil c rest
    have hslash : ¬ (c == String.Pos.Raw.get "/" 0) := by
      have hget : String.Pos.Raw.get "/" 0 = '/' := by decide
      rw [hget, beq_iff_eq]
      exact Ne.symm h.1
    have hnext : String.Pos.Raw.next (.ofList (before ++ c :: rest)) ⟨String.utf8Len before⟩ =
        ⟨String.utf8Len (before ++ [c])⟩ := by
      rw [String.next_of_valid]
      simp
    have hrest := ih (before ++ [c]) h.2
    rw [List.append_assoc, List.singleton_append, ← hnext] at hrest
    rw [String.splitOnAux, if_neg hend, String.get_of_valid, List.headD_cons, if_neg hslash]
    exact hrest

theorem splitOn_slash {name : String} (h : '/' ∉ name.toList) : name.splitOn "/" = [name] := by
  have hsplit := splitOnAux_slash [] name.toList h
  rw [List.nil_append, String.ofList_toList] at hsplit
  exact hsplit

theorem steps_name {name : String} (h : '/' ∉ name.toList) (hname : name ≠ "" ∧ name ≠ ".") :
    steps name = [name] := by
  rw [steps, splitOn_slash h]
  simp [hname]

theorem fileName_name {name : String} (h : '/' ∉ name.toList) (hname : name ≠ "" ∧ name ≠ ".") :
    fileName name = name := by
  rw [fileName, steps_name h hname]
  rfl

theorem fileName_usual {name : String} (h : name ∈ fileNames) : fileName name = name := by
  have husual : ∀ name ∈ fileNames, '/' ∉ name.toList ∧ name ≠ "" ∧ name ≠ "." := by decide
  exact fileName_name (husual name h).1 (husual name h).2

end Settings

theorem Entry.inFolder_name (files : List (String × ByteArray)) {name : String}
    (h : '/' ∉ name.toList) (hname : name ≠ "" ∧ name ≠ "." ∧ name ≠ "..")
    (hshort : name.utf8ByteSize ≤ nameLimit) :
    inFolder files name = (files.lookup name).elim .missing .file := by
  have hsteps := Settings.steps_name h ⟨hname.1, hname.2.1⟩
  have hroot : name.startsWith "/" = false := by
    rw [String.startsWith_string_eq_false_iff]
    exact fun hstart => h (hstart.subset (by decide))
  have htoolong : isTooLong [name] = false := by
    simp [isTooLong, hname, nameLimit, pathLimit] at hshort ⊢
    omega
  rw [inFolder]
  simp [hsteps, htoolong, hroot, hname]

theorem Entry.inFolder_usual (files : List (String × ByteArray)) {name : String}
    (h : name ∈ Settings.fileNames) :
    inFolder files name = (files.lookup name).elim .missing .file := by
  have husual : ∀ name ∈ Settings.fileNames, '/' ∉ name.toList ∧
      (name ≠ "" ∧ name ≠ "." ∧ name ≠ "..") ∧ name.utf8ByteSize ≤ nameLimit := by decide
  exact inFolder_name files (husual name h).1 (husual name h).2.1 (husual name h).2.2

namespace Settings

/-! ## Contents -/

/-- Content that no settings can be read from and that is not reported either: bytes that are no text,
a decimal number with too many digits, and tools in a shared file that are no table. -/
inductive BreaksOff (shared : Bool) (content : ByteArray) : Prop
  | notUnicode (h : String.fromUTF8? content = none)
  | integerTooLong {source : String} (hsource : String.fromUTF8? content = some source)
    (h : Toml.parse source = .error .integerTooLong)
  | toolsNotATable {source : String} {t : Table} {tools : Datum}
    (hsource : String.fromUTF8? content = some source) (hparse : Toml.parse source = .ok t)
    (hshared : shared) (htools : Table.get? t "tool" = some tools) (h : tools.kind ≠ .table)

/-- Trouble with the content of a file that is reported. -/
inductive Reported : Trouble → Prop
  | malformed : Reported .malformed
  | invalid (problems : List Problem) : Reported (.invalid problems)

variable {shared : Bool} {content : ByteArray} {source : String} {t : Table} {trouble : Trouble}

theorem tableOf_of_parse (hsource : String.fromUTF8? content = some source)
    (hparse : Toml.parse source = .ok t) : tableOf content = .ok t := by
  rw [tableOf, hsource]
  simp only [hparse]

theorem exists_of_tableOf (h : tableOf content = .ok t) :
    ∃ source, String.fromUTF8? content = some source ∧ Toml.parse source = .ok t := by
  unfold tableOf at h
  split at h
  · cases h
  · rename_i source hsource
    split at h <;> cases h
    exact ⟨source, hsource, ‹_›⟩

theorem reported_or_breaksOff_of_tableOf (h : tableOf content = .error trouble) :
    Reported trouble ∨ BreaksOff shared content := by
  unfold tableOf at h
  split at h
  · exact .inr (.notUnicode ‹_›)
  · split at h <;> cases h
    · exact .inl .malformed
    · exact .inr (.integerTooLong ‹_› ‹_›)

theorem part_eq_error_iff : part shared t = .error trouble ↔
    shared ∧ ∃ tools, Table.get? t "tool" = some tools ∧ tools.kind ≠ .table ∧
      trouble = .notATable tools.kind := by
  cases shared with
  | false => simp [part, member]
  | true =>
    cases htools : Table.get? t "tool" with
    | none => simp [part, member, htools]
    | some tools => cases tools <;> simp [part, member, htools, Datum.kind, eq_comm]

theorem trouble_of_breaksOff (h : BreaksOff shared content) :
    ∃ trouble, ofContent shared content = .error trouble ∧ ¬ Reported trouble := by
  cases h with
  | notUnicode h =>
    have hcontent : ofContent shared content = .error .notUnicode := by
      simp only [ofContent, tableOf, h]
    exact ⟨_, hcontent, by rintro ⟨⟩⟩
  | integerTooLong hsource h =>
    have hcontent : ofContent shared content = .error .integerTooLong := by
      simp only [ofContent, tableOf, hsource, h]
    exact ⟨_, hcontent, by rintro ⟨⟩⟩
  | @toolsNotATable _ _ tools hsource hparse hshared htools h =>
    have hpart := part_eq_error_iff.mpr ⟨hshared, tools, htools, h, rfl⟩
    have hcontent : ofContent shared content = .error (.notATable tools.kind) := by
      simp only [ofContent, tableOf_of_parse hsource hparse, hpart]
    exact ⟨_, hcontent, by rintro ⟨⟩⟩

theorem reported_or_breaksOff (h : ofContent shared content = .error trouble) :
    Reported trouble ∨ BreaksOff shared content := by
  unfold ofContent at h
  split at h
  · rename_i htable
    cases h
    exact reported_or_breaksOff_of_tableOf htable
  · rename_i t htable
    split at h
    · rename_i hpart
      cases h
      obtain ⟨source, hsource, hparse⟩ := exists_of_tableOf htable
      obtain ⟨hshared, tools, htools, hkind, -⟩ := part_eq_error_iff.mp hpart
      exact .inr (.toolsNotATable hsource hparse hshared htools hkind)
    · split_ifs at h
      split at h <;> cases h
      exact .inl (.invalid _)

theorem breaksOff_iff : BreaksOff shared content ↔
    ∃ trouble, ofContent shared content = .error trouble ∧ ¬ Reported trouble := by
  constructor
  · exact trouble_of_breaksOff
  · rintro ⟨trouble, htrouble, hnot⟩
    exact (reported_or_breaksOff htrouble).resolve_left hnot

theorem findIn_append {look : String → Entry} {before after : List String}
    (h : ∀ name ∈ before, look name = .missing) :
    findIn look (before ++ after) = findIn look after := by
  induction before with
  | nil => rfl
  | cons name before ih =>
    rw [List.cons_append, findIn, h name List.mem_cons_self]
    exact ih fun n hn => h n (List.mem_cons_of_mem name hn)

end Settings

namespace Command

/-! ## Files -/

/-- The path that settings are read from: the one that is given, or the first of the usual names that is
there. -/
inductive Options.Uses (o : Options) (look : String → Entry) : String → Prop
  | given {path : String} (h : o.configPath? = some path) : Uses o look path
  | found {before after : List String} {name : String} (hnone : o.configPath? = .none)
    (hnames : Settings.fileNames = before ++ name :: after)
    (hbefore : ∀ n ∈ before, look n = .missing) : Uses o look name

theorem settings_of_uses {o : Options} {look : String → Entry} {path : String} {content : ByteArray}
    (h : o.Uses look path) (hfile : look path = .file content) :
    settings o look = Settings.ofContent (Settings.fileName path = Settings.sharedName) content := by
  cases h with
  | given h =>
    simp only [settings, h, hfile]
    rfl
  | found hnone hnames hbefore =>
    simp only [settings, hnone, Settings.find, hnames, Settings.findIn_append hbefore,
      Settings.findIn, hfile]
    rfl

/-! ## Going on -/

/-- The outcome of a command whose settings are known: only its arguments can still be wrong. -/
def proceed (verb : Verb) (decimals verbose : Bool) (rest : List String) (stdin : String) : Outcome :=
  match arguments? rest with
  | none => .usageError
  | some (_, true) => answer .help
  | some (given, false) =>
    match given with
    | [] => go none
    | [source] => go (some source)
    | _ => .usageError
where
  /-- The outcome on the text that is given, or on the standard input. -/
  go (given? : Option String) : Outcome :=
    Job.run ⟨verb, decimals, verbose, given?.filter (· ≠ "-")⟩ (textOf given? stdin)

variable {front rest : List String} {stdin : String} {look : String → Entry} {options : Options}

theorem run_of_settings {s : Settings} (hoptions : Options.read? front .none = some (options, []))
    (houtcome : options.outcome? = none) (hsettings : settings options look = .ok s) (verb : Verb) :
    run (front ++ verb.name :: rest) stdin look = proceed verb (options.decimals || s.allowDecimals)
      (options.verbose || s.logLevel = .debug) rest stdin := by
  unfold run plan proceed
  rw [Options.read?_append hoptions verb.effect_name]
  simp only [houtcome, Verb.ofName?_name, hsettings]
  rcases arguments? rest with _ | ⟨given, _ | _⟩
  · rfl
  · rcases given with _ | ⟨source, _ | ⟨second, more⟩⟩
    · rfl
    · by_cases hsource : source = "-"
      · simp [proceed.go, textOf, hsource, Option.filter]
      · simp [proceed.go, textOf, hsource, Option.filter]
    · rfl
  · rfl

theorem run_of_trouble {trouble : Settings.Trouble}
    (hoptions : Options.read? front .none = some (options, []))
    (houtcome : options.outcome? = none) (hsettings : settings options look = .error trouble)
    (verb : Verb) : run (front ++ verb.name :: rest) stdin look = unsettled trouble := by
  unfold run plan
  rw [Options.read?_append hoptions verb.effect_name]
  simp only [houtcome, Verb.ofName?_name, hsettings]

theorem Job.crash?_run (job : Job) (text : String) : (job.run text).crash? = none := by
  unfold Job.run
  cases job.verb with
  | tokens => cases tokenize job.decimals text <;> rfl
  | eval | tree =>
    cases hparse : parse job.decimals text with
    | error failure =>
      obtain ⟨fault, rfl, -⟩ := parse_not_guarded hparse
      rfl
    | ok tree =>
      obtain ⟨x, hx, -⟩ := evaluate_of_parse hparse
      simp only [hx, Outcome.success]

theorem crash?_proceed (verb : Verb) (decimals verbose : Bool) (rest : List String) (stdin : String) :
    (proceed verb decimals verbose rest stdin).crash? = none := by
  unfold proceed
  split
  · rfl
  · rfl
  · split
    · exact Job.crash?_run _ _
    · exact Job.crash?_run _ _
    · rfl

/-- The options that say what settings say. -/
def switches (decimals verbose : Bool) : List String :=
  (if decimals then ["--decimals"] else []) ++ if verbose then ["--verbose"] else []

theorem run_switches (decimals verbose : Bool) (verb : Verb) (rest : List String) (stdin : String) :
    run (switches decimals verbose ++ verb.name :: rest) stdin (fun _ => .missing) =
      proceed verb decimals verbose rest stdin := by
  have hoptions : Options.read? (switches decimals verbose) .none =
      some (⟨none, decimals, verbose, none⟩, []) := by
    cases decimals <;> cases verbose <;> rfl
  have hsettings : settings ⟨none, decimals, verbose, none⟩ (fun _ => .missing) = .ok .default := rfl
  rw [run_of_settings hoptions rfl hsettings]
  simp [Settings.default]

/-! ## The three ways -/

theorem unsettled_of_reported {trouble : Settings.Trouble} (h : Settings.Reported trouble) :
    unsettled trouble = .reported invalidReport := by
  cases h <;> rfl

theorem unsettled_of_not_reported {trouble : Settings.Trouble} (h : ¬ Settings.Reported trouble) :
    unsettled trouble = .crashed (.trouble trouble) := by
  cases trouble with
  | malformed => exact absurd .malformed h
  | invalid problems => exact absurd (.invalid problems) h
  | _ => rfl

/-- The run goes on as it would without a file if the options said what the settings say. -/
def GoesOn (options : Options) (s : Settings) (verb : Verb) (rest : List String) (stdin : String)
    (outcome : Outcome) : Prop :=
  outcome = run (switches (options.decimals || s.allowDecimals)
    (options.verbose || s.logLevel = .debug) ++ verb.name :: rest) stdin fun _ => .missing

/-- The run ends with a report of settings that are not valid. -/
structure ReportsInvalid (outcome : Outcome) : Prop where
  exitCode_eq : outcome.exitCode = 1
  stdout_eq : outcome.stdout = ""
  stderr_starts : ∀ time, invalidReport.toList <+: (outcome.stderr time).toList

/-- What a run comes to that reads its settings from a file. It breaks off exactly where the content is of
one of the three kinds. Else it goes on with the settings that the file holds, or it reports that they are
not valid. -/
theorem run_of_file {path : String} {content : ByteArray}
    (hoptions : Options.read? front .none = some (options, [])) (houtcome : options.outcome? = none)
    (huses : options.Uses look path) (hfile : look path = .file content) (verb : Verb)
    (rest : List String) (stdin : String) :
    let shared : Bool := Settings.fileName path = Settings.sharedName
    let outcome := run (front ++ verb.name :: rest) stdin look
    (outcome.crash? ≠ none ↔ Settings.BreaksOff shared content) ∧
    (¬ Settings.BreaksOff shared content →
      (∃ s, Settings.ofContent shared content = .ok s ∧ GoesOn options s verb rest stdin outcome) ∨
      (∃ trouble, Settings.ofContent shared content = .error trouble ∧ Settings.Reported trouble) ∧
        ReportsInvalid outcome) := by
  intro shared outcome
  have hsettings : settings options look = Settings.ofContent shared content :=
    settings_of_uses huses hfile
  cases hcontent : Settings.ofContent shared content with
  | ok s =>
    have hproceed : outcome = proceed verb _ _ rest stdin :=
      run_of_settings hoptions houtcome (hsettings.trans hcontent) verb
    have hcrash : outcome.crash? = none := by rw [hproceed, crash?_proceed]
    have hbreaks : ¬ Settings.BreaksOff shared content := by
      simp [Settings.breaksOff_iff, hcontent]
    refine ⟨by simp [hcrash, hbreaks], fun _ => .inl ⟨s, rfl, ?_⟩⟩
    rw [GoesOn, hproceed, run_switches]
  | error trouble =>
    have hunsettled : outcome = unsettled trouble :=
      run_of_trouble hoptions houtcome (hsettings.trans hcontent) verb
    by_cases hreported : Settings.Reported trouble
    · have hreport : outcome = .reported invalidReport :=
        hunsettled.trans (unsettled_of_reported hreported)
      have hbreaks : ¬ Settings.BreaksOff shared content := by
        simp [Settings.breaksOff_iff, hcontent, hreported]
      refine ⟨by simp [hreport, Outcome.reported, hbreaks],
        fun _ => .inr ⟨⟨trouble, rfl, hreported⟩, ?_⟩⟩
      rw [hreport]
      exact ⟨rfl, rfl, fun time => List.prefix_refl _⟩
    · have hcrash : outcome = .crashed (.trouble trouble) :=
        hunsettled.trans (unsettled_of_not_reported hreported)
      have hbreaks : Settings.BreaksOff shared content :=
        Settings.breaksOff_iff.mpr ⟨trouble, hcontent, hreported⟩
      exact ⟨by simp [hcrash, Outcome.crashed, hbreaks], fun h => absurd hbreaks h⟩

/-- A number where the settings should stand. -/
theorem run_of_file_number :
    let look := Entry.inFolder [("mathexpr.toml", "mathexpr = 1\n".toUTF8)]
    look "mathexpr.toml" = .file "mathexpr = 1\n".toUTF8 ∧
      ReportsInvalid (run ["-d", "tree", "1"] "" look) := by
  intro look
  have hfile : look "mathexpr.toml" = .file "mathexpr = 1\n".toUTF8 := by
    unfold look
    rw [Entry.inFolder_usual _ (by decide)]
    rfl
  have hcontent : Settings.ofContent false "mathexpr = 1\n".toUTF8 =
      .error (.invalid [⟨none, .notATable⟩]) := by decide +kernel
  have hbreaks : ¬ Settings.BreaksOff false "mathexpr = 1\n".toUTF8 := by
    rw [Settings.breaksOff_iff, hcontent]
    rintro ⟨trouble, ⟨rfl⟩, hnot⟩
    exact hnot (.invalid _)
  have hoptions : Options.read? ["-d"] .none = some (⟨none, true, false, none⟩, []) := rfl
  have huses : Options.Uses ⟨none, true, false, none⟩ look "mathexpr.toml" :=
    @Options.Uses.found _ _ [] ["pyproject.toml"] _ rfl rfl (by simp)
  obtain ⟨-, hending⟩ := run_of_file hoptions rfl huses hfile .tree ["1"] ""
  have hshared : decide (Settings.fileName "mathexpr.toml" = Settings.sharedName) = false := by
    rw [Settings.fileName_usual (by decide)]
    decide
  rw [hshared, hcontent] at hending
  obtain ⟨s, hs, -⟩ | ⟨-, hreport⟩ := hending hbreaks
  · cases hs
  · exact ⟨hfile, hreport⟩

/-- A shared file in which the tools are a number, and a file that is no text. -/
theorem run_breaks_off :
    (run ["eval", "1"] "" (Entry.inFolder [("pyproject.toml", "tool = 1\n".toUTF8)])).crash? =
        some (.trouble (.notATable .int)) ∧
      (run ["eval", "1"] "" (Entry.inFolder [("mathexpr.toml", ⟨#[0xff]⟩)])).crash? =
        some (.trouble .notUnicode) := by
  have hoptions : Options.read? [] .none = some (.none, []) := rfl
  constructor
  · have hmissing : Entry.inFolder [("pyproject.toml", "tool = 1\n".toUTF8)] "mathexpr.toml" =
        .missing := by
      rw [Entry.inFolder_usual _ (by decide)]
      rfl
    have hfile : Entry.inFolder [("pyproject.toml", "tool = 1\n".toUTF8)] "pyproject.toml" =
        .file "tool = 1\n".toUTF8 := by
      rw [Entry.inFolder_usual _ (by decide)]
      rfl
    have hcontent : Settings.ofContent (Settings.fileName "pyproject.toml" = Settings.sharedName)
        "tool = 1\n".toUTF8 = .error (.notATable .int) := by
      rw [Settings.fileName_usual (by decide)]
      decide +kernel
    have huses : Options.none.Uses (Entry.inFolder [("pyproject.toml", "tool = 1\n".toUTF8)])
        "pyproject.toml" :=
      @Options.Uses.found _ _ ["mathexpr.toml"] [] _ rfl rfl (by simpa using hmissing)
    exact congrArg Outcome.crash? (run_of_trouble hoptions rfl
      ((settings_of_uses huses hfile).trans hcontent) .eval)
  · have hfile : Entry.inFolder [("mathexpr.toml", ⟨#[0xff]⟩)] "mathexpr.toml" =
        .file ⟨#[0xff]⟩ := by
      rw [Entry.inFolder_usual _ (by decide)]
      rfl
    have hcontent : Settings.ofContent (Settings.fileName "mathexpr.toml" = Settings.sharedName)
        ⟨#[0xff]⟩ = .error .notUnicode := by
      rw [Settings.fileName_usual (by decide)]
      decide +kernel
    have huses : Options.none.Uses (Entry.inFolder [("mathexpr.toml", ⟨#[0xff]⟩)])
        "mathexpr.toml" :=
      @Options.Uses.found _ _ [] ["pyproject.toml"] _ rfl rfl (by simp)
    exact congrArg Outcome.crash? (run_of_trouble hoptions rfl
      ((settings_of_uses huses hfile).trans hcontent) .eval)

end Command

end Arith
