import Arith.Proofs.Evaluation

/-!
# The turns of an evaluation

The loop that evaluates a draft takes one task off its stack at each turn. Its turns are said here one
by one, with what each of them needs: no task ever lacks a value, every turn brings the end nearer, and
the end is one value or the first defect of the draft, its nodes taken in post-order.
-/

namespace Arith

/-! ## The first defect -/

/-- The result is a value if there are no defects, and the first of them otherwise. -/
def Meets {α : Type} (defects : List Defect) : Except Defect α → Prop
  | .ok _ => defects = []
  | .error defect => defects.head? = some defect

theorem Meets.bind {α β : Type} {ds ds' : List Defect} {result : Except Defect α}
    {f : α → Except Defect β} (h : Meets ds result) (hf : ∀ x, Meets ds' (f x)) :
    Meets (ds ++ ds') (result >>= f) := by
  cases result with
  | ok x =>
    have hnone : ds = [] := h
    rw [hnone, List.nil_append]
    exact hf x
  | error defect =>
    obtain ⟨rest, rfl⟩ := List.head?_eq_some_iff.mp h
    rfl

/-- What is wrong with an operator as a sign. -/
def Op.signDefects (op : Op) : List Defect := if op.isSign then [] else [.signExpected op]

/-- What is wrong with an operator between two operands. -/
def Connective.defects : Connective → List Defect
  | known _ => []
  | unknown text => [.unknownOperator text]

theorem Op.meets_applyUnary (op : Op) (x : Double) : Meets op.signDefects (op.applyUnary x) := by
  cases op <;> rfl

theorem Connective.meets_apply (op : Connective) (x y : Double) :
    Meets op.defects (op.apply x y) := by
  cases op <;> rfl

namespace Draft

/-- All that is wrong with a draft, in post-order: the left operand, the right one, the operator. -/
def defects : Draft → List Defect
  | number _ => []
  | unary op operand => operand.defects ++ op.signDefects
  | binary op left right => left.defects ++ (right.defects ++ op.defects)
  | foreign typeName => [.unknownNode typeName]

theorem meets_value (d : Draft) : Meets d.defects d.value := by
  induction d with
  | number n => rfl
  | unary op operand ih =>
    unfold defects value
    exact ih.bind fun x => op.meets_applyUnary x
  | binary op left right ihl ihr =>
    unfold defects value
    apply ihl.bind
    intro x
    apply ihr.bind
    intro y
    exact op.meets_apply x y
  | foreign typeName => rfl

theorem value_eq_error_iff (d : Draft) (defect : Defect) :
    d.value = .error defect ↔ d.defects.head? = some defect := by
  have hmeets := d.meets_value
  cases hvalue : d.value with
  | ok x =>
    rw [hvalue] at hmeets
    have hnone : d.defects = [] := hmeets
    simp [hnone]
  | error found =>
    rw [hvalue] at hmeets
    have hfirst : d.defects.head? = some found := hmeets
    simp [hfirst]

/-! ## One turn -/

/-- One turn of the loop: the task on top is done, or comes apart into the tasks of its operands and
the one of its operator. -/
inductive Turn : List Task → List Double → List Task → List Double → Prop where
  | number {n : Literal} {tasks : List Task} {values : List Double} :
    Turn (.visit (.number n) :: tasks) values tasks (n.toDouble :: values)
  | openUnary {op : Op} {operand : Draft} {tasks : List Task} {values : List Double} :
    Turn (.visit (.unary op operand) :: tasks) values (.visit operand :: .unary op :: tasks) values
  | openBinary {op : Connective} {left right : Draft} {tasks : List Task} {values : List Double} :
    Turn (.visit (.binary op left right) :: tasks) values
      (.visit left :: .visit right :: .binary op :: tasks) values
  | unary {op : Op} {x result : Double} {tasks : List Task} {values : List Double} :
    op.applyUnary x = .ok result → Turn (.unary op :: tasks) (x :: values) tasks (result :: values)
  | binary {op : Connective} {left right result : Double} {tasks : List Task}
    {values : List Double} : op.apply left right = .ok result →
    Turn (.binary op :: tasks) (right :: left :: values) tasks (result :: values)

/-- The loop breaks off at the task on top, for a defect of that task. A task without its values is
none of these. -/
inductive Breaks : List Task → List Double → Defect → Prop where
  | foreign {typeName : String} {tasks : List Task} {values : List Double} :
    Breaks (.visit (.foreign typeName) :: tasks) values (.unknownNode typeName)
  | unary {op : Op} {x : Double} {defect : Defect} {tasks : List Task} {values : List Double} :
    op.applyUnary x = .error defect → Breaks (.unary op :: tasks) (x :: values) defect
  | binary {op : Connective} {left right : Double} {defect : Defect} {tasks : List Task}
    {values : List Double} : op.apply left right = .error defect →
    Breaks (.binary op :: tasks) (right :: left :: values) defect

section
variable {tasks tasks' : List Task} {values values' : List Double} {defect : Defect}

theorem Turn.work_eq (h : Turn tasks values tasks' values') :
    work tasks values = work tasks' values' := by
  cases h with
  | number => rw [work]
  | openUnary => rw [work]
  | openBinary => rw [work]
  | unary hresult =>
    rw [work_unary, hresult]
    rfl
  | binary hresult =>
    rw [work_binary, hresult]
    rfl

theorem Turn.stackCount_eq (h : Turn tasks values tasks' values') :
    stackCount tasks = stackCount tasks' + 1 := by
  cases h <;> simp only [stackCount, Task.count, taskCount] <;> omega

theorem Breaks.work_eq (h : Breaks tasks values defect) : work tasks values = .error defect := by
  cases h with
  | foreign => rw [work]
  | unary hdefect =>
    rw [work_unary, hdefect]
    rfl
  | binary hdefect =>
    rw [work_binary, hdefect]
    rfl

/-! ## Enough values -/

def Task.needs : Task → Nat
  | visit _ => 0
  | unary _ => 1
  | binary _ => 2

/-- With so many values at the start no task will lack one, and a single one is left at the end. Every
task, done with all it comes apart into, puts one value on the stack. -/
def Supplied : List Task → Nat → Prop
  | [], height => height = 1
  | task :: tasks, height => task.needs ≤ height ∧ Supplied tasks (height - task.needs + 1)

theorem Turn.supplied (h : Turn tasks values tasks' values')
    (hs : Supplied tasks values.length) : Supplied tasks' values'.length := by
  cases h <;> simpa [Supplied, Task.needs] using hs

theorem Supplied.progress (h : Supplied tasks values.length) :
    (tasks = [] ∧ ∃ x, values = [x]) ∨ (∃ tasks' values', Turn tasks values tasks' values') ∨
      ∃ defect, Breaks tasks values defect := by
  cases tasks with
  | nil => exact .inl ⟨rfl, List.length_eq_one_iff.mp h⟩
  | cons task tasks =>
    right
    obtain ⟨hneeds, -⟩ := h
    cases task with
    | visit d =>
      cases d with
      | number n => exact .inl ⟨_, _, .number⟩
      | unary op operand => exact .inl ⟨_, _, .openUnary⟩
      | binary op left right => exact .inl ⟨_, _, .openBinary⟩
      | foreign typeName => exact .inr ⟨_, .foreign⟩
    | unary op =>
      obtain ⟨x, values, rfl⟩ := List.exists_cons_of_length_pos hneeds
      cases hresult : op.applyUnary x with
      | ok result => exact .inl ⟨_, _, .unary hresult⟩
      | error defect => exact .inr ⟨_, .unary hresult⟩
    | binary op =>
      match values, hneeds with
      | right :: left :: values, _ =>
        cases hresult : op.apply left right with
        | ok result => exact .inl ⟨_, _, .binary hresult⟩
        | error defect => exact .inr ⟨_, .binary hresult⟩

end

/-! ## All turns -/

/-- The loop on a draft comes to these tasks and values in the given number of turns. -/
inductive Comes (d : Draft) : Nat → List Task → List Double → Prop where
  | start : Comes d 0 [.visit d] []
  | turn {turns : Nat} {tasks tasks' : List Task} {values values' : List Double} :
    Comes d turns tasks values → Turn tasks values tasks' values' →
    Comes d (turns + 1) tasks' values'

namespace Comes

variable {d : Draft} {turns : Nat} {tasks : List Task} {values : List Double}

theorem supplied (h : d.Comes turns tasks values) : Supplied tasks values.length := by
  induction h with
  | start => exact ⟨Nat.le_refl 0, rfl⟩
  | turn _ hturn ih => exact hturn.supplied ih

theorem work_eq (h : d.Comes turns tasks values) : work tasks values = work [.visit d] [] := by
  induction h with
  | start => rfl
  | turn _ hturn ih => rw [← hturn.work_eq, ih]

theorem turns_add (h : d.Comes turns tasks values) : turns + stackCount tasks = d.taskCount := by
  induction h with
  | start => simp [stackCount, Task.count]
  | turn _ hturn ih =>
    have hcount := hturn.stackCount_eq
    omega

end Comes

/-- How the loop on a draft ends: no task is left and a value is alone on its stack, or it breaks off
for a defect. -/
def EndsWith (d : Draft) : Except Defect Double → Prop
  | .ok x => d.Comes d.taskCount [] [x]
  | .error defect => ∃ turns tasks values, d.Comes turns tasks values ∧ Breaks tasks values defect

theorem Comes.exists_end {d : Draft} {turns : Nat} {tasks : List Task} {values : List Double}
    (h : d.Comes turns tasks values) : ∃ result, d.EndsWith result := by
  -- On the tasks that are left, of which each turn takes one.
  induction hcount : stackCount tasks generalizing turns tasks values with
  | zero =>
    rcases h.supplied.progress with ⟨rfl, x, rfl⟩ | ⟨tasks', values', hturn⟩ | ⟨defect, hbreaks⟩
    · have hturns := h.turns_add
      rw [hcount, Nat.add_zero] at hturns
      subst hturns
      exact ⟨.ok x, h⟩
    · have hless := hturn.stackCount_eq
      omega
    · exact ⟨.error defect, turns, tasks, values, h, hbreaks⟩
  | succ count ih =>
    rcases h.supplied.progress with ⟨rfl, -⟩ | ⟨tasks', values', hturn⟩ | ⟨defect, hbreaks⟩
    · cases hcount
    · have hless := hturn.stackCount_eq
      exact ih (h.turn hturn) (by omega)
    · exact ⟨.error defect, turns, tasks, values, h, hbreaks⟩

theorem work_start (d : Draft) : work [.visit d] [] = d.value >>= fun x => .ok [x] := by
  rw [work_visit]
  simp only [work]

theorem EndsWith.eq_value {d : Draft} {result : Except Defect Double} (h : d.EndsWith result) :
    result = d.value := by
  have hstart := d.work_start
  cases result with
  | ok x =>
    have hcomes : d.Comes d.taskCount [] [x] := h
    rw [← hcomes.work_eq, work] at hstart
    cases hvalue : d.value <;> rw [hvalue] at hstart <;> cases hstart
    rfl
  | error defect =>
    obtain ⟨turns, tasks, values, hcomes, hbreaks⟩ := h
    rw [← hcomes.work_eq, hbreaks.work_eq] at hstart
    cases hvalue : d.value <;> rw [hvalue] at hstart <;> cases hstart
    rfl

theorem endsWith_value (d : Draft) : d.EndsWith d.value := by
  obtain ⟨result, h⟩ := (Comes.start : d.Comes 0 [.visit d] []).exists_end
  rwa [← h.eq_value]

/-- The loop gives what the recursion gives, which is the first defect in post-order if there is one.
Wherever the loop comes to, it is as many turns from the start as it is nearer to the end, the task on
top finds its values, and a single value is left when no task is. It ends in one way only: with the
value of the draft alone on the stack, or breaking off for the first defect. -/
theorem evaluate_in_post_order (d : Draft) :
    d.evaluate = d.value ∧
    (∀ defect, d.evaluate = .error defect ↔ d.defects.head? = some defect) ∧
    (∀ turns tasks values, d.Comes turns tasks values →
      work tasks values = work [.visit d] [] ∧ turns + stackCount tasks = d.taskCount ∧
      (∀ task rest, tasks = task :: rest → task.needs ≤ values.length) ∧
      (tasks = [] → values.length = 1)) ∧
    ∀ result, d.EndsWith result ↔ result = d.evaluate := by
  have heq := d.evaluate_eq_value
  refine ⟨heq, fun defect => ?_, fun turns tasks values h => ?_, fun result => ?_⟩
  · rw [heq]
    exact d.value_eq_error_iff defect
  · refine ⟨h.work_eq, h.turns_add, ?_, ?_⟩
    · rintro task rest rfl
      exact h.supplied.1
    · rintro rfl
      exact h.supplied
  · rw [heq]
    constructor
    · intro h
      exact h.eq_value
    · rintro rfl
      exact d.endsWith_value

/-- A sign that is none on the left of an unknown operator, and a foreign node on its right: the left
operand comes first. -/
theorem evaluate_in_post_order_left_first :
    ∃ (d : Draft) (tasks : List Task) (values : List Double),
      d = .binary (.unknown "%") (.unary .mul (.number (.int 1))) (.foreign "str") ∧
      d.Comes 3 tasks values ∧ 3 + stackCount tasks = d.taskCount ∧ values.length = 1 ∧
      d.evaluate = .error (.signExpected .mul) ∧ d.EndsWith d.evaluate := by
  let d : Draft := .binary (.unknown "%") (.unary .mul (.number (.int 1))) (.foreign "str")
  have hcomes : d.Comes 3 [.unary .mul, .visit (.foreign "str"), .binary (.unknown "%")]
      [(Literal.int 1).toDouble] :=
    .turn (.turn (.turn .start .openBinary) .openUnary) .number
  obtain ⟨-, hfirst, hturns, hends⟩ := evaluate_in_post_order d
  obtain ⟨-, hcount, -, -⟩ := hturns _ _ _ hcomes
  exact ⟨d, _, _, rfl, hcomes, hcount, rfl, (hfirst _).mpr rfl, (hends _).mpr rfl⟩

end Draft
end Arith
