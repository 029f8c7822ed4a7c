import RobotSketch.Proofs.Sketch.Reader

/-!
# Running a sketch

A machine for the functions of a sketch. It keeps a list of what is still to be done and the number
of sensor readings it has taken; a step does the first thing on the list. A counting loop that is
under way has its counter on the list, which starts at zero and is compared with the bound before
each round.

What a sketch shows is a set of traces: whatever it has emitted after some number of steps. A sketch
that runs forever shows the starts of an endless trace. `pendingAll` says what is left to run as
statements only, with the rounds of the loops under way written out, and `exists_run_head` says that
the machine comes to the first of them without emitting anything. `Reaches` takes statements to
statements; there is one lemma on it for each kind of statement.
-/
namespace RobotSketch

/-- Whether a reading passes a test. -/
def Condition.holds (condition : Condition) (reading : Int) : Bool :=
  match condition.threshold.comparison with
  | .less => reading < condition.threshold.value
  | .greater => reading > condition.threshold.value

namespace Sketch

/-! ## The machine -/

/-- Something still to be done. -/
inductive Task where
  | run (statement : Statement Condition Step)
  /-- A loop under way: its counter, the bound and its body. -/
  | again (counter bound : Nat) (body : List (Statement Condition Step))

/-- What is still to be done, and how many readings have been taken. -/
structure Machine where
  todo : List Task
  taken : Nat

namespace Machine

variable (functions : List Function) (readings : Nat → UInt8 → Int)

/-- Does the first thing that is to be done. Gives what is emitted, and the machine after it; nothing
if there is nothing to do or a function is called that does not exist. The readings say what is
read from the sensor at a slot when so many readings have been taken. -/
def step (machine : Machine) : Option (Option Output × Machine) :=
  match machine.todo with
  | [] => none
  | .again counter bound body :: rest =>
    if counter < bound then
      some (none, ⟨body.map .run ++ .again (counter + 1) bound body :: rest, machine.taken⟩)
    else some (none, ⟨rest, machine.taken⟩)
  | .run (.action (.emit output)) :: rest => some (some output, ⟨rest, machine.taken⟩)
  | .run (.action (.call name)) :: rest =>
    (functions.find? (·.name == name)).map fun function =>
      (none, ⟨function.body.map .run ++ rest, machine.taken⟩)
  | .run (.count times body) :: rest =>
    some (none, ⟨.again 0 times.toNat body :: rest, machine.taken⟩)
  | .run (.branch test yes no) :: rest =>
    let body := if test.holds (readings machine.taken test.slot) then yes else no
    some (none, ⟨body.map .run ++ rest, machine.taken + 1⟩)
  | .run (.loopWhile test body) :: rest =>
    if test.holds (readings machine.taken test.slot) then
      some (none, ⟨body.map .run ++ .run (.loopWhile test body) :: rest, machine.taken + 1⟩)
    else some (none, ⟨rest, machine.taken + 1⟩)
  | .run (.forever body) :: rest =>
    some (none, ⟨body.map .run ++ .run (.forever body) :: rest, machine.taken⟩)

/-- Takes so many steps, or fewer if the machine stops. Gives all that is emitted, and the machine
after it. -/
def run : Nat → Machine → List Output × Machine
  | 0, machine => ([], machine)
  | n + 1, machine =>
    match machine.step functions readings with
    | none => ([], machine)
    | some (output, next) => (output.toList ++ (run n next).1, (run n next).2)

end Machine

/-- The functions show a trace when their loop is called. -/
def Shows (functions : List Function) (readings : Nat → UInt8 → Int) (trace : List Output) : Prop :=
  ∃ steps, (Machine.run functions readings steps ⟨[.run (.action (.call "loop"))], 0⟩).1 = trace

/-! ## Steps one after the other -/

namespace Machine

variable {functions : List Function} {readings : Nat → UInt8 → Int}

theorem run_succ_of_step {machine next : Machine} {output : Option Output}
    (h : machine.step functions readings = some (output, next)) (n : Nat) :
    run functions readings (n + 1) machine =
      (output.toList ++ (run functions readings n next).1, (run functions readings n next).2) := by
  rw [run, h]

/-- A step that emits nothing adds nothing to the trace. -/
theorem run_succ_of_silent {machine next : Machine}
    (h : machine.step functions readings = some (none, next)) (n : Nat) :
    run functions readings (n + 1) machine = run functions readings n next := by
  rw [run_succ_of_step h]
  rfl

theorem run_of_step_none {machine : Machine} (h : machine.step functions readings = none) (n : Nat) :
    run functions readings n machine = ([], machine) := by
  cases n with
  | zero => rfl
  | succ n => rw [run, h]

/-- Steps split into those before and those after. -/
theorem run_add (m n : Nat) (machine : Machine) :
    run functions readings (m + n) machine =
      ((run functions readings m machine).1 ++
          (run functions readings n (run functions readings m machine).2).1,
        (run functions readings n (run functions readings m machine).2).2) := by
  induction m generalizing machine with
  | zero => simp [run]
  | succ m ih =>
    rw [Nat.succ_add]
    cases hstep : machine.step functions readings with
    | none => simp [run_of_step_none hstep]
    | some result =>
      obtain ⟨output, next⟩ := result
      rw [run_succ_of_step hstep, run_succ_of_step hstep, ih next, List.append_assoc]

/-- Going on from where a run has come adds to its trace. -/
theorem run_append {machine next : Machine} {steps : Nat} {trace : List Output}
    (h : run functions readings steps machine = (trace, next)) (n : Nat) :
    run functions readings (steps + n) machine =
      (trace ++ (run functions readings n next).1, (run functions readings n next).2) := by
  rw [run_add, h]

theorem isPrefix_run_of_le {m n : Nat} (h : m ≤ n) (machine : Machine) :
    (run functions readings m machine).1 <+: (run functions readings n machine).1 := by
  obtain ⟨more, rfl⟩ := Nat.exists_eq_add_of_le h
  rw [run_add]
  exact List.prefix_append ..

/-- Traces grow by one output at a time, so every start of a trace is one. -/
theorem exists_run_of_isPrefix {n : Nat} {machine : Machine} {trace : List Output}
    (h : trace <+: (run functions readings n machine).1) :
    ∃ m, (run functions readings m machine).1 = trace := by
  induction n generalizing machine trace with
  | zero => exact ⟨0, (List.prefix_nil.1 h).symm⟩
  | succ n ih =>
    cases hstep : machine.step functions readings with
    | none =>
      rw [run_of_step_none hstep] at h
      exact ⟨0, (List.prefix_nil.1 h).symm⟩
    | some result =>
      obtain ⟨output, next⟩ := result
      rw [run_succ_of_step hstep] at h
      cases output with
      | none =>
        obtain ⟨m, hm⟩ := ih h
        exact ⟨m + 1, by rw [run_succ_of_silent hstep, hm]⟩
      | some output =>
        rcases List.prefix_cons_iff.1 h with rfl | ⟨rest, rfl, hrest⟩
        · exact ⟨0, rfl⟩
        · obtain ⟨m, hm⟩ := ih hrest
          exact ⟨m + 1, by rw [run_succ_of_step hstep, hm]; rfl⟩

end Machine

/-! ## What is left to run -/

/-- The statements that a task stands for. -/
def Task.pending : Task → List (Statement Condition Step)
  | .run statement => [statement]
  | .again counter bound body => (List.replicate (bound - counter) body).flatten

/-- The statements that tasks one after the other stand for. -/
def pendingAll (todo : List Task) : List (Statement Condition Step) := todo.flatMap Task.pending

@[simp] theorem pendingAll_append (first second : List Task) :
    pendingAll (first ++ second) = pendingAll first ++ pendingAll second := by
  simp [pendingAll]

@[simp] theorem pendingAll_run (statements : List (Statement Condition Step)) :
    pendingAll (statements.map .run) = statements := by
  induction statements with
  | nil => rfl
  | cons statement rest ih =>
    show statement :: pendingAll (rest.map .run) = _
    rw [ih]

theorem pendingAll_run_cons (statement : Statement Condition Step) (rest : List Task) :
    pendingAll (.run statement :: rest) = statement :: pendingAll rest := rfl

theorem pendingAll_again_cons (counter bound : Nat) (body : List (Statement Condition Step))
    (rest : List Task) :
    pendingAll (.again counter bound body :: rest) =
      (List.replicate (bound - counter) body).flatten ++ pendingAll rest := rfl

namespace Machine

variable {functions : List Function} {readings : Nat → UInt8 → Int}

/-- A step of a loop under way emits nothing and leaves the same statements to run. -/
theorem step_again (counter bound : Nat) (body : List (Statement Condition Step))
    (rest : List Task) (taken : Nat) :
    ∃ todo, step functions readings ⟨.again counter bound body :: rest, taken⟩ =
        some (none, ⟨todo, taken⟩) ∧
      pendingAll todo = pendingAll (.again counter bound body :: rest) := by
  by_cases h : counter < bound
  · refine ⟨body.map .run ++ .again (counter + 1) bound body :: rest, by simp [step, h], ?_⟩
    have hbound : bound - counter = (bound - (counter + 1)) + 1 := by omega
    rw [pendingAll_append, pendingAll_run, pendingAll_again_cons, pendingAll_again_cons, hbound,
      List.replicate_succ, List.flatten_cons, List.append_assoc]
  · refine ⟨rest, by simp [step, h], ?_⟩
    have hbound : bound - counter = 0 := by omega
    rw [pendingAll_again_cons, hbound]
    rfl

/-- With nothing left to run, nothing is emitted. -/
theorem run_of_pendingAll_nil {todo : List Task} (h : pendingAll todo = []) (taken n : Nat) :
    (run functions readings n ⟨todo, taken⟩).1 = [] := by
  induction n generalizing todo with
  | zero => rfl
  | succ n ih =>
    match todo with
    | [] => rw [run_of_step_none rfl]
    | .run statement :: rest =>
      rw [pendingAll_run_cons] at h
      exact absurd h (by simp)
    | .again counter bound body :: rest =>
      obtain ⟨todo', hstep, hpending⟩ := step_again counter bound body rest taken
      rw [run_succ_of_silent hstep, ih (hpending.trans h)]

/-- The machine comes to the first statement that is left to run, and has the others left then. -/
theorem exists_run_head {todo : List Task} {statement : Statement Condition Step}
    {rest : List (Statement Condition Step)} (h : pendingAll todo = statement :: rest) (taken : Nat) :
    ∃ steps todo', run functions readings steps ⟨todo, taken⟩ =
        ([], ⟨.run statement :: todo', taken⟩) ∧ pendingAll todo' = rest := by
  induction todo with
  | nil => exact absurd h (by simp [pendingAll])
  | cons task tasks ih =>
    match task with
    | .run first =>
      rw [pendingAll_run_cons] at h
      obtain ⟨rfl, hrest⟩ := List.cons.inj h
      exact ⟨0, tasks, rfl, hrest⟩
    | .again counter bound body =>
      -- rounds with an empty body pass without bringing up a statement
      generalize hrounds : bound - counter = rounds
      induction rounds generalizing counter with
      | zero =>
        have hstep : step functions readings ⟨.again counter bound body :: tasks, taken⟩ =
            some (none, ⟨tasks, taken⟩) := by
          have hle : ¬ counter < bound := by omega
          simp [step, hle]
        rw [pendingAll_again_cons, hrounds] at h
        obtain ⟨steps, todo', hrun, hpending⟩ := ih h
        exact ⟨steps + 1, todo', (run_succ_of_silent hstep steps).trans hrun, hpending⟩
      | succ rounds ihrounds =>
        have hlt : counter < bound := by omega
        have hstep : step functions readings ⟨.again counter bound body :: tasks, taken⟩ = some
            (none, ⟨body.map .run ++ .again (counter + 1) bound body :: tasks, taken⟩) := by
          simp [step, hlt]
        rw [pendingAll_again_cons, hrounds, List.replicate_succ, List.flatten_cons,
          List.append_assoc] at h
        have hnext : bound - (counter + 1) = rounds := by omega
        cases body with
        | nil =>
          obtain ⟨steps, todo', hrun, hpending⟩ := ihrounds (counter + 1)
            (by rw [pendingAll_again_cons, hnext]; exact h) hnext
          exact ⟨steps + 1, todo', (run_succ_of_silent hstep steps).trans hrun, hpending⟩
        | cons first more =>
          obtain ⟨rfl, hrest⟩ := List.cons.inj h
          refine ⟨1, more.map .run ++ .again (counter + 1) bound (first :: more) :: tasks, ?_, ?_⟩
          · exact run_succ_of_silent hstep 0
          · rw [pendingAll_append, pendingAll_run, pendingAll_again_cons, hnext]
            exact hrest

end Machine

/-! ## Going from statements to statements -/

open Sketch.Machine

section

variable (functions : List Function) (readings : Nat → UInt8 → Int)

/-- With the one list of statements left to run, the machine emits the outputs and has the other
list left then. It takes a step at least. -/
def Reaches (statements : List (Statement Condition Step)) (taken : Nat) (outputs : List Output)
    (next : List (Statement Condition Step)) (taken' : Nat) : Prop :=
  ∀ todo, pendingAll todo = statements → ∃ steps todo', 0 < steps ∧
    run functions readings steps ⟨todo, taken⟩ = (outputs, ⟨todo', taken'⟩) ∧
    pendingAll todo' = next

/-- With the statements left to run, the machine emits the trace at some time. -/
def Traces (statements : List (Statement Condition Step)) (taken : Nat) (trace : List Output) :
    Prop :=
  ∀ todo, pendingAll todo = statements →
    ∃ steps, (run functions readings steps ⟨todo, taken⟩).1 = trace

/-- With the statements left to run, the machine may have emitted the trace after so many steps. -/
def TracesIn (steps : Nat) (statements : List (Statement Condition Step)) (taken : Nat)
    (trace : List Output) : Prop :=
  ∃ todo, pendingAll todo = statements ∧ (run functions readings steps ⟨todo, taken⟩).1 = trace

end

variable {functions : List Function} {readings : Nat → UInt8 → Int}
variable {statements next last rest : List (Statement Condition Step)}
variable {taken taken' taken'' : Nat} {outputs more trace : List Output}

theorem traces_nil (statements : List (Statement Condition Step)) (taken : Nat) :
    Traces functions readings statements taken [] :=
  fun _ _ => ⟨0, rfl⟩

theorem TracesIn.eq_nil {steps : Nat} (h : TracesIn functions readings steps [] taken trace) :
    trace = [] := by
  obtain ⟨todo, htodo, rfl⟩ := h
  exact run_of_pendingAll_nil htodo taken steps

namespace Reaches

theorem trans (h : Reaches functions readings statements taken outputs next taken')
    (hnext : Reaches functions readings next taken' more last taken'') :
    Reaches functions readings statements taken (outputs ++ more) last taken'' := by
  intro todo htodo
  obtain ⟨steps, todo', hpos, hrun, htodo'⟩ := h todo htodo
  obtain ⟨steps', todo'', -, hrun', htodo''⟩ := hnext todo' htodo'
  refine ⟨steps + steps', todo'', by omega, ?_, htodo''⟩
  rw [run_append hrun, hrun']

theorem traces_append (h : Reaches functions readings statements taken outputs next taken')
    (htrace : Traces functions readings next taken' trace) :
    Traces functions readings statements taken (outputs ++ trace) := by
  intro todo htodo
  obtain ⟨steps, todo', -, hrun, htodo'⟩ := h todo htodo
  obtain ⟨steps', htrace⟩ := htrace todo' htodo'
  refine ⟨steps + steps', ?_⟩
  rw [run_append hrun, htrace]

/-- On the way, every start of what is emitted is seen. -/
theorem traces_of_isPrefix (h : Reaches functions readings statements taken outputs next taken')
    (htrace : trace <+: outputs) : Traces functions readings statements taken trace := by
  intro todo htodo
  obtain ⟨steps, todo', -, hrun, -⟩ := h todo htodo
  apply exists_run_of_isPrefix
  rw [hrun]
  exact htrace

/-- A run either stops on the way or gets there, with fewer steps left. -/
theorem tracesIn_cases (h : Reaches functions readings statements taken outputs next taken')
    {steps : Nat} (htrace : TracesIn functions readings steps statements taken trace) :
    trace <+: outputs ∨ ∃ fewer < steps, ∃ later, trace = outputs ++ later ∧
      TracesIn functions readings fewer next taken' later := by
  obtain ⟨todo, htodo, rfl⟩ := htrace
  obtain ⟨first, todo', hpos, hrun, htodo'⟩ := h todo htodo
  by_cases hle : steps ≤ first
  · left
    have hstart : (run functions readings steps ⟨todo, taken⟩).1 <+: _ := isPrefix_run_of_le hle _
    rwa [hrun] at hstart
  · right
    obtain ⟨fewer, rfl⟩ := Nat.exists_eq_add_of_le (Nat.le_of_not_le hle)
    refine ⟨fewer, by omega, _, ?_, todo', htodo', rfl⟩
    rw [run_append hrun]

theorem tracesIn_of_silent (h : Reaches functions readings statements taken [] next taken')
    {steps : Nat} (htrace : TracesIn functions readings steps statements taken trace) :
    trace = [] ∨ ∃ fewer < steps, TracesIn functions readings fewer next taken' trace := by
  rcases h.tracesIn_cases htrace with hnil | ⟨fewer, hfewer, later, rfl, hlater⟩
  · exact Or.inl (List.prefix_nil.1 hnil)
  · exact Or.inr ⟨fewer, hfewer, hlater⟩

end Reaches

/-! ## Statements -/

/-- What the machine does with a statement at the head of the list it does with the first one that
is left to run. -/
theorem reaches_of_step {statement : Statement Condition Step} (output : Option Output)
    (tasks : List Task)
    (h : ∀ todo, step functions readings ⟨.run statement :: todo, taken⟩ =
      some (output, ⟨tasks ++ todo, taken'⟩)) :
    Reaches functions readings (statement :: rest) taken output.toList (pendingAll tasks ++ rest)
      taken' := by
  intro todo htodo
  obtain ⟨steps, todo', hrun, htodo'⟩ := exists_run_head htodo taken
  refine ⟨steps + 1, tasks ++ todo', by omega, ?_, by rw [pendingAll_append, htodo']⟩
  rw [run_append hrun, run_succ_of_step (h todo'), run, List.append_nil, List.nil_append]

theorem reaches_emit (output : Output) :
    Reaches functions readings (.action (.emit output) :: rest) taken [output] rest taken :=
  reaches_of_step (some output) [] fun _ => rfl

theorem reaches_call {name : String} {function : Function}
    (h : functions.find? (·.name == name) = some function) :
    Reaches functions readings (.action (.call name) :: rest) taken [] (function.body ++ rest)
      taken := by
  rw [← pendingAll_run function.body]
  refine reaches_of_step none (function.body.map .run) fun todo => ?_
  simp [step, h]

theorem reaches_count (times : UInt32) (body : List (Statement Condition Step)) :
    Reaches functions readings (.count times body :: rest) taken []
      ((List.replicate times.toNat body).flatten ++ rest) taken := by
  have htasks : pendingAll [.again 0 times.toNat body] =
      (List.replicate times.toNat body).flatten := by
    rw [pendingAll_again_cons, Nat.sub_zero]
    exact List.append_nil _
  rw [← htasks]
  exact reaches_of_step none [.again 0 times.toNat body] fun todo => rfl

theorem reaches_branch_of_holds {test : Condition} (yes no : List (Statement Condition Step))
    (h : test.holds (readings taken test.slot) = true) :
    Reaches functions readings (.branch test yes no :: rest) taken [] (yes ++ rest) (taken + 1) := by
  rw [← pendingAll_run yes]
  exact reaches_of_step none (yes.map .run) fun todo => by simp [step, h]

theorem reaches_branch_of_not_holds {test : Condition} (yes no : List (Statement Condition Step))
    (h : test.holds (readings taken test.slot) = false) :
    Reaches functions readings (.branch test yes no :: rest) taken [] (no ++ rest) (taken + 1) := by
  rw [← pendingAll_run no]
  exact reaches_of_step none (no.map .run) fun todo => by simp [step, h]

theorem reaches_loopWhile_of_holds {test : Condition} (body : List (Statement Condition Step))
    (h : test.holds (readings taken test.slot) = true) :
    Reaches functions readings (.loopWhile test body :: rest) taken []
      (body ++ .loopWhile test body :: rest) (taken + 1) := by
  have hreaches : Reaches functions readings (.loopWhile test body :: rest) taken []
      (pendingAll (body.map .run ++ [.run (.loopWhile test body)]) ++ rest) (taken + 1) :=
    reaches_of_step none _ fun todo => by simp [step, h]
  rw [pendingAll_append, pendingAll_run, List.append_assoc] at hreaches
  exact hreaches

theorem reaches_loopWhile_of_not_holds {test : Condition} (body : List (Statement Condition Step))
    (h : test.holds (readings taken test.slot) = false) :
    Reaches functions readings (.loopWhile test body :: rest) taken [] rest (taken + 1) :=
  reaches_of_step none [] fun todo => by simp [step, h]

theorem reaches_forever (body : List (Statement Condition Step)) :
    Reaches functions readings (.forever body :: rest) taken [] (body ++ .forever body :: rest)
      taken := by
  have hreaches : Reaches functions readings (.forever body :: rest) taken []
      (pendingAll (body.map .run ++ [.run (.forever body)]) ++ rest) taken :=
    reaches_of_step none _ fun todo => by simp [step]
  rw [pendingAll_append, pendingAll_run, List.append_assoc] at hreaches
  exact hreaches

/-- Statements that only emit are run to their end. -/
theorem Reaches.emits (h : Reaches functions readings statements taken outputs
      (more.map (fun output => .action (.emit output)) ++ rest) taken') :
    Reaches functions readings statements taken (outputs ++ more) rest taken' := by
  induction more generalizing outputs with
  | nil =>
    rw [List.append_nil]
    exact h
  | cons output more ih =>
    rw [← List.singleton_append, ← List.append_assoc]
    exact ih (h.trans (reaches_emit output))

end Sketch

end RobotSketch
