import SparseLoop.Proofs.Execution.Correctness

/-!
# A function that runs step by step

The two stages of a run give an answer only for runs that come to their end.
Here a run is one walk over a list of steps: the loops are unfolded, and each
step evaluates its expressions and acts on the memory at once.  So a run can be
looked at while it is under way, also if it gets stuck later.

`execute?_eq_actAll?` says that the two stages together are this walk.  The
calls that a run comes to, with the memory that each of them finds, are its
`visits`.
-/

namespace SparseLoop

/-! ## Steps -/

/-- A step of a running function: a loop sets the iteration variable, or a
statement runs. -/
inductive Step where
  | advance (iteration : Nat)
  | run (statement : Statement)
deriving DecidableEq, Repr

/-- The index variables after a step, and its actions. -/
def Step.control? (tables : List KeyTable) (words : Words) :
    Step → Option (Words × List Action)
  | advance iteration =>
    some ({ words with iteration := some (UInt64.ofNat iteration) }, [])
  | run statement => statement.control? tables words

/-- The steps of one run of a loop body. -/
def Step.turn (body : List Statement) (iteration : Nat) : List Step :=
  .advance iteration :: body.map .run

/-- The steps of a part, with its loop unfolded. -/
def Part.steps : Part → List Step
  | once statement => [.run statement]
  | counted count body =>
    (List.range count).flatMap (Step.turn body) ++ [.advance count]

/-- Outside of loops, each statement is a step. -/
theorem Part.steps_map_once (statements : List Statement) :
    (statements.map once).flatMap steps = statements.map .run := by
  rw [List.flatMap_map, List.map_eq_flatMap]
  rfl

/-- The steps of a function after its declarations. -/
def UsageFunction.steps (options : Options) (naming : GroupNaming)
    (function : UsageFunction) : List Step :=
  (function.parts options naming).flatMap Part.steps

section Control

variable {σ ι κ : Type} {step : σ → ι → Option (σ × List Action)}

theorem runAll?_append (state : σ) (first second : List ι) :
    runAll? step state (first ++ second) =
      (runAll? step state first).bind fun (middle, actions) =>
        (runAll? step middle second).map fun (last, others) =>
          (last, actions ++ others) := by
  induction first generalizing state with
  | nil => cases ran : runAll? step state second <;> simp [runAll?, ran]
  | cons item rest ih =>
    rw [List.cons_append, runAll?, runAll?]
    cases step state item with
    | none => rfl
    | some answer =>
      obtain ⟨next, actions⟩ := answer
      simp only [Option.bind_eq_bind, Option.bind_some, ih]
      cases runAll? step next rest with
      | none => rfl
      | some middle =>
        obtain ⟨middle, others⟩ := middle
        cases ran : runAll? step middle second <;> simp [ran]

/-- A list runs like the lists into which its items unfold. -/
theorem runAll?_flatMap {whole : σ → κ → Option (σ × List Action)}
    {unfold : κ → List ι}
    (same : ∀ state item, runAll? step state (unfold item) =
      whole state item) (state : σ) (items : List κ) :
    runAll? step state (items.flatMap unfold) =
      runAll? whole state items := by
  induction items generalizing state with
  | nil => rfl
  | cons item rest ih =>
    rw [List.flatMap_cons, runAll?_append, same, runAll?]
    cases whole state item with
    | none => rfl
    | some answer =>
      simp only [Option.bind_eq_bind, Option.bind_some, ih]
      cases runAll? whole answer.1 rest <;> rfl

theorem runAll?_map {whole : σ → κ → Option (σ × List Action)}
    {change : κ → ι}
    (same : ∀ state item, step state (change item) = whole state item)
    (state : σ) (items : List κ) :
    runAll? step state (items.map change) = runAll? whole state items := by
  induction items generalizing state with
  | nil => rfl
  | cons item rest ih => simp only [List.map_cons, runAll?, same, ih]

variable (tables : List KeyTable)

theorem Step.runAll?_turn (body : List Statement) (words : Words)
    (iteration : Nat) :
    runAll? (control? tables) words (turn body iteration) =
      Part.iterate? tables body words iteration := by
  have unfolded : ∀ state, runAll? (control? tables) state (body.map .run) =
      runAll? (Statement.control? tables) state body :=
    fun state => runAll?_map (fun _ _ => rfl) state body
  rw [turn, runAll?, Part.iterate?, ← unfolded]
  simp only [control?, Option.bind_eq_bind, Option.bind_some]
  cases runAll? (control? tables) _ (body.map .run) <;> rfl

/-- A part runs like its steps. -/
theorem Part.runAll?_steps (words : Words) (part : Part) :
    runAll? (Step.control? tables) words part.steps =
      part.control? tables words := by
  cases part with
  | once statement =>
    rw [steps, runAll?, control?, Step.control?]
    cases statement.control? tables words with
    | none => rfl
    | some answer => simp [runAll?]
  | counted count body =>
    rw [steps, runAll?_append,
      runAll?_flatMap (Step.runAll?_turn tables body), control?]
    cases runAll? (iterate? tables body) words (List.range count) with
    | none => rfl
    | some answer => simp [runAll?, Step.control?]

end Control

/-! ## Runs that are under way -/

/-- The index variables and the memory of a running function. -/
structure Moment (V : Type) where
  words : Words
  memory : Memory V

/-- A call that a run comes to, with the memory that the call finds. -/
structure Visit (V : Type) where
  function : String
  memory : Memory V

/-- The call that a step makes at a moment, if it makes one. -/
def Step.visit? {V : Type} (moment : Moment V) : Step → Option (Visit V)
  | run (.call function _) => some ⟨function, moment.memory⟩
  | _ => none

/-- What a run takes as given: what the row and group functions provide, the
number of local inputs, and the tables of keys. -/
structure Setting (V : Type) where
  library : Library V
  inputCount : Nat
  tables : List KeyTable

namespace Setting

variable {V : Type} [AddCommMonoid V] (setting : Setting V)

/-- The moment after a step. -/
def act? (moment : Moment V) (step : Step) : Option (Moment V) := do
  let (words, actions) ← step.control? setting.tables moment.words
  let memory ← Action.performAll? setting.library setting.inputCount
    moment.memory actions
  pure { words, memory }

theorem act?_eq_some {moment next : Moment V} {step : Step}
    (acted : setting.act? moment step = some next) :
    ∃ actions,
      step.control? setting.tables moment.words =
        some (next.words, actions) ∧
      Action.performAll? setting.library setting.inputCount moment.memory
        actions = some next.memory := by
  rw [act?] at acted
  obtain ⟨⟨words, actions⟩, ran, acted⟩ := Option.bind_eq_some_iff.mp acted
  obtain ⟨memory, performed, equal⟩ := Option.bind_eq_some_iff.mp acted
  cases equal
  exact ⟨actions, ran, performed⟩

/-- The moment after some steps. -/
def actAll? (moment : Moment V) (steps : List Step) : Option (Moment V) :=
  steps.foldlM setting.act? moment

/-- The calls that a run over some steps comes to. -/
def visits : Moment V → List Step → List (Visit V)
  | _, [] => []
  | moment, step :: rest =>
    (step.visit? moment).toList ++
      match setting.act? moment step with
      | none => []
      | some next => visits next rest

theorem actAll?_cons (moment : Moment V) (step : Step)
    (rest : List Step) :
    setting.actAll? moment (step :: rest) =
      (setting.act? moment step).bind (setting.actAll? · rest) :=
  rfl

theorem actAll?_append (moment : Moment V) (first second : List Step) :
    setting.actAll? moment (first ++ second) =
      (setting.actAll? moment first).bind
        (setting.actAll? · second) :=
  List.foldlM_append

theorem actAll?_singleton (moment : Moment V) (step : Step) :
    setting.actAll? moment [step] = setting.act? moment step := by
  rw [actAll?_cons]
  cases setting.act? moment step <;> rfl

theorem visits_append (moment : Moment V) (first second : List Step) :
    setting.visits moment (first ++ second) =
      setting.visits moment first ++
        match setting.actAll? moment first with
        | none => []
        | some next => setting.visits next second := by
  induction first generalizing moment with
  | nil => rfl
  | cons step rest ih =>
    rw [List.cons_append, visits, visits, actAll?_cons, List.append_assoc]
    congr 1
    cases setting.act? moment step with
    | none => rfl
    | some next => exact ih next

/-- The two stages of a run together are the walk over its steps. -/
theorem actAll?_eq (moment : Moment V) (steps : List Step) :
    setting.actAll? moment steps =
      (runAll? (Step.control? setting.tables) moment.words steps).bind
        fun (words, actions) =>
          (Action.performAll? setting.library setting.inputCount
            moment.memory actions).map fun memory => { words, memory } := by
  induction steps generalizing moment with
  | nil => rfl
  | cons step rest ih =>
    rw [actAll?_cons, act?, runAll?]
    cases step.control? setting.tables moment.words with
    | none => rfl
    | some answer =>
      obtain ⟨words, actions⟩ := answer
      simp only [Option.bind_eq_bind, Option.bind_some]
      cases first : Action.performAll? setting.library
          setting.inputCount moment.memory actions with
      | none =>
        have stuck : ∀ others, Action.performAll? setting.library
            setting.inputCount moment.memory (actions ++ others) =
              none := by
          intro others
          rw [Action.performAll?, List.foldlM_append]
          exact congrArg (· >>= _) first
        cases runAll? (Step.control? setting.tables) words rest <;>
          simp [stuck]
      | some memory =>
        have goesOn : ∀ others, Action.performAll? setting.library
            setting.inputCount moment.memory (actions ++ others) =
              Action.performAll? setting.library setting.inputCount
                memory others := by
          intro others
          rw [Action.performAll?, List.foldlM_append]
          exact congrArg (· >>= _) first
        simp only [Option.bind_some, Option.pure_def, ih]
        cases runAll? (Step.control? setting.tables) words rest <;>
          simp [goesOn]

end Setting

namespace UsageFunction

variable {V : Type} [AddCommMonoid V]

/-- The moment at the start of a run. -/
def start (function : UsageFunction) (before : Nat → Option V) :
    Moment V where
  words := ⟨none, none⟩
  memory := function.startMemory before

/-- What a run of the function itself takes as given. -/
def setting (library : Library V) (options : Options)
    (function : UsageFunction) : Setting V where
  library
  inputCount := options.inputCount
  tables := function.keyTables

/-- A run to the end is the walk over the steps of the function. -/
theorem execute?_eq_actAll? (library : Library V)
    (before : Nat → Option V) (options : Options) (naming : GroupNaming)
    (function : UsageFunction)
    (compiles : function.Compiles options naming) :
    function.execute? library before options naming =
      ((function.setting library options).actAll? (function.start before)
        (function.steps options naming)).map (·.memory) := by
  rw [execute?, if_pos compiles, Setting.actAll?_eq, steps,
    runAll?_flatMap (Part.runAll?_steps _), actions?]
  simp only [setting, start]
  cases runAll? (Part.control? function.keyTables) ⟨none, none⟩
      (function.parts options naming) with
  | none => rfl
  | some answer =>
    simp only [Option.map_some, Option.bind_eq_bind, Option.bind_some,
      Option.map_map]
    cases Action.performAll? library options.inputCount
        (function.startMemory before) answer.2 <;> rfl

end UsageFunction

/-! ## What steps leave alone -/

/-- Whether a statement neither sets the output pointer nor calls. -/
def Statement.isQuiet : Statement → Bool
  | point _ | call _ _ => false
  | _ => true

section Frames

variable {V : Type} [AddCommMonoid V] {library : Library V}
  {inputCount : Nat} {memory after : Memory V}

/-- Only a `point` changes the output pointer. -/
theorem Action.perform?_pointer {action : Action}
    (keeps : ∀ buffer offset, action ≠ .point buffer offset)
    (performed : action.perform? library inputCount memory = some after) :
    after.pointer = memory.pointer := by
  cases action with
  | point buffer offset => exact absurd rfl (keeps buffer offset)
  | setInput slot input =>
    rw [perform?] at performed
    split at performed
    · cases performed
      rfl
    · cases performed
  | clear buffer count =>
    obtain ⟨_, _, equal⟩ := Option.bind_eq_some_iff.mp performed
    cases equal
    rfl
  | call function key =>
    cases key <;>
    · obtain ⟨_, _, performed⟩ := Option.bind_eq_some_iff.mp performed
      obtain ⟨_, _, equal⟩ := Option.bind_eq_some_iff.mp performed
      cases equal
      rfl
  | add target source =>
    obtain ⟨_, _, performed⟩ := Option.bind_eq_some_iff.mp performed
    obtain ⟨_, _, equal⟩ := Option.bind_eq_some_iff.mp performed
    cases equal
    rfl

theorem Action.performAll?_pointer {actions : List Action}
    (keeps : ∀ action ∈ actions, ∀ buffer offset,
      action ≠ .point buffer offset)
    (performed : performAll? library inputCount memory actions =
      some after) :
    after.pointer = memory.pointer := by
  induction actions generalizing memory with
  | nil =>
    cases performed
    rfl
  | cons action rest ih =>
    obtain ⟨middle, first, others⟩ := Option.bind_eq_some_iff.mp performed
    rw [ih (fun other member => keeps other (List.mem_cons_of_mem _ member))
      others]
    exact perform?_pointer (keeps action List.mem_cons_self) first

end Frames

theorem Copy.eq_add_of_action? {environment : Environment Symbol}
    {copy : Copy} {action : Action}
    (acted : copy.action? environment = some action) :
    ∃ target source, action = .add target source := by
  obtain ⟨target, _, acted⟩ := Option.bind_eq_some_iff.mp acted
  obtain ⟨source, _, equal⟩ := Option.bind_eq_some_iff.mp acted
  cases equal
  exact ⟨_, _, rfl⟩

/-- A statement keeps the iteration, and only a `point` has an action that
changes the output pointer. -/
theorem Statement.control?_frame {tables : List KeyTable}
    {words next : Words} {statement : Statement} {actions : List Action}
    (other : ∀ destination, statement ≠ .point destination)
    (ran : statement.control? tables words = some (next, actions)) :
    next.iteration = words.iteration ∧
      ∀ action ∈ actions, ∀ buffer offset,
        action ≠ .point buffer offset := by
  cases statement with
  | point destination => exact absurd rfl (other destination)
  | setKey key =>
    obtain ⟨_, _, equal⟩ := Option.bind_eq_some_iff.mp ran
    cases equal
    exact ⟨rfl, fun _ absurdly => absurd absurdly List.not_mem_nil⟩
  | call function key =>
    have alone : next.iteration = words.iteration ∧
        ∃ key, actions = [.call function key] := by
      cases key with
      | none =>
        cases ran
        exact ⟨rfl, none, rfl⟩
      | some key =>
        obtain ⟨word, _, equal⟩ := Option.bind_eq_some_iff.mp ran
        cases equal
        exact ⟨rfl, some word.toNat, rfl⟩
    obtain ⟨same, key, rfl⟩ := alone
    exact ⟨same, List.forall_mem_singleton.mpr fun _ _ =>
      Action.noConfusion⟩
  | add copy =>
    obtain ⟨_, acted, equal⟩ := Option.bind_eq_some_iff.mp ran
    cases equal
    obtain ⟨target, source, rfl⟩ := Copy.eq_add_of_action? acted
    exact ⟨rfl, List.forall_mem_singleton.mpr fun _ _ =>
      Action.noConfusion⟩
  | copyBack chain =>
    obtain ⟨_, _, ran⟩ := Option.bind_eq_some_iff.mp ran
    obtain ⟨_, acted, equal⟩ := Option.bind_eq_some_iff.mp ran
    cases equal
    refine ⟨rfl, fun action member buffer offset => ?_⟩
    obtain ⟨copy, _, added⟩ := Traversal.exists_left_of_mem
      (Traversal.mapM_eq_some_iff.mp acted) member
    obtain ⟨target, source, rfl⟩ := Copy.eq_add_of_action? added
    exact Action.noConfusion
  | blank =>
    cases ran
    exact ⟨rfl, fun _ absurdly => absurd absurdly List.not_mem_nil⟩
  | _ =>
    cases ran
    exact ⟨rfl, List.forall_mem_singleton.mpr fun _ _ =>
      Action.noConfusion⟩

/-- A statement that is no `point` keeps the iteration and the pointer. -/
theorem Setting.act?_frame {V : Type} [AddCommMonoid V]
    {setting : Setting V} {moment next : Moment V} {statement : Statement}
    (other : ∀ destination, statement ≠ .point destination)
    (acted : setting.act? moment (.run statement) = some next) :
    next.words.iteration = moment.words.iteration ∧
      next.memory.pointer = moment.memory.pointer := by
  obtain ⟨actions, ran, performed⟩ := setting.act?_eq_some acted
  obtain ⟨same, keeps⟩ := Statement.control?_frame other ran
  exact ⟨same, Action.performAll?_pointer keeps performed⟩

end SparseLoop
