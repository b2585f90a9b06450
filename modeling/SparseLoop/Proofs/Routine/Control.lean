import SparseLoop.Proofs.Routine.CopyBack
import SparseLoop.Proofs.Routine.Statement

/-!
# The control of a usage function

Which calls and copies a usage function makes does not depend on the values in
its arrays.  A run is therefore given in two stages.  The first one, here,
evaluates every expression and takes every branch and loop; its answer is the
list of actions on the memory, in order.  It gets stuck where an expression
reads a variable that is not set or a table beyond its end.

The stage threads the two index variables.  A counted loop sets the iteration
variable before each run of its body and leaves it at the number of runs.
-/

namespace SparseLoop

/-- The arrays that the function writes. -/
inductive Buffer where
  | result
  | scratch
deriving DecidableEq, Repr

/-- What a local input points to. -/
inductive Input where
  /-- An input of the function. -/
  | argument (index : Nat)
  /-- The constant one. -/
  | unit
deriving DecidableEq, Repr

/-- What a statement does to the memory, with all numbers known. -/
inductive Action where
  | setInput (slot : Nat) (input : Input)
  | clear (buffer : Buffer) (count : Nat)
  | point (buffer : Buffer) (offset : Nat)
  | call (function : String) (key : Option Nat)
  | add (target source : Nat)
deriving DecidableEq, Repr

/-- The index variables of a running function. -/
structure Words where
  iteration : Option UInt64
  key : Option UInt64
deriving DecidableEq, Repr

/-- The entries of a declared table. -/
def KeyTable.entries? (tables : List KeyTable) (loop group : Nat) :
    Option (List Nat) := do
  let table ← tables.find? fun table =>
    table.loop == loop && table.group == group
  if table.length = table.keys.length then some table.keys else none

/-- What symbols stand for, given the tables and the index variables. -/
def Words.environment (tables : List KeyTable) (words : Words) :
    Environment Symbol where
  word
    | .iteration => words.iteration
    | .key => words.key
    | .keyTable _ _ => none
  table
    | .keyTable loop group => KeyTable.entries? tables loop group
    | _ => none

/-- A list of items run one after the other, with the actions in order. -/
def runAll? {σ ι : Type} (step : σ → ι → Option (σ × List Action)) :
    σ → List ι → Option (σ × List Action)
  | state, [] => some (state, [])
  | state, item :: rest => do
    let (next, first) ← step state item
    let (last, others) ← runAll? step next rest
    pure (last, first ++ others)

/-- The action of a copy. -/
def Copy.action? (environment : Environment Symbol) (copy : Copy) :
    Option Action := do
  let target ← copy.target.value? environment
  let source ← copy.source.value? environment
  pure (.add target.toNat source.toNat)

/-- The action that sets the output pointer. -/
def Destination.action? (environment : Environment Symbol) :
    Destination → Option Action
  | result position => do
    let offset ← position.value? environment
    pure (.point .result offset.toNat)
  | scratch => some (.point .scratch 0)

/-- The actions of a statement, and the index variables after it. -/
def Statement.control? (tables : List KeyTable) (words : Words)
    (statement : Statement) : Option (Words × List Action) :=
  let environment := words.environment tables
  match statement with
  | blank => some (words, [])
  | takeInput slot source =>
    some (words, [.setInput slot (.argument source)])
  | takeUnit => some (words, [.setInput 1 .unit])
  | clearResult count => some (words, [.clear .result count])
  | clearScratch count => some (words, [.clear .scratch count])
  | point destination => do
    let action ← destination.action? environment
    pure (words, [action])
  | setKey key => do
    let value ← key.value? environment
    pure ({ words with key := some value }, [])
  | call function none => some (words, [.call function none])
  | call function (some key) => do
    let value ← key.value? environment
    pure (words, [.call function (some value.toNat)])
  | add copy => do
    let action ← copy.action? environment
    pure (words, [action])
  | copyBack chain => do
    let copies ← GroupAccess.copiesAfter? environment (some chain)
    let actions ← copies.mapM (Copy.action? environment)
    pure (words, actions)

/-- The actions of one run of a loop body. -/
def Part.iterate? (tables : List KeyTable) (body : List Statement)
    (words : Words) (iteration : Nat) : Option (Words × List Action) :=
  runAll? (Statement.control? tables)
    { words with iteration := some (UInt64.ofNat iteration) } body

/-- The actions of a part, and the index variables after it. -/
def Part.control? (tables : List KeyTable) (words : Words) :
    Part → Option (Words × List Action)
  | once statement => statement.control? tables words
  | counted count body => do
    let (last, actions) ←
      runAll? (iterate? tables body) words (List.range count)
    pure ({ last with iteration := some (UInt64.ofNat count) }, actions)

/-- The actions of a usage function, from index variables that are not set. -/
def UsageFunction.actions? (options : Options) (naming : GroupNaming)
    (function : UsageFunction) : Option (List Action) :=
  (runAll? (Part.control? function.keyTables) ⟨none, none⟩
    (function.parts options naming)).map (·.2)

/-! ## Runs of lists -/

section RunAll

variable {σ ι : Type} {step : σ → ι → Option (σ × List Action)}

/-- A list runs into a state with some actions. -/
def Runs (step : σ → ι → Option (σ × List Action)) (before : σ)
    (items : List ι) (after : σ) (actions : List Action) : Prop :=
  runAll? step before items = some (after, actions)

theorem Runs.nil (state : σ) : Runs step state [] state [] :=
  rfl

theorem Runs.cons {before middle after : σ} {item : ι} {rest : List ι}
    {first others : List Action}
    (one : step before item = some (middle, first))
    (remaining : Runs step middle rest after others) :
    Runs step before (item :: rest) after (first ++ others) := by
  rw [Runs] at remaining ⊢
  simp [runAll?, one, remaining]

theorem Runs.exists_of_cons {before after : σ} {item : ι} {rest : List ι}
    {actions : List Action}
    (runs : Runs step before (item :: rest) after actions) :
    ∃ middle first others, step before item = some (middle, first) ∧
      Runs step middle rest after others ∧ actions = first ++ others := by
  rw [Runs, runAll?] at runs
  simp only [Option.bind_eq_bind, Option.bind_eq_some_iff,
    Option.pure_def, Option.some.injEq] at runs
  obtain ⟨⟨middle, first⟩, stepped, ⟨last, others⟩, remaining, equal⟩ := runs
  cases equal
  exact ⟨middle, first, others, stepped, remaining, rfl⟩

theorem Runs.single {before after : σ} {item : ι} {actions : List Action}
    (one : step before item = some (after, actions)) :
    Runs step before [item] after actions := by
  have run := Runs.cons one (Runs.nil after)
  rw [List.append_nil] at run
  exact run

theorem Runs.append {before middle after : σ} {items others : List ι}
    {first second : List Action}
    (front : Runs step before items middle first)
    (back : Runs step middle others after second) :
    Runs step before (items ++ others) after (first ++ second) := by
  induction items generalizing before first with
  | nil =>
    cases front
    exact back
  | cons item rest ih =>
    obtain ⟨next, one, more, stepped, remaining, rfl⟩ := front.exists_of_cons
    rw [List.cons_append, List.append_assoc]
    exact Runs.cons stepped (ih remaining)

end RunAll

/-- Statements at the top run like the list of them. -/
theorem Part.runs_map_once {tables : List KeyTable} {before after : Words}
    {statements : List Statement} {actions : List Action}
    (run : Runs (Statement.control? tables) before statements after
      actions) :
    Runs (Part.control? tables) before (statements.map .once) after
      actions := by
  induction statements generalizing before actions with
  | nil => exact run
  | cons statement rest ih =>
    obtain ⟨next, one, more, stepped, remaining, rfl⟩ := run.exists_of_cons
    exact Runs.cons stepped (ih remaining)

end SparseLoop
