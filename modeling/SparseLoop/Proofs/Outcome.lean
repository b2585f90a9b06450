/-!
# Outcomes of actions

An action on a state may fail, and the state then keeps what was done before
the failure.  `Ends` says what holds where an action ends: one property of an
answer and its state, another one of a failure and its state.  What an action
made of steps guarantees follows from what its steps guarantee by `Ends.bind`.
-/

namespace SparseLoop

variable {ε σ α β : Type}

/-- The state in which an action ends. -/
def stateAfter : EStateM.Result ε σ α → σ
  | .ok _ after => after
  | .error _ after => after

/-- An action that begins with a look at the state. -/
theorem get_bind_apply {next : σ → EStateM ε σ α} {before : σ} :
    ((get : EStateM ε σ σ) >>= next) before = next before before :=
  rfl

/-- After a step that succeeds, an action goes on with the answer. -/
theorem bind_apply_of_ok {first : EStateM ε σ α} {next : α → EStateM ε σ β}
    {before state : σ} {value : α} (opens : first before = .ok value state) :
    (first >>= next) before = next value state := by
  show EStateM.bind first next before = next value state
  rw [EStateM.bind, opens]

/-- An action of two steps succeeds exactly if both steps do. -/
theorem bind_apply_eq_ok_iff {first : EStateM ε σ α} {next : α → EStateM ε σ β}
    {before after : σ} {result : β} :
    (first >>= next) before = .ok result after ↔
      ∃ value state, first before = .ok value state ∧
        next value state = .ok result after := by
  show EStateM.bind first next before = .ok result after ↔ _
  rw [EStateM.bind]
  cases first before with
  | ok value state =>
    constructor
    · exact fun succeeds => ⟨value, state, rfl, succeeds⟩
    · rintro ⟨_, _, equal, succeeds⟩
      cases equal
      exact succeeds
  | error failure state =>
    constructor
    · intro succeeds
      cases succeeds
    · rintro ⟨_, _, absurdly, _⟩
      cases absurdly

/-- An outcome is an answer of one kind or a failure of another one. -/
def Ends (answers : α → σ → Prop) (fails : ε → σ → Prop) :
    EStateM.Result ε σ α → Prop
  | .ok value after => answers value after
  | .error failure after => fails failure after

namespace Ends

variable {answers middle : α → σ → Prop} {fails : ε → σ → Prop}

theorem mono {weaker : α → σ → Prop} {weakerFails : ε → σ → Prop}
    {outcome : EStateM.Result ε σ α}
    (ends : Ends answers fails outcome)
    (onAnswer : ∀ value after, answers value after → weaker value after)
    (onFailure : ∀ failure after,
      fails failure after → weakerFails failure after) :
    Ends weaker weakerFails outcome := by
  cases outcome with
  | ok value after => exact onAnswer value after ends
  | error failure after => exact onFailure failure after ends

/-- A step after another one starts where the first one ended. -/
theorem bind {first : EStateM ε σ α} {next : α → EStateM ε σ β} {before : σ}
    {results : β → σ → Prop}
    (opens : Ends middle fails (first before))
    (continues : ∀ value state, middle value state →
      Ends results fails (next value state)) :
    Ends results fails ((first >>= next) before) := by
  show Ends results fails (EStateM.bind first next before)
  rw [EStateM.bind]
  cases outcome : first before with
  | ok value state =>
    rw [outcome] at opens
    exact continues value state opens
  | error failure state =>
    rw [outcome] at opens
    exact opens

/-- What holds however an action ends holds of the state after it. -/
theorem stateAfter {holds : σ → Prop} {outcome : EStateM.Result ε σ α}
    (ends : Ends (fun _ after => holds after) (fun _ after => holds after)
      outcome) :
    holds (stateAfter outcome) := by
  cases outcome with
  | ok value after => exact ends
  | error failure after => exact ends

end Ends

end SparseLoop
