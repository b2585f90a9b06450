import SparseLoop.Proofs.Execution.Stepwise

/-!
# Pieces of a program and the calls that they lead to

A plan asks for a call of every row and, at each local iteration of a round,
for a call of every group of the round.  Each of these calls has a target: an
entry of the result, or the beginning of the scratch buffer.

`Leads` says what a piece of the program does from a moment before it to one
after it: the run comes to planned calls in their order and meets them
rightly, and it goes as it would if every call set the pointer.  The pieces
are put together by `Leads.append`, and what is known between them is
`Moment.Knows`.
-/

namespace SparseLoop

/-! ## Planned calls -/

/-- A call that a description and its plan ask for. -/
inductive PlannedCall where
  | row (row : Nat) (provided : IndexSet)
  | group (loop group iteration : Nat) (access : GroupAccess)
deriving DecidableEq, Repr

namespace PlannedCall

/-- The function that a planned call calls. -/
def function (options : Options) (naming : GroupNaming) :
    PlannedCall → String
  | row number _ => options.rowFunction number
  | group loop number _ _ => naming options.modelName loop number

/-- Where the output pointer has to point during a planned call. -/
inductive Targets (sparsity : Sparsity) : PlannedCall → Buffer × Nat → Prop
  | orderedRow {row start : Nat} {provided : IndexSet}
    (flagged : sparsity.ordered.get? row = some true)
    (started : sparsity.locations.orderedStart row provided = .ok start) :
    Targets sparsity (.row row provided) (.result, start)
  | unorderedRow {row : Nat} {provided : IndexSet}
    (flagged : sparsity.ordered.get? row = some false) :
    Targets sparsity (.row row provided) (.scratch, 0)
  | inPlace {loop group iteration : Nat} {access : GroupAccess}
    {start : IndexPattern} (placed : access.start = some start) :
    Targets sparsity (.group loop group iteration access)
      (.result, (start.word iteration).toNat)
  | buffered {loop group iteration : Nat} {access : GroupAccess}
    (unplaced : access.start = none) :
    Targets sparsity (.group loop group iteration access) (.scratch, 0)

/-- Whether the scratch buffer has to be cleared for a planned call. -/
def needsClearing : PlannedCall → Bool
  | row _ _ => false
  | group _ _ _ access => access.start.isNone

/-- A visit meets a planned call if it is one of the right function, if the
pointer is at the target, and if the scratch buffer is clear where it has to
be. -/
structure IsMetBy {V : Type} [AddCommMonoid V] (options : Options)
    (naming : GroupNaming) (sparsity : Sparsity) (scratchSize : Nat)
    (planned : PlannedCall) (visit : Visit V) : Prop where
  named : visit.function = planned.function options naming
  pointed : ∃ target, planned.Targets sparsity target ∧
    visit.memory.pointer = some target
  cleared : planned.needsClearing = true → ∀ index < scratchSize,
    (visit.memory.cells .scratch).value index = some 0

end PlannedCall

/-- The planned calls of a round, by local iterations. -/
def Round.plannedCalls (count : Nat)
    (loops : IndexMap (IndexMap GroupAccess)) : List PlannedCall :=
  (List.range count).flatMap fun iteration =>
    (accesses loops).map fun (loop, group, access) =>
      .group loop group iteration access

/-- All calls that a description and its plan ask for, in order. -/
def Sparsity.plannedCalls (sparsity : Sparsity) (plan : CallPlan) :
    List PlannedCall :=
  (sparsity.rowElements.entries.map fun (row, provided) =>
      .row row provided) ++
    plan.entries.flatMap fun (count, loops) =>
      Round.plannedCalls count loops

/-! ## What is known at a moment -/

/-- The target of a call that is known to be left from an earlier one. -/
def knownTarget (atScratch : Bool) : Option (Buffer × Nat) :=
  if atScratch then some (.scratch, 0) else none

/-- A destination that is evaluated to a place of a buffer. -/
def Destination.LiesAt (destination : Destination) (tables : List KeyTable)
    (isUnrolled : Bool) (iteration : Nat) (place : Buffer × Nat) : Prop :=
  ∀ words : Words, words.IsAt isUnrolled iteration →
    destination.action? (words.environment tables) =
      some (.point place.1 place.2)

/-- What is known at a moment: the local iteration, the output pointer, and
how much of the scratch buffer is clear. -/
structure Moment.Knows {V : Type} [AddCommMonoid V] (isUnrolled : Bool)
    (iteration : Nat) (target : Option (Buffer × Nat)) (cleared : Nat)
    (moment : Moment V) : Prop where
  words : moment.words.IsAt isUnrolled iteration
  pointer : ∀ place, target = some place →
    moment.memory.pointer = some place
  clear : ∀ index < cleared,
    (moment.memory.cells .scratch).value index = some 0

namespace Moment.Knows

variable {V : Type} [AddCommMonoid V] {isUnrolled : Bool}
  {iteration cleared : Nat} {target : Option (Buffer × Nat)}
  {moment : Moment V}

/-- Nothing has to be said of the scratch buffer where none of it is known to
be clear. -/
theorem of_pointer (words : moment.words.IsAt isUnrolled iteration)
    (pointer : ∀ place, target = some place →
      moment.memory.pointer = some place) :
    moment.Knows isUnrolled iteration target 0 where
  words := words
  pointer := pointer
  clear _ below := absurd below (Nat.not_lt_zero _)

/-- Outside of all loops and with nothing known of the pointer, nothing is
said. -/
theorem nothing (moment : Moment V) : moment.Knows true 0 none 0 :=
  of_pointer (.inl ⟨rfl, rfl⟩) fun _ absurdly => by cases absurdly

theorem forget (knows : moment.Knows isUnrolled iteration target cleared) :
    moment.Knows isUnrolled iteration target 0 :=
  of_pointer knows.words knows.pointer

/-- Steps that keep the iteration and the pointer leave open only what is
clear after them. -/
theorem kept {next : Moment V}
    (knows : moment.Knows isUnrolled iteration target cleared)
    (same : next.words.iteration = moment.words.iteration ∧
      next.memory.pointer = moment.memory.pointer) :
    next.Knows isUnrolled iteration target 0 := by
  refine of_pointer ?_ ?_
  · rw [Words.IsAt, same.1]
    exact knows.words
  · rw [same.2]
    exact knows.pointer

theorem withClear {clear : Nat}
    (knows : moment.Knows isUnrolled iteration target cleared)
    (zero : ∀ index < clear,
      (moment.memory.cells .scratch).value index = some 0) :
    moment.Knows isUnrolled iteration target clear where
  words := knows.words
  pointer := knows.pointer
  clear := zero

theorem outside (knows : moment.Knows isUnrolled iteration target cleared) :
    moment.Knows true 0 target 0 :=
  of_pointer (.inl ⟨rfl, rfl⟩) knows.pointer

/-- Of a pointer only the scratch buffer is remembered. -/
theorem remember {place : Buffer × Nat} {atScratch : Bool}
    (knows : moment.Knows isUnrolled iteration (some place) cleared)
    (known : atScratch = true → place = (.scratch, 0)) :
    moment.Knows isUnrolled iteration (knownTarget atScratch) 0 := by
  refine of_pointer knows.words fun other equal => ?_
  cases atScratch with
  | false => cases equal
  | true =>
    cases equal
    exact known rfl ▸ knows.pointer _ rfl

end Moment.Knows

theorem Setting.act?_point {V : Type} [AddCommMonoid V]
    {setting : Setting V} {moment : Moment V} {destination : Destination}
    {place : Buffer × Nat}
    (lies : destination.action? (moment.words.environment setting.tables) =
      some (.point place.1 place.2)) :
    setting.act? moment (.run (.point destination)) =
      if place.2 ≤ (moment.memory.cells place.1).size then
        some { moment with
          memory := { moment.memory with pointer := some place } }
      else
        none := by
  have ran : Statement.control? setting.tables moment.words
      (.point destination) =
        some (moment.words, [.point place.1 place.2]) := by
    simp [Statement.control?, lies]
  rw [act?, Step.control?, ran]
  simp only [Option.bind_eq_bind, Option.bind_some,
    Action.performAll?_singleton, Action.perform?]
  split <;> rfl

/-! ## Pieces of a program -/

section Pieces

variable {V : Type} [AddCommMonoid V] {setting : Setting V}
  {Meets : PlannedCall → Visit V → Prop}

/-- A piece of a program leads from one kind of moment to another.  The run
comes to planned calls in their order and meets each of them, and to all of
them if it comes to the end of the piece.  The full piece, in which every call
sets the pointer, runs alike. -/
structure Leads (setting : Setting V) (Meets : PlannedCall → Visit V → Prop)
    (Before After : Moment V → Prop) (steps full : List Step)
    (planned : List PlannedCall) : Prop where
  alike : ∀ moment, Before moment →
    setting.actAll? moment full = setting.actAll? moment steps
  reaches : ∀ moment, Before moment → ∃ front, front <+: planned ∧
    List.Forall₂ Meets front (setting.visits moment steps)
  completes : ∀ moment last, Before moment →
    setting.actAll? moment steps = some last →
      List.Forall₂ Meets planned (setting.visits moment steps) ∧ After last

namespace Leads

variable {Before Middle After : Moment V → Prop}
  {steps full others otherFull : List Step}
  {planned later : List PlannedCall}

theorem nil : Leads setting Meets Before Before [] [] [] where
  alike _ _ := rfl
  reaches _ _ := ⟨[], List.prefix_rfl, .nil⟩
  completes moment last known ran := by
    cases ran
    exact ⟨.nil, known⟩

theorem append
    (first : Leads setting Meets Before Middle steps full planned)
    (second : Leads setting Meets Middle After others otherFull later) :
    Leads setting Meets Before After (steps ++ others)
      (full ++ otherFull) (planned ++ later) where
  alike moment known := by
    rw [Setting.actAll?_append, Setting.actAll?_append,
      first.alike moment known]
    cases ran : setting.actAll? moment steps with
    | none => rfl
    | some middle =>
      exact second.alike middle (first.completes moment middle known ran).2
  reaches moment known := by
    rw [Setting.visits_append]
    cases ran : setting.actAll? moment steps with
    | none =>
      obtain ⟨front, isFront, met⟩ := first.reaches moment known
      refine ⟨front, isFront.trans (List.prefix_append _ _), ?_⟩
      rw [List.append_nil]
      exact met
    | some middle =>
      obtain ⟨met, reached⟩ := first.completes moment middle known ran
      obtain ⟨front, isFront, metLater⟩ := second.reaches middle reached
      exact ⟨planned ++ front, (List.prefix_append_right_inj _).mpr isFront,
        List.rel_append met metLater⟩
  completes moment last known ran := by
    rw [Setting.actAll?_append] at ran
    obtain ⟨middle, front, back⟩ := Option.bind_eq_some_iff.mp ran
    obtain ⟨met, reached⟩ := first.completes moment middle known front
    obtain ⟨metLater, ended⟩ := second.completes middle last reached back
    rw [Setting.visits_append, front]
    exact ⟨List.rel_append met metLater, ended⟩

theorem weaken {Weaker Stronger : Moment V → Prop}
    (leads : Leads setting Meets Before After steps full planned)
    (before : ∀ moment, Stronger moment → Before moment)
    (after : ∀ moment, After moment → Weaker moment) :
    Leads setting Meets Stronger Weaker steps full planned where
  alike moment known := leads.alike moment (before moment known)
  reaches moment known := leads.reaches moment (before moment known)
  completes moment last known ran :=
    (leads.completes moment last (before moment known) ran).imp_right
      (after last)

/-- A step that makes no call. -/
theorem silent {step : Step}
    (unvisited : ∀ moment : Moment V, step.visit? moment = none)
    (after : ∀ moment next, Before moment →
      setting.act? moment step = some next → After next) :
    Leads setting Meets Before After [step] [step] [] where
  alike _ _ := rfl
  reaches moment _ := by
    refine ⟨[], List.prefix_rfl, ?_⟩
    rw [Setting.visits, unvisited]
    cases setting.act? moment step <;> exact .nil
  completes moment last known ran := by
    rw [Setting.actAll?_singleton] at ran
    rw [Setting.visits, unvisited, ran]
    exact ⟨.nil, after moment last known ran⟩

/-- A step that makes a planned call. -/
theorem calling {name : String} {key : Option (Expression Symbol)}
    {call : PlannedCall}
    (met : ∀ moment, Before moment → Meets call ⟨name, moment.memory⟩)
    (after : ∀ moment next, Before moment →
      setting.act? moment (.run (.call name key)) = some next → After next) :
    Leads setting Meets Before After [.run (.call name key)]
      [.run (.call name key)] [call] where
  alike _ _ := rfl
  reaches moment known := by
    refine ⟨[call], List.prefix_rfl, ?_⟩
    rw [Setting.visits]
    cases setting.act? moment (.run (.call name key)) <;>
      exact .cons (met moment known) .nil
  completes moment last known ran := by
    rw [Setting.actAll?_singleton] at ran
    rw [Setting.visits, ran]
    exact ⟨.cons (met moment known) .nil, after moment last known ran⟩

/-- A piece that is repeated one or more times. -/
theorem repeated {iterations : List Nat}
    {body fullBody : Nat → List Step} {calls : Nat → List PlannedCall}
    (turn : ∀ iteration, Leads setting Meets (fun _ => True) After
      (body iteration) (fullBody iteration) (calls iteration))
    (some : iterations ≠ []) :
    Leads setting Meets (fun _ => True) After (iterations.flatMap body)
      (iterations.flatMap fullBody) (iterations.flatMap calls) := by
  induction iterations with
  | nil => exact absurd rfl some
  | cons iteration rest ih =>
    simp only [List.flatMap_cons]
    by_cases last : rest = []
    · subst last
      simp only [List.flatMap_nil, List.append_nil]
      exact turn iteration
    · exact ((turn iteration).weaken (fun _ known => known)
        fun _ _ => trivial).append (ih last)

/-! ## Statements -/

variable {isUnrolled atScratch : Bool} {iteration cleared : Nat}
  {target : Option (Buffer × Nat)}

/-- Statements that neither set the pointer nor call keep the pointer. -/
theorem quiet {statements : List Statement}
    (quiet : ∀ statement ∈ statements, statement.isQuiet = true) :
    Leads setting Meets (Moment.Knows isUnrolled iteration target cleared)
      (Moment.Knows isUnrolled iteration target 0) (statements.map .run)
      (statements.map .run) [] := by
  refine weaken ?_ (fun _ known => known.forget) fun _ known => known
  induction statements with
  | nil => exact nil
  | cons statement rest ih =>
    have first := quiet statement List.mem_cons_self
    have others := ih fun other member =>
      quiet other (List.mem_cons_of_mem _ member)
    refine (silent ?_ ?_).append others
    · intro moment
      cases statement with
      | call function key => cases first
      | _ => rfl
    · intro moment next known acted
      have noPoint : ∀ destination, statement ≠ .point destination := by
        rintro destination rfl
        cases first
      exact known.kept (Setting.act?_frame noPoint acted)

/-- The pointer is set to a place, unless it is known to be there. -/
theorem point {destination : Destination} {place : Buffer × Nat}
    {setsPointer : Bool}
    (lies : destination.LiesAt setting.tables isUnrolled iteration place)
    (pointed : setsPointer = true ∨
      target = some place ∧ place = (.scratch, 0)) :
    Leads setting Meets (Moment.Knows isUnrolled iteration target cleared)
      (Moment.Knows isUnrolled iteration (some place) cleared)
      ((if setsPointer then [.point destination] else []).map .run)
      [.run (.point destination)] [] := by
  cases setsPointer with
  | true =>
    refine silent (fun _ => rfl) fun moment next known acted => ?_
    rw [Setting.act?_point (lies moment.words known.words)] at acted
    split at acted
    · cases acted
      refine ⟨known.words, ?_, known.clear⟩
      rintro _ ⟨⟩
      rfl
    · cases acted
  | false =>
    obtain ⟨rfl, rfl⟩ := pointed.resolve_left Bool.false_ne_true
    refine ⟨fun moment known => ?_, fun _ _ => ⟨[], List.prefix_rfl, .nil⟩,
      ?_⟩
    · -- Setting the pointer to where it points changes nothing.
      have same : ({ moment.memory with pointer := some (.scratch, 0) } :
          Memory V) = moment.memory := by
        rw [← known.pointer _ rfl]
      rw [Setting.actAll?_singleton,
        Setting.act?_point (lies moment.words known.words),
        if_pos (Nat.zero_le _), same]
      rfl
    · rintro moment last known ⟨⟩
      exact ⟨.nil, known⟩

theorem clearScratch (scratchSize : Nat) :
    Leads setting Meets (Moment.Knows isUnrolled iteration target cleared)
      (Moment.Knows isUnrolled iteration target scratchSize)
      [.run (.clearScratch scratchSize)]
      [.run (.clearScratch scratchSize)] [] := by
  refine silent (fun _ => rfl) fun moment next known acted => ?_
  have same := Setting.act?_frame (fun _ => Statement.noConfusion) acted
  refine (known.kept same).withClear fun index below => ?_
  obtain ⟨actions, ran, performed⟩ := setting.act?_eq_some acted
  have alone : actions = [.clear .scratch scratchSize] := by
    rw [Step.control?, Statement.control?, Option.some.injEq,
      Prod.mk.injEq] at ran
    exact ran.2.symm
  rw [alone, Action.performAll?_singleton, Action.perform?] at performed
  obtain ⟨cells, clear, equal⟩ := Option.bind_eq_some_iff.mp performed
  rw [Cells.clear?] at clear
  split at clear
  · cases clear
    rw [← Option.some.inj equal, Memory.cells_withCells]
    exact if_pos below
  · cases clear

theorem setKey (key : Expression Symbol) :
    Leads setting Meets (Moment.Knows isUnrolled iteration target cleared)
      (Moment.Knows isUnrolled iteration target cleared)
      [.run (.setKey key)] [.run (.setKey key)] [] := by
  refine silent (fun _ => rfl) fun moment next known acted => ?_
  have same := Setting.act?_frame (fun _ => Statement.noConfusion) acted
  obtain ⟨actions, ran, performed⟩ := setting.act?_eq_some acted
  obtain ⟨_, _, equal⟩ := Option.bind_eq_some_iff.mp ran
  cases (Prod.mk.inj (Option.some.inj equal)).2
  have unchanged : moment.memory = next.memory := Option.some.inj performed
  exact (known.kept same).withClear (unchanged ▸ known.clear)

/-- A call with the pointer at a place. -/
theorem call {name : String} {place : Buffer × Nat} {planned : PlannedCall}
    (key : Option (Expression Symbol))
    (met : ∀ moment : Moment V,
      moment.Knows isUnrolled iteration (some place) cleared →
        Meets planned ⟨name, moment.memory⟩) :
    Leads setting Meets
      (Moment.Knows isUnrolled iteration (some place) cleared)
      (Moment.Knows isUnrolled iteration (some place) 0)
      [.run (.call name key)] [.run (.call name key)] [planned] := by
  refine calling met fun moment next known acted => ?_
  have same := Setting.act?_frame (fun _ => Statement.noConfusion) acted
  exact known.kept same

end Leads

end Pieces

end SparseLoop
