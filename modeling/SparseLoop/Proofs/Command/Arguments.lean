import SparseLoop.Command.Arguments

/-!
# The choice of a stage

The option for the stage decides nothing but the stage.  Lists of arguments
that differ only in the name which this option gives ask for the same, with
that one difference: `Directive.exists_withStage`.

The induction is on the arguments before the option.  From the option on, the
arguments have a stage, and reading on with another stage gives the same
directive with this other stage, `Arguments.readAll_choose`.
-/

namespace SparseLoop

namespace Command

/-- The name of a stage. -/
def Stage.name : Stage → String
  | combined => "c"
  | dispatch => "dispatch"
  | usage => "usage"
  | buildInfo => "build-info"

@[simp]
theorem Stage.ofName?_name (stage : Stage) :
    ofName? stage.name = some stage := by
  cases stage <;> rfl

/-- The ways to write the option for the stage. -/
inductive StageSpelling where
  /-- The name follows an equals sign. -/
  | joined
  /-- The name is the next argument. -/
  | separate
deriving DecidableEq, Repr

/-- The arguments that choose a stage. -/
def StageSpelling.arguments (stage : Stage) : StageSpelling → List String
  | joined => ["--emit=" ++ stage.name]
  | separate => ["--emit", stage.name]

/-- A directive with its stage replaced, if it has one. -/
def Directive.withStage (stage : Stage) : Directive → Directive
  | generate invocation => generate { invocation with stage }
  | other => other

/-! ## The forms of arguments -/

theorem ArgumentForm.of_eq_separator_iff {argument : String} :
    ArgumentForm.of argument = separator ↔ argument = "--" := by
  constructor
  · intro formed
    apply String.toList_inj.mp
    rw [of] at formed
    split at formed
    · assumption
    · dsimp only at formed
      split at formed <;> cases formed
    · cases formed
    · cases formed
  · rintro rfl
    rfl

@[simp]
theorem ArgumentForm.of_joined (stage : Stage) :
    ArgumentForm.of ("--emit=" ++ stage.name) =
      long "emit" (some stage.name) := by
  cases stage <;> rfl

@[simp]
theorem ArgumentForm.of_option :
    ArgumentForm.of "--emit" = long "emit" none := by
  rfl

@[simp]
theorem ArgumentForm.of_name (stage : Stage) :
    ArgumentForm.of stage.name = path stage.name := by
  cases stage <;> rfl

namespace Arguments

variable {arguments known : Arguments} {stage : Stage} {rest : List String}

/-- The arguments with a stage chosen. -/
def choose (arguments : Arguments) (stage : Stage) : Arguments :=
  { arguments with stage := some stage }

/-! ## What is taken -/

theorem takePath?_choose (path : String) :
    (arguments.choose stage).takePath? path =
      (arguments.takePath? path).map (·.choose stage) := by
  by_cases refused : (path.isEmpty || arguments.request.isSome) = true <;>
    simp [takePath?, choose, refused]

theorem takeOutput?_choose (path : String) :
    (arguments.choose stage).takeOutput? path =
      (arguments.takeOutput? path).map (·.choose stage) := by
  by_cases refused : (path.isEmpty || arguments.output.isSome) = true <;>
    simp [takeOutput?, choose, refused]

theorem takeVerbose?_choose :
    (arguments.choose stage).takeVerbose? =
      arguments.takeVerbose?.map (·.choose stage) := by
  by_cases refused : arguments.isVerbose = true <;>
    simp [takeVerbose?, choose, refused]

theorem takeStage?_name :
    arguments.takeStage? stage.name =
      if arguments.stage.isSome then none
      else some (arguments.choose stage) := by
  rw [takeStage?, Stage.ofName?_name]
  rfl

/-- A stage can be chosen only once. -/
theorem takeStage?_eq_none (chosen : arguments.stage.isSome = true)
    (name : String) : arguments.takeStage? name = none := by
  rw [takeStage?, if_pos chosen]

theorem stage_of_takePath? {path : String}
    (taken : arguments.takePath? path = some known) :
    known.stage = arguments.stage := by
  rw [takePath?, Option.ite_none_left_eq_some] at taken
  rw [← Option.some.inj taken.2]

theorem stage_of_takeOutput? {path : String}
    (taken : arguments.takeOutput? path = some known) :
    known.stage = arguments.stage := by
  rw [takeOutput?, Option.ite_none_left_eq_some] at taken
  rw [← Option.some.inj taken.2]

theorem stage_of_takeVerbose?
    (taken : arguments.takeVerbose? = some known) :
    known.stage = arguments.stage := by
  rw [takeVerbose?, Option.ite_none_left_eq_some] at taken
  rw [← Option.some.inj taken.2]

/-- Arguments with a stage take the same with another stage. -/
theorem takeValue?_choose (chosen : arguments.stage.isSome = true)
    (wanted : ValueOption) (value : String) :
    (arguments.choose stage).takeValue? wanted value =
      (arguments.takeValue? wanted value).map (·.choose stage) := by
  cases wanted with
  | output => exact takeOutput?_choose value
  | stage =>
    rw [takeValue?, takeValue?, takeStage?_eq_none chosen,
      takeStage?_eq_none rfl]
    rfl

theorem isSome_of_takeValue? (chosen : arguments.stage.isSome = true)
    {wanted : ValueOption} {value : String}
    (taken : arguments.takeValue? wanted value = some known) :
    known.stage.isSome = true := by
  cases wanted with
  | output =>
    rw [stage_of_takeOutput? taken]
    exact chosen
  | stage =>
    rw [takeValue?, takeStage?_eq_none chosen] at taken
    cases taken

/-! ## What an argument does -/

/-- An effect with another stage. -/
def Effect.withStage (stage : Stage) : Effect → Effect
  | proceed arguments => proceed (arguments.choose stage)
  | other => other

theorem Effect.ofTaken_eq_proceed_iff {taken : Option Arguments} :
    ofTaken taken = proceed known ↔ taken = some known := by
  cases taken <;> simp [ofTaken]

theorem Effect.ofTaken_choose (taken : Option Arguments) :
    ofTaken (taken.map (·.choose stage)) =
      (ofTaken taken).withStage stage := by
  cases taken <;> rfl

/-- What an argument does depends on the chosen stage only in that it keeps
it. -/
theorem effect_choose (chosen : arguments.stage.isSome = true)
    (form : ArgumentForm) :
    (arguments.choose stage).effect form =
      (arguments.effect form).withStage stage := by
  have refused : ∀ name, (arguments.choose stage).takeStage? name =
      (arguments.takeStage? name).map (·.choose stage) :=
    takeValue?_choose chosen .stage
  unfold effect
  split
  all_goals
    first
      | rfl
      | simp only [takePath?_choose, takeOutput?_choose, takeVerbose?_choose,
          refused, Effect.ofTaken_choose]

theorem isSome_of_proceed (chosen : arguments.stage.isSome = true)
    {form : ArgumentForm} (found : arguments.effect form = .proceed known) :
    known.stage.isSome = true := by
  unfold effect at found
  split at found
  all_goals
    first
      | cases found
      | rw [Effect.ofTaken_eq_proceed_iff] at found
  · rw [stage_of_takePath? found]
    exact chosen
  · rw [stage_of_takeOutput? found]
    exact chosen
  · rw [stage_of_takeOutput? found]
    exact chosen
  · rw [takeStage?_eq_none chosen] at found
    cases found
  · rw [stage_of_takeVerbose? found]
    exact chosen

/-- An argument that settles the outcome does so without a stage. -/
theorem withStage_of_settle {form : ArgumentForm} {directive : Directive}
    (settled : arguments.effect form = .settle directive) :
    directive.withStage stage = directive := by
  have taken : ∀ known, Effect.ofTaken known = .settle directive →
      directive = .reject := by
    intro known settled
    cases known <;> cases settled
    rfl
  unfold effect at settled
  split at settled
  all_goals
    first
      | rw [taken _ settled]; rfl
      | cases settled; rfl
      | cases settled

theorem effect_eq_paths_iff {form : ArgumentForm} :
    arguments.effect form = .paths ↔ form = .separator := by
  have taken : ∀ known, Effect.ofTaken known ≠ .paths := by
    intro known
    cases known <;> simp [Effect.ofTaken]
  unfold effect
  split <;> simp [taken]

/-! ## What a list of arguments asks for -/

/-- The first argument takes effect, and the others are read after it. -/
theorem readAll_cons (argument : String) (rest : List String) :
    arguments.readAll (argument :: rest) =
      match arguments.effect (ArgumentForm.of argument) with
      | .settle directive => directive
      | .proceed known => known.readAll rest
      | .expect wanted =>
        match rest with
        | [] => .reject
        | next :: others =>
          match nextValue? next >>= arguments.takeValue? wanted with
          | none => .reject
          | some known => known.readAll others
      | .paths => arguments.readPaths rest := by
  cases rest with
  | nil =>
    refine (readAll.eq_2 arguments argument).trans ?_
    cases arguments.effect (ArgumentForm.of argument) <;> rfl
  | cons next others =>
    refine (readAll.eq_3 arguments argument next others).trans ?_
    cases arguments.effect (ArgumentForm.of argument) <;> rfl

theorem directive_choose :
    (arguments.choose stage).directive =
      arguments.directive.withStage stage := by
  cases found : arguments.request <;>
    simp [directive, choose, found, Directive.withStage]

theorem readPaths_choose (chosen : arguments.stage.isSome = true)
    (rest : List String) :
    (arguments.choose stage).readPaths rest =
      (arguments.readPaths rest).withStage stage := by
  induction rest generalizing arguments with
  | nil => exact directive_choose
  | cons path rest ih =>
    rw [readPaths, readPaths, takePath?_choose]
    cases taken : arguments.takePath? path with
    | none => rfl
    | some known =>
      rw [← stage_of_takePath? taken] at chosen
      exact ih chosen

/-- Reading on with another stage gives the same directive with this other
stage.  An option may take two arguments at once. -/
theorem readAll_choose {arguments : Arguments}
    (chosen : arguments.stage.isSome = true) (rest : List String) :
    (arguments.choose stage).readAll rest =
      (arguments.readAll rest).withStage stage := by
  match rest with
  | [] => exact directive_choose
  | argument :: rest =>
    rw [readAll_cons, readAll_cons, effect_choose chosen]
    cases found : arguments.effect (ArgumentForm.of argument) with
    | settle directive => exact (withStage_of_settle found).symm
    | proceed known =>
      exact readAll_choose (isSome_of_proceed chosen found) rest
    | expect wanted =>
      match rest with
      | [] => rfl
      | next :: others =>
        simp only [Effect.withStage, Option.bind_eq_bind]
        cases nextValue? next with
        | none => rfl
        | some value =>
          simp only [Option.bind_some, takeValue?_choose chosen]
          cases taken : arguments.takeValue? wanted value with
          | none => rfl
          | some known =>
            exact readAll_choose (isSome_of_takeValue? chosen taken) others
    | paths => exact readPaths_choose chosen rest
termination_by rest.length

/-- Two paths are one too many. -/
theorem readPaths_two (before after : List String) (first second : String) :
    arguments.readPaths (before ++ first :: second :: after) = .reject := by
  induction before generalizing arguments with
  | nil =>
    rw [List.nil_append, readPaths]
    cases taken : arguments.takePath? first with
    | none => rfl
    | some known =>
      have named : known.request.isSome = true := by
        rw [takePath?, Option.ite_none_left_eq_some] at taken
        rw [← Option.some.inj taken.2]
        rfl
      simp [readPaths, takePath?, named]
  | cons path before ih =>
    rw [List.cons_append, readPaths]
    cases arguments.takePath? path with
    | none => rfl
    | some known => exact ih

/-- The option for the stage chooses the stage, unless there is one. -/
theorem readAll_spelling (spelling : StageSpelling) (stage : Stage)
    (after : List String) :
    arguments.readAll (spelling.arguments stage ++ after) =
      if arguments.stage.isSome then .reject
      else (arguments.choose stage).readAll after := by
  have value : nextValue? stage.name = some stage.name := by
    rw [nextValue?, ArgumentForm.of_name]
  cases spelling with
  | joined =>
    rw [StageSpelling.arguments, List.singleton_append, readAll_cons,
      ArgumentForm.of_joined, effect, takeStage?_name]
    by_cases chosen : arguments.stage.isSome = true
    · rw [if_pos chosen, if_pos chosen]
      rfl
    · rw [if_neg chosen, if_neg chosen]
      rfl
  | separate =>
    rw [StageSpelling.arguments, List.cons_append, List.singleton_append,
      readAll_cons, ArgumentForm.of_option, effect]
    simp only [value, Option.bind_eq_bind, Option.bind_some, takeValue?,
      takeStage?_name]
    by_cases chosen : arguments.stage.isSome = true
    · rw [if_pos chosen, if_pos chosen]
    · rw [if_neg chosen, if_neg chosen]

/-- The option for the stage decides nothing but the stage.  After two hyphens
alone, an argument that looks like this option is a path, and paths differ. -/
theorem exists_withStage {arguments : Arguments} (spelling : StageSpelling)
    (before after : List String)
    (free : spelling = .joined → "--" ∉ before) :
    ∃ directive : Directive, ∀ stage,
      arguments.readAll (before ++ spelling.arguments stage ++ after) =
        directive.withStage stage := by
  match before with
  | [] =>
    by_cases chosen : arguments.stage.isSome = true
    · refine ⟨.reject, fun stage => ?_⟩
      rw [List.nil_append, readAll_spelling, if_pos chosen]
      rfl
    · have first : (arguments.choose .combined).stage.isSome = true := rfl
      refine ⟨(arguments.choose .combined).readAll after, fun stage => ?_⟩
      rw [List.nil_append, readAll_spelling, if_neg chosen]
      exact readAll_choose first after
  | argument :: before =>
    have later : spelling = .joined → "--" ∉ before := fun joined among =>
      free joined (List.mem_cons_of_mem _ among)
    simp only [List.cons_append, readAll_cons]
    cases found : arguments.effect (ArgumentForm.of argument) with
    | settle directive =>
      exact ⟨directive, fun _ => (withStage_of_settle found).symm⟩
    | proceed known => exact exists_withStage spelling before after later
    | expect wanted =>
      match before with
      | [] =>
        refine ⟨.reject, fun stage => ?_⟩
        cases spelling with
        | joined =>
          simp [StageSpelling.arguments, nextValue?, Directive.withStage]
        | separate =>
          simp [StageSpelling.arguments, nextValue?, Directive.withStage]
      | next :: others =>
        simp only [List.cons_append]
        cases nextValue? next >>= arguments.takeValue? wanted with
        | none => exact ⟨.reject, fun _ => rfl⟩
        | some known =>
          exact exists_withStage spelling others after fun joined among =>
            later joined (List.mem_cons_of_mem _ among)
    | paths =>
      have separator := ArgumentForm.of_eq_separator_iff.mp
        (effect_eq_paths_iff.mp found)
      cases spelling with
      | joined => exact absurd (by simp [separator]) (free rfl)
      | separate =>
        refine ⟨.reject, fun stage => ?_⟩
        rw [StageSpelling.arguments, List.append_assoc]
        exact readPaths_two before after "--emit" stage.name
termination_by before.length

end Arguments

/-- Lists of arguments that differ only in the stage they name ask for the
same, except for the stage. -/
theorem Directive.exists_withStage (spelling : StageSpelling)
    (before after : List String)
    (free : spelling = .joined → "--" ∉ before) :
    ∃ directive : Directive, ∀ stage,
      ofArguments (before ++ spelling.arguments stage ++ after) =
        directive.withStage stage :=
  Arguments.exists_withStage spelling before after free

end Command

end SparseLoop
