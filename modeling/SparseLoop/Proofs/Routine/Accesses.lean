import SparseLoop.Proofs.Expression.Variables
import SparseLoop.Proofs.Routine.Control

/-!
# Accesses to the index variables

A run assigns the index variables and reads them: in the head of a counted
loop, in the expressions of statements, and in guards.  Its accesses come in
stretches.  Each iteration of a counted loop is one, and so is each statement
outside of loops.

A stretch is fresh if it reads a variable only inside a loop, and only after an
assignment in the same iteration.  That statements keep to this is seen from
their expressions: `Statement.IsOver` tells the variables that have to be set,
and where they are, the statement also does not get stuck.
-/

namespace SparseLoop

/-- An assignment to a variable, or a use of its value. -/
inductive Access where
  | assign (symbol : Symbol)
  | read (symbol : Symbol)
deriving DecidableEq, Repr

/-- What a run does to the variables in one iteration of a counted loop, or in
one statement outside of loops. -/
structure Stretch where
  /-- Whether it belongs to a counted loop. -/
  isRepeated : Bool
  accesses : List Access
deriving DecidableEq, Repr

/-- Each read is inside a loop, after an assignment in the same iteration. -/
def Stretch.IsFresh (stretch : Stretch) : Prop :=
  ∀ before symbol after,
    stretch.accesses = before ++ .read symbol :: after →
      stretch.isRepeated = true ∧ .assign symbol ∈ before

/-! ## What is read -/

/-- The variables that a copy reads. -/
def Copy.variablesRead (environment : Environment Symbol) (copy : Copy) :
    List Symbol :=
  copy.target.variablesRead environment ++
    copy.source.variablesRead environment

namespace Chain

variable {α ν : Type}

/-- The variables that are read by the guards up to the first that holds. -/
def guardsRead (environment : Environment ν) (variableName : ν) :
    List (List IterationRange × α) → List ν
  | [] => []
  | (ranges, _) :: rest =>
    match IterationRange.guard? ranges variableName with
    | none => []
    | some condition =>
      condition.variablesRead environment ++
        if condition.value? environment = some 0 then
          guardsRead environment variableName rest
        else
          []

/-- The variables that a chain reads, given those that a body reads. -/
def variablesRead (environment : Environment ν) (variableName : ν)
    (ofBody : α → List ν) (chain : Chain α) : List ν :=
  guardsRead environment variableName chain.guarded ++
    (chain.taken? environment variableName).join.elim [] ofBody

end Chain

/-- The variables that the copies of a bucket read. -/
def BucketCopies.variablesRead (environment : Environment Symbol)
    (copies : BucketCopies) : List Symbol :=
  copies.direct.flatMap (Copy.variablesRead environment) ++
    copies.sectioned.flatMap (Chain.variablesRead environment .key
      (List.flatMap (Copy.variablesRead environment)))

namespace Statement

/-- The variables that a statement reads. -/
def variablesRead (environment : Environment Symbol) :
    Statement → List Symbol
  | point (.result position) => position.variablesRead environment
  | setKey key => key.variablesRead environment
  | call _ (some key) => key.variablesRead environment
  | add copy => copy.variablesRead environment
  | copyBack chain =>
    chain.variablesRead environment .key
      (BucketCopies.variablesRead environment)
  | _ => []

/-- The variables that a statement assigns. -/
def assigned : Statement → List Symbol
  | setKey _ => [.key]
  | _ => []

/-- The accesses of a statement: what it assigns, it assigns last. -/
def accesses (tables : List KeyTable) (words : Words)
    (statement : Statement) : List Access :=
  (statement.variablesRead (words.environment tables)).map .read ++
    statement.assigned.map .assign

end Statement

/-- What is seen of a list of items as far as they run. -/
def seenAll {σ ι β : Type} (step : σ → ι → Option (σ × List Action))
    (seen : σ → ι → List β) : σ → List ι → List β
  | _, [] => []
  | state, item :: rest =>
    seen state item ++
      match step state item with
      | none => []
      | some (next, _) => seenAll step seen next rest

namespace Part

/-- The accesses in one iteration of a counted loop.  The variable is set and
compared with the number of runs; after the body it is read once more, to be
increased. -/
def turnAccesses (tables : List KeyTable) (body : List Statement)
    (words : Words) (iteration : Nat) : List Access :=
  [.assign .iteration, .read .iteration] ++
    seenAll (Statement.control? tables) (Statement.accesses tables)
      { words with iteration := some (UInt64.ofNat iteration) } body ++
    if (iterate? tables body words iteration).isSome then
      [.read .iteration]
    else
      []

/-- The stretches of a part.  The comparison that ends a loop is the last of
the loop. -/
def stretches (tables : List KeyTable) (words : Words) :
    Part → List Stretch
  | once statement => [⟨false, statement.accesses tables words⟩]
  | counted count body =>
    seenAll (iterate? tables body)
        (fun words iteration =>
          [⟨true, turnAccesses tables body words iteration⟩])
        words (List.range count) ++
      if (runAll? (iterate? tables body) words (List.range count)).isSome then
        [⟨true, [.assign .iteration, .read .iteration]⟩]
      else
        []

end Part

/-- The stretches of a run, from index variables that are not set. -/
def UsageFunction.stretches (options : Options) (naming : GroupNaming)
    (function : UsageFunction) : List Stretch :=
  seenAll (Part.control? function.keyTables)
    (Part.stretches function.keyTables) ⟨none, none⟩
    (function.parts options naming)

section SeenAll

variable {σ ι β : Type} {step : σ → ι → Option (σ × List Action)}
  {seen : σ → ι → List β} {state middle : σ} {items others : List ι}
  {actions : List Action}

/-- What is seen is seen of an item. -/
theorem mem_seenAll {found : β}
    (member : found ∈ seenAll step seen state items) :
    ∃ moment, ∃ item ∈ items, found ∈ seen moment item := by
  induction items generalizing state with
  | nil => cases member
  | cons item rest ih =>
    rw [seenAll] at member
    rcases List.mem_append.mp member with here | later
    · exact ⟨state, item, List.mem_cons_self, here⟩
    · split at later
      · cases later
      · obtain ⟨moment, other, among, there⟩ := ih later
        exact ⟨moment, other, List.mem_cons_of_mem _ among, there⟩

theorem seenAll_append (seen : σ → ι → List β)
    (runs : Runs step state items middle actions) :
    seenAll step seen state (items ++ others) =
      seenAll step seen state items ++ seenAll step seen middle others := by
  induction items generalizing state actions with
  | nil =>
    cases runs
    rfl
  | cons item rest ih =>
    obtain ⟨next, one, more, stepped, remaining, _⟩ := runs.exists_of_cons
    rw [List.cons_append, seenAll, seenAll, stepped]
    simp only [ih remaining, List.append_assoc]

/-- Items that run from any state run one after the other. -/
theorem exists_runs
    (total : ∀ item ∈ items, ∀ state, ∃ after actions,
      step state item = some (after, actions)) (state : σ) :
    ∃ after actions, Runs step state items after actions := by
  induction items generalizing state with
  | nil => exact ⟨state, [], Runs.nil state⟩
  | cons item rest ih =>
    obtain ⟨next, first, stepped⟩ := total item List.mem_cons_self state
    obtain ⟨after, later, runs⟩ :=
      ih (fun other among => total other (List.mem_cons_of_mem _ among)) next
    exact ⟨after, first ++ later, runs.cons stepped⟩

end SeenAll

/-! ## Reads after assignments -/

/-- Each read is of a known variable or comes after an assignment. -/
def FreshFrom (known : List Symbol) (accesses : List Access) : Prop :=
  ∀ before symbol after, accesses = before ++ .read symbol :: after →
    symbol ∈ known ∨ .assign symbol ∈ before

section Fresh

variable {known others : List Symbol} {front back : List Access}

theorem freshFrom_of_known
    (within : ∀ symbol, .read symbol ∈ front → symbol ∈ known) :
    FreshFrom known front := by
  rintro before symbol after rfl
  exact .inl (within symbol (by simp))

/-- What the front assigns is known at the back. -/
theorem FreshFrom.append (first : FreshFrom known front)
    (second : FreshFrom others back)
    (given : ∀ symbol ∈ others, symbol ∈ known ∨ .assign symbol ∈ front) :
    FreshFrom known (front ++ back) := by
  intro before symbol after equal
  have fromBack : ∀ between, back = between ++ .read symbol :: after →
      symbol ∈ known ∨ .assign symbol ∈ front ++ between := by
    intro between split
    rcases second between symbol after split with ready | done
    · exact (given symbol ready).imp_right (List.mem_append_left _)
    · exact .inr (List.mem_append_right _ done)
  rcases List.append_eq_append_iff.mp equal with
    ⟨between, rfl, split⟩ | ⟨between, split, remaining⟩
  · exact fromBack between split
  · cases between with
    | nil =>
      rw [List.append_nil] at split
      subst split
      rw [← List.append_nil front]
      exact fromBack [] remaining.symm
    | cons access between =>
      cases remaining
      exact first before symbol between split

/-- A loop's stretch that starts with nothing known is fresh. -/
theorem FreshFrom.isFresh (fresh : FreshFrom [] front) :
    Stretch.IsFresh ⟨true, front⟩ := fun before symbol after equal =>
  ⟨rfl, (fresh before symbol after equal).resolve_left List.not_mem_nil⟩

theorem Stretch.isFresh_nil (isRepeated : Bool) :
    IsFresh ⟨isRepeated, []⟩ := by
  intro before symbol after equal
  simp at equal

end Fresh

/-! ## What is written -/

theorem flatMap_subset {α β : Type} {items : List α} {known : List β}
    {ofItem : α → List β} (within : ∀ item ∈ items, ofItem item ⊆ known) :
    items.flatMap ofItem ⊆ known := by
  intro member listed
  obtain ⟨item, among, inside⟩ := List.mem_flatMap.mp listed
  exact within item among inside

/-- The variables that occur in a copy. -/
def Copy.variableNames (copy : Copy) : List Symbol :=
  copy.target.variableNames ++ copy.source.variableNames

/-- A copy over some variables. -/
structure Copy.IsOver (known : List Symbol) (copy : Copy) : Prop where
  target : copy.target.IsOver known
  source : copy.source.IsOver known

namespace Copy

variable {known : List Symbol} {copy : Copy}
  {environment : Environment Symbol}

theorem ofPatterns_isOver (target source : IndexPattern) {isUnrolled : Bool}
    (moving : isUnrolled = false → Symbol.iteration ∈ known) :
    (ofPatterns isUnrolled target source).IsOver known :=
  ⟨target.current_isOver moving, source.current_isOver moving⟩

theorem IsOver.variableNames_subset (confined : copy.IsOver known) :
    copy.variableNames ⊆ known :=
  List.append_subset.mpr ⟨confined.target.within, confined.source.within⟩

theorem IsOver.variablesRead_subset (confined : copy.IsOver known)
    (environment : Environment Symbol) :
    copy.variablesRead environment ⊆ known :=
  List.append_subset.mpr ⟨confined.target.variablesRead_subset environment,
    confined.source.variablesRead_subset environment⟩

theorem IsOver.exists_action (confined : copy.IsOver known)
    (set : environment.Sets known) :
    ∃ action, copy.action? environment = some action := by
  obtain ⟨target, targetValue⟩ := confined.target.exists_value set
  obtain ⟨source, sourceValue⟩ := confined.source.exists_value set
  exact ⟨_, by rw [action?, targetValue, sourceValue]; rfl⟩

end Copy

namespace Chain

variable {α ν : Type} {known : List ν} {variableName : ν}
  {environment : Environment ν} {chain : Chain α} {ofBody : α → List ν}

/-- The guards of a chain. -/
def guards (chain : Chain α) : List (List IterationRange) :=
  chain.guarded.map (·.1)

/-- The variables that occur in a chain, given those in a body. -/
def variableNames (variableName : ν) (ofBody : α → List ν)
    (chain : Chain α) : List ν :=
  chain.guards.flatMap (fun ranges =>
      (IterationRange.guard? ranges variableName).elim []
        Expression.variableNames) ++
    chain.bodies.flatMap ofBody

/-- A chain with a last branch, where each guard has ranges and is over some
variables. -/
structure IsOver (known : List ν) (variableName : ν) (chain : Chain α) :
    Prop where
  inhabited : ∀ ranges ∈ chain.guards, ranges ≠ []
  closed : ∃ body, chain.otherwise = some body
  tested : chain.guards ≠ [] → variableName ∈ known

theorem guardsRead_subset (environment : Environment ν) (variableName : ν)
    (guarded : List (List IterationRange × α)) :
    guardsRead environment variableName guarded ⊆ [variableName] := by
  induction guarded with
  | nil => exact List.nil_subset _
  | cons branch rest ih =>
    rw [guardsRead]
    split
    · exact List.nil_subset _
    · next condition written =>
      refine List.append_subset.mpr
        ⟨(IterationRange.guard?_isOver written).variablesRead_subset
          environment, ?_⟩
      split
      · exact ih
      · exact List.nil_subset _

/-- Of branches whose guards have values, one is taken. -/
theorem exists_firstTaken {guarded : List (List IterationRange × α)}
    (last : α) (inhabited : ∀ branch ∈ guarded, branch.1 ≠ [])
    (set : guarded ≠ [] → environment.Sets [variableName]) :
    ∃ body ∈ guarded.map (·.2) ++ [last],
      firstTaken? environment variableName (some last) guarded =
        some (some body) := by
  induction guarded with
  | nil => exact ⟨last, List.mem_singleton_self last, rfl⟩
  | cons branch rest ih =>
    obtain ⟨ranges, first⟩ := branch
    have isSet := set (List.cons_ne_nil _ _)
    obtain ⟨condition, written⟩ := IterationRange.exists_guard?
      (inhabited _ List.mem_cons_self) variableName
    obtain ⟨value, evaluates⟩ :=
      (IterationRange.guard?_isOver written).exists_value isSet
    obtain ⟨body, among, later⟩ :=
      ih (fun other member => inhabited other (List.mem_cons_of_mem _ member))
        fun _ => isSet
    simp only [firstTaken?, written, evaluates, Option.bind_eq_bind,
      Option.bind_some]
    split
    · exact ⟨body, List.mem_cons_of_mem _ among, later⟩
    · exact ⟨first, List.mem_cons_self, rfl⟩

/-- A chain over variables that are set takes a branch. -/
theorem IsOver.exists_taken (confined : chain.IsOver known variableName)
    (set : environment.Sets known) :
    ∃ body ∈ chain.bodies,
      chain.taken? environment variableName = some (some body) := by
  obtain ⟨guarded, otherwise⟩ := chain
  obtain ⟨last, equal⟩ := confined.closed
  simp only at equal
  subst equal
  rw [taken?_of_otherwise]
  refine exists_firstTaken last (fun branch member => ?_)
    fun several symbol member => ?_
  · exact confined.inhabited branch.1 (List.mem_map_of_mem member)
  · rw [List.mem_singleton.mp member]
    exact set variableName (confined.tested (mt List.map_eq_nil_iff.mp several))

/-- Over known variables, only known variables are read. -/
theorem IsOver.variablesRead_subset (confined : chain.IsOver known variableName)
    (set : environment.Sets known)
    (bodies : ∀ body ∈ chain.bodies, ofBody body ⊆ known) :
    chain.variablesRead environment variableName ofBody ⊆ known := by
  obtain ⟨body, among, taken⟩ := confined.exists_taken set
  rw [variablesRead, taken]
  refine List.append_subset.mpr ⟨?_, bodies body among⟩
  cases listed : chain.guarded with
  | nil => exact List.nil_subset _
  | cons branch rest =>
    have several : chain.guards ≠ [] := by simp [guards, listed]
    exact List.Subset.trans (guardsRead_subset environment variableName _)
      (List.cons_subset.mpr ⟨confined.tested several, List.nil_subset _⟩)

theorem IsOver.variableNames_subset (confined : chain.IsOver known variableName)
    (bodies : ∀ body ∈ chain.bodies, ofBody body ⊆ known) :
    chain.variableNames variableName ofBody ⊆ known := by
  refine List.append_subset.mpr
    ⟨flatMap_subset fun ranges member => ?_,
      flatMap_subset bodies⟩
  cases written : IterationRange.guard? ranges variableName with
  | none => exact List.nil_subset _
  | some condition =>
    exact List.Subset.trans (IterationRange.guard?_isOver written).within
      (List.cons_subset.mpr
        ⟨confined.tested (List.ne_nil_of_mem member), List.nil_subset _⟩)

/-- A chain over no variables has no guard. -/
theorem IsOver.guards_eq_nil (confined : chain.IsOver [] variableName) :
    chain.guards = [] := by
  by_contra several
  exact List.not_mem_nil (confined.tested several)

end Chain

namespace BucketCopies

variable {known : List Symbol} {copies : BucketCopies}
  {environment : Environment Symbol}

/-- The variables that occur in the copies of a bucket. -/
def variableNames (copies : BucketCopies) : List Symbol :=
  copies.direct.flatMap Copy.variableNames ++
    copies.sectioned.flatMap (Chain.variableNames .key
      (List.flatMap Copy.variableNames))

/-- Copies of a bucket over some variables. -/
structure IsOver (known : List Symbol) (copies : BucketCopies) : Prop where
  direct : ∀ copy ∈ copies.direct, copy.IsOver known
  chains : ∀ chain ∈ copies.sectioned, chain.IsOver known .key
  sectioned : ∀ chain ∈ copies.sectioned, ∀ body ∈ chain.bodies,
    ∀ copy ∈ body, copy.IsOver known

theorem IsOver.variableNames_subset (confined : copies.IsOver known) :
    copies.variableNames ⊆ known := by
  refine List.append_subset.mpr
    ⟨flatMap_subset fun copy member => ?_,
      flatMap_subset fun chain member => ?_⟩
  · exact (confined.direct copy member).variableNames_subset
  · refine (confined.chains chain member).variableNames_subset fun body among =>
      flatMap_subset fun copy inside => ?_
    exact (confined.sectioned chain member body among copy
      inside).variableNames_subset

theorem IsOver.variablesRead_subset (confined : copies.IsOver known)
    (set : environment.Sets known) :
    copies.variablesRead environment ⊆ known := by
  refine List.append_subset.mpr
    ⟨flatMap_subset fun copy member => ?_,
      flatMap_subset fun chain member => ?_⟩
  · exact (confined.direct copy member).variablesRead_subset environment
  · refine (confined.chains chain member).variablesRead_subset set
      fun body among => flatMap_subset fun copy inside => ?_
    exact (confined.sectioned chain member body among copy
      inside).variablesRead_subset environment

/-- Where the variables are set, some copies are chosen. -/
theorem IsOver.exists_chosen (confined : copies.IsOver known)
    (set : environment.Sets known) :
    ∃ chosen, copies.chosen? environment = some chosen ∧
      ∀ copy ∈ chosen, copy.IsOver known := by
  have taken : ∀ chain ∈ copies.sectioned, ∃ part : Option (List Copy),
      (∀ copy ∈ part.getD [], copy.IsOver known) ∧
        chain.taken? environment .key = some part := by
    intro chain member
    obtain ⟨body, among, takes⟩ :=
      (confined.chains chain member).exists_taken set
    exact ⟨some body, confined.sectioned chain member body among, takes⟩
  obtain ⟨parts, related⟩ := Traversal.exists_forall₂ taken
  have visited : copies.sectioned.mapM (Chain.taken? environment .key) =
      some parts :=
    Traversal.mapM_eq_some_iff.mpr (related.imp fun _ _ both => both.2)
  refine ⟨copies.direct ++ parts.flatMap (·.getD []), ?_, ?_⟩
  · rw [chosen?, visited]
    rfl
  · intro copy member
    rcases List.mem_append.mp member with direct | sectioned
    · exact confined.direct copy direct
    · obtain ⟨part, among, inside⟩ := List.mem_flatMap.mp sectioned
      obtain ⟨_, _, isOver, _⟩ := Traversal.exists_left_of_mem related among
      exact isOver copy inside

end BucketCopies

namespace Statement

variable {known : List Symbol} {statement : Statement}
  {tables : List KeyTable} {words : Words}

/-- The variables that occur in a statement. -/
def variableNames : Statement → List Symbol
  | point (.result position) => position.variableNames
  | setKey key => key.variableNames
  | call _ (some key) => key.variableNames
  | add copy => copy.variableNames
  | copyBack chain => chain.variableNames .key BucketCopies.variableNames
  | _ => []

/-- The guards in a statement. -/
def guards : Statement → List (List IterationRange)
  | copyBack chain =>
    chain.guards ++ chain.bodies.flatMap fun copies =>
      copies.sectioned.flatMap Chain.guards
  | _ => []

/-- A statement over some variables that assigns none. -/
def IsOver (known : List Symbol) : Statement → Prop
  | point (.result position) => position.IsOver known
  | setKey _ => False
  | call _ (some key) => key.IsOver known
  | add copy => copy.IsOver known
  | copyBack chain =>
    chain.IsOver known .key ∧ ∀ copies ∈ chain.bodies, copies.IsOver known
  | _ => True

theorem IsOver.assigned_eq_nil (confined : statement.IsOver known) :
    statement.assigned = [] := by
  cases statement with
  | setKey => exact confined.elim
  | _ => rfl

theorem IsOver.variableNames_subset (confined : statement.IsOver known) :
    statement.variableNames ⊆ known := by
  match statement, confined with
  | point (.result _), confined => exact confined.within
  | call _ (some _), confined => exact confined.within
  | add _, confined => exact Copy.IsOver.variableNames_subset confined
  | copyBack _, ⟨tested, bodies⟩ =>
    exact tested.variableNames_subset fun copies among =>
      (bodies copies among).variableNames_subset
  | point .scratch, _ | call _ none, _ | blank, _ | takeInput _ _, _
  | takeUnit, _ | clearResult _, _ | clearScratch _, _ =>
    exact List.nil_subset _

theorem IsOver.variablesRead_subset (confined : statement.IsOver known)
    {environment : Environment Symbol} (set : environment.Sets known) :
    statement.variablesRead environment ⊆ known := by
  match statement, confined with
  | point (.result _), confined =>
    exact Expression.IsOver.variablesRead_subset confined environment
  | call _ (some _), confined =>
    exact Expression.IsOver.variablesRead_subset confined environment
  | add _, confined =>
    exact Copy.IsOver.variablesRead_subset confined environment
  | copyBack _, ⟨tested, bodies⟩ =>
    exact tested.variablesRead_subset set fun copies among =>
      (bodies copies among).variablesRead_subset set
  | point .scratch, _ | call _ none, _ | blank, _ | takeInput _ _, _
  | takeUnit, _ | clearResult _, _ | clearScratch _, _ =>
    exact List.nil_subset _

/-- A statement over no variables has no guard. -/
theorem IsOver.guards_eq_nil (confined : statement.IsOver []) :
    statement.guards = [] := by
  cases statement with
  | copyBack chain =>
    obtain ⟨tested, bodies⟩ := confined
    refine List.append_eq_nil_iff.mpr ⟨tested.guards_eq_nil,
      List.flatMap_eq_nil_iff.mpr fun copies among =>
        List.flatMap_eq_nil_iff.mpr fun inner member => ?_⟩
    exact ((bodies copies among).chains inner member).guards_eq_nil
  | _ => rfl

/-- Where its variables are set, a statement runs and leaves them as they
are. -/
theorem IsOver.exists_control (confined : statement.IsOver known)
    (set : (words.environment tables).Sets known) :
    ∃ actions, statement.control? tables words = some (words, actions) := by
  match statement, confined with
  | point (.result _), confined =>
    obtain ⟨value, evaluates⟩ := confined.exists_value set
    exact ⟨[.point .result value.toNat], by
      simp [control?, Destination.action?, evaluates]⟩
  | call function (some _), confined =>
    obtain ⟨value, evaluates⟩ := confined.exists_value set
    exact ⟨[.call function (some value.toNat)], by
      simp [control?, evaluates]⟩
  | add _, confined =>
    obtain ⟨action, acts⟩ := confined.exists_action set
    exact ⟨[action], by simp [control?, acts]⟩
  | copyBack _, ⟨tested, bodies⟩ =>
    obtain ⟨copies, among, taken⟩ := tested.exists_taken set
    obtain ⟨chosen, chooses, isOver⟩ :=
      (bodies copies among).exists_chosen set
    obtain ⟨actions, related⟩ := Traversal.exists_forall₂
      fun copy member => (isOver copy member).exists_action set
    have acts := Traversal.mapM_eq_some_iff.mpr related
    exact ⟨actions, by
      simp [control?, GroupAccess.copiesAfter?, taken, chooses, acts]⟩
  | point .scratch, _ | call _ none, _ | blank, _ | takeInput _ _, _
  | takeUnit, _ | clearResult _, _ | clearScratch _, _ =>
    exact ⟨_, rfl⟩

/-! ## Runs of statements -/

/-- Statements run, and each read is of a known variable or comes after an
assignment. -/
def Passes (tables : List KeyTable) (known : List Symbol) (before : Words)
    (statements : List Statement) (after : Words) : Prop :=
  ∃ actions, Runs (control? tables) before statements after actions ∧
    FreshFrom known (seenAll (control? tables) (accesses tables) before
      statements)

variable {before middle after : Words} {front back : List Statement}

theorem Passes.append (first : Passes tables known before front middle)
    (second : Passes tables known middle back after) :
    Passes tables known before (front ++ back) after := by
  obtain ⟨actions, runs, fresh⟩ := first
  obtain ⟨others, later, freshLater⟩ := second
  refine ⟨actions ++ others, runs.append later, ?_⟩
  rw [seenAll_append _ runs]
  exact fresh.append freshLater fun _ => .inl

/-- Statements over variables that are set pass and change nothing. -/
theorem passes_of_isOver {statements : List Statement}
    (confined : ∀ statement ∈ statements, statement.IsOver known)
    (set : (words.environment tables).Sets known) :
    Passes tables known words statements words := by
  induction statements with
  | nil => exact ⟨[], Runs.nil words, freshFrom_of_known nofun⟩
  | cons statement rest ih =>
    have first := confined statement List.mem_cons_self
    obtain ⟨actions, runs⟩ := first.exists_control set
    have one : Passes tables known words [statement] words := by
      refine ⟨actions, Runs.single runs,
        freshFrom_of_known fun symbol member => ?_⟩
      simp only [seenAll, runs, List.append_nil, accesses,
        first.assigned_eq_nil, List.map_nil, List.mem_map] at member
      obtain ⟨_, read, equal⟩ := member
      cases equal
      exact first.variablesRead_subset set read
    exact one.append
      (ih fun other among => confined other (List.mem_cons_of_mem _ among))

/-- Where the iteration variable is kept, lists of statements pass one after
the other. -/
theorem passes_flatMap {κ : Type} {moment : Option UInt64}
    {items : List κ} {ofItem : κ → List Statement}
    (each : ∀ item ∈ items, ∀ before : Words, before.iteration = moment →
      ∃ after, after.iteration = moment ∧
        Passes tables known before (ofItem item) after)
    (before : Words) (now : before.iteration = moment) :
    ∃ after, after.iteration = moment ∧
      Passes tables known before (items.flatMap ofItem) after := by
  induction items generalizing before with
  | nil => exact ⟨before, now, [], Runs.nil before, freshFrom_of_known nofun⟩
  | cons item rest ih =>
    obtain ⟨middle, kept, first⟩ := each item List.mem_cons_self before now
    obtain ⟨after, last, others⟩ :=
      ih (fun other among => each other (List.mem_cons_of_mem _ among))
        middle kept
    exact ⟨after, last, first.append others⟩

/-- Once the key variable is set, it is known. -/
theorem Passes.setKey {key : Expression Symbol} {value : UInt64}
    (evaluates : key.value? (before.environment tables) = some value)
    (within : key.variablesRead (before.environment tables) ⊆ known)
    (rest : Passes tables (.key :: known) { before with key := some value }
      back after) :
    Passes tables known before (.setKey key :: back) after := by
  obtain ⟨actions, runs, fresh⟩ := rest
  have stepped : (Statement.setKey key).control? tables before =
      some ({ before with key := some value }, []) := by
    simp [control?, evaluates]
  refine ⟨[] ++ actions, runs.cons stepped, ?_⟩
  rw [seenAll, stepped]
  refine FreshFrom.append (freshFrom_of_known fun symbol member => ?_) fresh
    fun symbol either => ?_
  · simp only [accesses, assigned, List.map_cons, List.map_nil,
      List.mem_append, List.mem_map, List.mem_singleton] at member
    rcases member with ⟨_, read, equal⟩ | equal
    · cases equal
      exact within read
    · cases equal
  · rcases List.mem_cons.mp either with rfl | already
    · exact .inr (by simp [accesses, assigned])
    · exact .inl already

end Statement

/-! ## Runs of parts -/

/-- The head of a loop reads its variable after it was assigned. -/
theorem freshFrom_head :
    FreshFrom [] [.assign .iteration, .read .iteration] := by
  have assigned : FreshFrom [] [.assign .iteration] :=
    freshFrom_of_known (by simp)
  have compared : FreshFrom [.iteration] [.read .iteration] :=
    freshFrom_of_known (by simp)
  exact assigned.append compared (by simp)

namespace Part

variable {tables : List KeyTable} {body : List Statement} {count : Nat}

/-- From any variables a part runs, and its stretches are fresh. -/
structure IsSafe (tables : List KeyTable) (part : Part) : Prop where
  runs : ∀ words, ∃ after actions,
    part.control? tables words = some (after, actions)
  fresh : ∀ words, ∀ stretch ∈ part.stretches tables words, stretch.IsFresh

theorem once_isSafe {statement : Statement} (confined : statement.IsOver []) :
    (once statement).IsSafe tables where
  runs words := by
    have set : (words.environment tables).Sets [] := nofun
    obtain ⟨actions, runs⟩ := confined.exists_control set
    exact ⟨words, actions, runs⟩
  fresh words stretch member := by
    have set : (words.environment tables).Sets [] := nofun
    have unread := List.subset_nil.mp (confined.variablesRead_subset set)
    rw [stretches, List.mem_singleton] at member
    rw [member, Statement.accesses, unread, confined.assigned_eq_nil]
    exact Stretch.isFresh_nil false

theorem turnAccesses_isFresh {iteration : Nat} {words after : Words}
    (passes : Statement.Passes tables [.iteration]
      { words with iteration := some (UInt64.ofNat iteration) } body after) :
    Stretch.IsFresh ⟨true, turnAccesses tables body words iteration⟩ := by
  obtain ⟨_, _, fresh⟩ := passes
  have turned := freshFrom_head.append fresh (by simp)
  have increased : FreshFrom [.iteration]
      (if (iterate? tables body words iteration).isSome then
        [.read .iteration] else []) := by
    refine freshFrom_of_known fun symbol member => ?_
    split at member
    · cases List.mem_singleton.mp member
      exact List.mem_singleton_self _
    · cases member
  exact (turned.append increased (by simp)).isFresh

/-- A counted loop is safe if its body passes at each iteration, whatever the
key variable holds. -/
theorem counted_isSafe
    (passes : ∀ iteration < count, ∀ words : Words,
      words.iteration = some (UInt64.ofNat iteration) →
        ∃ after, Statement.Passes tables [.iteration] words body after) :
    (counted count body).IsSafe tables := by
  constructor
  · intro words
    have turns : ∀ iteration ∈ List.range count, ∀ words, ∃ after actions,
        iterate? tables body words iteration = some (after, actions) := by
      intro iteration within words
      obtain ⟨after, actions, runs, _⟩ := passes iteration
        (List.mem_range.mp within)
        { words with iteration := some (UInt64.ofNat iteration) } rfl
      exact ⟨after, actions, runs⟩
    obtain ⟨after, actions, runs⟩ := exists_runs turns words
    rw [Runs] at runs
    exact ⟨{ after with iteration := some (UInt64.ofNat count) }, actions,
      by simp [control?, runs]⟩
  · intro words stretch member
    rcases List.mem_append.mp member with turn | last
    · obtain ⟨moment, iteration, within, equal⟩ := mem_seenAll turn
      obtain ⟨after, passed⟩ := passes iteration (List.mem_range.mp within)
        { moment with iteration := some (UInt64.ofNat iteration) } rfl
      rw [List.mem_singleton.mp equal]
      exact turnAccesses_isFresh passed
    · split at last
      · rw [List.mem_singleton.mp last]
        exact freshFrom_head.isFresh
      · cases last

end Part

/-- A function of safe parts runs, and its stretches are fresh. -/
theorem UsageFunction.runs_of_isSafe {options : Options}
    {naming : GroupNaming} {function : UsageFunction}
    (safe : ∀ part ∈ function.parts options naming,
      part.IsSafe function.keyTables) :
    (∃ actions, function.actions? options naming = some actions) ∧
      ∀ stretch ∈ function.stretches options naming, stretch.IsFresh := by
  constructor
  · obtain ⟨after, actions, runs⟩ :=
      exists_runs (fun part member => (safe part member).runs) ⟨none, none⟩
    exact ⟨actions, by rw [actions?, runs]; rfl⟩
  · intro stretch member
    obtain ⟨moment, part, among, inside⟩ := mem_seenAll member
    exact (safe part among).fresh moment stretch inside

end SparseLoop
