import SparseLoop.Proofs.Routine.CopyBack
import SparseLoop.Proofs.Routine.CopyReading

/-!
# Running the lines of copies

The lines after a call are run one after the other.  A run knows the constructs
that are open, the innermost first, and how far each of them is.  A copy is made
if its line stands in the taken branch of every open construct; elsewhere it is
passed over, and so are constructs that begin there.

The lines of a construct leave the open constructs as they are.  Where the
construct does not run, they make no copies; where it runs, they make those of
the branch that the chain takes.  Both are inductions on the guards.
-/

namespace SparseLoop

open Traversal

/-- How far an open construct is. -/
inductive Progress where
  /-- No test has held. -/
  | searching
  /-- The branch that is taken runs. -/
  | running
  /-- The branch that is taken is over, or the construct does not run. -/
  | finished
deriving DecidableEq, Repr

/-- The progress after a test has come out as some value. -/
def Progress.ofTest (value : UInt64) : Progress :=
  if value = 0 then searching else running

/-- A construct whose end is still to come. -/
structure OpenConstruct where
  progress : Progress
  /-- Whether its last branch has begun. -/
  isLast : Bool
deriving DecidableEq, Repr

/-- The state of a run: the open constructs, innermost first, and the copies
that were made, each as its place in the result and in the scratch buffer. -/
structure CopyRun where
  constructs : List OpenConstruct := []
  copies : List (Nat × Nat) := []
deriving DecidableEq, Repr

namespace CopyRun

/-- Whether copies are made. -/
def isActive (run : CopyRun) : Bool :=
  run.constructs.all (·.progress == .running)

/-- Runs one line, unless an expression has no value or the line does not belong
here. -/
def step (environment : Environment String) (run : CopyRun)
    (line : CopyLine) : Option CopyRun :=
  match line, run.constructs with
  | .copy target source, _ =>
    if run.isActive then do
      let place ← target.value? environment
      let entry ← source.value? environment
      pure { run with copies := run.copies ++ [(place.toNat, entry.toNat)] }
    else
      some run
  | .opening condition, constructs =>
    if run.isActive then do
      let value ← condition.value? environment
      pure { run with constructs := ⟨.ofTest value, false⟩ :: constructs }
    else
      some { run with constructs := ⟨.finished, false⟩ :: constructs }
  | .alternative condition, ⟨.searching, false⟩ :: outer => do
    let value ← condition.value? environment
    pure { run with constructs := ⟨.ofTest value, false⟩ :: outer }
  | .alternative _, ⟨_, false⟩ :: outer =>
    some { run with constructs := ⟨.finished, false⟩ :: outer }
  | .last, ⟨.searching, false⟩ :: outer =>
    some { run with constructs := ⟨.running, true⟩ :: outer }
  | .last, ⟨_, false⟩ :: outer =>
    some { run with constructs := ⟨.finished, true⟩ :: outer }
  | .closing, _ :: outer => some { run with constructs := outer }
  | _, _ => none

/-- Runs some lines one after the other. -/
def lines? (resultName : String) (environment : Environment String) :
    CopyRun → List String → Option CopyRun :=
  List.foldlM fun run line => do
    run.step environment (← CopyLine.read? resultName line)

/-- The copies that some lines make, given the name of the result.  Every
construct has to end. -/
def copiesOf? (resultName : String) (environment : Environment String)
    (lines : List String) : Option (List (Nat × Nat)) := do
  let last ← lines? resultName environment {} lines
  if last.constructs.isEmpty then some last.copies else none

variable {resultName : String} {environment : Environment String}
  {run middle : CopyRun} {line : String} {front back : List String}

theorem lines?_cons {found : CopyLine}
    (read : CopyLine.read? resultName line = some found) :
    lines? resultName environment run (line :: back) =
      (run.step environment found).bind fun next =>
        lines? resultName environment next back := by
  rw [lines?, List.foldlM_cons, read]
  rfl

theorem lines?_append
    (before : lines? resultName environment run front = some middle) :
    lines? resultName environment run (front ++ back) =
      lines? resultName environment middle back := by
  rw [lines?] at before ⊢
  rw [List.foldlM_append, before]
  rfl

/-- Lines that do nothing where they do not run. -/
def Skips (resultName : String) (environment : Environment String)
    (lines : List String) : Prop :=
  ∀ run : CopyRun, run.isActive = false →
    lines? resultName environment run lines = some run

/-- Lines that make some copies where they run. -/
def Makes (resultName : String) (environment : Environment String)
    (lines : List String) (copies : List (Nat × Nat)) : Prop :=
  ∀ run : CopyRun, run.isActive = true →
    lines? resultName environment run lines =
      some { run with copies := run.copies ++ copies }

theorem skips_nil : Skips resultName environment [] :=
  fun _ _ => rfl

theorem Skips.append (first : Skips resultName environment front)
    (second : Skips resultName environment back) :
    Skips resultName environment (front ++ back) := by
  intro run idle
  rw [lines?_append (first run idle)]
  exact second run idle

theorem makes_nil : Makes resultName environment [] [] := by
  intro run _
  rw [List.append_nil]
  rfl

theorem Makes.append {copies others : List (Nat × Nat)}
    (first : Makes resultName environment front copies)
    (second : Makes resultName environment back others) :
    Makes resultName environment (front ++ back) (copies ++ others) := by
  intro run active
  rw [lines?_append (first run active), ← List.append_assoc]
  exact second _ active

/-- Lines that make copies from the beginning make them altogether. -/
theorem Makes.copiesOf? {copies : List (Nat × Nat)}
    (makes : Makes resultName environment front copies) :
    copiesOf? resultName environment front = some copies := by
  rw [CopyRun.copiesOf?, makes {} rfl]
  rfl

end CopyRun

/-- What symbols stand for, given what their spellings stand for. -/
def Options.environment (options : Options)
    (environment : Environment String) : Environment Symbol where
  word := environment.word ∘ options.spell
  table := environment.table ∘ options.spell

theorem Options.value?_term (options : Options)
    (environment : Environment String) (expression : Expression Symbol) :
    (expression.term options.spell).value? environment =
      expression.value? (options.environment environment) :=
  Term.value?_term options.spell environment expression

namespace Copy

open CopyRun

variable {options : Options} {environment : Environment String}

/-- A copy whose line can be read and whose places have values. -/
structure IsMade (options : Options) (environment : Environment String)
    (copy : Copy) : Prop where
  readable : copy.IsReadable options
  target : ∃ value,
    copy.target.value? (options.environment environment) = some value
  source : ∃ value,
    copy.source.value? (options.environment environment) = some value

variable {copies : List Copy}

theorem skips_written (named : IsIdentifier options.resultName)
    (depth : Nat) (readable : ∀ copy ∈ copies, copy.IsReadable options) :
    Skips options.resultName environment
      (copies.map (written options depth)) := by
  induction copies with
  | nil => exact skips_nil
  | cons copy rest ih =>
    intro run idle
    rw [List.map_cons, lines?_cons
      ((readable copy List.mem_cons_self).read?_written named depth)]
    simp only [step, idle, Bool.false_eq_true, if_false, Option.bind_some]
    exact ih (fun other among =>
      readable other (List.mem_cons_of_mem _ among)) run idle

theorem makes_written (named : IsIdentifier options.resultName)
    (depth : Nat)
    (made : ∀ copy ∈ copies, copy.IsMade options environment) :
    Makes options.resultName environment (copies.map (written options depth))
      (copies.map (places (options.environment environment))) := by
  induction copies with
  | nil => exact makes_nil
  | cons copy rest ih =>
    obtain ⟨readable, ⟨place, target⟩, ⟨entry, source⟩⟩ :=
      made copy List.mem_cons_self
    have single : Makes options.resultName environment
        [copy.written options depth]
        [copy.places (options.environment environment)] := by
      intro run active
      rw [lines?_cons (readable.read?_written named depth)]
      simp only [step, active, if_true, options.value?_term, target, source,
        places, Option.bind_eq_bind, Option.bind_some, Option.getD_some]
      rfl
    exact single.append (ih fun other among =>
      made other (List.mem_cons_of_mem _ among))

end Copy

namespace Chain

open CopyRun

variable {α : Type} {options : Options} {environment : Environment String}
  {bodyLines : Nat → α → List String} {depth : Nat}
  {guarded : List (List IterationRange × α)} {last : α}

/-- The text of a guard is read as its condition. -/
theorem read?_guardText (identifier : IsIdentifier options.keyName)
    {ranges : List IterationRange} {condition : Expression Symbol}
    (guarded : IterationRange.guard? ranges Symbol.key = some condition) :
    Term.read? (IterationRange.guardText ranges options.keyName) =
      some (condition.term options.spell) := by
  have spelled : IsIdentifier (options.spell .key) := identifier
  exact IterationRange.read?_guardText spelled guarded

section Lines

variable (identifier : IsIdentifier options.keyName)
  (guards : ∀ branch ∈ guarded, branch.1 ≠ [])
  (skipped : ∀ body ∈ guarded.map (·.2) ++ [last], ∀ depth,
    Skips options.resultName environment (bodyLines depth body))
include identifier guards skipped

/-- Once a branch was taken, the others are passed over. -/
theorem lines?_of_taken {progress : Progress}
    (taken : progress ≠ .searching) (outer : List OpenConstruct)
    (copies : List (Nat × Nat)) :
    lines? options.resultName environment
        ⟨⟨progress, false⟩ :: outer, copies⟩
        (writtenFrom options.keyName bodyLines depth (some last)
          "\x7d else if(" guarded) =
      some ⟨outer, copies⟩ := by
  induction guarded generalizing progress with
  | nil =>
    have begun : step environment ⟨⟨progress, false⟩ :: outer, copies⟩
        .last = some ⟨⟨.finished, true⟩ :: outer, copies⟩ := by
      cases progress with
      | searching => exact absurd rfl taken
      | running => rfl
      | finished => rfl
    rw [writtenFrom, lines?_cons CopyLine.read?_last, begun,
      Option.bind_some, lines?_append (skipped last (by simp) _ _ rfl),
      lines?_cons CopyLine.read?_closing]
    rfl
  | cons branch rest ih =>
    obtain ⟨condition, found⟩ := IterationRange.exists_guard?
      (guards branch List.mem_cons_self) Symbol.key
    have begun : step environment ⟨⟨progress, false⟩ :: outer, copies⟩
        (.alternative (condition.term options.spell)) =
          some ⟨⟨.finished, false⟩ :: outer, copies⟩ := by
      cases progress with
      | searching => exact absurd rfl taken
      | running => rfl
      | finished => rfl
    rw [writtenFrom, lines?_cons
        (CopyLine.read?_alternative (read?_guardText identifier found)),
      begun, Option.bind_some,
      lines?_append (skipped branch.2 (by simp) _ _ rfl)]
    exact ih (fun other among => guards other (List.mem_cons_of_mem _ among))
      (fun body among => skipped body (List.mem_cons_of_mem _ among))
      (by decide)

variable {body : α} {made : List (Nat × Nat)}
  (makes : ∀ depth,
    Makes options.resultName environment (bodyLines depth body) made)
  {outer : List OpenConstruct} {copies : List (Nat × Nat)}
  (active : isActive ⟨outer, copies⟩ = true)
include makes active

/-- After a test, the lines of the branch and of the rest make the copies of the
branch if the test held, and otherwise what the rest makes. -/
theorem lines?_of_tested {first : α} {value : UInt64}
    (skippedFirst : ∀ depth,
      Skips options.resultName environment (bodyLines depth first))
    (held : value ≠ 0 → body = first)
    (failed : value = 0 → lines? options.resultName environment
        ⟨⟨.searching, false⟩ :: outer, copies⟩
        (writtenFrom options.keyName bodyLines depth (some last)
          "\x7d else if(" guarded) = some ⟨outer, copies ++ made⟩) :
    lines? options.resultName environment
        ⟨⟨.ofTest value, false⟩ :: outer, copies⟩
        (bodyLines (depth + 1) first ++
          writtenFrom options.keyName bodyLines depth (some last)
            "\x7d else if(" guarded) =
      some ⟨outer, copies ++ made⟩ := by
  rw [Progress.ofTest]
  by_cases rejected : value = 0
  · rw [if_pos rejected, lines?_append (skippedFirst _ _ rfl)]
    exact failed rejected
  · have within : isActive ⟨⟨.running, false⟩ :: outer, copies⟩ = true :=
      active
    rw [if_neg rejected, ← held rejected,
      lines?_append (makes _ _ within)]
    exact lines?_of_taken identifier guards skipped (by decide) _ _

/-- As long as no test held, the rest of a construct makes the copies of the
branch that the rest takes. -/
theorem lines?_of_searching
    (taken : firstTaken? (options.environment environment) .key (some last)
      guarded = some (some body)) :
    lines? options.resultName environment
        ⟨⟨.searching, false⟩ :: outer, copies⟩
        (writtenFrom options.keyName bodyLines depth (some last)
          "\x7d else if(" guarded) =
      some ⟨outer, copies ++ made⟩ := by
  induction guarded with
  | nil =>
    cases taken
    have begun : step environment ⟨⟨.searching, false⟩ :: outer, copies⟩
        .last = some ⟨⟨.running, true⟩ :: outer, copies⟩ := rfl
    have within : isActive ⟨⟨.running, true⟩ :: outer, copies⟩ = true :=
      active
    rw [writtenFrom, lines?_cons CopyLine.read?_last, begun,
      Option.bind_some, lines?_append (makes _ _ within),
      lines?_cons CopyLine.read?_closing]
    rfl
  | cons branch rest ih =>
    have others := fun other among =>
      guards other (List.mem_cons_of_mem branch among)
    have behind := fun body among =>
      skipped body (List.mem_cons_of_mem branch.2 among)
    obtain ⟨condition, value, found, tested, failed, held⟩ :=
      exists_test_of_firstTaken? taken
    have begun : step environment ⟨⟨.searching, false⟩ :: outer, copies⟩
        (.alternative (condition.term options.spell)) =
          some ⟨⟨.ofTest value, false⟩ :: outer, copies⟩ := by
      simp [step, options.value?_term, tested]
    rw [writtenFrom, lines?_cons
        (CopyLine.read?_alternative (read?_guardText identifier found)),
      begun, Option.bind_some]
    exact lines?_of_tested identifier others behind makes active
      (skipped branch.2 List.mem_cons_self)
      (fun accepted => Option.some.inj (held accepted))
      fun rejected => ih others behind (failed rejected)

end Lines

section Whole

variable {chain : Chain α} (identifier : IsIdentifier options.keyName)
  (tested : chain.IsGuarded)
  (skipped : ∀ body ∈ chain.bodies, ∀ depth,
    Skips options.resultName environment (bodyLines depth body))
include identifier tested skipped

/-- Where it does not run, a chain is passed over. -/
theorem skips_written (depth : Nat) :
    Skips options.resultName environment
      (chain.written options.keyName bodyLines depth) := by
  obtain ⟨⟨last, closes⟩, guards⟩ := tested
  obtain ⟨guarded, otherwise⟩ := chain
  cases closes
  intro run idle
  cases guarded with
  | nil => exact skipped last (by simp [bodies]) depth run idle
  | cons branch rest =>
    obtain ⟨condition, found⟩ := IterationRange.exists_guard?
      (guards branch List.mem_cons_self) Symbol.key
    have begun : run.step environment
        (.opening (condition.term options.spell)) =
          some { run with
            constructs := ⟨.finished, false⟩ :: run.constructs } := by
      simp [step, idle]
    rw [written_cons, writtenFrom, lines?_cons
        (CopyLine.read?_opening (read?_guardText identifier found)),
      begun, Option.bind_some,
      lines?_append (skipped branch.2 (by simp [bodies]) _ _ rfl)]
    exact lines?_of_taken identifier
      (fun other among => guards other (List.mem_cons_of_mem _ among))
      (fun body among => skipped body (List.mem_cons_of_mem _ among))
      (by decide) _ _

/-- Where it runs, a chain makes the copies of the branch that it takes. -/
theorem makes_written {body : α} {made : List (Nat × Nat)}
    (taken : chain.taken? (options.environment environment) .key =
      some (some body))
    (makes : ∀ depth,
      Makes options.resultName environment (bodyLines depth body) made)
    (depth : Nat) :
    Makes options.resultName environment
      (chain.written options.keyName bodyLines depth) made := by
  obtain ⟨⟨last, closes⟩, guards⟩ := tested
  obtain ⟨guarded, otherwise⟩ := chain
  cases closes
  rw [taken?_of_otherwise] at taken
  intro run active
  cases guarded with
  | nil =>
    cases taken
    exact makes depth run active
  | cons branch rest =>
    have others := fun other among =>
      guards other (List.mem_cons_of_mem branch among)
    have behind := fun body among =>
      skipped body (List.mem_cons_of_mem branch.2 among)
    obtain ⟨condition, value, found, valued, failed, held⟩ :=
      exists_test_of_firstTaken? taken
    have begun : run.step environment
        (.opening (condition.term options.spell)) =
          some { run with
            constructs := ⟨.ofTest value, false⟩ :: run.constructs } := by
      simp [step, active, options.value?_term, valued]
    rw [written_cons, writtenFrom, lines?_cons
        (CopyLine.read?_opening (read?_guardText identifier found)),
      begun, Option.bind_some]
    exact lines?_of_tested identifier others behind makes active
      (skipped branch.2 (by simp [bodies]))
      (fun accepted => Option.some.inj (held accepted))
      fun rejected => lines?_of_searching identifier others behind makes
        active (failed rejected)

end Whole

end Chain

namespace BucketCopies

open CopyRun

variable {options : Options} {environment : Environment String}
  {copies : BucketCopies}

/-- The chains of a bucket are guarded, and all its copies are of some kind. -/
structure IsMadeOf (kind : Copy → Prop) (copies : BucketCopies) :
    Prop where
  direct : ∀ copy ∈ copies.direct, kind copy
  guarded : ∀ chain ∈ copies.sectioned, chain.IsGuarded
  sectioned : ∀ chain ∈ copies.sectioned, ∀ body ∈ chain.bodies,
    ∀ copy ∈ body, kind copy

theorem IsMadeOf.mono {kind other : Copy → Prop}
    (made : copies.IsMadeOf kind) (more : ∀ copy, kind copy → other copy) :
    copies.IsMadeOf other where
  direct copy among := more copy (made.direct copy among)
  guarded := made.guarded
  sectioned chain listed body among copy inside :=
    more copy (made.sectioned chain listed body among copy inside)

section Lines

variable (identifier : IsIdentifier options.keyName)
  (named : IsIdentifier options.resultName)
include identifier named

theorem skips_written (readable : copies.IsMadeOf (Copy.IsReadable options))
    (depth : Nat) :
    Skips options.resultName environment (copies.written options depth) := by
  obtain ⟨direct, guarded, sectioned⟩ := readable
  have chained : Skips options.resultName environment
      (copies.sectioned.flatMap (Chain.written options.keyName
        (fun inner body => body.map (Copy.written options inner))
        depth)) := by
    generalize copies.sectioned = chains at guarded sectioned
    induction chains with
    | nil => exact skips_nil
    | cons chain rest ih =>
      rw [List.flatMap_cons]
      refine (Chain.skips_written identifier
        (guarded chain List.mem_cons_self)
        (fun body among inner => Copy.skips_written named inner
          (sectioned chain List.mem_cons_self body among))
        depth).append (ih ?_ ?_)
      · exact fun other among =>
          guarded other (List.mem_cons_of_mem _ among)
      · exact fun other among =>
          sectioned other (List.mem_cons_of_mem _ among)
  exact (Copy.skips_written named depth direct).append chained

/-- Where they run, the lines of a bucket make the copies that are chosen. -/
theorem makes_written
    (made : copies.IsMadeOf (Copy.IsMade options environment))
    {chosen : List Copy} (found : copies.chosen? (options.environment environment) =
      some chosen)
    (depth : Nat) :
    Makes options.resultName environment (copies.written options depth)
      (chosen.map (Copy.places (options.environment environment))) := by
  obtain ⟨direct, guarded, sectioned⟩ := made
  rw [chosen?, Option.bind_eq_bind, Option.bind_eq_some_iff] at found
  obtain ⟨parts, taken, equal⟩ := found
  cases equal
  rw [mapM_eq_some_iff] at taken
  rw [List.map_append]
  refine (Copy.makes_written named depth direct).append ?_
  generalize copies.sectioned = chains at guarded sectioned taken
  induction taken with
  | nil => exact makes_nil
  | @cons chain part rest others first _ ih =>
    obtain ⟨body, among, rfl⟩ :=
      (guarded chain List.mem_cons_self).exists_of_taken? first
    have here := Chain.makes_written identifier
      (guarded chain List.mem_cons_self)
      (fun body among inner => Copy.skips_written named inner
        fun copy listed => (sectioned chain List.mem_cons_self body among
          copy listed).readable)
      first
      (fun inner => Copy.makes_written named inner
        (sectioned chain List.mem_cons_self body among)) depth
    rw [List.flatMap_cons, List.flatMap_cons, List.map_append]
    refine here.append (ih ?_ ?_)
    · exact fun other among => guarded other (List.mem_cons_of_mem _ among)
    · exact fun other among => sectioned other (List.mem_cons_of_mem _ among)

end Lines

end BucketCopies

end SparseLoop
