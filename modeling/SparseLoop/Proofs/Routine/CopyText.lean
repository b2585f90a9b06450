import Mathlib.Data.List.Basic
import SparseLoop.Routine.CopyBack

/-!
# How copies are written

A copy is a line of its own.  A chain with guards is an if/else construct: the
test of the first guard, the tests of the other guards, and an `else` for the
last branch, with the lines of a branch one level deeper.  A chain without
guards is its only branch and nothing else.

The lines are given here once more, by recursion over the guards and with the
texts written out.  This is the form in which they are run.
-/

namespace SparseLoop

/-- The line of a copy. -/
def Copy.written (options : Options) (depth : Nat) (copy : Copy) : String :=
  let target := copy.target.text options.spell
  let source := copy.source.text options.spell
  indented depth s!"{options.resultName}[{target}] += compressed[{source}];"

namespace Chain

variable {α : Type} (keyName : String) (bodyLines : Nat → α → List String)
  (depth : Nat)

/-- The lines of a construct from one of its branches on, whose test is
opened by some text. -/
def writtenFrom (otherwise : Option α) :
    String → List (List IterationRange × α) → List String
  | _, [] =>
    match otherwise with
    | none => [indented depth "\x7d"]
    | some body =>
      indented depth "\x7d else \x7b" ::
        (bodyLines (depth + 1) body ++ [indented depth "\x7d"])
  | opening, (ranges, body) :: rest =>
    let guard := IterationRange.guardText ranges keyName
    indented depth (opening ++ guard ++ ") \x7b") ::
      (bodyLines (depth + 1) body ++
        writtenFrom otherwise "\x7d else if(" rest)

/-- The lines of a chain. -/
def written : Chain α → List String
  | ⟨[], some only⟩ => bodyLines depth only
  | ⟨guarded, otherwise⟩ =>
    writtenFrom keyName bodyLines depth otherwise "if(" guarded

theorem written_cons (branch : List IterationRange × α)
    (rest : List (List IterationRange × α)) (otherwise : Option α) :
    written keyName bodyLines depth ⟨branch :: rest, otherwise⟩ =
      writtenFrom keyName bodyLines depth otherwise "if("
        (branch :: rest) :=
  rfl

/-- The lines from a later branch on, of which each test begins alike. -/
theorem writtenFrom_eq (otherwise : Option α) (rank : Nat)
    (guarded : List (List IterationRange × α)) :
    ((guarded.zipIdx (rank + 1)).flatMap fun ((ranges, body), rank) =>
        let opening := if rank = 0 then "if(" else "\x7d else if("
        let guard := IterationRange.guardText ranges keyName
        indented depth (opening ++ guard ++ ") \x7b") ::
          bodyLines (depth + 1) body) ++
      (match otherwise with
        | none => []
        | some body =>
          indented depth "\x7d else \x7b" :: bodyLines (depth + 1) body) ++
      [indented depth "\x7d"] =
      writtenFrom keyName bodyLines depth otherwise "\x7d else if("
        guarded := by
  induction guarded generalizing rank with
  | nil => cases otherwise <;> rfl
  | cons branch rest ih =>
    rw [List.zipIdx_cons, List.flatMap_cons, writtenFrom, ← ih (rank + 1)]
    simp only [if_neg (Nat.succ_ne_zero rank), List.cons_append,
      List.append_assoc]

theorem lines_eq_written (chain : Chain α) :
    chain.lines keyName bodyLines depth =
      chain.written keyName bodyLines depth := by
  obtain ⟨_ | ⟨branch, rest⟩, otherwise⟩ := chain
  · cases otherwise <;> rfl
  · cases otherwise <;>
      simp only [lines, written_cons, writtenFrom, ← writtenFrom_eq _ _ _ _ 0,
        List.zipIdx_cons, List.flatMap_cons, if_true, List.cons_append,
        List.append_assoc]

end Chain

namespace BucketCopies

/-- The lines of the copies of a bucket. -/
def written (options : Options) (depth : Nat) (copies : BucketCopies) :
    List String :=
  copies.direct.map (Copy.written options depth) ++
    copies.sectioned.flatMap (Chain.written options.keyName
      (fun inner body => body.map (Copy.written options inner)) depth)

theorem lines_eq_written (options : Options) (depth : Nat)
    (copies : BucketCopies) :
    copies.lines options depth = copies.written options depth := by
  rw [lines, written]
  congr 1
  exact List.flatMap_congr fun chain _ =>
    Chain.lines_eq_written _ _ depth chain

end BucketCopies

/-- The lines of the copies after a call. -/
theorem Chain.lines_copies_eq_written (options : Options) (depth : Nat)
    (chain : Chain BucketCopies) :
    chain.lines options.keyName (BucketCopies.lines options) depth =
      chain.written options.keyName (BucketCopies.written options) depth := by
  have bodies : BucketCopies.lines options =
      BucketCopies.written options := by
    funext depth copies
    exact BucketCopies.lines_eq_written options depth copies
  rw [bodies]
  exact lines_eq_written _ _ depth chain

end SparseLoop
