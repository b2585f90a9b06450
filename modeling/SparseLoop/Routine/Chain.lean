import SparseLoop.Failure
import SparseLoop.Index.Set
import SparseLoop.Range.Compression
import SparseLoop.Range.Guard

/-!
# Chains of branches

The branches of an if/else construct are tested one after the other.  All but
the last have a guard; the last is taken if no guard holds.  A guard may give
either answer at the keys that earlier branches took and at keys that do not
reach the construct.

A chain of one branch is the branch alone and needs no construct at all.
-/

namespace SparseLoop

/-- The lines of a text are indented by three blanks per level. -/
def indented (depth : Nat) (text : String) : String :=
  String.ofList (List.replicate (3 * depth) ' ') ++ text

/-- Guarded branches, and the one that is taken if no guard holds. -/
structure Chain (α : Type) where
  guarded : List (List IterationRange × α)
  otherwise : Option α
deriving DecidableEq, Repr

namespace Chain

variable {α : Type}

/-- The chain of some branches with the keys on which each is taken, where
some keys do not reach the chain. -/
def ofBranches (lastKey : Nat) :
    IndexSet → List (IndexSet × α) → Except Failure (Chain α)
  | _, [] => .ok ⟨[], none⟩
  | _, [(_, body)] => .ok ⟨[], some body⟩
  | spare, (keys, body) :: rest => do
    let ranges ← IterationRange.compress keys spare lastKey
    let following ← ofBranches lastKey (spare.union keys) rest
    pure { following with guarded := (ranges, body) :: following.guarded }

/-- The lines of a chain, with those of each branch one level deeper. -/
def lines (keyName : String) (bodyLines : Nat → α → List String)
    (depth : Nat) (chain : Chain α) : List String :=
  match chain with
  | ⟨[], some only⟩ => bodyLines depth only
  | ⟨guarded, otherwise⟩ =>
    let tests := guarded.zipIdx.flatMap fun ((ranges, body), rank) =>
      let opening := if rank = 0 then "if(" else "\x7d else if("
      let guard := IterationRange.guardText ranges keyName
      indented depth (opening ++ guard ++ ") \x7b") ::
        bodyLines (depth + 1) body
    let last :=
      match otherwise with
      | none => []
      | some body =>
        indented depth "\x7d else \x7b" :: bodyLines (depth + 1) body
    tests ++ last ++ [indented depth "\x7d"]

end Chain

end SparseLoop
