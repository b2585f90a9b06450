import Mathlib.Algebra.Group.Nat.Defs
import SparseLoop.Pattern.Detector
import SparseLoop.Proofs.Index

/-!
# Detectors that reproduce their points

Grouping works with any detector, but what it writes is right only if a
detected pattern gives back the values from which it was detected.  This is
the one property that is asked of a detector; it may decline as it likes.
-/

namespace SparseLoop

/-- A detector whose patterns give every point its value, as a 64-bit word. -/
structure Detector.Reproduces (detector : Detector) : Prop where
  points : ∀ values pattern, detector.ofPoints values = some pattern →
    ∀ iteration index, values.get? iteration = some index →
      pattern.evaluate iteration = Int64.ofNat index
  sequence : ∀ values pattern, detector.ofSequence values = some pattern →
    ∀ (iteration index : Nat), values[iteration]? = some index →
      pattern.evaluate iteration = Int64.ofNat index

namespace IndexPattern

/-- A pattern whose value at an iteration is an index, without wrapping. -/
def Yields (pattern : IndexPattern) (iteration index : Nat) : Prop :=
  (pattern.evaluate iteration).toInt = index

theorem yields_of_evaluate {pattern : IndexPattern} {iteration index : Nat}
    (value : pattern.evaluate iteration = Int64.ofNat index)
    (small : index < 2 ^ 63) : pattern.Yields iteration index := by
  rw [Yields, value]
  exact Int64.toInt_ofNat_of_lt small

@[simp]
theorem evaluate_constant (index iteration : Nat) :
    (constant index).evaluate iteration = Int64.ofNat index := by
  simp [constant, evaluate]

end IndexPattern

namespace Detector

theorem Detection.pattern?_eq_some_iff {detection : Detection}
    {pattern : IndexPattern} :
    detection.pattern? = some pattern ↔ detection = finds pattern := by
  cases detection <;> simp [pattern?]

theorem affineLine_reproduces {values : IndexMap Nat}
    {pattern : IndexPattern} (detected : affineLine values = .finds pattern)
    {iteration index : Nat} (point : values.get? iteration = some index) :
    pattern.evaluate iteration = Int64.ofNat index := by
  rw [IndexMap.get?_eq_some_iff] at point
  rw [affineLine] at detected
  split at detected
  · cases detected
  · next only stored =>
    rw [stored, List.mem_singleton] at point
    cases point
    cases detected
    simp
  · next first second rest stored =>
    dsimp only at detected
    split at detected
    · cases detected
    split at detected
    · cases detected
    split at detected
    · next fitted =>
      cases detected
      have exact := List.all_eq_true.mp fitted (iteration, index) point
      exact eq_of_beq exact
    · cases detected

theorem affine_eq_some_iff {values : IndexMap Nat} {pattern : IndexPattern} :
    affine.ofPoints values = some pattern ↔
      affineLine values = .finds pattern :=
  Detection.pattern?_eq_some_iff

theorem affine_reproduces : affine.Reproduces where
  points _ _ detected _ _ point :=
    affineLine_reproduces (affine_eq_some_iff.mp detected) point
  sequence _ _ detected _ _ element :=
    affineLine_reproduces (affine_eq_some_iff.mp detected)
      (IndexMap.get?_ofSequence.mpr element)

end Detector

end SparseLoop
