import Mathlib.Algebra.Group.Int.Defs
import Mathlib.Algebra.Group.Nat.Defs
import SparseLoop.Proofs.Pattern.Detection

/-!
# Detection of lines

The affine detector finds the line through some points exactly if there is one.
A single point has its constant, and no points have no pattern.

The detector computes over 64-bit signed words.  Where the iterations and the
indices are below two to the thirty-first, nothing it computes leaves these words
and nothing is divided by zero: detection with operations that fail instead,
`checkedLine?`, comes to the same end.  The result is then the line over the
integers, of which there is one through two points.

Beyond these bounds the words may wrap around, but a pattern that is found gives
back the points as words all the same.
-/

namespace SparseLoop

/-! ## Checked arithmetic -/

namespace Word

/-- Whether an integer is the value of a signed word. -/
def HasWord (value : Int) : Prop :=
  -2 ^ 63 ≤ value ∧ value < 2 ^ 63

instance (value : Int) : Decidable (HasWord value) :=
  inferInstanceAs (Decidable (_ ∧ _))

/-- The signed word of an integer, if it has one. -/
def ofInt? (value : Int) : Option Int64 :=
  if HasWord value then some (Int64.ofInt value) else none

def add? (left right : Int64) : Option Int64 :=
  ofInt? (left.toInt + right.toInt)

def subtract? (left right : Int64) : Option Int64 :=
  ofInt? (left.toInt - right.toInt)

def multiply? (left right : Int64) : Option Int64 :=
  ofInt? (left.toInt * right.toInt)

/-- The quotient towards zero, unless the divisor is zero. -/
def quotient? (dividend divisor : Int64) : Option Int64 :=
  if divisor = 0 then none else ofInt? (dividend.toInt.tdiv divisor.toInt)

/-- The remainder that belongs to the quotient. -/
def remainder? (dividend divisor : Int64) : Option Int64 := do
  let _ ← quotient? dividend divisor
  ofInt? (dividend.toInt.tmod divisor.toInt)

variable {value : Int} {left right word : Int64}

theorem ofInt?_eq_some_iff : ofInt? value = some word ↔ word.toInt = value := by
  rw [ofInt?, Option.ite_none_right_eq_some]
  constructor
  · rintro ⟨inside, equal⟩
    cases equal
    exact Int64.toInt_ofInt_of_le inside.1 inside.2
  · rintro rfl
    exact ⟨⟨word.le_toInt, word.toInt_lt⟩,
      congrArg some word.ofInt_toInt⟩

theorem HasWord.bmod (inside : HasWord value) : value.bmod (2 ^ 64) = value :=
  Int.bmod_eq_of_le inside.1 inside.2

theorem toInt_add (inside : HasWord (left.toInt + right.toInt)) :
    (left + right).toInt = left.toInt + right.toInt := by
  rw [Int64.toInt_add, inside.bmod]

theorem toInt_sub (inside : HasWord (left.toInt - right.toInt)) :
    (left - right).toInt = left.toInt - right.toInt := by
  rw [Int64.toInt_sub, inside.bmod]

theorem toInt_mul (inside : HasWord (left.toInt * right.toInt)) :
    (left * right).toInt = left.toInt * right.toInt := by
  rw [Int64.toInt_mul, inside.bmod]

theorem toInt_ofNat_of_small {index : Nat} (small : index < 2 ^ 31) :
    (Int64.ofNat index).toInt = index :=
  Int64.toInt_ofNat_of_lt (Nat.lt_trans small (by decide))

/-- The difference of two small indices. -/
theorem toInt_ofNat_sub {index other : Nat} (small : index < 2 ^ 31)
    (otherSmall : other < 2 ^ 31) :
    (Int64.ofNat index - Int64.ofNat other).toInt = (index : Int) - other := by
  have first := toInt_ofNat_of_small small
  have second := toInt_ofNat_of_small otherSmall
  rw [toInt_sub, first, second]
  rw [first, second]
  constructor <;> omega

/-- The word of a small index. -/
theorem ofInt?_ofNat {index : Nat} (small : index < 2 ^ 31) :
    ofInt? index = some (Int64.ofNat index) :=
  ofInt?_eq_some_iff.mpr (toInt_ofNat_of_small small)

theorem subtract?_ofNat {index other : Nat} (small : index < 2 ^ 31)
    (otherSmall : other < 2 ^ 31) :
    subtract? (Int64.ofNat index) (Int64.ofNat other) =
      some (Int64.ofNat index - Int64.ofNat other) := by
  rw [subtract?, ofInt?_eq_some_iff, toInt_ofNat_sub small otherSmall,
    toInt_ofNat_of_small small, toInt_ofNat_of_small otherSmall]

end Word

/-! ## Checked detection -/

namespace IndexPattern

/-- The value at an iteration, if nothing wraps around. -/
def checkedEvaluate? (pattern : IndexPattern) (iteration : Nat) :
    Option Int64 := do
  let position ← Word.ofInt? iteration
  let scaled ← Word.multiply? pattern.slope position
  Word.add? scaled pattern.offset

/-- Whether a pattern gives some points their indices, up to the first one that
it does not. -/
def checkedFits? (pattern : IndexPattern) : List (Nat × Nat) → Option Bool
  | [] => some true
  | (iteration, index) :: rest => do
    let value ← pattern.checkedEvaluate? iteration
    let expected ← Word.ofInt? index
    if value == expected then pattern.checkedFits? rest else some false

/-- A pattern through small points: at small iterations its values are far from
the end of the words. -/
structure IsGentle (pattern : IndexPattern) : Prop where
  slopeBound : pattern.slope.toInt.natAbs < 2 ^ 31
  offsetBound : pattern.offset.toInt.natAbs < 2 ^ 62

/-- A small multiple of a small iteration. -/
theorem product_bounds {slope : Int} (gentle : slope.natAbs < 2 ^ 31)
    {iteration : Nat} (small : iteration < 2 ^ 31) :
    -(2 ^ 31 - 1) ^ 2 ≤ slope * iteration ∧
      slope * iteration ≤ (2 ^ 31 - 1) ^ 2 := by
  have magnitude :
      (slope * iteration).natAbs ≤ (2 ^ 31 - 1) * (2 ^ 31 - 1) := by
    rw [Int.natAbs_mul, Int.natAbs_natCast]
    exact Nat.mul_le_mul (by omega) (by omega)
  omega

theorem toInt_scaled {slope : Int64} (gentle : slope.toInt.natAbs < 2 ^ 31)
    {iteration : Nat} (small : iteration < 2 ^ 31) :
    (slope * Int64.ofNat iteration).toInt = slope.toInt * iteration := by
  have position := Word.toInt_ofNat_of_small small
  have bounds := product_bounds gentle small
  rw [Word.toInt_mul, position]
  rw [position]
  constructor <;> omega

namespace IsGentle

variable {pattern : IndexPattern} (gentle : pattern.IsGentle)
  {iteration : Nat} (small : iteration < 2 ^ 31)

include gentle small

theorem toInt_evaluate :
    (pattern.evaluate iteration).toInt =
      pattern.slope.toInt * iteration + pattern.offset.toInt := by
  have scaled := toInt_scaled gentle.slopeBound small
  have bounds := product_bounds gentle.slopeBound small
  have := gentle.offsetBound
  rw [evaluate, Word.toInt_add, scaled]
  rw [scaled]
  constructor <;> omega

theorem checkedEvaluate?_eq :
    pattern.checkedEvaluate? iteration = some (pattern.evaluate iteration) := by
  have position := Word.toInt_ofNat_of_small small
  have scaled := toInt_scaled gentle.slopeBound small
  have scaledWord : Word.multiply? pattern.slope (Int64.ofNat iteration) =
      some (pattern.slope * Int64.ofNat iteration) := by
    rw [Word.multiply?, Word.ofInt?_eq_some_iff, scaled, position]
  have sum : Word.add? (pattern.slope * Int64.ofNat iteration) pattern.offset =
      some (pattern.evaluate iteration) := by
    rw [Word.add?, Word.ofInt?_eq_some_iff, scaled, gentle.toInt_evaluate small]
  simp only [checkedEvaluate?, Word.ofInt?_ofNat small, Option.bind_eq_bind,
    Option.bind_some, scaledWord, sum]

end IsGentle

/-- Comparison over words that do not wrap around is comparison. -/
theorem IsGentle.checkedFits?_eq {pattern : IndexPattern}
    (gentle : pattern.IsGentle) {entries : List (Nat × Nat)}
    (small : ∀ point ∈ entries, point.1 < 2 ^ 31 ∧ point.2 < 2 ^ 31) :
    pattern.checkedFits? entries =
      some (entries.all fun (iteration, index) =>
        pattern.evaluate iteration == Int64.ofNat index) := by
  induction entries with
  | nil => rfl
  | cons point rest ih =>
    obtain ⟨iteration, index⟩ := point
    have ⟨iterationSmall, indexSmall⟩ := small (iteration, index) (by simp)
    have later :=
      ih fun point member => small point (List.mem_cons_of_mem _ member)
    simp only [checkedFits?, gentle.checkedEvaluate?_eq iterationSmall,
      Word.ofInt?_ofNat indexSmall, Option.bind_eq_bind, Option.bind_some, later,
      List.all_cons]
    cases pattern.evaluate iteration == Int64.ofNat index <;> rfl

end IndexPattern

namespace Detector

/-- The line through some points, found with operations that fail rather than
wrap around or divide by zero. -/
def checkedLine? (points : IndexMap Nat) : Option (Option IndexPattern) :=
  match points.entries with
  | [] => some none
  | [(_, index)] => do
    let offset ← Word.ofInt? index
    pure (some ⟨0, offset⟩)
  | first :: second :: _ => do
    let start ← Word.ofInt? first.1
    let stop ← Word.ofInt? second.1
    let low ← Word.ofInt? first.2
    let high ← Word.ofInt? second.2
    let run ← Word.subtract? stop start
    let rise ← Word.subtract? high low
    let remainder ← Word.remainder? rise run
    if remainder != 0 then
      pure none
    else
      let slope ← Word.quotient? rise run
      let product ← Word.multiply? slope start
      let offset ← Word.subtract? low product
      let pattern : IndexPattern := ⟨slope, offset⟩
      let fitted ← pattern.checkedFits? points.entries
      pure (if fitted then some pattern else none)

/-- The iteration and the index of a point are far from the end of the words. -/
def IsSmall (point : Nat × Nat) : Prop :=
  point.1 < 2 ^ 31 ∧ point.2 < 2 ^ 31

instance (point : Nat × Nat) : Decidable (IsSmall point) :=
  inferInstanceAs (Decidable (_ ∧ _))

/-- All points lie on a line over the integers. -/
def LiesOn (points : IndexMap Nat) (slope offset : Int) : Prop :=
  ∀ point ∈ points.entries, (point.2 : Int) = slope * point.1 + offset

/-! ## Two points -/

/-- The pattern through two points, if the step divides. -/
def through (first second : Nat × Nat) : IndexPattern where
  slope := (step first second).2 / (step first second).1
  offset := Int64.ofNat first.2 -
    (step first second).2 / (step first second).1 * Int64.ofNat first.1

variable {first second point : Nat × Nat}

/-- Two small points in the order of their iterations. -/
structure Spans (first second : Nat × Nat) : Prop where
  firstSmall : IsSmall first
  secondSmall : IsSmall second
  ascends : first.1 < second.1

namespace Spans

variable (spans : Spans first second)

include spans

theorem toInt_run :
    (step first second).1.toInt = (second.1 : Int) - first.1 :=
  Word.toInt_ofNat_sub spans.secondSmall.1 spans.firstSmall.1

theorem toInt_rise :
    (step first second).2.toInt = (second.2 : Int) - first.2 :=
  Word.toInt_ofNat_sub spans.secondSmall.2 spans.firstSmall.2

theorem run_pos : 0 < (step first second).1.toInt := by
  have ascends := spans.ascends
  rw [spans.toInt_run]
  omega

theorem run_ne_zero : (step first second).1 ≠ 0 := by
  intro flat
  have run := spans.run_pos
  rw [flat, Int64.toInt_zero] at run
  omega

theorem run_ne_neg_one : (step first second).1 ≠ -1 := by
  intro falling
  have run := spans.run_pos
  rw [falling] at run
  exact absurd run (by decide)

theorem toInt_remainder :
    ((step first second).2 % (step first second).1).toInt =
      ((second.2 : Int) - first.2).tmod (second.1 - first.1) := by
  rw [Int64.toInt_mod, spans.toInt_rise, spans.toInt_run]

/-- The slope is not larger than the step in the index. -/
theorem natAbs_quotient_lt :
    (((second.2 : Int) - first.2).tdiv (second.1 - first.1)).natAbs < 2 ^ 31 := by
  have smaller :=
    Int.natAbs_tdiv_le_natAbs ((second.2 : Int) - first.2) (second.1 - first.1)
  obtain ⟨⟨_, _⟩, ⟨_, _⟩, _⟩ := spans
  omega

theorem toInt_slope :
    (through first second).slope.toInt =
      ((second.2 : Int) - first.2).tdiv (second.1 - first.1) := by
  have gentle := spans.natAbs_quotient_lt
  rw [through, Int64.toInt_div, spans.toInt_rise, spans.toInt_run]
  apply Word.HasWord.bmod
  constructor <;> omega

theorem natAbs_slope_lt : (through first second).slope.toInt.natAbs < 2 ^ 31 := by
  rw [spans.toInt_slope]
  exact spans.natAbs_quotient_lt

theorem toInt_product :
    ((through first second).slope * Int64.ofNat first.1).toInt =
      (through first second).slope.toInt * first.1 :=
  IndexPattern.toInt_scaled spans.natAbs_slope_lt spans.firstSmall.1

theorem toInt_offset :
    (through first second).offset.toInt =
      first.2 - (through first second).slope.toInt * first.1 := by
  have low := Word.toInt_ofNat_of_small spans.firstSmall.2
  have bounds :=
    IndexPattern.product_bounds spans.natAbs_slope_lt spans.firstSmall.1
  have product := spans.toInt_product
  have := spans.firstSmall.2
  show (Int64.ofNat first.2 -
    (through first second).slope * Int64.ofNat first.1).toInt = _
  rw [Word.toInt_sub, low, product]
  rw [low, product]
  constructor <;> omega

/-! Every step of the computation has a word. -/

theorem checked_run :
    Word.subtract? (Int64.ofNat second.1) (Int64.ofNat first.1) =
      some (step first second).1 :=
  Word.subtract?_ofNat spans.secondSmall.1 spans.firstSmall.1

theorem checked_rise :
    Word.subtract? (Int64.ofNat second.2) (Int64.ofNat first.2) =
      some (step first second).2 :=
  Word.subtract?_ofNat spans.secondSmall.2 spans.firstSmall.2

theorem checked_slope :
    Word.quotient? (step first second).2 (step first second).1 =
      some (through first second).slope := by
  rw [Word.quotient?, if_neg spans.run_ne_zero, Word.ofInt?_eq_some_iff,
    spans.toInt_slope, spans.toInt_rise, spans.toInt_run]

theorem checked_remainder :
    Word.remainder? (step first second).2 (step first second).1 =
      some ((step first second).2 % (step first second).1) := by
  rw [Word.remainder?, spans.checked_slope]
  show Word.ofInt? _ = _
  rw [Word.ofInt?_eq_some_iff, Int64.toInt_mod]

theorem checked_product :
    Word.multiply? (through first second).slope (Int64.ofNat first.1) =
      some ((through first second).slope * Int64.ofNat first.1) := by
  rw [Word.multiply?, Word.ofInt?_eq_some_iff, spans.toInt_product,
    Word.toInt_ofNat_of_small spans.firstSmall.1]

theorem checked_offset :
    Word.subtract? (Int64.ofNat first.2)
        ((through first second).slope * Int64.ofNat first.1) =
      some (through first second).offset := by
  rw [Word.subtract?, Word.ofInt?_eq_some_iff, spans.toInt_offset,
    spans.toInt_product, Word.toInt_ofNat_of_small spans.firstSmall.2]

/-- The line through two small points is a gentle one. -/
theorem isGentle_through : (through first second).IsGentle where
  slopeBound := spans.natAbs_slope_lt
  offsetBound := by
    have bounds :=
      IndexPattern.product_bounds spans.natAbs_slope_lt spans.firstSmall.1
    have offset := spans.toInt_offset
    have := spans.firstSmall.2
    omega

/-- A line over the integers through two points is the one that is computed. -/
theorem of_line {slope offset : Int}
    (onFirst : (first.2 : Int) = slope * first.1 + offset)
    (onSecond : (second.2 : Int) = slope * second.1 + offset) :
    (step first second).2 % (step first second).1 = 0 ∧
      (through first second).slope.toInt = slope ∧
      (through first second).offset.toInt = offset := by
  have run_ne : (second.1 : Int) - first.1 ≠ 0 := by
    have := spans.ascends
    omega
  have rise : (second.2 : Int) - first.2 = slope * (second.1 - first.1) := by
    rw [onFirst, onSecond, Int.mul_sub]
    omega
  have same : (through first second).slope.toInt = slope := by
    rw [spans.toInt_slope, rise, Int.mul_tdiv_cancel _ run_ne]
  refine ⟨?_, same, ?_⟩
  · rw [← Int64.toInt_inj, spans.toInt_remainder, rise, Int.mul_tmod_left]
    rfl
  · rw [spans.toInt_offset, same]
    omega

end Spans

/-! ## All points -/

variable {points : IndexMap Nat} {rest : List (Nat × Nat)}
  {pattern : IndexPattern}

theorem fits_iff_liesOn (small : ∀ point ∈ points.entries, IsSmall point)
    (gentle : pattern.IsGentle) :
    fits pattern points = true ↔
      LiesOn points pattern.slope.toInt pattern.offset.toInt := by
  rw [fits, List.all_eq_true, LiesOn]
  refine forall₂_congr fun point member => ?_
  rw [beq_iff_eq, ← Int64.toInt_inj,
    gentle.toInt_evaluate (small point member).1,
    Word.toInt_ofNat_of_small (small point member).2]
  exact eq_comm

/-- Detection on two or more points tries the line through the first two. -/
theorem affineLine_cons_cons (spans : Spans first second)
    (stored : points.entries = first :: second :: rest) :
    affineLine points =
      if (step first second).2 % (step first second).1 != 0 then .declines
      else if fits (through first second) points then
        .finds (through first second)
      else .declines := by
  rw [affineLine, stored]
  dsimp only
  rw [if_neg fun stops => spans.run_ne_neg_one stops.1]
  rfl

theorem affineLine_eq_finds_iff (spans : Spans first second)
    (stored : points.entries = first :: second :: rest) :
    affineLine points = .finds pattern ↔
      (step first second).2 % (step first second).1 = 0 ∧
        fits (through first second) points = true ∧
        through first second = pattern := by
  rw [affineLine_cons_cons spans stored]
  split
  · next fractional => simp [bne_iff_ne.mp fractional]
  · next whole =>
    have divides := not_not.mp (mt bne_iff_ne.mpr whole)
    split <;> simp_all

theorem spans_of_small (small : ∀ point ∈ points.entries, IsSmall point)
    (stored : points.entries = first :: second :: rest) : Spans first second := by
  have ascending := points.ascending
  rw [stored] at small ascending
  exact ⟨small first (by simp), small second (by simp),
    List.rel_of_pairwise_cons ascending (by simp)⟩

/-- Detection on small points finds the line over the integers. -/
theorem liesOn_iff (small : ∀ point ∈ points.entries, IsSmall point)
    (stored : points.entries = first :: second :: rest) {slope offset : Int} :
    LiesOn points slope offset ↔
      ∃ pattern, affineLine points = .finds pattern ∧
        pattern.slope.toInt = slope ∧ pattern.offset.toInt = offset := by
  have spans := spans_of_small small stored
  constructor
  · intro line
    obtain ⟨divides, sameSlope, sameOffset⟩ :=
      spans.of_line (line first (by simp [stored]))
        (line second (by simp [stored]))
    refine ⟨through first second, ?_, sameSlope, sameOffset⟩
    rw [affineLine_eq_finds_iff spans stored,
      fits_iff_liesOn small spans.isGentle_through, sameSlope, sameOffset]
    exact ⟨divides, line, rfl⟩
  · rintro ⟨pattern, detected, rfl, rfl⟩
    obtain ⟨-, fitted, rfl⟩ :=
      (affineLine_eq_finds_iff spans stored).mp detected
    exact (fits_iff_liesOn small spans.isGentle_through).mp fitted

/-- Nothing wraps around while a line is looked for. -/
theorem checkedLine?_eq (small : ∀ point ∈ points.entries, IsSmall point) :
    checkedLine? points = some (affineLine points).pattern? := by
  rcases stored : points.entries with _ | ⟨first, _ | ⟨second, rest⟩⟩
  · rw [checkedLine?, affineLine, stored]
    rfl
  · have indexSmall := (small first (by simp [stored])).2
    rw [checkedLine?, affineLine, stored]
    simp only [Word.ofInt?_ofNat indexSmall, Option.bind_eq_bind,
      Option.bind_some, Option.pure_def, IndexPattern.constant,
      Detection.pattern?]
  · have spans := spans_of_small small stored
    have fitted := spans.isGentle_through.checkedFits?_eq small
    rw [checkedLine?, affineLine_cons_cons spans stored, fits, stored]
    rw [stored] at fitted
    have start := Word.ofInt?_ofNat spans.firstSmall.1
    have stop := Word.ofInt?_ofNat spans.secondSmall.1
    have low := Word.ofInt?_ofNat spans.firstSmall.2
    have high := Word.ofInt?_ofNat spans.secondSmall.2
    -- One step of the computation after the other has its word.
    refine Option.bind_eq_some_iff.mpr ⟨_, start, ?_⟩
    refine Option.bind_eq_some_iff.mpr ⟨_, stop, ?_⟩
    refine Option.bind_eq_some_iff.mpr ⟨_, low, ?_⟩
    refine Option.bind_eq_some_iff.mpr ⟨_, high, ?_⟩
    refine Option.bind_eq_some_iff.mpr ⟨_, spans.checked_run, ?_⟩
    refine Option.bind_eq_some_iff.mpr ⟨_, spans.checked_rise, ?_⟩
    refine Option.bind_eq_some_iff.mpr ⟨_, spans.checked_remainder, ?_⟩
    by_cases fractional :
        ((step first second).2 % (step first second).1 != 0) = true
    · rw [if_pos fractional, if_pos fractional]
      rfl
    · rw [if_neg fractional, if_neg fractional]
      refine Option.bind_eq_some_iff.mpr ⟨_, spans.checked_slope, ?_⟩
      refine Option.bind_eq_some_iff.mpr ⟨_, spans.checked_product, ?_⟩
      refine Option.bind_eq_some_iff.mpr ⟨_, spans.checked_offset, ?_⟩
      refine Option.bind_eq_some_iff.mpr ⟨_, fitted, ?_⟩
      split <;> rfl

theorem affineLine_ne_stops (small : ∀ point ∈ points.entries, IsSmall point) :
    affineLine points ≠ .stops := by
  rcases stored : points.entries with _ | ⟨first, _ | ⟨second, rest⟩⟩
  · simp [affineLine, stored]
  · simp [affineLine, stored]
  · rw [affineLine_cons_cons (spans_of_small small stored) stored]
    split
    · simp
    · split <;> simp

/-- The smallest word cannot be divided by minus one. -/
example :
    affineLine ⟨[(0, 0), (2 ^ 64 - 1, 2 ^ 63)], by decide⟩ = .stops := by
  decide

/-- A sequence is the map from its positions. -/
theorem ofSequence_eq {values : List Nat}
    (enumerated : ∀ position, points.get? position = values[position]?) :
    affine.ofSequence values = affine.ofPoints points := by
  have same : IndexMap.ofSequence values = points := by
    apply IndexMap.ext_get?
    intro position
    ext index
    rw [IndexMap.get?_ofSequence, enumerated position]
  show affine.ofPoints (IndexMap.ofSequence values) = affine.ofPoints points
  rw [same]

/-- The affine detector declines the empty map and finds the constant of a
single point.  On two or more small points it finds a pattern exactly if they
lie on a line over the integers, and the pattern is this line; nothing wraps
around, nothing is divided by zero, and nothing stops the program.  A sequence
is detected as the map from its positions, and whatever is detected gives back
the points as words. -/
theorem affine_finds_the_line (points : IndexMap Nat) :
    (points.entries = [] → affine.ofPoints points = none) ∧
    (∀ iteration index, points.entries = [(iteration, index)] →
      affine.ofPoints points = some (IndexPattern.constant index)) ∧
    ((∀ point ∈ points.entries, IsSmall point) →
      (2 ≤ points.size → ∀ slope offset : Int,
        LiesOn points slope offset ↔
          ∃ pattern, affine.ofPoints points = some pattern ∧
            pattern.slope.toInt = slope ∧ pattern.offset.toInt = offset) ∧
      checkedLine? points = some (affine.ofPoints points) ∧
      affineLine points ≠ .stops) ∧
    (∀ values : List Nat,
      (∀ position, points.get? position = values[position]?) →
        affine.ofSequence values = affine.ofPoints points) ∧
    ∀ pattern, affine.ofPoints points = some pattern →
      ∀ point ∈ points.entries,
        pattern.evaluate point.1 = Int64.ofNat point.2 := by
  refine ⟨?empty, ?single,
    fun small => ⟨?line, checkedLine?_eq small, affineLine_ne_stops small⟩,
    fun _ => ofSequence_eq, ?reproduced⟩
  case empty =>
    intro stored
    show (affineLine points).pattern? = none
    rw [affineLine, stored]
    rfl
  case single =>
    intro iteration index stored
    rw [affine_eq_some_iff, affineLine, stored]
  case line =>
    intro several slope offset
    rw [IndexMap.size] at several
    rcases stored : points.entries with _ | ⟨first, _ | ⟨second, rest⟩⟩
    · simp [stored] at several
    · simp [stored] at several
    · simp only [affine_eq_some_iff]
      exact liesOn_iff small stored
  case reproduced =>
    intro pattern detected point member
    exact affineLine_reproduces (affine_eq_some_iff.mp detected)
      (IndexMap.get?_eq_some_iff.mpr member)

/-- A falling line over a gap in the iterations is found, and one bent point is
enough to decline. -/
theorem affine_finds_a_falling_line :
    affine.ofPoints ∅ = none ∧
    affine.ofPoints ⟨[(5, 7)], by decide⟩ = some (IndexPattern.constant 7) ∧
    (∃ pattern, affine.ofPoints ⟨[(1, 12), (3, 8), (4, 6)], by decide⟩ =
        some pattern ∧
      pattern.slope.toInt = -2 ∧ pattern.offset.toInt = 14 ∧
      pattern.evaluate 4 = Int64.ofNat 6) ∧
    checkedLine? ⟨[(1, 12), (3, 8), (4, 7)], by decide⟩ = some none ∧
    affine.ofSequence [3, 3] = affine.ofPoints (IndexMap.ofSequence [3, 3]) := by
  have falling := affine_finds_the_line ⟨[(1, 12), (3, 8), (4, 6)], by decide⟩
  have bent := affine_finds_the_line ⟨[(1, 12), (3, 8), (4, 7)], by decide⟩
  have twice := affine_finds_the_line (IndexMap.ofSequence [3, 3])
  have line := (falling.2.2.1 (by decide)).1 (by decide) (-2) 14
  obtain ⟨pattern, detected, slope, offset⟩ :=
    line.mp (by unfold LiesOn; decide)
  refine ⟨(affine_finds_the_line ∅).1 rfl,
    (affine_finds_the_line ⟨[(5, 7)], by decide⟩).2.1 5 7 rfl,
    ⟨pattern, detected, slope, offset, ?_⟩, ?_, ?_⟩
  · exact falling.2.2.2.2 pattern detected (4, 6) (by decide)
  · exact (bent.2.2.1 (by decide)).2.1.trans (by decide +kernel)
  · refine twice.2.2.2.1 [3, 3] fun position => ?_
    ext index
    exact IndexMap.get?_ofSequence

end Detector

end SparseLoop
