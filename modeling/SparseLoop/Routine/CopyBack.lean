import SparseLoop.Routine.Chain
import SparseLoop.Routine.Symbol
import SparseLoop.Sparsity.Access

/-!
# Copies from the scratch buffer

After a group function has written into the scratch buffer, its elements are
added to the result at their positions.  Which copies run depends on the key.
Keys with different numbers of elements are told apart by a chain over the
buckets.  Inside a bucket, an element with patterns on both sides is copied
without a test, and the sections of the others become chains.  Elements with
the same sections share a chain.
-/

namespace SparseLoop

/-- One entry of the scratch buffer is added to one entry of the result. -/
structure Copy where
  target : Expression Symbol
  source : Expression Symbol
deriving DecidableEq, Repr

namespace Copy

/-- The copy along two patterns. -/
def ofPatterns (isUnrolled : Bool) (target source : IndexPattern) : Copy where
  target := target.current isUnrolled
  source := source.current isUnrolled

/-- The statement that makes a copy. -/
def line (options : Options) (depth : Nat) (copy : Copy) : String :=
  let target := options.expressionText copy.target
  let source := options.expressionText copy.source
  indented depth
    s!"{options.resultName}[{target}] += compressed[{source}];"

end Copy

/-- The copies of the elements of one bucket. -/
structure BucketCopies where
  /-- The copies of elements with patterns on both sides. -/
  direct : List Copy
  /-- The copies of the other elements, by the section of the key. -/
  sectioned : List (Chain (List Copy))
deriving DecidableEq, Repr

namespace BucketCopies

/-- The skeletons of sectioned elements, with the copies they guard. -/
abbrev Skeletons :=
  List (Skeleton (List Copy))

/-- The position of the skeleton of a shape, in the skeletons with that one
added at the end if there was none. -/
def placeShape (skeletons : Skeletons) (shape : BranchShape) :
    Nat × Skeletons :=
  match Skeleton.find? skeletons shape with
  | some position => (position, skeletons)
  | none =>
    let branches := shape.mapValues fun keys => Branch.mk keys []
    (skeletons.length, skeletons ++ [{ branches }])

/-- The skeleton with the copy of a section in the branch of its keys. -/
def addSection (isUnrolled : Bool) (skeleton : Skeleton (List Copy))
    (part : ElementSection) : Except Failure (Skeleton (List Copy)) :=
  match part.keys.min? with
  | none => .ok skeleton
  | some first =>
    skeleton.modifyBranch first fun branch =>
      { branch with
        body :=
          branch.body ++ [Copy.ofPatterns isUnrolled part.target part.source] }

/-- The skeletons with the copies of an element in sections. -/
def addElement (isUnrolled : Bool) (skeletons : Skeletons)
    (element : ElementCopy) : Except Failure Skeletons := do
  let (position, placed) := placeShape skeletons element.shape
  match placed[position]? with
  | none => pure placed
  | some skeleton =>
    let filled ← element.sections.foldlM (addSection isUnrolled) skeleton
    pure (placed.set position filled)

/-- The copies of a bucket, where keys up to a last one may occur in the
group. -/
def ofBucket (isUnrolled : Bool) (lastKey : Nat) (bucket : ElementBucket) :
    Except Failure BucketCopies := do
  let direct := bucket.elements.filterMap (·.direct?)
  let others := bucket.elements.filter (·.direct?.isNone)
  let skeletons ← others.foldlM (addElement isUnrolled) []
  let elsewhere :=
    (IndexSet.below (lastKey + 1)).filter (!bucket.keys.contains ·)
  let sectioned ← skeletons.mapM fun skeleton =>
    Chain.ofBranches lastKey elsewhere <|
      skeleton.branches.values.map fun branch =>
        (branch.iterations, branch.body)
  pure
    { direct := direct.map fun (target, source) =>
        Copy.ofPatterns isUnrolled target source
      sectioned }

/-- The statements that make the copies of a bucket. -/
def lines (options : Options) (depth : Nat) (copies : BucketCopies) :
    List String :=
  copies.direct.map (Copy.line options depth) ++
    copies.sectioned.flatMap (Chain.lines options.keyName
      (fun inner body => body.map (Copy.line options inner)) depth)

end BucketCopies

namespace GroupAccess

/-- The copies of a group by the bucket of the key, if the group has any. -/
def copyBack (access : GroupAccess) (isUnrolled : Bool) :
    Except Failure (Option (Chain BucketCopies)) := do
  match access.keys.getLast? with
  | none => pure none
  | some lastKey =>
    if access.buckets.isEmpty then
      pure none
    else
      let unvisited :=
        (IndexSet.below lastKey).filter (!access.keys.contains ·)
      let branches ← access.buckets.values.mapM fun bucket => do
        pure (bucket.keys, ← BucketCopies.ofBucket isUnrolled lastKey bucket)
      some <$> Chain.ofBranches lastKey unvisited branches

end GroupAccess

end SparseLoop
