import SparseLoop.Proofs.Branch.Condition

/-!
# Reuse of skeletons

Requests for skeletons come in sequence, over one graph and one list of
skeletons.  A request is answered with the position of a skeleton whose branches
have the requested iterations.  The list only grows, and no two skeletons of the
list have the same branches, so a position stands for the iterations of the
branches.

The conditions of a skeleton were made for the request that created it.  They
test its index operation, and they are right up to its last iteration.  A later
request with the same branches gets the skeleton as it is.
-/

namespace SparseLoop

open OperationGraph

/-- A request for a skeleton of a shape, with the context of its conditions. -/
structure SkeletonRequest where
  shape : BranchShape
  indexOperation : Nat
  lastIteration : Nat

/-- A graph with the skeletons that were made in it. -/
structure SkeletonPool where
  graph : OperationGraph
  skeletons : List (Skeleton Nat)

namespace SkeletonPool

/-- A graph without skeletons. -/
def fresh (graph : OperationGraph) : SkeletonPool where
  graph := graph
  skeletons := []

/-- The answer to a request, and the pool after it. -/
def serve (pool : SkeletonPool) (request : SkeletonRequest) :
    Except Failure Nat × SkeletonPool :=
  match Skeleton.findOrCreate pool.skeletons request.shape
      request.indexOperation request.lastIteration pool.graph with
  | .ok answer graph => (.ok answer.1, ⟨graph, answer.2⟩)
  | .error failure graph => (.error failure, ⟨graph, pool.skeletons⟩)

/-- The pool after several requests in order. -/
def serveAll (pool : SkeletonPool) (requests : List SkeletonRequest) :
    SkeletonPool :=
  requests.foldl (fun pool request => (pool.serve request).2) pool

/-- One of several requests in order is answered with a position. -/
def Answers (pool : SkeletonPool) (requests : List SkeletonRequest)
    (request : SkeletonRequest) (position : Nat) : Prop :=
  ∃ earlier rest, requests = earlier ++ request :: rest ∧
    ((pool.serveAll earlier).serve request).1 = .ok position

/-- One of several requests in order is answered with a position at which there
was no skeleton before it. -/
def Creates (pool : SkeletonPool) (requests : List SkeletonRequest)
    (creator : SkeletonRequest) (position : Nat) : Prop :=
  ∃ earlier rest, requests = earlier ++ creator :: rest ∧
    ((pool.serveAll earlier).serve creator).1 = .ok position ∧
    (pool.serveAll earlier).skeletons.length ≤ position

variable {graph : OperationGraph} {pool later : SkeletonPool}
  {request creator : SkeletonRequest} {requests : List SkeletonRequest}
  {position : Nat}

/-! ## One request -/

/-- What a request comes to.  It is answered with a skeleton that has the
requested branches and the pool stays as it was, or with a new skeleton, or it
fails and the skeletons stay as they were. -/
inductive Serves (pool : SkeletonPool) (request : SkeletonRequest) :
    Except Failure Nat × SkeletonPool → Prop
  | reuses {position : Nat} {skeleton : Skeleton Nat}
      (stored : pool.skeletons[position]? = some skeleton)
      (same : skeleton.shape.values = request.shape.values) :
      Serves pool request (.ok position, pool)
  | creates {skeleton : Skeleton Nat} {graph : OperationGraph}
      (unknown : ∀ other ∈ pool.skeletons,
        other.shape.values ≠ request.shape.values)
      (shaped : skeleton.shape = request.shape)
      (extension : pool.graph.ExtendsTo graph)
      (selects : skeleton.Selects graph request.indexOperation
        request.lastIteration) :
      Serves pool request
        (.ok pool.skeletons.length, ⟨graph, pool.skeletons ++ [skeleton]⟩)
  | fails {failure : Failure} {graph : OperationGraph}
      (extension : pool.graph.ExtendsTo graph) :
      Serves pool request (.error failure, ⟨graph, pool.skeletons⟩)

theorem serve_serves (pool : SkeletonPool) (request : SkeletonRequest) :
    pool.Serves request (pool.serve request) := by
  have ends : Ends
      (fun answer graph =>
        pool.Serves request (.ok answer.1, ⟨graph, answer.2⟩))
      (fun failure graph =>
        pool.Serves request (.error failure, ⟨graph, pool.skeletons⟩))
      (Skeleton.findOrCreate pool.skeletons request.shape
        request.indexOperation request.lastIteration pool.graph) := by
    rw [Skeleton.findOrCreate]
    cases search : Skeleton.find? pool.skeletons request.shape with
    | some position =>
      rcases List.findIdx?_eq_some_iff_getElem.mp search with
        ⟨inside, same, _⟩
      exact .reuses (List.getElem?_eq_getElem inside)
        (Skeleton.hasShape_iff.mp same)
    | none =>
      have unknown : ∀ other ∈ pool.skeletons,
          other.shape.values ≠ request.shape.values := by
        intro other member equal
        have missed := List.findIdx?_eq_none_iff.mp search other member
        rw [Skeleton.hasShape_iff.mpr equal] at missed
        cases missed
      refine Ends.bind (Ends.mono
        (Skeleton.createBranches_adds request.shape.entries ?_)
        (fun _ _ both => both) fun _ _ adds => .fails adds.extendsTo) ?_
      · rintro earlier given
        cases given
      rintro branches graph ⟨adds, listed, chain⟩
      rcases Skeleton.shape_ofBranches listed with ⟨shaped, values⟩
      apply Serves.creates unknown shaped adds.extendsTo
      apply Skeleton.selects_of_chain
      rw [shaped, values, List.map_map]
      exact chain
  rw [serve]
  cases outcome : Skeleton.findOrCreate pool.skeletons request.shape
      request.indexOperation request.lastIteration pool.graph with
  | ok answer graph =>
    rw [outcome] at ends
    exact ends
  | error failure graph =>
    rw [outcome] at ends
    exact ends

/-- A request is answered if each branch has an iteration and the index
operation exists. -/
theorem exists_answer
    (inhabited : ∀ iterations ∈ request.shape.values,
      ∃ iteration, iteration ∈ iterations)
    (present : request.indexOperation < pool.graph.size) :
    ∃ position, (pool.serve request).1 = .ok position := by
  have found : ∃ answer graph, Skeleton.findOrCreate pool.skeletons
      request.shape request.indexOperation request.lastIteration pool.graph =
        .ok answer graph := by
    rw [Skeleton.findOrCreate]
    cases Skeleton.find? pool.skeletons request.shape with
    | some position => exact ⟨(position, pool.skeletons), pool.graph, rfl⟩
    | none =>
      rcases Skeleton.createBranches_eq_ok
        (fun entry member => inhabited entry.2 (List.mem_map_of_mem member))
        present with ⟨branches, graph, created⟩
      refine ⟨(pool.skeletons.length,
        pool.skeletons ++ [{ branches := .ofList branches }]), graph, ?_⟩
      exact (bind_apply_of_ok created).trans rfl
  rcases found with ⟨answer, graph, found⟩
  refine ⟨answer.1, ?_⟩
  rw [serve, found]

/-- A later pool keeps the graph and the skeletons of an earlier one. -/
structure GrowsTo (pool later : SkeletonPool) : Prop where
  graph : pool.graph.ExtendsTo later.graph
  skeletons : pool.skeletons <+: later.skeletons

theorem GrowsTo.getElem? (grows : pool.GrowsTo later)
    {skeleton : Skeleton Nat}
    (stored : pool.skeletons[position]? = some skeleton) :
    later.skeletons[position]? = some skeleton := by
  rcases List.getElem?_eq_some_iff.mp stored with ⟨inside, _⟩
  rcases grows.skeletons with ⟨added, equal⟩
  rw [← equal, List.getElem?_append_left inside, stored]

/-- No two skeletons of a pool have the same branches. -/
def IsDistinct (pool : SkeletonPool) : Prop :=
  (pool.skeletons.map (·.shape.values)).Nodup

theorem isDistinct_fresh (graph : OperationGraph) :
    (fresh graph).IsDistinct :=
  List.nodup_nil

namespace Serves

variable {outcome : Except Failure Nat × SkeletonPool}

theorem grows (serves : pool.Serves request outcome) :
    pool.GrowsTo outcome.2 := by
  cases serves with
  | reuses => exact ⟨.refl _, List.prefix_rfl⟩
  | creates _ _ extension => exact ⟨extension, List.prefix_append _ _⟩
  | fails extension => exact ⟨extension, List.prefix_rfl⟩

theorem isDistinct (serves : pool.Serves request outcome)
    (distinct : pool.IsDistinct) : outcome.2.IsDistinct := by
  cases serves with
  | reuses => exact distinct
  | creates unknown shaped =>
    rw [IsDistinct, List.map_append, List.map_singleton, shaped]
    refine List.nodup_append.mpr ⟨distinct, List.nodup_singleton _, ?_⟩
    intro known member new equal
    rcases List.mem_map.mp member with ⟨other, stored, rfl⟩
    rw [List.mem_singleton.mp equal]
    exact unknown other stored
  | fails => exact distinct

/-- A request that is answered with a skeleton of the pool changes nothing. -/
theorem eq_of_lt (serves : pool.Serves request outcome)
    (answered : outcome.1 = .ok position)
    (known : position < pool.skeletons.length) : outcome.2 = pool := by
  cases serves with
  | reuses => rfl
  | creates =>
    cases answered
    exact absurd known (Nat.lt_irrefl _)
  | fails => cases answered

theorem skeletons_of_error {failure : Failure}
    (serves : pool.Serves request outcome)
    (failed : outcome.1 = .error failure) :
    outcome.2.skeletons = pool.skeletons := by
  cases serves with
  | reuses => rfl
  | creates => cases failed
  | fails => rfl

/-- A request is answered with a skeleton that has the requested branches. -/
theorem exists_skeleton (serves : pool.Serves request outcome)
    (answered : outcome.1 = .ok position) :
    ∃ skeleton, outcome.2.skeletons[position]? = some skeleton ∧
      skeleton.shape.values = request.shape.values := by
  cases serves with
  | reuses stored same =>
    cases answered
    exact ⟨_, stored, same⟩
  | creates _ shaped =>
    cases answered
    exact ⟨_, List.getElem?_concat_length, congrArg _ shaped⟩
  | fails => cases answered

/-- A request that is answered with a new position has made its skeleton. -/
theorem exists_selects (serves : pool.Serves request outcome)
    (answered : outcome.1 = .ok position)
    (new : pool.skeletons.length ≤ position) :
    ∃ skeleton, outcome.2.skeletons[position]? = some skeleton ∧
      skeleton.shape = request.shape ∧
      skeleton.Selects outcome.2.graph request.indexOperation
        request.lastIteration := by
  cases serves with
  | reuses stored =>
    cases answered
    rcases List.getElem?_eq_some_iff.mp stored with ⟨inside, _⟩
    exact absurd inside (Nat.not_lt.mpr new)
  | creates _ shaped _ selects =>
    cases answered
    exact ⟨_, List.getElem?_concat_length, shaped, selects⟩
  | fails => cases answered

/-- A request after which a new position is taken is answered with it. -/
theorem answer_of_new (serves : pool.Serves request outcome)
    (new : pool.skeletons.length ≤ position)
    (taken : position < outcome.2.skeletons.length) :
    outcome.1 = .ok position := by
  cases serves with
  | reuses => exact absurd taken (Nat.not_lt.mpr new)
  | creates =>
    rw [List.length_append, List.length_singleton] at taken
    rw [Nat.le_antisymm new (Nat.le_of_lt_succ taken)]
  | fails => exact absurd taken (Nat.not_lt.mpr new)

end Serves

/-! ## Several requests -/

theorem serveAll_append (pool : SkeletonPool)
    (earlier rest : List SkeletonRequest) :
    pool.serveAll (earlier ++ rest) = (pool.serveAll earlier).serveAll rest :=
  List.foldl_append

theorem serveAll_grows (pool : SkeletonPool)
    (requests : List SkeletonRequest) :
    pool.GrowsTo (pool.serveAll requests) := by
  induction requests generalizing pool with
  | nil => exact ⟨.refl _, List.prefix_rfl⟩
  | cons request rest ih =>
    have first := (pool.serve_serves request).grows
    have others := ih (pool.serve request).2
    exact ⟨first.graph.trans others.graph,
      first.skeletons.trans others.skeletons⟩

theorem IsDistinct.serveAll (distinct : pool.IsDistinct)
    (requests : List SkeletonRequest) :
    (pool.serveAll requests).IsDistinct := by
  induction requests generalizing pool with
  | nil => exact distinct
  | cons request rest ih =>
    exact ih ((pool.serve_serves request).isDistinct distinct)

/-- A skeleton that was not there before was made for a request. -/
theorem exists_creates (new : pool.skeletons.length ≤ position)
    (present : position < (pool.serveAll requests).skeletons.length) :
    ∃ creator, pool.Creates requests creator position := by
  induction requests generalizing pool with
  | nil => exact absurd present (Nat.not_lt.mpr new)
  | cons request rest ih =>
    by_cases known : position < (pool.serve request).2.skeletons.length
    · exact ⟨request, [], rest, rfl,
        (pool.serve_serves request).answer_of_new new known, new⟩
    · rcases ih (Nat.le_of_not_lt known) present with
        ⟨creator, earlier, later, rfl, answered, unknown⟩
      exact ⟨creator, request :: earlier, later, rfl, answered, unknown⟩

/-- The skeleton made for a request stays, with the branches and the conditions
that were requested. -/
theorem Creates.exists_selects
    (creates : pool.Creates requests creator position) :
    ∃ skeleton,
      (pool.serveAll requests).skeletons[position]? = some skeleton ∧
      skeleton.shape = creator.shape ∧
      skeleton.Selects (pool.serveAll requests).graph creator.indexOperation
        creator.lastIteration := by
  rcases creates with ⟨earlier, rest, rfl, answered, new⟩
  rcases (serve_serves _ creator).exists_selects answered new with
    ⟨skeleton, stored, shaped, selects⟩
  have grows := serveAll_grows ((pool.serveAll earlier).serve creator).2 rest
  rw [serveAll_append]
  exact ⟨skeleton, grows.getElem? stored, shaped, selects.extend grows.graph⟩

/-- The skeleton with which a request is answered has the requested branches. -/
theorem Answers.exists_skeleton
    (answers : pool.Answers requests request position) :
    ∃ skeleton,
      (pool.serveAll requests).skeletons[position]? = some skeleton ∧
      skeleton.shape.values = request.shape.values := by
  rcases answers with ⟨earlier, rest, rfl, answered⟩
  rcases (serve_serves _ request).exists_skeleton answered with
    ⟨skeleton, stored, same⟩
  have grows := serveAll_grows ((pool.serveAll earlier).serve request).2 rest
  rw [serveAll_append]
  exact ⟨skeleton, grows.getElem? stored, same⟩

theorem Answers.mem (answers : pool.Answers requests request position) :
    request ∈ requests := by
  rcases answers with ⟨earlier, rest, rfl, _⟩
  exact List.mem_append_right earlier List.mem_cons_self

theorem Creates.answers (creates : pool.Creates requests creator position) :
    pool.Answers requests creator position := by
  rcases creates with ⟨earlier, rest, split, answered, _⟩
  exact ⟨earlier, rest, split, answered⟩

/-- What a request is answered with was made for the request itself or for an
earlier one. -/
theorem Creates.of_answered (creates : pool.Creates requests creator position)
    {earlier rest : List SkeletonRequest}
    (split : requests = earlier ++ request :: rest)
    (answered : ((pool.serveAll earlier).serve request).1 = .ok position) :
    pool.Creates (earlier ++ [request]) creator position := by
  rcases creates with ⟨before, later, same, made, new⟩
  rw [split, List.append_eq_append_iff] at same
  rcases same with ⟨between, rfl, same⟩ | ⟨between, rfl, same⟩
  · -- the creator would come after the request, but the position is known then
    cases between with
    | nil =>
      cases same
      rw [List.append_nil] at made new
      exact ⟨earlier, [], rfl, made, new⟩
    | cons first between =>
      cases same
      rcases (serve_serves _ request).exists_skeleton answered with
        ⟨_, stored, _⟩
      have grows :=
        serveAll_grows ((pool.serveAll earlier).serve request).2 between
      rcases List.getElem?_eq_some_iff.mp (grows.getElem? stored) with
        ⟨inside, _⟩
      rw [serveAll_append] at new
      exact absurd inside (Nat.not_lt.mpr new)
  · cases between with
    | nil =>
      cases same
      rw [List.append_nil]
      exact ⟨before, [], rfl, made, new⟩
    | cons first between =>
      cases same
      exact ⟨before, between ++ [request], by simp, made, new⟩

/-- The skeleton with which a request is answered was made for a request. -/
theorem Answers.exists_creates
    (answers : pool.Answers requests request position)
    (new : pool.skeletons.length ≤ position) :
    ∃ creator, pool.Creates requests creator position := by
  rcases answers.exists_skeleton with ⟨skeleton, stored, _⟩
  rcases List.getElem?_eq_some_iff.mp stored with ⟨inside, _⟩
  exact SkeletonPool.exists_creates new inside

/-- Answers are equal exactly if the requested branches are. -/
theorem Answers.eq_iff {second : SkeletonRequest} {other : Nat}
    (distinct : pool.IsDistinct)
    (answers : pool.Answers requests request position)
    (others : pool.Answers requests second other) :
    position = other ↔ request.shape.values = second.shape.values := by
  rcases answers.exists_skeleton with ⟨skeleton, stored, same⟩
  rcases others.exists_skeleton with ⟨another, located, alike⟩
  constructor
  · rintro rfl
    rw [stored] at located
    cases located
    exact same.symm.trans alike
  · intro equal
    -- a list without repetitions has its members at one position each
    rcases List.getElem?_eq_some_iff.mp stored with ⟨inside, _⟩
    refine (List.getElem?_inj ?_ (distinct.serveAll requests)).mp ?_
    · rw [List.length_map]
      exact inside
    · rw [List.getElem?_map, List.getElem?_map, stored, located,
        Option.map_some, Option.map_some, same, alike, equal]

/-- Requests for skeletons over one graph and at first no skeletons, all with
one index operation and one last iteration and for shapes whose branches are
known by their first iterations.

All requests are answered if the index operation exists.  Two are answered with
one position exactly if their shapes are equal.  A request that is answered with
a known position changes nothing, and one that fails leaves the skeletons as
they are.  In the skeleton that a request is answered with, the conditions
select the first branch that has an iteration. -/
theorem equal_shapes_share_skeleton {graph : OperationGraph}
    {requests : List SkeletonRequest} {indexOperation lastIteration : Nat}
    (context : ∀ request ∈ requests,
      request.indexOperation = indexOperation ∧
        request.lastIteration = lastIteration)
    (keyed : ∀ request ∈ requests, request.shape.KeyedByFirst) :
    (indexOperation < graph.size → ∀ earlier request rest,
      requests = earlier ++ request :: rest →
        ∃ position,
          (((fresh graph).serveAll earlier).serve request).1 =
            .ok position) ∧
    (∀ first second position other,
      (fresh graph).Answers requests first position →
      (fresh graph).Answers requests second other →
        (position = other ↔ first.shape = second.shape)) ∧
    (∀ (pool : SkeletonPool) (request : SkeletonRequest),
      (∀ position, (pool.serve request).1 = .ok position →
        position < pool.skeletons.length →
          (pool.serve request).2 = pool) ∧
      (∀ failure, (pool.serve request).1 = .error failure →
        (pool.serve request).2.skeletons = pool.skeletons)) ∧
    ∀ request position, (fresh graph).Answers requests request position →
      ∃ skeleton,
        ((fresh graph).serveAll requests).skeletons[position]? =
          some skeleton ∧
        skeleton.shape = request.shape ∧
        skeleton.Selects ((fresh graph).serveAll requests).graph
          indexOperation lastIteration := by
  have distinct := isDistinct_fresh graph
  have equal : ∀ first second position,
      (fresh graph).Answers requests first position →
      (fresh graph).Answers requests second position →
        first.shape = second.shape := by
    intro first second position answers others
    exact (keyed first answers.mem).eq_of_values (keyed second others.mem)
      ((answers.eq_iff distinct others).mp rfl)
  refine ⟨?_, ?_, ?_, ?_⟩
  · rintro present earlier request rest rfl
    have among : request ∈ earlier ++ request :: rest :=
      List.mem_append_right earlier List.mem_cons_self
    have grows := serveAll_grows (fresh graph) earlier
    apply exists_answer (keyed request among).inhabited
    rw [(context request among).1]
    exact grows.graph.lt_size present
  · intro first second position other answers others
    constructor
    · rintro rfl
      exact equal first second position answers others
    · intro same
      rw [answers.eq_iff distinct others, same]
  · intro pool request
    have serves := pool.serve_serves request
    exact ⟨fun _ => serves.eq_of_lt, fun _ => serves.skeletons_of_error⟩
  · intro request position answers
    rcases answers.exists_creates (Nat.zero_le position) with
      ⟨creator, creates⟩
    rcases creates.exists_selects with ⟨skeleton, stored, shaped, selects⟩
    rcases context creator creates.answers.mem with ⟨sameIndex, sameLast⟩
    rw [sameIndex, sameLast] at selects
    exact ⟨skeleton, stored,
      shaped.trans (equal creator request position creates.answers answers),
      selects⟩

/-- Two index variables, each declared and used. -/
def twoIndices : OperationGraph where
  nodes := #[
    { kind := .indexDeclaration, info := [], arguments := [],
      name := some "i" },
    { kind := .index, info := [], arguments := [.node 0] },
    { kind := .indexDeclaration, info := [], arguments := [],
      name := some "j" },
    { kind := .index, info := [], arguments := [.node 2] }]

/-- The first two iterations make up the only branch. -/
def firstTwo : BranchShape :=
  .ofList [(0, .ofList [0, 1])]

/-- Four iterations divided between two branches, even ones first. -/
def evenThenOdd : BranchShape :=
  .ofList [(0, .ofList [0, 2]), (1, .ofList [1, 3])]

/-- Two shapes, the first of which is requested twice. -/
def repeatedRequests : List SkeletonRequest :=
  [⟨evenThenOdd, 1, 3⟩, ⟨firstTwo, 1, 3⟩, ⟨evenThenOdd, 1, 3⟩]

theorem repeatedRequests_share_skeleton :
    (fresh twoIndices).Answers repeatedRequests ⟨evenThenOdd, 1, 3⟩ 0 ∧
    (fresh twoIndices).Answers repeatedRequests ⟨firstTwo, 1, 3⟩ 1 ∧
    (0 = 1 ↔ evenThenOdd = firstTwo) ∧
    ∃ skeleton,
      ((fresh twoIndices).serveAll repeatedRequests).skeletons[0]? =
        some skeleton ∧
      skeleton.shape = evenThenOdd ∧
      skeleton.Selects
        ((fresh twoIndices).serveAll repeatedRequests).graph 1 3 := by
  have context : ∀ request ∈ repeatedRequests,
      request.indexOperation = 1 ∧ request.lastIteration = 3 := by decide
  have keyed : ∀ request ∈ repeatedRequests,
      request.shape.KeyedByFirst := by decide
  -- the last request is answered with the skeleton of the first one
  have again : (fresh twoIndices).Answers repeatedRequests
      ⟨evenThenOdd, 1, 3⟩ 0 :=
    ⟨[⟨evenThenOdd, 1, 3⟩, ⟨firstTwo, 1, 3⟩], [], rfl, rfl⟩
  have between : (fresh twoIndices).Answers repeatedRequests
      ⟨firstTwo, 1, 3⟩ 1 :=
    ⟨[⟨evenThenOdd, 1, 3⟩], [⟨evenThenOdd, 1, 3⟩], rfl, rfl⟩
  rcases equal_shapes_share_skeleton context keyed with
    ⟨_, shared, _, selected⟩
  exact ⟨again, between, shared _ _ _ _ again between, selected _ _ again⟩

/-- A skeleton with which a request is answered was made for a request with the
same branches, which is the request itself or an earlier one.  The conditions
select branches in the context of the creator: they test its index operation,
and they are right up to its last iteration. -/
theorem answer_selects_for_creator {graph : OperationGraph}
    {requests : List SkeletonRequest} {request : SkeletonRequest}
    {position : Nat}
    (answers : (fresh graph).Answers requests request position) :
    (∃ creator, (fresh graph).Creates requests creator position) ∧
    ∀ creator, (fresh graph).Creates requests creator position →
      creator.shape.values = request.shape.values ∧
      (∀ earlier rest, requests = earlier ++ request :: rest →
        (((fresh graph).serveAll earlier).serve request).1 = .ok position →
          (fresh graph).Creates (earlier ++ [request]) creator position) ∧
      ∃ skeleton,
        ((fresh graph).serveAll requests).skeletons[position]? =
          some skeleton ∧
        skeleton.shape = creator.shape ∧
        skeleton.Selects ((fresh graph).serveAll requests).graph
          creator.indexOperation creator.lastIteration :=
  ⟨answers.exists_creates (Nat.zero_le position), fun _ creates =>
    ⟨(creates.answers.eq_iff (isDistinct_fresh graph) answers).mp rfl,
      fun _ _ => creates.of_answered, creates.exists_selects⟩⟩

/-- One shape, requested for a loop of two iterations and then for a loop of
four iterations over another index. -/
def requestsFromTwoLoops : List SkeletonRequest :=
  [⟨firstTwo, 1, 1⟩, ⟨firstTwo, 3, 3⟩]

/-- The request of the second loop is answered. -/
theorem secondLoop_answered :
    (fresh twoIndices).Answers requestsFromTwoLoops ⟨firstTwo, 3, 3⟩ 0 :=
  ⟨[⟨firstTwo, 1, 1⟩], [], rfl, rfl⟩

theorem secondLoop_selects_for_first :
    (fresh twoIndices).Answers requestsFromTwoLoops ⟨firstTwo, 3, 3⟩ 0 ∧
    (fresh twoIndices).Creates
      ([⟨firstTwo, 1, 1⟩] ++ [⟨firstTwo, 3, 3⟩]) ⟨firstTwo, 1, 1⟩ 0 ∧
    ∃ skeleton,
      ((fresh twoIndices).serveAll requestsFromTwoLoops).skeletons[0]? =
        some skeleton ∧
      skeleton.shape = firstTwo ∧
      skeleton.Selects
        ((fresh twoIndices).serveAll requestsFromTwoLoops).graph 1 1 := by
  refine ⟨secondLoop_answered, ?_⟩
  have creates : (fresh twoIndices).Creates requestsFromTwoLoops
      ⟨firstTwo, 1, 1⟩ 0 :=
    ⟨[], [⟨firstTwo, 3, 3⟩], rfl, rfl, Nat.le_refl 0⟩
  obtain ⟨_, before, selects⟩ :=
    (answer_selects_for_creator secondLoop_answered).2 _ creates
  exact ⟨before _ [] rfl rfl, selects⟩

/-- The skeleton does not select branches for the second loop: its condition
tests the index of the first one, and it also holds at an iteration of the
second loop that no branch has. -/
theorem reuse_ignores_context :
    (∀ request ∈ requestsFromTwoLoops, request.shape.KeyedByFirst ∧
      ∀ iterations ∈ request.shape.values, ∀ iteration ∈ iterations.toList,
        iteration ≤ request.lastIteration) ∧
    (fresh twoIndices).Answers requestsFromTwoLoops ⟨firstTwo, 3, 3⟩ 0 ∧
    ∃ skeleton condition,
      ((fresh twoIndices).serveAll requestsFromTwoLoops).skeletons[0]? =
        some skeleton ∧
      ((fresh twoIndices).serveAll requestsFromTwoLoops).graph.Chain none
        (skeleton.branches.values.map (·.body)) [condition] ∧
      condition.arguments = [.node 1] ∧
      condition.admits 2 = true ∧
      skeleton.shape.values.findIdx? (·.contains 2) = none := by
  refine ⟨by decide, secondLoop_answered, _, _, rfl,
    .cons rfl rfl (.nil _), rfl, by decide, rfl⟩

end SkeletonPool

end SparseLoop
