import LlmLab.Serving.KVCache.Passes
import LlmLab.Serving.ContinuousBatching.Engine

/-!
# Requests between the calls of the engine

`Coherent` is the invariant of the engine: the request records are in one of four shapes, exactly
the decoding requests hold KV-cache blocks, and what has arrived is not ahead of the clock.  The
candidates of a plan are read off it.
-/

namespace LlmLab.Serving

open KVCacheManager

/-- A request between calls. -/
inductive Request.Resting (request : Request) : Prop
  | waiting : request.Pristine → Resting request
  | decoding : request.state = .decoding → request.generatedTokenCount < request.maxNewTokens →
      Resting request
  | finished : request.state = .finished → request.generatedTokenCount = request.maxNewTokens →
      Resting request
  | cancelled : request.state = .cancelled →
      request.generatedTokenCount ≤ request.maxNewTokens → Resting request

namespace Request.Resting

variable {request : Request}

theorem pristine (resting : request.Resting) (waiting : request.state = .waiting) :
    request.Pristine := by
  cases resting with
  | waiting pristine => exact pristine
  | decoding state | finished state | cancelled state =>
      rw [waiting] at state
      cases state

theorem unfinished (resting : request.Resting) (decoding : request.state = .decoding) :
    request.generatedTokenCount < request.maxNewTokens := by
  cases resting with
  | decoding _ room => exact room
  | waiting pristine =>
      rw [pristine.1] at decoding
      cases decoding
  | finished state | cancelled state =>
      rw [decoding] at state
      cases state

theorem generated_le (resting : request.Resting) :
    request.generatedTokenCount ≤ request.maxNewTokens := by
  cases resting with
  | waiting pristine =>
      rw [pristine.2.1]
      exact Nat.zero_le _
  | decoding _ room => exact room.le
  | finished _ all => exact all.le
  | cancelled _ some' => exact some'

end Request.Resting

/-- What a request asks of the KV cache. -/
def Request.usage? (request : Request) : Option Usage :=
  if request.state = .decoding then some ⟨request.promptLength, request.generatedTokenCount⟩
  else none

/-- The ledger of the request records. -/
def ledgerOf (requests : OrdMap RequestId Request) : Ledger := fun id =>
  (requests.find? id).bind Request.usage?

theorem ledgerOf_insert (requests : OrdMap RequestId Request) (id other : RequestId)
    (request : Request) : ledgerOf (requests.insert id request) other =
      if other = id then request.usage? else ledgerOf requests other := by
  unfold ledgerOf
  rw [OrdMap.find?_insert]
  split <;> rfl

namespace ContinuousBatchingEngine

variable {engine next : ContinuousBatchingEngine} {arrived : OrdSet RequestId} {id : RequestId}
  {request : Request} {candidate : Candidate}

/-- The invariant between calls. -/
structure Coherent (engine : ContinuousBatchingEngine) : Prop where
  sound : engine.kvCache.Sound
  setup : (KVCacheManager.create engine.config.kvCacheConfig engine.config.prefixCacheConfig
    stableTokenBlockHash).SameSetup engine.kvCache
  keyed : ∀ id request, engine.requests.find? id = some request → request.requestId = id
  resting : ∀ id request, engine.requests.find? id = some request → request.Resting
  arrived : ∀ id ∈ engine.arrivedRequests, ∃ request, engine.requests.find? id = some request ∧
    request.arrivalTimeUs ≤ engine.nowUs
  tallied : Tallied (ledgerOf engine.requests) engine.kvCache

theorem requestAt_eq_ok : engine.requestAt id = .ok request ↔
    engine.requests.find? id = some request := by
  unfold requestAt
  cases engine.requests.find? id <;> simp

theorem create_coherent (backend : SimulatedBackend) (config : ContinuousBatchingConfig) :
    (create backend config).Coherent where
  sound := create_sound
  setup := .refl _
  keyed _ _ found := by cases found
  resting _ _ found := by cases found
  arrived id member := by cases member
  tallied := ⟨fun _ _ found => (by cases found), fun _ _ found => (by cases found)⟩

/-! ## Arrivals -/

/-- What has arrived has arrived before, or waits and is due. -/
theorem mem_arrivals (coherent : engine.Coherent) : id ∈ engine.arrivalsAtCurrentTimestamp ↔
    id ∈ engine.arrivedRequests ∨ ∃ request, engine.requests.find? id = some request ∧
      request.state = .waiting ∧ request.arrivalTimeUs ≤ engine.nowUs := by
  unfold arrivalsAtCurrentTimestamp
  rw [OrdSet.mem_insertAll, or_comm]
  by_cases known : id ∈ engine.arrivedRequests
  · simp [known]
  rw [or_iff_right known, or_iff_right known, List.mem_filterMap]
  constructor
  · rintro ⟨⟨key, request⟩, listed, selected⟩
    have found := OrdMap.find?_eq_some_iff.mpr listed
    split at selected
    · next arrives =>
        cases selected
        exact ⟨request, by rw [coherent.keyed key request found]; exact found, arrives.1, arrives.2.2⟩
    · cases selected
  · rintro ⟨request, found, waiting, arrives⟩
    refine ⟨(id, request), OrdMap.find?_eq_some_iff.mp found, ?_⟩
    rw [if_pos ⟨waiting, by rwa [coherent.keyed id request found], arrives⟩,
      coherent.keyed id request found]

theorem arrivals_arrived (coherent : engine.Coherent) :
    ∀ id ∈ engine.arrivalsAtCurrentTimestamp, ∃ request, engine.requests.find? id = some request ∧
      request.arrivalTimeUs ≤ engine.nowUs := fun id member => by
  rcases (mem_arrivals coherent).mp member with known | ⟨request, found, -, arrives⟩
  · exact coherent.arrived id known
  · exact ⟨request, found, arrives⟩

theorem hasRunnableWork_iff : engine.hasRunnableWork arrived = true ↔
    ∃ id request, engine.requests.find? id = some request ∧ runnable arrived request = true := by
  unfold hasRunnableWork
  rw [List.any_eq_true]
  constructor
  · rintro ⟨⟨id, request⟩, listed, runs⟩
    exact ⟨id, request, OrdMap.find?_eq_some_iff.mpr listed, runs⟩
  · rintro ⟨id, request, found, runs⟩
    exact ⟨(id, request), OrdMap.find?_eq_some_iff.mp found, runs⟩

theorem runnable_iff : runnable arrived request = true ↔
    request.state = .decoding ∨ (request.state = .waiting ∧ request.requestId ∈ arrived) := by
  simp [runnable]

/-- A request that waits for the clock. -/
def Ahead (engine : ContinuousBatchingEngine) (arrived : OrdSet RequestId) (request : Request) :
    Prop :=
  request.state = .waiting ∧ request.requestId ∉ arrived ∧ engine.nowUs < request.arrivalTimeUs

instance (engine : ContinuousBatchingEngine) (arrived : OrdSet RequestId) (request : Request) :
    Decidable (engine.Ahead arrived request) := by
  unfold Ahead
  infer_instance

/-- The next arrival is the earliest one ahead of the clock. -/
theorem nextFutureArrival_spec : match engine.nextFutureArrival arrived with
    | none => ∀ id request, engine.requests.find? id = some request → ¬ engine.Ahead arrived request
    | some time => (∃ id request, engine.requests.find? id = some request ∧
          engine.Ahead arrived request ∧ request.arrivalTimeUs = time) ∧
        ∀ id request, engine.requests.find? id = some request → engine.Ahead arrived request →
          time ≤ request.arrivalTimeUs := by
  have least : engine.nextFutureArrival arrived = (engine.requests.entries.filterMap fun entry =>
      if engine.Ahead arrived entry.2 then some entry.2.arrivalTimeUs else none).min? := by
    rw [← foldl_keepLeast]
    unfold nextFutureArrival
    congr 1
    funext earliest entry
    by_cases ahead : engine.Ahead arrived entry.2
    · rw [if_neg (by simpa [Ahead] using ahead), if_pos ahead]
      rfl
    · rw [if_pos (by simpa [Ahead, or_iff_not_imp_left] using ahead), if_neg ahead]
      rfl
  rw [least]
  have listed : ∀ time, time ∈ (engine.requests.entries.filterMap fun entry =>
      if engine.Ahead arrived entry.2 then some entry.2.arrivalTimeUs else none) ↔
      ∃ id request, engine.requests.find? id = some request ∧ engine.Ahead arrived request ∧
        request.arrivalTimeUs = time := fun time => by
    rw [List.mem_filterMap]
    constructor
    · rintro ⟨⟨id, request⟩, member, value⟩
      split at value
      · next ahead => exact ⟨id, request, OrdMap.find?_eq_some_iff.mpr member, ahead, by simpa using value⟩
      · cases value
    · rintro ⟨id, request, found, ahead, same⟩
      exact ⟨(id, request), OrdMap.find?_eq_some_iff.mp found, by rw [if_pos ahead, same]⟩
  split
  · next none' =>
      intro id request found ahead
      have member := (listed _).mpr ⟨id, request, found, ahead, rfl⟩
      rw [List.min?_eq_none_iff.mp none'] at member
      cases member
  · next time first =>
      obtain ⟨member, below⟩ := List.min?_eq_some_iff.mp first
      exact ⟨(listed time).mp member,
        fun id request found ahead => below _ ((listed _).mpr ⟨id, request, found, ahead, rfl⟩)⟩

/-! ## Candidates -/

/-- A candidate describes a runnable request. -/
structure Describes (engine : ContinuousBatchingEngine) (arrived : OrdSet RequestId)
    (candidate : Candidate) (request : Request) : Prop where
  found : engine.requests.find? candidate.requestId = some request
  runnable : runnable arrived request = true
  arrival : candidate.arrivalTimeUs = request.arrivalTimeUs
  isPrefill : candidate.isPrefill = true ↔ request.state = .waiting

/-- The candidates describe exactly the runnable requests. -/
theorem mem_runnableCandidates (coherent : engine.Coherent) :
    candidate ∈ engine.runnableCandidates arrived ↔
      ∃ request, engine.Describes arrived candidate request := by
  unfold runnableCandidates
  simp only [List.mem_map, List.mem_filter]
  constructor
  · rintro ⟨⟨id, request⟩, ⟨listed, runs⟩, rfl⟩
    have found := OrdMap.find?_eq_some_iff.mpr listed
    refine ⟨request, by rw [coherent.keyed id request found]; exact found, runs, rfl, ?_⟩
    rcases runnable_iff.mp (show runnable arrived request = true from runs) with
      decoding | ⟨waiting, -⟩
    · simp [decoding]
    · simp [waiting]
  · rintro ⟨request, found, runs, arrival, isPrefill⟩
    refine ⟨(candidate.requestId, request), ⟨OrdMap.find?_eq_some_iff.mp found, runs⟩, ?_⟩
    obtain ⟨id, time, kind⟩ := candidate
    have same : decide (request.state ≠ .decoding) = kind := by
      rcases runnable_iff.mp runs with decoding | ⟨waiting, -⟩
      · cases kind <;> simp_all
      · cases kind <;> simp_all
    rw [coherent.keyed _ request found, ← arrival, same]

theorem runnableCandidates_nodup (coherent : engine.Coherent) (arrived : OrdSet RequestId) :
    ((engine.runnableCandidates arrived).map (·.requestId)).Nodup := by
  unfold runnableCandidates
  rw [List.map_map]
  have keys : ((engine.requests.entries.filter fun entry => runnable arrived entry.2).map
      Prod.fst).Nodup := engine.requests.keys_nodup.sublist ((List.filter_sublist).map _)
  refine (List.map_congr_left fun entry member => ?_) ▸ keys
  exact (coherent.keyed entry.1 entry.2
    (OrdMap.find?_eq_some_iff.mpr (List.mem_of_mem_filter member))).symm

theorem orderedCandidates_perm (engine : ContinuousBatchingEngine) (arrived : OrdSet RequestId) :
    (engine.orderedCandidates arrived).Perm (engine.runnableCandidates arrived) := by
  unfold orderedCandidates
  cases engine.config.schedulingPolicy with
  | decodeFirst =>
      refine (((sortBy_perm _ _).append (sortBy_perm _ _)).trans ?_)
      have split := List.filter_append_perm (fun candidate : Candidate => !candidate.isPrefill)
        (engine.runnableCandidates arrived)
      simpa using split
  | fcfsMixed => exact sortBy_perm _ _

theorem mem_orderedCandidates (coherent : engine.Coherent) :
    candidate ∈ engine.orderedCandidates arrived ↔
      ∃ request, engine.Describes arrived candidate request :=
  (engine.orderedCandidates_perm arrived).mem_iff.trans (mem_runnableCandidates coherent)

theorem orderedCandidates_nodup (coherent : engine.Coherent) (arrived : OrdSet RequestId) :
    ((engine.orderedCandidates arrived).map (·.requestId)).Nodup :=
  ((engine.orderedCandidates_perm arrived).map _).nodup_iff.mpr
    (runnableCandidates_nodup coherent arrived)

end ContinuousBatchingEngine

end LlmLab.Serving
