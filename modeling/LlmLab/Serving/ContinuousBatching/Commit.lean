import LlmLab.Serving.ContinuousBatching.Iteration

/-!
# Committed iterations and the calls of the engine

What each call makes of the engine: a submission, a cancellation, or an iteration that was
planned, prepared and committed.  A property that these keep holds of every reachable engine.
-/

namespace LlmLab.Serving

open KVCacheManager

namespace ContinuousBatchingEngine

variable {engine next : ContinuousBatchingEngine} {arrived : OrdSet RequestId}
  {consumed : List Candidate} {builder : PlanBuilder} {id : RequestId} {request : Request}
  {endTimestampUs : Int}

/-! ## The plan of an iteration -/

theorem Trail.described (trail : engine.Trail arrived consumed builder) :
    ∀ candidate ∈ consumed, ∃ request, engine.Describes arrived candidate request := by
  induction trail with
  | start => exact fun _ member => by cases member
  | step _ describes _ _ ih =>
      intro candidate member
      rcases List.mem_append.mp member with old | new
      · exact ih candidate old
      · rw [List.mem_singleton.mp new]
        exact ⟨_, describes⟩

/-- The scheduled work is runnable. -/
theorem Trail.runs (trail : engine.Trail arrived consumed builder) (coherent : engine.Coherent)
    (distinct : (consumed.map (·.requestId)).Nodup) (number : Nat) :
    engine.Runs arrived (builder.plan number) := by
  have planned := trail.planned
  have described : ∀ item ∈ builder.workOrder, ∃ candidate request,
      engine.Describes arrived candidate request ∧ candidate.requestId = item.requestId ∧
        candidate.isPrefill = item.isPrefill := fun item member => by
    obtain ⟨candidate, known, same, kind⟩ := trail.items item member
    obtain ⟨request, describes⟩ := trail.described candidate known
    exact ⟨candidate, request, describes, same, kind⟩
  refine ⟨planned.mentions_nodup distinct, fun id member => ?_, fun id member => ?_⟩
  · change id ∈ builder.prefills.map (·.requestId) at member
    rw [planned.prefills] at member
    obtain ⟨item, listed, rfl⟩ := List.mem_map.mp member
    obtain ⟨listed, isPrefill⟩ := List.mem_filter.mp listed
    obtain ⟨candidate, request, describes, same, kind⟩ := described item listed
    have waiting := describes.isPrefill.mp (kind.trans isPrefill)
    have found := describes.found
    rw [same] at found
    refine ⟨request, found, waiting, ?_⟩
    rcases runnable_iff.mp describes.runnable with decoding | ⟨-, known⟩
    · rw [waiting] at decoding
      cases decoding
    · rwa [coherent.keyed _ request found] at known
  · change id ∈ builder.decodes at member
    rw [planned.decodes] at member
    obtain ⟨item, listed, rfl⟩ := List.mem_map.mp member
    obtain ⟨listed, isDecode⟩ := List.mem_filter.mp listed
    obtain ⟨candidate, request, describes, same, kind⟩ := described item listed
    have decoding := describes.decoding_iff.mp (kind.trans (by simpa using isDecode))
    have found := describes.found
    rw [same] at found
    exact ⟨request, found, decoding, (coherent.resting _ request found).unfinished decoding⟩

/-- Every scheduled request holds a table on the local manager. -/
theorem Trail.listed (trail : engine.Trail arrived consumed builder) (coherent : engine.Coherent)
    (number : Nat) : ∀ id ∈ (builder.plan number).prefillRequestIds ++
      (builder.plan number).decodeRequestIds,
        ∃ table, builder.cache.blockTables.find? id = some table := fun id member => by
  refine trail.passes.table_of_subject coherent.sound (Trail.not_release builder id) ?_
  obtain ⟨item, listed, same⟩ := List.mem_map.mp (trail.planned.scheduled.mem_iff.mp member)
  exact ⟨_, List.mem_map_of_mem listed, by rw [workEvent_subject, same]⟩

theorem plan_isEmpty (planned : engine.Planned consumed builder) (number : Nat) :
    (builder.plan number).isEmpty = true ↔ consumed = [] := by
  have length := planned.ids.length_eq
  have scheduled := planned.scheduled.length_eq
  rw [List.length_append, List.length_map, List.length_map, List.length_map] at length
  rw [List.length_append, List.length_map, List.length_map] at scheduled
  have count : (builder.plan number).scheduledSequenceCount =
      builder.prefills.length + builder.decodes.length := by
    simp [BatchPlan.scheduledSequenceCount, PlanBuilder.plan]
  unfold BatchPlan.isEmpty
  rw [count, Bool.and_eq_true, decide_eq_true_eq, List.isEmpty_iff, ← List.length_eq_zero_iff,
    ← List.length_eq_zero_iff]
  change _ ∧ builder.deferred.length = 0 ↔ _
  omega

theorem plan_scheduledSequenceCount (planned : engine.Planned consumed builder) (number : Nat) :
    (builder.plan number).scheduledSequenceCount = builder.workOrder.length := by
  have scheduled := planned.scheduled.length_eq
  rw [List.length_append, List.length_map, List.length_map] at scheduled
  rw [← scheduled, BatchPlan.scheduledSequenceCount, PlanBuilder.plan, List.length_map]

theorem plan_deferredOnly (planned : engine.Planned consumed builder) (some' : consumed ≠ [])
    (number : Nat) : (builder.plan number).deferredOnly = true ↔ builder.workOrder = [] := by
  have length := planned.ids.length_eq
  rw [List.length_append, List.length_map, List.length_map, List.length_map] at length
  have pos := List.length_pos_of_ne_nil some'
  unfold BatchPlan.deferredOnly
  rw [plan_scheduledSequenceCount planned, Bool.and_eq_true, decide_eq_true_eq, Bool.not_eq_true',
    ← Bool.not_eq_true, List.isEmpty_iff, ← List.length_eq_zero_iff, ← List.length_eq_zero_iff]
  change _ ∧ ¬ builder.deferred.length = 0 ↔ _
  omega

/-! ## Committing -/

/-- The trace entry of an iteration. -/
def entryOf (engine : ContinuousBatchingEngine) (plan : BatchPlan) (endTimestampUs : Int)
    (cache : KVCacheManager) : BatchTraceEntry where
  iterationNumber := plan.iterationNumber
  startTimestampUs := engine.nowUs
  endTimestampUs := endTimestampUs
  policy := engine.config.schedulingPolicy
  plan := plan
  allocatedKvBlocks := cache.allocatedBlockCount
  freeKvBlocks := cache.freeBlocks.size
  representedKvTokens := cache.representedTokenCount
  internalFragmentationTokens := cache.internalFragmentationTokens
  cachedKvBlocks := cache.cachedBlockCount
  referencedSharedKvBlocks := cache.referencedSharedBlockCount
  kvBlockTables := cache.blockTables

/-- An iteration that carries out the plan of a builder and ends at a time. -/
structure Committed (engine : ContinuousBatchingEngine) (arrived : OrdSet RequestId)
    (builder : PlanBuilder) (endTimestampUs : Int) (next : ContinuousBatchingEngine) : Prop where
  rest : next = { engine with
    nowUs := endTimestampUs
    arrivedRequests := arrived
    requests := next.requests
    kvCache := next.kvCache
    statistics := statisticsAfter engine.statistics (builder.plan engine.nextIterationNumber)
      (engine.finishing (builder.plan engine.nextIterationNumber)).length next.kvCache
    nextIterationNumber := engine.nextIterationNumber + 1
    planTrace := engine.planTrace ++ [engine.entryOf (builder.plan engine.nextIterationNumber)
      endTimestampUs next.kvCache] }
  forward : engine.nowUs ≤ endTimestampUs
  requests : ∀ id, next.requests.find? id = (engine.requests.find? id).map
    (advance (builder.plan engine.nextIterationNumber) engine.nowUs endTimestampUs id)
  passes : Passes builder.cache ((engine.publications builder.prefills).map .publish ++
    (engine.finishing (builder.plan engine.nextIterationNumber)).map .release) next.kvCache

/-- `prepare_iteration` and `commit_iteration` on what the planner built. -/
theorem Trail.commit_ensures (trail : engine.Trail arrived consumed builder)
    (coherent : engine.Coherent) (distinct : (consumed.map (·.requestId)).Nodup)
    (timeValueUs : Int) (timeValueIsDuration : Bool)
    (forward : if timeValueIsDuration then 0 ≤ timeValueUs else engine.nowUs ≤ timeValueUs) :
    Ensures Exn.IsOverflow (fun prepared => engine.Committed arrived builder
        (if timeValueIsDuration then engine.nowUs + timeValueUs else timeValueUs)
        (engine.commitIteration prepared))
      (engine.prepareIteration (builder.plan engine.nextIterationNumber) arrived timeValueUs
        timeValueIsDuration) := by
  set plan := builder.plan engine.nextIterationNumber with planned
  have runs := trail.runs coherent distinct engine.nextIterationNumber
  have sound := trail.sound coherent
  unfold prepareIteration
  rw [show plan.workOrder = builder.workOrder from rfl,
    trail.replays (trail.planned.finds distinct engine.nextIterationNumber), except_ok_bind]
  refine (trail.publish_ensures coherent distinct).bind fun published publish => ?_
  have time : Ensures Exn.IsOverflow (fun endUs => endUs =
      if timeValueIsDuration then engine.nowUs + timeValueUs else timeValueUs)
      (engine.endTimestamp timeValueUs timeValueIsDuration) := by
    cases timeValueIsDuration with
    | true => exact checkedAdd_ensures _ _
    | false => rfl
  refine time.bind fun endUs same => ?_
  have later : engine.nowUs ≤ endUs := by
    rw [same]
    split
    · next isDuration => rw [if_pos isDuration] at forward; omega
    · next isTime => rwa [if_neg isTime] at forward
  rw [← same]
  refine .throwIf_bind (fun backwards => absurd later (not_le.mpr backwards)) fun _ => ?_
  have updates : Ensures Exn.IsOverflow (fun result =>
      (∀ id, (result.1.foldl (fun requests update => requests.insert update.1 update.2)
          engine.requests).find? id =
        (engine.requests.find? id).map (advance plan engine.nowUs endUs id)) ∧
      result.2 = (engine.finishing plan).length)
      (engine.requestUpdates plan endUs arrived) := by
    have whole := @prepareRequestUpdates_ensures engine arrived plan endUs runs
    unfold requestUpdates
    split
    · next empty =>
        have none := (plan_isEmpty trail.planned engine.nextIterationNumber).mp empty
        subst none
        have length := trail.planned.ids.length_eq
        have unscheduled : builder.workOrder = [] := by
          rw [List.length_append, List.length_map, List.length_map, List.map_nil,
            List.length_nil] at length
          exact List.length_eq_zero_iff.mp (by omega)
        obtain ⟨noPrefills, noDecodes⟩ := trail.planned.workOrder_eq_nil.mp unscheduled
        unfold prepareRequestUpdates at whole
        rw [show plan.prefillRequestIds = [] from by rw [planned, PlanBuilder.plan, noPrefills]; rfl,
          show plan.decodeRequestIds = [] from noDecodes] at whole
        exact whole
    · exact whole
  refine updates.bind fun result spec => ?_
  have held : ∀ id ∈ plan.prefillRequestIds ++ plan.decodeRequestIds,
      ∃ table, published.blockTables.find? id = some table := fun id member =>
    publish.table_kept sound (by simp) (trail.listed coherent engine.nextIterationNumber id member)
  refine (releaseFinished_ensures runs (publish.sound sound) held).bind fun cache release => ?_
  refine (prepareStatistics_ensures plan result.2 cache).bind fun statistics counted => ?_
  refine (inc_ensures _ _).bind fun number incremented => ?_
  subst counted incremented
  refine ⟨?_, later, spec.1, publish.append release⟩
  rw [← spec.2]
  rfl

/-! ## Iterations -/

/-- What a successful iteration does. -/
inductive Iterated (engine : ContinuousBatchingEngine) :
    IterationOutcome → ContinuousBatchingEngine → Prop
  | complete : engine.hasRunnableWork engine.arrivalsAtCurrentTimestamp = false →
      engine.nextFutureArrival engine.arrivalsAtCurrentTimestamp = none →
      Iterated engine .complete engine
  | idle {time : Int} {next : ContinuousBatchingEngine} :
      engine.hasRunnableWork engine.arrivalsAtCurrentTimestamp = false →
      engine.nextFutureArrival engine.arrivalsAtCurrentTimestamp = some time →
      engine.Committed engine.arrivalsAtCurrentTimestamp { cache := engine.kvCache } time next →
      Iterated engine .progressed next
  | stalled {builder : PlanBuilder} {next : ContinuousBatchingEngine} :
      engine.hasRunnableWork engine.arrivalsAtCurrentTimestamp = true →
      (engine.orderedCandidates engine.arrivalsAtCurrentTimestamp).foldlM engine.planCandidate
        { cache := engine.kvCache } = .ok builder →
      engine.Trail engine.arrivalsAtCurrentTimestamp
        (engine.orderedCandidates engine.arrivalsAtCurrentTimestamp) builder →
      builder.workOrder = [] →
      engine.Committed engine.arrivalsAtCurrentTimestamp builder engine.nowUs next →
      Iterated engine .stalled next
  | progressed {builder : PlanBuilder} {durationUs : Int} {next : ContinuousBatchingEngine} :
      engine.hasRunnableWork engine.arrivalsAtCurrentTimestamp = true →
      (engine.orderedCandidates engine.arrivalsAtCurrentTimestamp).foldlM engine.planCandidate
        { cache := engine.kvCache } = .ok builder →
      engine.Trail engine.arrivalsAtCurrentTimestamp
        (engine.orderedCandidates engine.arrivalsAtCurrentTimestamp) builder →
      builder.workOrder ≠ [] →
      durationUs = engine.backend.config.batchBaseUs +
        engine.backend.config.batchPrefillPerTokenUs *
          ((builder.prefills.map (·.promptTokenCount)).sum : Nat) +
        engine.backend.config.batchDecodePerSequenceUs * (builder.decodes.length : Nat) +
        engine.backend.config.batchActiveSequenceOverheadUs * (builder.workOrder.length : Nat) →
      engine.Committed engine.arrivalsAtCurrentTimestamp builder (engine.nowUs + durationUs) next →
      Iterated engine .progressed next

/-- The `try` block of `run_next_iteration` only fails by an overflow where planning is clear. -/
theorem iterate_ensures (coherent : engine.Coherent) :
    Ensures (Refuses (engine.Clear engine.arrivalsAtCurrentTimestamp))
      (fun result => engine.Iterated result.1 result.2) engine.iterate := by
  set arrived := engine.arrivalsAtCurrentTimestamp with arrivals
  have distinct := orderedCandidates_nodup coherent arrived
  unfold iterate
  simp only
  rw [← arrivals]
  by_cases runs : engine.hasRunnableWork arrived = true
  · rw [if_neg (by simp [runs])]
    refine (buildPlan_ensures coherent runs engine.nextIterationNumber).bind_eq
      fun plan built _ => ?_
    obtain ⟨builder, loop, trail, rfl⟩ := buildPlan_eq_ok coherent built
    have some' := orderedCandidates_ne_nil coherent runs
    have deferredOnly := plan_deferredOnly trail.planned some' engine.nextIterationNumber
    by_cases stalls : builder.workOrder = []
    · rw [if_pos (deferredOnly.mpr stalls)]
      refine ((trail.commit_ensures coherent distinct engine.nowUs false
        (le_refl engine.nowUs)).mono_allowed fun _ => Or.inl).bind fun prepared committed => ?_
      exact .stalled runs loop trail stalls committed
    · rw [if_neg (mt deferredOnly.mp stalls), plan_scheduledSequenceCount trail.planned]
      have within : builder.decodes.length ≤ builder.workOrder.length := by
        have scheduled := trail.planned.scheduled.length_eq
        rw [List.length_append, List.length_map, List.length_map] at scheduled
        omega
      refine ((SimulatedBackend.estimateBatchTimeUs_ensures (List.length_pos_of_ne_nil stalls)
        within).mono_allowed fun _ => Or.inl).bind fun duration cost => ?_
      refine ((trail.commit_ensures coherent distinct duration true cost.1).mono_allowed fun _ => Or.inl).bind fun prepared committed => ?_
      exact .progressed runs loop trail stalls cost.2 committed
  · rw [Bool.not_eq_true] at runs
    rw [if_pos runs]
    cases ahead : engine.nextFutureArrival arrived with
    | none => exact .complete runs ahead
    | some time =>
        have future := @nextFutureArrival_spec engine arrived
        rw [ahead] at future
        obtain ⟨⟨id, request, -, isAhead, same⟩, -⟩ := future
        have later : engine.nowUs ≤ time := same ▸ isAhead.2.2.le
        refine ((Trail.start.commit_ensures coherent List.nodup_nil time false
          later).mono_allowed fun _ => Or.inl).bind
            fun prepared committed => ?_
        exact .idle runs ahead committed

end ContinuousBatchingEngine

end LlmLab.Serving
