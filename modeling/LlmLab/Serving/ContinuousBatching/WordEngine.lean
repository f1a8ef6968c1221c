import LlmLab.Serving.KVCache.WordOperations
import LlmLab.Serving.ContinuousBatching.Engine

/-!
# The engine over machine words

The continuous engine with the unchecked arithmetic of its planner and of its managers done by a
`WordArithmetic`; the rest is as in `Engine`.
-/

namespace LlmLab.Serving

open ContinuousBatchingEngine (Demand PlanBuilder evictableFor evictedFor allocatedFor prefillWorkOf
  decodeWorkOf)

namespace WordArithmetic

variable (words : WordArithmetic)

/-! ## Planning -/

/-- The lookup of a prefill candidate, on the local manager. -/
def lookupPrefix (engine : ContinuousBatchingEngine) (cache : KVCacheManager)
    (request : Request) : Except Exn PrefixLookupResult :=
  match engine.cachedTokens? request with
  | some tokens => words.findLongestCachedPrefix cache tokens
  | none => .ok { kind := .disabled }

/-- The demand of a candidate. -/
def demandOf (engine : ContinuousBatchingEngine) (cache : KVCacheManager) (candidate : Candidate)
    (request : Request) : Except Exn Demand :=
  if candidate.isPrefill then do
    let lookup ← words.lookupPrefix engine cache request
    let tokenCost ← words.sub request.promptLength lookup.matchedTokenCount
    throwIf (request.promptLength > engine.config.maxBatchedTokens ∧
        engine.config.prefixCacheConfig.enabled = false)
      (.invalidArgument
        "prompt_token_count exceeds max_batched_tokens; chunked prefill is not implemented")
    throwIf (request.promptLength > engine.config.maxBatchedTokens ∧
        (lookup.matchedTokenCount = 0 ∨ tokenCost > engine.config.maxBatchedTokens))
      (.invalidArgument "oversized unmatched prefill")
    let blocksRequired ← cache.config.blocksRequired tokenCost
    return { lookup, tokenCost, blocksRequired }
  else do
    let newBlock ← cache.decodeRequiresNewBlock candidate.requestId
    return { lookup := {}, tokenCost := 1, blocksRequired := if newBlock then 1 else 0 }

/-- Why a candidate is deferred, if it is. -/
def deferralReason (engine : ContinuousBatchingEngine) (builder : PlanBuilder)
    (candidate : Candidate) (demand : Demand) : Except Exn (Option DeferralReason) := do
  let room ← words.sub engine.config.maxBatchedTokens builder.usedTokens
  return if demand.tokenCost > room then some .tokenBudget
    else if builder.prefills.length + builder.decodes.length ≥ engine.config.maxNumSequences then
      some .sequenceBudget
    else if demand.blocksRequired > builder.cache.freeBlocks.size +
        (evictableFor builder.cache candidate demand.lookup).length then
      some .kvCapacity
    else none

/-- The allocation of a prefill, over its cached prefix where there is one. -/
def allocatePrefill (engine : ContinuousBatchingEngine) (cache : KVCacheManager)
    (request : Request) (id : RequestId) (lookup : PrefixLookupResult)
    (evicted allocated : List Nat) : Except Exn KVCacheManager :=
  match engine.cachedTokens? request with
  | some tokens => words.allocatePromptWithPrefixExact cache id tokens lookup evicted allocated
  | none => words.allocatePromptExact cache id request.promptLength evicted allocated

/-- Schedule a candidate on the local manager. -/
def schedule (engine : ContinuousBatchingEngine) (builder : PlanBuilder) (candidate : Candidate)
    (request : Request) (demand : Demand) : Except Exn PlanBuilder := do
  let evicted := evictedFor builder.cache candidate demand
  let allocated := allocatedFor builder.cache candidate demand
  let usedTokens ← words.add builder.usedTokens demand.tokenCost
  if candidate.isPrefill then do
    let cache ← words.allocatePrefill engine builder.cache request candidate.requestId
      demand.lookup evicted allocated
    return { builder.scheduled candidate demand with
      usedTokens
      cache
      prefills := builder.prefills ++ [prefillWorkOf builder.cache candidate request demand] }
  else do
    let cache ← words.appendDecodeTokenExact builder.cache candidate.requestId evicted
      allocated.head?
    return { builder.scheduled candidate demand with
      usedTokens
      cache
      decodes := builder.decodes ++ [candidate.requestId]
      decodeWork := builder.decodeWork ++ [decodeWorkOf builder.cache candidate demand] }

/-- The loop body of `build_from_candidates`. -/
def planCandidate (engine : ContinuousBatchingEngine) (builder : PlanBuilder)
    (candidate : Candidate) : Except Exn PlanBuilder := do
  let request ← engine.requestAt candidate.requestId
  let demand ← words.demandOf engine builder.cache candidate request
  match ← words.deferralReason engine builder candidate demand with
  | some reason =>
      let deferral : DeferredRequest := ⟨candidate.requestId, reason⟩
      return { builder with deferred := builder.deferred ++ [deferral] }
  | none => words.schedule engine builder candidate request demand

/-- `build_plan`. -/
def buildPlan (engine : ContinuousBatchingEngine) (iterationNumber : Nat)
    (arrived : OrdSet RequestId) : Except Exn BatchPlan := do
  let builder ← (engine.orderedCandidates arrived).foldlM (words.planCandidate engine)
    { cache := engine.kvCache }
  builder.finish engine.config iterationNumber

/-! ## Preparing an iteration -/

/-- The replay of one work item on the prepared manager. -/
def replayItem (engine : ContinuousBatchingEngine) (plan : BatchPlan) (cache : KVCacheManager)
    (item : PlannedWorkItem) : Except Exn KVCacheManager :=
  if item.isPrefill then
    match plan.prefillWork.find? (·.requestId = item.requestId) with
    | none => .error (.logicError "planned prefill work is missing")
    | some work => do
        let request ← engine.requestAt work.requestId
        let eligible := (request.promptTokens?.map List.length).getD 0 /
          cache.config.blockSizeTokens * cache.config.blockSizeTokens
        words.allocatePrefill engine cache request work.requestId
          { matchedBlockCount := work.matchedPhysicalBlockIds.length
            matchedTokenCount := work.matchedPrefixTokenCount
            physicalBlockIds := work.matchedPhysicalBlockIds
            kind := work.prefixLookupKind
            eligibleTokenCount := eligible }
          work.evictedBlockIds work.newlyAllocatedBlockIds
  else
    match plan.decodeWork.find? (·.requestId = item.requestId) with
    | none => .error (.logicError "planned decode work is missing")
    | some work =>
        words.appendDecodeTokenExact cache work.requestId work.evictedBlockIds
          work.newlyAllocatedBlockId

/-- The publication of one prefill. -/
def publishWork (engine : ContinuousBatchingEngine) (cache : KVCacheManager) (work : PrefillWork) :
    Except Exn KVCacheManager := do
  let request ← engine.requestAt work.requestId
  let eligibleBlocks := (request.promptTokens?.map List.length).getD 0 /
    cache.config.blockSizeTokens
  if cache.prefixConfig.enabled = true ∧ request.promptTokens?.isSome ∧
      work.matchedPhysicalBlockIds.length < eligibleBlocks then
    words.insertCompletedPromptBlocks cache work.requestId
  else return cache

/-- Release a request that the iteration finishes. -/
def releaseIf (engine : ContinuousBatchingEngine) (finishes : Request → Bool)
    (cache : KVCacheManager) (id : RequestId) : Except Exn KVCacheManager := do
  let request ← engine.requestAt id
  if finishes request then words.releaseRequest cache id else return cache

/-- The terminal releases of `prepare_iteration`. -/
def releaseFinished (engine : ContinuousBatchingEngine) (plan : BatchPlan)
    (cache : KVCacheManager) : Except Exn KVCacheManager := do
  let cache ← plan.prefillRequestIds.foldlM
    (words.releaseIf engine fun request => request.maxNewTokens = 0) cache
  plan.decodeRequestIds.foldlM
    (words.releaseIf engine fun request => request.generatedTokenCount + 1 = request.maxNewTokens)
    cache

/-- The figures that the statistics copy from the manager. -/
def copyCache (statistics : ContinuousBatchingStatistics) (cache : KVCacheManager) :
    Except Exn ContinuousBatchingStatistics := do
  let internalFragmentationTokens ← words.internalFragmentationTokens cache
  return { statistics.copyCache cache with internalFragmentationTokens }

/-- `prepare_iteration`. -/
def prepareIteration (engine : ContinuousBatchingEngine) (plan : BatchPlan)
    (arrived : OrdSet RequestId) (timeValueUs : Int) (timeValueIsDuration : Bool) :
    Except Exn PreparedIteration := do
  let replayed ← plan.workOrder.foldlM (words.replayItem engine plan) engine.kvCache
  let published ← plan.prefillWork.foldlM (words.publishWork engine) replayed
  let endTimestampUs ← engine.endTimestamp timeValueUs timeValueIsDuration
  throwIf (endTimestampUs < engine.nowUs)
    (.logicError "prepared iteration moves time backwards")
  let (requestUpdates, completed) ← engine.requestUpdates plan endTimestampUs arrived
  let cache ← words.releaseFinished engine plan published
  -- `prepare_statistics` ends in the copy.
  let statistics ← engine.prepareStatistics plan completed cache
  let statistics ← words.copyCache statistics cache
  let nextIterationNumber ← inc engine.nextIterationNumber "iteration number overflow"
  let internalFragmentationTokens ← words.internalFragmentationTokens cache
  return {
    arrivedRequests := arrived
    requestUpdates
    statistics
    traceEntry := {
      iterationNumber := plan.iterationNumber
      startTimestampUs := engine.nowUs
      endTimestampUs
      policy := engine.config.schedulingPolicy
      plan
      allocatedKvBlocks := cache.allocatedBlockCount
      freeKvBlocks := cache.freeBlocks.size
      representedKvTokens := cache.representedTokenCount
      internalFragmentationTokens
      cachedKvBlocks := cache.cachedBlockCount
      referencedSharedKvBlocks := cache.referencedSharedBlockCount
      kvBlockTables := cache.blockTables }
    nextIterationNumber
    nowUs := endTimestampUs
    kvCache := cache }

/-! ## Running -/

/-- The `try` block of `run_next_iteration`. -/
def iterate (engine : ContinuousBatchingEngine) :
    Except Exn (IterationOutcome × ContinuousBatchingEngine) := do
  let arrived := engine.arrivalsAtCurrentTimestamp
  if engine.hasRunnableWork arrived = false then
    match engine.nextFutureArrival arrived with
    | none => return (.complete, engine)
    | some next =>
        let prepared ← words.prepareIteration engine (.empty engine.nextIterationNumber) arrived
          next false
        return (.progressed, engine.commitIteration prepared)
  else
    let plan ← words.buildPlan engine engine.nextIterationNumber arrived
    if plan.deferredOnly then
      let prepared ← words.prepareIteration engine plan arrived engine.nowUs false
      return (.stalled, engine.commitIteration prepared)
    else
      let durationUs ← engine.backend.estimateBatchTimeUs plan.totalPrefillTokens
        plan.totalDecodeTokens plan.scheduledSequenceCount
      let prepared ← words.prepareIteration engine plan arrived durationUs true
      return (.progressed, engine.commitIteration prepared)

/-- `run_next_iteration`. -/
def runNextIteration (engine : ContinuousBatchingEngine) :
    Except Exn IterationOutcome × ContinuousBatchingEngine :=
  if engine.failed then
    (.error (.logicError "cannot run a failed continuous engine"), engine)
  else
    match words.iterate engine with
    | .ok (outcome, next) => (.ok outcome, next)
    | .error error => (.error error, { engine with failed := true })

/-- The loop of `run`, with a bound on its iterations. -/
def runIterations : Nat → ContinuousBatchingEngine →
    Except Exn IterationOutcome × ContinuousBatchingEngine
  | 0, engine => (.error (.runtimeError "iteration bound"), engine)
  | fuel + 1, engine =>
      match words.runNextIteration engine with
      | (.ok .progressed, next) => runIterations fuel next
      | last => last

/-- What `cancel_request` prepares and commits. -/
def prepareCancel (engine : ContinuousBatchingEngine) (requestId : RequestId) (request : Request) :
    Except Exn ContinuousBatchingEngine := do
  let cancelledRequestCount ← inc engine.statistics.cancelledRequestCount
    "cancelled request count overflow"
  let cancelled ← request.transitionTo .cancelled
  let kvCache ←
    if request.state = .decoding then words.releaseRequest engine.kvCache requestId
    else .ok engine.kvCache
  let statistics ← words.copyCache { engine.statistics with cancelledRequestCount } kvCache
  return { engine with
    requests := engine.requests.insert requestId
      { cancelled with finishTimeUs := some engine.nowUs }
    arrivedRequests := engine.arrivedRequests.erase requestId
    kvCache
    statistics }

/-- `cancel_request`. -/
def cancelRequest (engine : ContinuousBatchingEngine) (requestId : RequestId) :
    Except Exn Unit × ContinuousBatchingEngine :=
  if engine.failed then
    (.error (.logicError "cannot cancel in a failed continuous engine"), engine)
  else
    match engine.requests.find? requestId with
    | none => (.error (.outOfRange "unknown request ID"), engine)
    | some request =>
        if request.state = .finished ∨ request.state = .cancelled then
          (.error (.logicError "terminal request cannot be cancelled"), engine)
        else if request.state = .preempted then
          (.error (.logicError "preempted requests are not implemented"), engine)
        else
          match words.prepareCancel engine requestId request with
          | .ok next => (.ok (), next)
          | .error error => (.error error, engine)

/-- Make one call. -/
def call (engine : ContinuousBatchingEngine) :
    EngineCall → Except Exn EngineAnswer × ContinuousBatchingEngine
  | .submitRequest request =>
      ((engine.submitRequest request).1.map fun _ => .done, (engine.submitRequest request).2)
  | .cancelRequest requestId =>
      ((words.cancelRequest engine requestId).1.map fun _ => .done,
        (words.cancelRequest engine requestId).2)
  | .runNextIteration =>
      ((words.runNextIteration engine).1.map .iteration, (words.runNextIteration engine).2)
  | .run =>
      let ran := ContinuousBatchingEngine.finishRun (words.runIterations (engine.work + 1) engine)
      (ran.1.map .ran, ran.2)

/-- The engine as a machine over its calls. -/
def engineMachine : Machine ContinuousBatchingEngine EngineCall (Except Exn EngineAnswer) :=
  ⟨words.call⟩

end WordArithmetic

end LlmLab.Serving
