import LlmLab.Serving.Backend
import LlmLab.Lib.Machine
import LlmLab.Serving.ContinuousBatching.Plan

/-!
# The continuous-batching engine

`continuous_batching.cpp`.  An iteration is planned on a copy of the KV-cache manager, the plan is
replayed on a second copy, and only then committed; an exception on the way leaves the engine
failed and otherwise as it was.

The test seams and the floating-point utilizations are left out.
-/

namespace LlmLab.Serving

structure ContinuousBatchingStatistics where
  schedulingIterationCount : Nat := 0
  nonemptyBatchCount : Nat := 0
  idleIterationCount : Nat := 0
  stalledIterationCount : Nat := 0
  totalPrefillTokensScheduled : Nat := 0
  totalDecodeTokensScheduled : Nat := 0
  totalScheduledSequences : Nat := 0
  maximumBatchSize : Nat := 0
  maximumScheduledTokens : Nat := 0
  deferredRequestCount : Nat := 0
  completedRequestCount : Nat := 0
  cancelledRequestCount : Nat := 0
  currentAllocatedKvBlocks : Nat := 0
  peakAllocatedKvBlocks : Nat := 0
  representedKvTokens : Nat := 0
  internalFragmentationTokens : Nat := 0
  kvAllocationFailureCount : Nat := 0
  kvCapacityDeferralCount : Nat := 0
  totalOriginalPromptTokens : Nat := 0
  totalMatchedPrefixTokens : Nat := 0
  savedSimulatedPrefillTokens : Nat := 0
  cacheLookupCount : Nat := 0
  cacheHitLookupCount : Nat := 0
  cacheMissLookupCount : Nat := 0
  cacheMatchedBlockCount : Nat := 0
  totalCacheEligiblePromptTokensLookedUp : Nat := 0
  collisionVerificationCount : Nat := 0
  prefixCacheEvictionCount : Nat := 0
  cachedKvBlocks : Nat := 0
  referencedSharedKvBlocks : Nat := 0
deriving DecidableEq

structure BatchTraceEntry where
  iterationNumber : Nat
  startTimestampUs : Int
  endTimestampUs : Int
  policy : SchedulingPolicy
  plan : BatchPlan
  allocatedKvBlocks : Nat
  freeKvBlocks : Nat
  representedKvTokens : Nat
  internalFragmentationTokens : Nat
  cachedKvBlocks : Nat
  referencedSharedKvBlocks : Nat
  kvBlockTables : OrdMap RequestId (List Nat)

inductive IterationOutcome where
  | progressed
  | stalled
  | complete
deriving DecidableEq, Repr

inductive RunResult where
  | completed
  | stalled
deriving DecidableEq, Repr

structure Candidate where
  requestId : RequestId
  arrivalTimeUs : Int
  isPrefill : Bool
deriving DecidableEq

structure ContinuousBatchingEngine where
  backend : SimulatedBackend
  config : ContinuousBatchingConfig
  nowUs : Int
  requests : OrdMap RequestId Request
  arrivedRequests : OrdSet RequestId
  planTrace : List BatchTraceEntry
  statistics : ContinuousBatchingStatistics
  kvCache : KVCacheManager
  nextIterationNumber : Nat
  failed : Bool

/-- `PreparedIteration`; the updates come with the ids of the requests they point to. -/
structure PreparedIteration where
  arrivedRequests : OrdSet RequestId
  requestUpdates : List (RequestId × Request)
  statistics : ContinuousBatchingStatistics
  traceEntry : BatchTraceEntry
  nextIterationNumber : Nat
  nowUs : Int
  kvCache : KVCacheManager

/-- The figures that the statistics copy from the manager after every iteration and cancellation. -/
def ContinuousBatchingStatistics.copyCache (statistics : ContinuousBatchingStatistics)
    (cache : KVCacheManager) : ContinuousBatchingStatistics :=
  let metrics := cache.prefixMetrics
  { statistics with
    currentAllocatedKvBlocks := cache.allocatedBlockCount
    representedKvTokens := cache.representedTokenCount
    internalFragmentationTokens := cache.internalFragmentationTokens
    kvAllocationFailureCount := cache.allocationFailureCount
    savedSimulatedPrefillTokens := metrics.savedPrefillTokenCount
    cacheLookupCount := metrics.cacheLookupCount
    cacheHitLookupCount := metrics.cacheHitLookupCount
    cacheMissLookupCount := metrics.cacheMissLookupCount
    cacheMatchedBlockCount := metrics.matchedBlockCount
    totalCacheEligiblePromptTokensLookedUp := metrics.totalCacheEligiblePromptTokensLookedUp
    collisionVerificationCount := metrics.collisionVerificationCount
    prefixCacheEvictionCount := metrics.evictionCount
    cachedKvBlocks := cache.cachedBlockCount
    referencedSharedKvBlocks := cache.referencedSharedBlockCount }

namespace ContinuousBatchingEngine

/-- The constructor; the backend's configuration is already validated. -/
def create (backend : SimulatedBackend) (config : ContinuousBatchingConfig) :
    ContinuousBatchingEngine where
  backend := backend
  config := config
  nowUs := 0
  requests := OrdMap.empty
  arrivedRequests := OrdSet.empty
  planTrace := []
  statistics := {}
  kvCache := KVCacheManager.create config.kvCacheConfig config.prefixCacheConfig
    stableTokenBlockHash
  nextIterationNumber := 1
  failed := false

/-- `requests_.at`. -/
def requestAt (engine : ContinuousBatchingEngine) (id : RequestId) : Except Exn Request :=
  match engine.requests.find? id with
  | none => .error (.outOfRange "map::at")
  | some request => .ok request

/-! ## Submission and cancellation -/

/-- `submit_request`. -/
def submitRequest (engine : ContinuousBatchingEngine) (request : Request) :
    Except Exn Unit × ContinuousBatchingEngine :=
  if engine.failed then
    (.error (.logicError "cannot submit to a failed continuous engine"), engine)
  else if ¬ request.Pristine then
    (.error (.invalidArgument "submitted request must be pristine"), engine)
  else if request.arrivalTimeUs < engine.nowUs then
    (.error (.invalidArgument "request arrival precedes current simulation time"), engine)
  else if (engine.config.prefixCacheConfig.enabled = false ∨ request.promptTokens? = none) ∧
      request.promptLength > engine.config.maxBatchedTokens then
    (.error (.invalidArgument
      "prompt_token_count exceeds max_batched_tokens; chunked prefill is not implemented"), engine)
  else if engine.requests.contains request.requestId then
    (.error (.invalidArgument "duplicate request ID"), engine)
  else
    (.ok (), { engine with requests := engine.requests.insert request.requestId request })

/-- What `cancel_request` prepares and commits. -/
def prepareCancel (engine : ContinuousBatchingEngine) (requestId : RequestId) (request : Request) :
    Except Exn ContinuousBatchingEngine := do
  let cancelledRequestCount ← inc engine.statistics.cancelledRequestCount
    "cancelled request count overflow"
  let cancelled ← request.transitionTo .cancelled
  let kvCache ←
    if request.state = .decoding then engine.kvCache.releaseRequest requestId
    else .ok engine.kvCache
  return { engine with
    requests := engine.requests.insert requestId
      { cancelled with finishTimeUs := some engine.nowUs }
    arrivedRequests := engine.arrivedRequests.erase requestId
    kvCache
    statistics := { engine.statistics with cancelledRequestCount }.copyCache kvCache }

/-- `cancel_request`. -/
def cancelRequest (engine : ContinuousBatchingEngine) (requestId : RequestId) :
    Except Exn Unit × ContinuousBatchingEngine :=
  if engine.failed then
    (.error (.logicError "cannot cancel in a failed continuous engine"), engine)
  else
    match engine.requests.find? requestId with
    | none => (.error (.outOfRange "unknown request ID"), engine)
    | some request =>
        if request.state = .finished ∨ request.state = .cancelled then
          (.error (.logicError "terminal request cannot be cancelled"), engine)
        else if request.state = .preempted then
          (.error (.logicError "preempted requests are not implemented"), engine)
        else
          match engine.prepareCancel requestId request with
          | .ok next => (.ok (), next)
          | .error error => (.error error, engine)

/-! ## Arrivals -/

/-- `arrivals_at_current_timestamp`; the order of insertion into a set plays no part. -/
def arrivalsAtCurrentTimestamp (engine : ContinuousBatchingEngine) : OrdSet RequestId :=
  engine.arrivedRequests.insertAll (engine.requests.entries.filterMap fun entry =>
    if entry.2.state = .waiting ∧ entry.2.requestId ∉ engine.arrivedRequests ∧
        entry.2.arrivalTimeUs ≤ engine.nowUs
    then some entry.2.requestId else none)

/-- Whether a request can be scheduled. -/
def runnable (arrived : OrdSet RequestId) (request : Request) : Bool :=
  request.state = .decoding || (request.state = .waiting && request.requestId ∈ arrived)

/-- `has_runnable_work`. -/
def hasRunnableWork (engine : ContinuousBatchingEngine) (arrived : OrdSet RequestId) : Bool :=
  engine.requests.entries.any fun entry => runnable arrived entry.2

/-- `next_future_arrival`. -/
def nextFutureArrival (engine : ContinuousBatchingEngine) (arrived : OrdSet RequestId) :
    Option Int :=
  engine.requests.entries.foldl (fun result entry =>
    if entry.2.state ≠ .waiting ∨ entry.2.requestId ∈ arrived ∨
        entry.2.arrivalTimeUs ≤ engine.nowUs then result
    else if result.all fun earliest => entry.2.arrivalTimeUs < earliest then
      some entry.2.arrivalTimeUs
    else result) none

/-! ## Planning -/

/-- The local variables of `build_from_candidates`. -/
structure PlanBuilder where
  prefills : List PrefillWork := []
  decodeWork : List DecodeWork := []
  decodes : List RequestId := []
  workOrder : List PlannedWorkItem := []
  deferred : List DeferredRequest := []
  allEvictions : List Nat := []
  allAllocations : List Nat := []
  usedTokens : Nat := 0
  cache : KVCacheManager

/-- The prompt tokens that go through the prefix cache, if any do. -/
def cachedTokens? (engine : ContinuousBatchingEngine) (request : Request) : Option (List Token) :=
  if engine.config.prefixCacheConfig.enabled then request.promptTokens? else none

/-- The lookup of a prefill candidate, on the local manager. -/
def lookupPrefix (engine : ContinuousBatchingEngine) (cache : KVCacheManager)
    (request : Request) : Except Exn PrefixLookupResult :=
  match engine.cachedTokens? request with
  | some tokens => cache.findLongestCachedPrefix tokens
  | none => .ok { kind := .disabled }

/-- What a candidate asks for: its lookup, its token cost and its block demand. -/
structure Demand where
  lookup : PrefixLookupResult
  tokenCost : Nat
  blocksRequired : Nat

/-- The demand of a candidate. -/
def demandOf (engine : ContinuousBatchingEngine) (cache : KVCacheManager) (candidate : Candidate)
    (request : Request) : Except Exn Demand :=
  if candidate.isPrefill then do
    let lookup ← engine.lookupPrefix cache request
    let tokenCost := request.promptLength - lookup.matchedTokenCount
    throwIf (request.promptLength > engine.config.maxBatchedTokens ∧
        engine.config.prefixCacheConfig.enabled = false)
      (.invalidArgument
        "prompt_token_count exceeds max_batched_tokens; chunked prefill is not implemented")
    throwIf (request.promptLength > engine.config.maxBatchedTokens ∧
        (lookup.matchedTokenCount = 0 ∨ tokenCost > engine.config.maxBatchedTokens))
      (.invalidArgument "oversized unmatched prefill")
    let blocksRequired ← cache.config.blocksRequired tokenCost
    return { lookup, tokenCost, blocksRequired }
  else do
    let newBlock ← cache.decodeRequiresNewBlock candidate.requestId
    return { lookup := {}, tokenCost := 1, blocksRequired := if newBlock then 1 else 0 }

/-- The victims a candidate may take, in eviction order. -/
def evictableFor (cache : KVCacheManager) (candidate : Candidate) (lookup : PrefixLookupResult) :
    List Nat :=
  if candidate.isPrefill then
    cache.eligibleEvictionOrder.filter (· ∉ lookup.physicalBlockIds)
  else cache.eligibleEvictionOrder

/-- Why a candidate is deferred, if it is. -/
def deferralReason (engine : ContinuousBatchingEngine) (builder : PlanBuilder)
    (candidate : Candidate) (demand : Demand) : Option DeferralReason :=
  if demand.tokenCost > engine.config.maxBatchedTokens - builder.usedTokens then
    some .tokenBudget
  else if builder.prefills.length + builder.decodes.length ≥ engine.config.maxNumSequences then
    some .sequenceBudget
  else if demand.blocksRequired > builder.cache.freeBlocks.size +
      (evictableFor builder.cache candidate demand.lookup).length then
    some .kvCapacity
  else none

/-- The blocks a scheduled candidate evicts. -/
def evictedFor (cache : KVCacheManager) (candidate : Candidate) (demand : Demand) : List Nat :=
  (evictableFor cache candidate demand.lookup).take
    (demand.blocksRequired - cache.freeBlocks.size)

/-- The blocks a scheduled candidate takes: the lowest free or evicted ids. -/
def allocatedFor (cache : KVCacheManager) (candidate : Candidate) (demand : Demand) : List Nat :=
  KVCacheManager.lowestAvailable cache.freeBlocks (evictedFor cache candidate demand)
    demand.blocksRequired

/-- The allocation of a prefill, over its cached prefix where there is one. -/
def allocatePrefill (engine : ContinuousBatchingEngine) (cache : KVCacheManager)
    (request : Request) (id : RequestId) (lookup : PrefixLookupResult)
    (evicted allocated : List Nat) : Except Exn KVCacheManager :=
  match engine.cachedTokens? request with
  | some tokens => cache.allocatePromptWithPrefixExact id tokens lookup evicted allocated
  | none => cache.allocatePromptExact id request.promptLength evicted allocated

/-- The record of a scheduled prefill. -/
def prefillWorkOf (cache : KVCacheManager) (candidate : Candidate) (request : Request)
    (demand : Demand) : PrefillWork where
  requestId := candidate.requestId
  promptTokenCount := demand.tokenCost
  originalPromptTokenCount := request.promptLength
  matchedPrefixTokenCount := demand.lookup.matchedTokenCount
  matchedPhysicalBlockIds := demand.lookup.physicalBlockIds
  newlyAllocatedBlockIds := allocatedFor cache candidate demand
  evictedBlockIds := evictedFor cache candidate demand
  prefixLookupKind := demand.lookup.kind

/-- The record of a scheduled decode. -/
def decodeWorkOf (cache : KVCacheManager) (candidate : Candidate) (demand : Demand) :
    DecodeWork where
  requestId := candidate.requestId
  newlyAllocatedBlockId := (allocatedFor cache candidate demand).head?
  evictedBlockIds := evictedFor cache candidate demand

/-- What scheduling any candidate notes down. -/
def PlanBuilder.scheduled (builder : PlanBuilder) (candidate : Candidate) (demand : Demand) :
    PlanBuilder :=
  let item : PlannedWorkItem := ⟨candidate.requestId, candidate.isPrefill⟩
  { builder with
    workOrder := builder.workOrder ++ [item]
    allEvictions := builder.allEvictions ++ evictedFor builder.cache candidate demand
    allAllocations := builder.allAllocations ++ allocatedFor builder.cache candidate demand
    usedTokens := builder.usedTokens + demand.tokenCost }

/-- Schedule a candidate on the local manager. -/
def schedule (engine : ContinuousBatchingEngine) (builder : PlanBuilder) (candidate : Candidate)
    (request : Request) (demand : Demand) : Except Exn PlanBuilder :=
  let evicted := evictedFor builder.cache candidate demand
  let allocated := allocatedFor builder.cache candidate demand
  if candidate.isPrefill then do
    let cache ← engine.allocatePrefill builder.cache request candidate.requestId demand.lookup
      evicted allocated
    return { builder.scheduled candidate demand with
      cache
      prefills := builder.prefills ++ [prefillWorkOf builder.cache candidate request demand] }
  else do
    let cache ← builder.cache.appendDecodeTokenExact candidate.requestId evicted allocated.head?
    return { builder.scheduled candidate demand with
      cache
      decodes := builder.decodes ++ [candidate.requestId]
      decodeWork := builder.decodeWork ++ [decodeWorkOf builder.cache candidate demand] }

/-- The loop body of `build_from_candidates`. -/
def planCandidate (engine : ContinuousBatchingEngine) (builder : PlanBuilder)
    (candidate : Candidate) : Except Exn PlanBuilder := do
  let request ← engine.requestAt candidate.requestId
  let demand ← engine.demandOf builder.cache candidate request
  match engine.deferralReason builder candidate demand with
  | some reason =>
      let deferral : DeferredRequest := ⟨candidate.requestId, reason⟩
      return { builder with deferred := builder.deferred ++ [deferral] }
  | none => engine.schedule builder candidate request demand

/-- The matched blocks of a list of prefills. -/
def matchedIds (prefills : List PrefillWork) : List Nat :=
  prefills.flatMap (·.matchedPhysicalBlockIds)

/-- `build_from_candidates` after its loop. -/
def PlanBuilder.finish (builder : PlanBuilder) (config : ContinuousBatchingConfig)
    (iterationNumber : Nat) : Except Exn BatchPlan :=
  if builder.prefills = [] ∧ builder.decodes = [] ∧ builder.deferred ≠ [] then do
    throwIf (∃ item ∈ builder.deferred, item.reason ≠ .kvCapacity)
      (.logicError "token-only or sequence-only no-progress plan is invalid")
    BatchPlan.createWithDeferred iterationNumber [] [] builder.deferred config.maxNumSequences
      config.maxBatchedTokens
  else do
    throwIf (¬ builder.allEvictions.Nodup)
      (.logicError "physical block is evicted twice in one plan")
    throwIf (¬ builder.allAllocations.Nodup)
      (.logicError "physical block is allocated twice in one plan")
    throwIf (∃ id ∈ matchedIds builder.prefills,
        id ∈ builder.allEvictions ∨ id ∈ builder.allAllocations)
      (.logicError "matched physical block has a conflicting plan role")
    let plan ← BatchPlan.createWithDeferred iterationNumber builder.prefills builder.decodes
      builder.deferred config.maxNumSequences config.maxBatchedTokens
    return { plan with
      decodeWork := builder.decodeWork
      workOrder := builder.workOrder
      plannedEvictionIds := builder.allEvictions
      plannedAllocationIds := builder.allAllocations }

/-- `build_from_candidates`. -/
def buildFromCandidates (engine : ContinuousBatchingEngine) (iterationNumber : Nat)
    (candidates : List Candidate) : Except Exn BatchPlan := do
  let builder ← candidates.foldlM engine.planCandidate { cache := engine.kvCache }
  builder.finish engine.config iterationNumber

/-- The order of `candidate_less`: arrival, id, and a prefill before a decode. -/
def candidateKey (candidate : Candidate) : Int ×ₗ Nat ×ₗ Bool :=
  toLex (candidate.arrivalTimeUs, toLex (candidate.requestId, !candidate.isPrefill))

/-- The runnable requests as candidates, in id order. -/
def runnableCandidates (engine : ContinuousBatchingEngine) (arrived : OrdSet RequestId) :
    List Candidate :=
  (engine.requests.entries.filter fun entry => runnable arrived entry.2).map fun entry =>
    ⟨entry.2.requestId, entry.2.arrivalTimeUs, entry.2.state ≠ .decoding⟩

/-- The candidates in the order of the policy. -/
def orderedCandidates (engine : ContinuousBatchingEngine) (arrived : OrdSet RequestId) :
    List Candidate :=
  let candidates := engine.runnableCandidates arrived
  match engine.config.schedulingPolicy with
  | .decodeFirst => sortBy candidateKey (candidates.filter (!·.isPrefill)) ++
      sortBy candidateKey (candidates.filter (·.isPrefill))
  | .fcfsMixed => sortBy candidateKey candidates

/-- `build_plan`. -/
def buildPlan (engine : ContinuousBatchingEngine) (iterationNumber : Nat)
    (arrived : OrdSet RequestId) : Except Exn BatchPlan :=
  engine.buildFromCandidates iterationNumber (engine.orderedCandidates arrived)

/-! ## Preparing an iteration -/

/-- The replay of one work item on the prepared manager. -/
def replayItem (engine : ContinuousBatchingEngine) (plan : BatchPlan) (cache : KVCacheManager)
    (item : PlannedWorkItem) : Except Exn KVCacheManager :=
  if item.isPrefill then
    match plan.prefillWork.find? (·.requestId = item.requestId) with
    | none => .error (.logicError "planned prefill work is missing")
    | some work => do
        let request ← engine.requestAt work.requestId
        let eligible := (request.promptTokens?.map List.length).getD 0 /
          cache.config.blockSizeTokens * cache.config.blockSizeTokens
        engine.allocatePrefill cache request work.requestId
          { matchedBlockCount := work.matchedPhysicalBlockIds.length
            matchedTokenCount := work.matchedPrefixTokenCount
            physicalBlockIds := work.matchedPhysicalBlockIds
            kind := work.prefixLookupKind
            eligibleTokenCount := eligible }
          work.evictedBlockIds work.newlyAllocatedBlockIds
  else
    match plan.decodeWork.find? (·.requestId = item.requestId) with
    | none => .error (.logicError "planned decode work is missing")
    | some work =>
        cache.appendDecodeTokenExact work.requestId work.evictedBlockIds
          work.newlyAllocatedBlockId

/-- The publication of one prefill. -/
def publishWork (engine : ContinuousBatchingEngine) (cache : KVCacheManager) (work : PrefillWork) :
    Except Exn KVCacheManager := do
  let request ← engine.requestAt work.requestId
  let eligibleBlocks := (request.promptTokens?.map List.length).getD 0 /
    cache.config.blockSizeTokens
  if cache.prefixConfig.enabled = true ∧ request.promptTokens?.isSome ∧
      work.matchedPhysicalBlockIds.length < eligibleBlocks then
    cache.insertCompletedPromptBlocks work.requestId
  else return cache

/-- The update of a scheduled prefill, and whether it completes the request. -/
def preparePrefillUpdate (engine : ContinuousBatchingEngine) (endTimestampUs : Int)
    (arrived : OrdSet RequestId) (id : RequestId) : Except Exn (Request × Bool) := do
  let request ← engine.requestAt id
  throwIf (request.state ≠ .waiting ∨ id ∉ arrived)
    (.logicError "BatchPlan prefill request is not runnable")
  let prefilling ← request.transitionTo .prefilling
  let prepared := { prefilling with
    admittedTimeUs := some engine.nowUs, firstScheduledTimeUs := some engine.nowUs }
  if prepared.maxNewTokens = 0 then
    let finished ← prepared.transitionTo .finished
    return ({ finished with finishTimeUs := some endTimestampUs }, true)
  else
    let decoding ← prepared.transitionTo .decoding
    return (decoding, false)

/-- The update of a scheduled decode, and whether it completes the request. -/
def prepareDecodeUpdate (engine : ContinuousBatchingEngine) (endTimestampUs : Int)
    (id : RequestId) : Except Exn (Request × Bool) := do
  let request ← engine.requestAt id
  throwIf (request.state ≠ .decoding ∨ request.generatedTokenCount ≥ request.maxNewTokens)
    (.logicError "BatchPlan decode request is not runnable")
  let prepared := { request with
    generatedTokenCount := request.generatedTokenCount + 1
    firstTokenTimeUs := request.firstTokenTimeUs.or (some endTimestampUs) }
  if prepared.generatedTokenCount = prepared.maxNewTokens then
    let finished ← prepared.transitionTo .finished
    return ({ finished with finishTimeUs := some endTimestampUs }, true)
  else return (prepared, false)

/-- The loop body of `prepare_request_updates`. -/
def collectUpdate (prepare : RequestId → Except Exn (Request × Bool))
    (state : List (RequestId × Request) × Nat) (id : RequestId) :
    Except Exn (List (RequestId × Request) × Nat) := do
  let (request, completes) ← prepare id
  let count ←
    if completes then inc state.2 "iteration completion count overflow" else .ok state.2
  return (state.1 ++ [(id, request)], count)

/-- `prepare_request_updates`. -/
def prepareRequestUpdates (engine : ContinuousBatchingEngine) (plan : BatchPlan)
    (endTimestampUs : Int) (arrived : OrdSet RequestId) :
    Except Exn (List (RequestId × Request) × Nat) := do
  let prefills ← plan.prefillRequestIds.foldlM
    (collectUpdate (engine.preparePrefillUpdate endTimestampUs arrived)) ([], 0)
  plan.decodeRequestIds.foldlM (collectUpdate (engine.prepareDecodeUpdate endTimestampUs)) prefills

/-- Release a request that the iteration finishes. -/
def releaseIf (engine : ContinuousBatchingEngine) (finishes : Request → Bool)
    (cache : KVCacheManager) (id : RequestId) : Except Exn KVCacheManager := do
  let request ← engine.requestAt id
  if finishes request then cache.releaseRequest id else return cache

/-- The terminal releases of `prepare_iteration`. -/
def releaseFinished (engine : ContinuousBatchingEngine) (plan : BatchPlan)
    (cache : KVCacheManager) : Except Exn KVCacheManager := do
  let cache ← plan.prefillRequestIds.foldlM
    (engine.releaseIf fun request => request.maxNewTokens = 0) cache
  plan.decodeRequestIds.foldlM
    (engine.releaseIf fun request => request.generatedTokenCount + 1 = request.maxNewTokens) cache

/-- The number of deferrals for KV capacity, counted with checks. -/
def countKvDeferrals (count : Nat) (deferred : DeferredRequest) : Except Exn Nat :=
  if deferred.reason = .kvCapacity then inc count "iteration KV deferral count overflow"
  else .ok count

/-- The prompt totals of the prefill work. -/
def addPromptTotals (statistics : ContinuousBatchingStatistics) (work : PrefillWork) :
    Except Exn ContinuousBatchingStatistics := do
  let original ← add statistics.totalOriginalPromptTokens work.originalPromptTokenCount
    "original prompt token total overflow"
  let matched ← add statistics.totalMatchedPrefixTokens work.matchedPrefixTokenCount
    "matched prefix token total overflow"
  return { statistics with
    totalOriginalPromptTokens := original, totalMatchedPrefixTokens := matched }

/-- The count of the kind of iteration that a plan is. -/
def countIteration (statistics : ContinuousBatchingStatistics) (plan : BatchPlan) :
    Except Exn ContinuousBatchingStatistics := do
  let schedulingIterationCount ← inc statistics.schedulingIterationCount
    "scheduling iteration count overflow"
  let statistics := { statistics with schedulingIterationCount }
  if plan.deferredOnly then
    let stalledIterationCount ← inc statistics.stalledIterationCount
      "stalled iteration count overflow"
    return { statistics with stalledIterationCount }
  else if plan.isEmpty then
    let idleIterationCount ← inc statistics.idleIterationCount "idle iteration count overflow"
    return { statistics with idleIterationCount }
  else
    let nonemptyBatchCount ← inc statistics.nonemptyBatchCount "nonempty batch count overflow"
    return { statistics with nonemptyBatchCount }

/-- `prepare_statistics`. -/
def prepareStatistics (engine : ContinuousBatchingEngine) (plan : BatchPlan)
    (completedRequestCount : Nat) (cache : KVCacheManager) :
    Except Exn ContinuousBatchingStatistics := do
  let prepared ← countIteration engine.statistics plan
  let prefillTokens ← add prepared.totalPrefillTokensScheduled plan.totalPrefillTokens
    "prefill scheduled-token total overflow"
  let decodeTokens ← add prepared.totalDecodeTokensScheduled plan.totalDecodeTokens
    "decode scheduled-token total overflow"
  let sequences := plan.scheduledSequenceCount
  let totalSequences ← add prepared.totalScheduledSequences sequences
    "scheduled sequence total overflow"
  let deferrals ← add prepared.deferredRequestCount plan.deferredRequests.length
    "deferred request count overflow"
  let kvDeferrals ← plan.deferredRequests.foldlM countKvDeferrals 0
  let kvDeferralTotal ← add prepared.kvCapacityDeferralCount kvDeferrals
    "KV-capacity deferral count overflow"
  let completed ← add prepared.completedRequestCount completedRequestCount
    "completed request count overflow"
  let prepared := { prepared with
    totalPrefillTokensScheduled := prefillTokens
    totalDecodeTokensScheduled := decodeTokens
    totalScheduledSequences := totalSequences
    deferredRequestCount := deferrals
    kvCapacityDeferralCount := kvDeferralTotal
    completedRequestCount := completed
    maximumBatchSize := max prepared.maximumBatchSize sequences
    maximumScheduledTokens := max prepared.maximumScheduledTokens plan.totalScheduledTokens
    peakAllocatedKvBlocks := cache.peakAllocatedBlockCount }
  let prepared ← plan.prefillWork.foldlM addPromptTotals prepared
  return prepared.copyCache cache

/-- The end of an iteration; a duration counts from now, any other time value is the end itself. -/
def endTimestamp (engine : ContinuousBatchingEngine) (timeValueUs : Int)
    (timeValueIsDuration : Bool) : Except Exn Int :=
  if timeValueIsDuration then checkedAdd engine.nowUs timeValueUs else .ok timeValueUs

/-- The updates of an iteration; an empty plan has none. -/
def requestUpdates (engine : ContinuousBatchingEngine) (plan : BatchPlan) (endTimestampUs : Int)
    (arrived : OrdSet RequestId) : Except Exn (List (RequestId × Request) × Nat) :=
  if plan.isEmpty then .ok ([], 0) else engine.prepareRequestUpdates plan endTimestampUs arrived

/-- `prepare_iteration`. -/
def prepareIteration (engine : ContinuousBatchingEngine) (plan : BatchPlan)
    (arrived : OrdSet RequestId) (timeValueUs : Int) (timeValueIsDuration : Bool) :
    Except Exn PreparedIteration := do
  let replayed ← plan.workOrder.foldlM (engine.replayItem plan) engine.kvCache
  let published ← plan.prefillWork.foldlM engine.publishWork replayed
  let endTimestampUs ← engine.endTimestamp timeValueUs timeValueIsDuration
  throwIf (endTimestampUs < engine.nowUs)
    (.logicError "prepared iteration moves time backwards")
  let (requestUpdates, completed) ← engine.requestUpdates plan endTimestampUs arrived
  let cache ← engine.releaseFinished plan published
  let statistics ← engine.prepareStatistics plan completed cache
  let nextIterationNumber ← inc engine.nextIterationNumber "iteration number overflow"
  return {
    arrivedRequests := arrived
    requestUpdates
    statistics
    traceEntry := {
      iterationNumber := plan.iterationNumber
      startTimestampUs := engine.nowUs
      endTimestampUs
      policy := engine.config.schedulingPolicy
      plan
      allocatedKvBlocks := cache.allocatedBlockCount
      freeKvBlocks := cache.freeBlocks.size
      representedKvTokens := cache.representedTokenCount
      internalFragmentationTokens := cache.internalFragmentationTokens
      cachedKvBlocks := cache.cachedBlockCount
      referencedSharedKvBlocks := cache.referencedSharedBlockCount
      kvBlockTables := cache.blockTables }
    nextIterationNumber
    nowUs := endTimestampUs
    kvCache := cache }

/-- `commit_iteration`. -/
def commitIteration (engine : ContinuousBatchingEngine) (prepared : PreparedIteration) :
    ContinuousBatchingEngine :=
  { engine with
    nowUs := prepared.nowUs
    arrivedRequests := prepared.arrivedRequests
    requests := prepared.requestUpdates.foldl
      (fun requests update => requests.insert update.1 update.2) engine.requests
    statistics := prepared.statistics
    kvCache := prepared.kvCache
    nextIterationNumber := prepared.nextIterationNumber
    planTrace := engine.planTrace ++ [prepared.traceEntry] }

/-! ## Running -/

/-- The `try` block of `run_next_iteration`. -/
def iterate (engine : ContinuousBatchingEngine) :
    Except Exn (IterationOutcome × ContinuousBatchingEngine) := do
  let arrived := engine.arrivalsAtCurrentTimestamp
  if engine.hasRunnableWork arrived = false then
    match engine.nextFutureArrival arrived with
    | none => return (.complete, engine)
    | some next =>
        let prepared ← engine.prepareIteration (.empty engine.nextIterationNumber) arrived next
          false
        return (.progressed, engine.commitIteration prepared)
  else
    let plan ← engine.buildPlan engine.nextIterationNumber arrived
    if plan.deferredOnly then
      let prepared ← engine.prepareIteration plan arrived engine.nowUs false
      return (.stalled, engine.commitIteration prepared)
    else
      let durationUs ← engine.backend.estimateBatchTimeUs plan.totalPrefillTokens
        plan.totalDecodeTokens plan.scheduledSequenceCount
      let prepared ← engine.prepareIteration plan arrived durationUs true
      return (.progressed, engine.commitIteration prepared)

/-- `run_next_iteration`. -/
def runNextIteration (engine : ContinuousBatchingEngine) :
    Except Exn IterationOutcome × ContinuousBatchingEngine :=
  if engine.failed then
    (.error (.logicError "cannot run a failed continuous engine"), engine)
  else
    match engine.iterate with
    | .ok (outcome, next) => (.ok outcome, next)
    | .error error => (.error error, { engine with failed := true })

/-- A bound on the iterations that `run` makes. -/
def work (engine : ContinuousBatchingEngine) : Nat :=
  engine.requests.total (fun request => if request.state = .waiting then 1 else 0) +
    engine.requests.total fun request =>
      if request.state = .finished ∨ request.state = .cancelled then 0
      else 1 + request.maxNewTokens - request.generatedTokenCount

/-- The loop of `run`, with a bound on its iterations. -/
def runIterations : Nat → ContinuousBatchingEngine →
    Except Exn IterationOutcome × ContinuousBatchingEngine
  | 0, engine => (.error (.runtimeError "iteration bound"), engine)
  | fuel + 1, engine =>
      match engine.runNextIteration with
      | (.ok .progressed, next) => runIterations fuel next
      | last => last

/-- The end of `run`, after the last iteration. -/
def finishRun (last : Except Exn IterationOutcome × ContinuousBatchingEngine) :
    Except Exn RunResult × ContinuousBatchingEngine :=
  match last with
  | (.error error, engine) => (.error error, engine)
  | (.ok .stalled, engine) => (.ok .stalled, engine)
  | (.ok _, engine) =>
      if engine.hasRunnableWork engine.arrivedRequests = true ∨
          (engine.nextFutureArrival engine.arrivedRequests).isSome then
        (.error (.logicError "continuous simulation drained with unfinished work"),
          { engine with failed := true })
      else (.ok .completed, engine)

/-- `run`. -/
def run (engine : ContinuousBatchingEngine) : Except Exn RunResult × ContinuousBatchingEngine :=
  finishRun (runIterations (engine.work + 1) engine)

end ContinuousBatchingEngine

/-- A call of the engine. -/
inductive EngineCall where
  | submitRequest (request : Request)
  | cancelRequest (requestId : RequestId)
  | runNextIteration
  | run

/-- What a call returns. -/
inductive EngineAnswer where
  | done
  | iteration (outcome : IterationOutcome)
  | ran (result : RunResult)
deriving DecidableEq

namespace ContinuousBatchingEngine

/-- Make one call. -/
def apply (engine : ContinuousBatchingEngine) :
    EngineCall → Except Exn EngineAnswer × ContinuousBatchingEngine
  | .submitRequest request =>
      ((engine.submitRequest request).1.map fun _ => .done, (engine.submitRequest request).2)
  | .cancelRequest requestId =>
      ((engine.cancelRequest requestId).1.map fun _ => .done, (engine.cancelRequest requestId).2)
  | .runNextIteration => (engine.runNextIteration.1.map .iteration, engine.runNextIteration.2)
  | .run => (engine.run.1.map .ran, engine.run.2)

/-- The engine as a machine over its calls. -/
def machine : Machine ContinuousBatchingEngine EngineCall (Except Exn EngineAnswer) := ⟨apply⟩

end ContinuousBatchingEngine

end LlmLab.Serving
