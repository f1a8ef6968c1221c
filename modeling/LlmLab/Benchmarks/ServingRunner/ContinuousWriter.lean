import LlmLab.Benchmarks.ServingRunner.Writer
import LlmLab.Serving.ContinuousBatching.Engine

/-!
# The records of a continuous run

`run_continuous` of `serving_benchmark_runner.cpp`, and the part of `main_impl` that decides what
the runner writes.
-/

namespace LlmLab.Serving

/-- `to_string` of a policy. -/
def SchedulingPolicy.name : SchedulingPolicy → String
  | .decodeFirst => "DecodeFirst"
  | .fcfsMixed => "FcfsMixed"

/-- `to_string` of the reason of a deferral. -/
def DeferralReason.name : DeferralReason → String
  | .sequenceBudget => "sequence budget"
  | .tokenBudget => "token budget"
  | .kvCapacity => "KV capacity"

end LlmLab.Serving

namespace LlmLab.Benchmarks

open LlmLab.Serving

/-- What `runner_command` passes on of a serving configuration. -/
structure ServingConfig extends NativeConfig where
  maxNumSequences : Int
  maxBatchedTokens : Int
  prefixCache : PrefixCacheConfig
  backend : SimulatedBackendConfig

namespace Runner

/-- The ids of a list, in brackets. -/
def idsJson (ids : List Nat) : Json := .arr (ids.map number)

section Writer

-- The quotient of two integers as a double.
variable (divide : Int → Int → FloatNumeral)

/-! ## The continuous engine -/

/-- The maps `matched`, `scheduled` and `token_times`. -/
structure Gathered where
  matched : OrdMap RequestId Nat := OrdMap.empty
  scheduled : OrdMap RequestId Nat := OrdMap.empty
  tokenTimes : OrdMap RequestId (List Int) := OrdMap.empty

/-- `counts[id] += amount`. -/
def addCount (counts : OrdMap RequestId Nat) (id : RequestId) (amount : Nat) :
    OrdMap RequestId Nat :=
  counts.insert id (((counts.find? id).getD 0 + amount) % 2 ^ 64)

def Gathered.prefill (gathered : Gathered) (work : PrefillWork) : Gathered :=
  { gathered with
    matched := addCount gathered.matched work.requestId work.matchedPrefixTokenCount
    scheduled := addCount gathered.scheduled work.requestId work.promptTokenCount }

def Gathered.decode (endTimestampUs : Int) (gathered : Gathered) (id : RequestId) : Gathered :=
  { gathered with
    tokenTimes := gathered.tokenTimes.insert id
      ((gathered.tokenTimes.find? id).getD [] ++ [endTimestampUs]) }

/-- What one trace entry adds to the maps. -/
def Gathered.entry (gathered : Gathered) (trace : BatchTraceEntry) : Gathered :=
  trace.plan.decodeRequestIds.foldl (Gathered.decode trace.endTimestampUs)
    (trace.plan.prefillWork.foldl Gathered.prefill gathered)

/-- A deferral, as `deferrals_json` prints it. -/
def deferralJson (deferred : DeferredRequest) : Json :=
  .obj (named [("request_id", number deferred.requestId),
    ("reason", string deferred.reason.name)])

/-- The iteration record of a trace entry. -/
def writeIteration (totalBlocks : Nat) (trace : BatchTraceEntry) : Record :=
  let plan := trace.plan
  let lookedUp := plan.prefillWork.filter fun work => work.prefixLookupKind ≠ .disabled
  named [("record_type", string "iteration"), ("schema_version", string simulatorSchemaVersion),
    ("evidence_type", string "SIMULATED"), ("iteration_number", number trace.iterationNumber),
    ("start_time_us", .int trace.startTimestampUs), ("end_time_us", .int trace.endTimestampUs),
    ("policy", string trace.policy.name), ("prefill_ids", idsJson plan.prefillRequestIds),
    ("decode_ids", idsJson plan.decodeRequestIds),
    ("deferred", .arr (plan.deferredRequests.map deferralJson)),
    ("scheduled_sequences", number plan.scheduledSequenceCount),
    ("scheduled_prefill_tokens", number plan.totalPrefillTokens),
    ("scheduled_decode_tokens", number plan.totalDecodeTokens),
    ("total_scheduled_tokens", number plan.totalScheduledTokens),
    ("kv_allocated", number trace.allocatedKvBlocks), ("kv_free", number trace.freeKvBlocks),
    ("kv_utilization", double (divide trace.allocatedKvBlocks totalBlocks)),
    ("internal_fragmentation_tokens", number trace.internalFragmentationTokens),
    ("represented_kv_tokens", number trace.representedKvTokens),
    ("cached_blocks", number trace.cachedKvBlocks),
    ("shared_referenced_blocks", number trace.referencedSharedKvBlocks),
    ("prefix_hits", number (lookedUp.countP fun work => 0 < work.matchedPrefixTokenCount)),
    ("prefix_misses", number (lookedUp.countP fun work => work.matchedPrefixTokenCount = 0)),
    ("matched_tokens", number (sum64 (plan.prefillWork.map (·.matchedPrefixTokenCount)))),
    ("evicted_ids", idsJson plan.plannedEvictionIds), ("stall", .bool plan.deferredOnly)]

/-- The summary of a run of the continuous engine. -/
def continuousSummary (engine : ContinuousBatchingEngine) (result : RunResult)
    (submittedPromptTokens generatedTokens submitted : Nat) : Record :=
  let stats := engine.statistics
  let totalBlocks := engine.config.kvCacheConfig.totalNumBlocks
  named [("record_type", string "summary"), ("schema_version", string simulatorSchemaVersion),
    ("evidence_type", string "SIMULATED"), ("execution_mode", string "continuous_batching"),
    ("scheduling_policy", string engine.config.schedulingPolicy.name),
    ("run_status", string (if result = .completed then "completed" else "stalled")),
    ("submitted", number submitted), ("completed", number stats.completedRequestCount),
    ("cancelled", number stats.cancelledRequestCount), ("rejected", .int 0),
    ("stalled", number stats.stalledIterationCount), ("makespan_us", .int engine.nowUs),
    ("scheduling_iterations", number stats.schedulingIterationCount),
    ("nonempty_batches", number stats.nonemptyBatchCount),
    ("idle_iterations", number stats.idleIterationCount),
    ("total_scheduled_sequences", number stats.totalScheduledSequences),
    ("max_scheduled_tokens", number stats.maximumScheduledTokens),
    ("deferred_requests", number stats.deferredRequestCount),
    ("average_batch_size", if stats.nonemptyBatchCount = 0 then .null
      else double (divide stats.totalScheduledSequences stats.nonemptyBatchCount)),
    ("max_batch_size", number stats.maximumBatchSize),
    ("current_allocated_blocks", number stats.currentAllocatedKvBlocks),
    ("current_free_blocks", number engine.kvCache.freeBlocks.size),
    ("kv_peak_utilization", double (divide stats.peakAllocatedKvBlocks totalBlocks)),
    ("kv_current_utilization", double (divide stats.currentAllocatedKvBlocks totalBlocks)),
    ("prefix_token_hit_rate", if stats.totalCacheEligiblePromptTokensLookedUp = 0 then .null
      else double (divide stats.totalMatchedPrefixTokens
        stats.totalCacheEligiblePromptTokensLookedUp)),
    ("prefix_lookup_hits", number stats.cacheHitLookupCount),
    ("prefix_lookup_misses", number stats.cacheMissLookupCount),
    ("prefix_lookups", number stats.cacheLookupCount),
    ("matched_prefix_blocks", number stats.cacheMatchedBlockCount),
    ("cache_eligible_prompt_tokens", number stats.totalCacheEligiblePromptTokensLookedUp),
    ("collision_verifications", number stats.collisionVerificationCount),
    ("matched_prefix_tokens", number stats.totalMatchedPrefixTokens),
    ("saved_simulated_prefill_tokens", number stats.savedSimulatedPrefillTokens),
    ("scheduled_prefill_tokens", number stats.totalPrefillTokensScheduled),
    ("scheduled_decode_tokens", number stats.totalDecodeTokensScheduled),
    ("submitted_prompt_tokens", number submittedPromptTokens),
    ("generated_tokens", number generatedTokens),
    ("kv_capacity_deferrals", number stats.kvCapacityDeferralCount),
    ("kv_allocation_failures", number stats.kvAllocationFailureCount),
    ("eviction_count", number stats.prefixCacheEvictionCount),
    ("internal_fragmentation_tokens", number stats.internalFragmentationTokens),
    ("represented_kv_tokens", number stats.representedKvTokens),
    ("cached_blocks", number stats.cachedKvBlocks),
    ("shared_referenced_blocks", number stats.referencedSharedKvBlocks),
    ("peak_allocated_blocks", number stats.peakAllocatedKvBlocks)]

/-- The records of a run that has ended with a result. -/
def continuousRecords (engine : ContinuousBatchingEngine) (result : RunResult)
    (inputs : List InputRequest) : Except Exn (List Record) := do
  let gathered := engine.planTrace.foldl Gathered.entry {}
  let finals ← inputs.mapM fun input => engine.requestAt input.request.requestId
  let requests := (inputs.zip finals).map fun pair =>
    let id := pair.1.request.requestId
    writeRequest divide pair.1 pair.2 ((gathered.matched.find? id).getD 0)
      ((gathered.scheduled.find? id).getD 0) ((gathered.tokenTimes.find? id).getD [])
  let summary := continuousSummary divide engine result
    (sum64 (inputs.map fun input => input.request.promptLength))
    (sum64 (finals.map (·.generatedTokenCount))) inputs.length
  return engine.planTrace.map
    (writeIteration divide engine.config.kvCacheConfig.totalNumBlocks) ++ requests ++ [summary]

/-- `run_continuous`, from the configuration that its arguments make. -/
def runContinuous (backend : SimulatedBackend) (config : ContinuousBatchingConfig)
    (inputs : List InputRequest) : Except Exn (List Record) := do
  let submitted ← inputs.foldlM (fun engine input => do
    let (_, next) ← orThrow (engine.submitRequest input.request)
    return next) (ContinuousBatchingEngine.create backend config)
  let (result, engine) ← orThrow submitted.run
  continuousRecords divide engine result inputs

/-! ## The arguments -/

/-- `parse_integer` of an integer argument, which `runner_command` prints. -/
def argument (type : IntegerType) (value : Int) (name : String) : Except Exn Int :=
  parseInteger type (asciiBytes (toString value).toList) name

/-- The policy of an argument. -/
def policyOf (name : Text) : Except Exn SchedulingPolicy :=
  if name = text SchedulingPolicy.decodeFirst.name then .ok .decodeFirst
  else if name = text SchedulingPolicy.fcfsMixed.name then .ok .fcfsMixed
  else .error (.invalidArgument
    ("unknown scheduling policy: " ++ shown ((encodeUtf8 name).getD [])))

/-- The configuration that `run_continuous` makes of its arguments. -/
def batchingConfig (config : ServingConfig) : Except Exn ContinuousBatchingConfig := do
  let policy ← policyOf config.schedulingPolicy
  let maxNumSequences ← argument uint64 config.maxNumSequences "max-num-sequences"
  let maxBatchedTokens ← argument uint64 config.maxBatchedTokens "max-batched-tokens"
  let totalBlocks ← argument uint64 config.totalBlocks "kv-total-blocks"
  let blockSize ← argument uint64 config.blockSizeTokens "kv-block-size"
  let kvCacheConfig ← KVCacheConfig.create totalBlocks.toNat blockSize.toNat
  ContinuousBatchingConfig.create maxNumSequences.toNat maxBatchedTokens.toNat policy kvCacheConfig
    config.prefixCache

/-- The backend of the cost arguments. -/
def backendOf (costs : SimulatedBackendConfig) : Except Exn SimulatedBackend := do
  let prefillBaseUs ← argument int64 costs.prefillBaseUs "prefill-base-us"
  let prefillPerTokenUs ← argument int64 costs.prefillPerTokenUs "prefill-per-token-us"
  let prefillPerActiveSequenceUs ←
    argument int64 costs.prefillPerActiveSequenceUs "prefill-per-sequence-us"
  let decodeBaseUs ← argument int64 costs.decodeBaseUs "decode-base-us"
  let decodePerActiveSequenceUs ←
    argument int64 costs.decodePerActiveSequenceUs "decode-per-sequence-us"
  let batchBaseUs ← argument int64 costs.batchBaseUs "batch-base-us"
  let batchPrefillPerTokenUs ←
    argument int64 costs.batchPrefillPerTokenUs "batch-prefill-per-token-us"
  let batchDecodePerSequenceUs ←
    argument int64 costs.batchDecodePerSequenceUs "batch-decode-per-sequence-us"
  let batchActiveSequenceOverheadUs ←
    argument int64 costs.batchActiveSequenceOverheadUs "batch-active-overhead-us"
  SimulatedBackend.create {
    prefillBaseUs, prefillPerTokenUs, prefillPerActiveSequenceUs, decodeBaseUs,
    decodePerActiveSequenceUs, batchBaseUs, batchPrefillPerTokenUs, batchDecodePerSequenceUs,
    batchActiveSequenceOverheadUs }

/-- `main_impl`, from the configuration and the workload that it has read. -/
def mainImpl (config : ServingConfig) (inputs : List InputRequest) : Except Exn (List Record) := do
  let backend ← backendOf config.backend
  if config.executionMode = text "continuous_batching" then
    let batching ← batchingConfig config
    runContinuous divide backend batching inputs
  else if config.executionMode = text "single_active_fcfs" then
    runFcfs divide backend inputs
  else .error (.invalidArgument
    ("unknown execution mode: " ++ shown ((encodeUtf8 config.executionMode).getD [])))

end Writer

end Runner

end LlmLab.Benchmarks
