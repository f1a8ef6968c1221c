import LlmLab.Serving.KVCache.Operations

/-!
# Batch plans

`continuous_batching.h`: the configuration of the continuous engine, the work of one iteration and
the checks under which a `BatchPlan` is built.
-/

namespace LlmLab.Serving

inductive SchedulingPolicy where
  | decodeFirst
  | fcfsMixed
deriving DecidableEq, Repr

/-- `ContinuousBatchingConfig`; its last two fields are what the constructor checks. -/
structure ContinuousBatchingConfig where
  maxNumSequences : Nat
  maxBatchedTokens : Nat
  schedulingPolicy : SchedulingPolicy
  kvCacheConfig : KVCacheConfig
  prefixCacheConfig : PrefixCacheConfig
  sequences_pos : 0 < maxNumSequences
  tokens_pos : 0 < maxBatchedTokens

/-- The constructor of `ContinuousBatchingConfig`. -/
def ContinuousBatchingConfig.create (maxNumSequences maxBatchedTokens : Nat)
    (schedulingPolicy : SchedulingPolicy) (kvCacheConfig : KVCacheConfig)
    (prefixCacheConfig : PrefixCacheConfig) : Except Exn ContinuousBatchingConfig :=
  if noSequences : maxNumSequences = 0 then
    .error (.invalidArgument "max_num_sequences must be at least 1")
  else if noTokens : maxBatchedTokens = 0 then
    .error (.invalidArgument "max_batched_tokens must be at least 1")
  else .ok { maxNumSequences, maxBatchedTokens, schedulingPolicy, kvCacheConfig, prefixCacheConfig
             sequences_pos := Nat.pos_of_ne_zero noSequences
             tokens_pos := Nat.pos_of_ne_zero noTokens }

inductive DeferralReason where
  | sequenceBudget
  | tokenBudget
  | kvCapacity
deriving DecidableEq, Repr

structure DeferredRequest where
  requestId : RequestId
  reason : DeferralReason
deriving DecidableEq

structure PrefillWork where
  requestId : RequestId
  promptTokenCount : Nat
  originalPromptTokenCount : Nat
  matchedPrefixTokenCount : Nat
  matchedPhysicalBlockIds : List Nat
  newlyAllocatedBlockIds : List Nat
  evictedBlockIds : List Nat
  prefixLookupKind : PrefixLookupKind
deriving DecidableEq

structure DecodeWork where
  requestId : RequestId
  newlyAllocatedBlockId : Option Nat
  evictedBlockIds : List Nat
deriving DecidableEq

structure PlannedWorkItem where
  requestId : RequestId
  isPrefill : Bool
deriving DecidableEq

structure BatchPlan where
  iterationNumber : Nat
  prefillRequestIds : List RequestId := []
  prefillWork : List PrefillWork := []
  decodeRequestIds : List RequestId := []
  decodeWork : List DecodeWork := []
  workOrder : List PlannedWorkItem := []
  plannedEvictionIds : List Nat := []
  plannedAllocationIds : List Nat := []
  deferredRequests : List DeferredRequest := []
  totalPrefillTokens : Nat := 0
  totalDecodeTokens : Nat := 0
  totalScheduledTokens : Nat := 0
deriving DecidableEq

namespace BatchPlan

/-- `scheduled_sequence_count`. -/
def scheduledSequenceCount (plan : BatchPlan) : Nat :=
  plan.prefillRequestIds.length + plan.decodeRequestIds.length

/-- `empty()`: nothing is scheduled and nothing deferred. -/
def isEmpty (plan : BatchPlan) : Bool :=
  plan.scheduledSequenceCount = 0 && plan.deferredRequests.isEmpty

/-- `deferred_only`. -/
def deferredOnly (plan : BatchPlan) : Bool :=
  plan.scheduledSequenceCount = 0 && !plan.deferredRequests.isEmpty

/-- `BatchPlan::empty`: an interval in which nothing is runnable. -/
def empty (iterationNumber : Nat) : BatchPlan := { iterationNumber }

/-- Insert into the set of requests seen so far, once. -/
def see (message : String) (seen : OrdSet RequestId) (id : RequestId) :
    Except Exn (OrdSet RequestId) := do
  throwIf (id ∈ seen) (.invalidArgument message)
  return seen.insert id

/-- The loop of `create_with_deferred` over the prefill work. -/
def seePrefill (state : OrdSet RequestId × Nat) (work : PrefillWork) :
    Except Exn (OrdSet RequestId × Nat) := do
  let seen ← see "request appears more than once in BatchPlan" state.1 work.requestId
  let total ← add state.2 work.promptTokenCount "BatchPlan prefill token total overflow"
  return (seen, total)

/-- `create_with_deferred`. -/
def createWithDeferred (iterationNumber : Nat) (prefillWork : List PrefillWork)
    (decodeRequestIds : List RequestId) (deferredRequests : List DeferredRequest)
    (maxNumSequences maxBatchedTokens : Nat) : Except Exn BatchPlan := do
  throwIf (maxNumSequences = 0 ∨ maxBatchedTokens = 0)
    (.invalidArgument "BatchPlan budgets must be positive")
  throwIf (prefillWork = [] ∧ decodeRequestIds = [] ∧ deferredRequests = [])
    (.invalidArgument "use BatchPlan::empty for a zero-work plan")
  throwIf (prefillWork.length > maxNumSequences ∨
      decodeRequestIds.length > maxNumSequences - prefillWork.length)
    (.invalidArgument "BatchPlan exceeds max_num_sequences")
  let (seen, totalPrefillTokens) ← prefillWork.foldlM seePrefill (OrdSet.empty, 0)
  let seen ← decodeRequestIds.foldlM
    (see "request appears in both or more than once in BatchPlan") seen
  let _ ← (deferredRequests.map (·.requestId)).foldlM
    (see "deferred request also appears elsewhere in BatchPlan") seen
  throwIf ((prefillWork = [] ∧ decodeRequestIds = []) ∧
      ∃ deferred ∈ deferredRequests, deferred.reason ≠ .kvCapacity)
    (.invalidArgument "deferred-only BatchPlan requires KVCapacity reasons")
  let totalDecodeTokens := decodeRequestIds.length
  let totalScheduledTokens ← add totalPrefillTokens totalDecodeTokens
    "BatchPlan scheduled token total overflow"
  throwIf (totalScheduledTokens > maxBatchedTokens)
    (.invalidArgument "BatchPlan exceeds max_batched_tokens")
  return { iterationNumber, prefillRequestIds := prefillWork.map (·.requestId), prefillWork
           decodeRequestIds, deferredRequests, totalPrefillTokens, totalDecodeTokens
           totalScheduledTokens }

end BatchPlan

end LlmLab.Serving
