import LlmLab.Benchmarks.ServingCommon.Workload
import Mathlib.Algebra.Order.Ring.Unbundled.Rat

/-!
# The native record stream

`validate_native_records` of `serving_common.py`: the closed records of a simulated run and the
conservation laws between its requests, its iterations and its summary.  A division of integers,
which Python rounds to a float, is a parameter.
-/

namespace LlmLab.Benchmarks

/-- What `run` raises on the output of the native process. -/
inductive NativeError where
  | validation (error : ValidationError)
  | unicodeDecode
  /-- `TypeError`: a list or a dict looked up in a set. -/
  | unhashable
  /-- `TypeError`: null compared with a number. -/
  | unordered

/-- What the checks read of a validated serving configuration. -/
structure NativeConfig where
  executionMode : Text
  schedulingPolicy : Text
  totalBlocks : Int
  blockSizeTokens : Int

def simulatorSchemaVersion : String := "serving-simulator-v2"

def requestRecordFields : List Text :=
  ["record_type", "schema_version", "evidence_type", "internal_id", "request_id",
    "workload_class", "prefix_group", "deadline_us", "metadata", "prompt_tokens",
    "arrival_time_us", "admitted_time_us", "first_token_time_us", "finish_time_us",
    "queue_delay_us", "ttft_us", "end_to_end_latency_us", "tpot_us", "prompt_tokens_original",
    "prompt_tokens_matched", "prompt_tokens_scheduled", "generated_tokens", "max_new_tokens",
    "final_state", "reason", "decode_token_times_us", "inter_token_latencies_us"].map text

def iterationRecordFields : List Text :=
  ["record_type", "schema_version", "evidence_type", "iteration_number", "start_time_us",
    "end_time_us", "policy", "prefill_ids", "decode_ids", "deferred", "scheduled_sequences",
    "scheduled_prefill_tokens", "scheduled_decode_tokens", "total_scheduled_tokens",
    "kv_allocated", "kv_free", "kv_utilization", "represented_kv_tokens",
    "internal_fragmentation_tokens", "cached_blocks", "shared_referenced_blocks", "prefix_hits",
    "prefix_misses", "matched_tokens", "evicted_ids", "stall"].map text

def summaryRecordFields : List Text :=
  ["record_type", "schema_version", "evidence_type", "execution_mode", "scheduling_policy",
    "run_status", "submitted", "completed", "cancelled", "rejected", "stalled", "makespan_us",
    "scheduling_iterations", "nonempty_batches", "idle_iterations", "total_scheduled_sequences",
    "average_batch_size", "max_batch_size", "max_scheduled_tokens", "deferred_requests",
    "current_allocated_blocks", "current_free_blocks", "peak_allocated_blocks",
    "kv_current_utilization", "kv_peak_utilization", "represented_kv_tokens",
    "internal_fragmentation_tokens", "cached_blocks", "shared_referenced_blocks",
    "kv_allocation_failures", "kv_capacity_deferrals", "prefix_lookups", "prefix_lookup_hits",
    "prefix_lookup_misses", "matched_prefix_blocks", "cache_eligible_prompt_tokens",
    "collision_verifications", "matched_prefix_tokens", "prefix_token_hit_rate",
    "saved_simulated_prefill_tokens", "eviction_count", "submitted_prompt_tokens",
    "scheduled_prefill_tokens", "generated_tokens", "scheduled_decode_tokens"].map text

/-! ## Checks of single values -/

/-- An error under a context that shows some values, raised when the condition holds. -/
def rejectShowing (context : String) (condition : Prop) [Decidable condition] (message : String)
    (shown : List Json) : Except NativeError Unit :=
  throwIf condition (.validation ⟨context ++ ": " ++ message, shown⟩)

/-- An error with a message alone. -/
def reject (context : String) (condition : Prop) [Decidable condition] (message : String) :
    Except NativeError Unit :=
  rejectShowing context condition message []

/-- `_field_int`. -/
def fieldInt (record : Record) (name context : String) : Except NativeError Int := do
  match (record.get name).int? with
  | none => .error (.validation (invalid (context ++ ": " ++ name ++ " must be an integer")))
  | some value =>
      reject context (value < 0) (name ++ " must be non-negative")
      return value

/-- `_field_int` with `nullable=True`. -/
def nullableInt (record : Record) (name context : String) :
    Except NativeError (Option Int) := do
  if (record.get name).isNull then return none
  else match (record.get name).int? with
    | none =>
        .error (.validation (invalid (context ++ ": " ++ name ++ " must be null or an integer")))
    | some value =>
        reject context (value < 0) (name ++ " must be non-negative")
        return some value

/-- `_closed_fields`. -/
def closedFields (record : Record) (expected : List Text) (context : String) :
    Except NativeError Unit := do
  let missing := expected.filter fun name => (record.map Prod.fst).contains name = false
  let extra := (record.map Prod.fst).filter fun name => expected.contains name = false
  rejectShowing context (missing ≠ []) "missing field" (((sortBy id missing).take 1).map .str)
  rejectShowing context (extra ≠ []) "unknown field" (((sortBy id extra).take 1).map .str)

/-- `_nullable_str`. -/
def nullableStr (value : Json) (name context : String) : Except NativeError Unit :=
  reject context (value.isNull = false ∧ value.str?.isNone = true)
    (name ++ " must be null or a string")

/-- `_number_in_unit_interval`. -/
def numberInUnitInterval (value : Json) (name context : String) (nullable : Bool) :
    Except NativeError Unit :=
  let within := value.isNumber && value.number?.any fun number => 0 ≤ number && number ≤ 1
  reject context (within = false ∧ (nullable = false ∨ value.isNull = false))
    (name ++ " must be " ++ (if nullable then "null or " else "") ++ "a finite number in [0,1]")

/-- `_exact_number`; nothing is expected as null. -/
def exactNumber (actual expected : Json) (name context : String) : Except NativeError Unit :=
  if expected.isNull then reject context (actual.isNull = false) (name ++ " must be null")
  else rejectShowing context ((actual.isNumber && actual.equal expected) = false)
    ("contradictory " ++ name) [expected]

/-- `_conserved`. -/
def conserved (actual expected : Json) (name context : String) : Except NativeError Unit :=
  rejectShowing context (actual.equal expected = false) (name ++ " conservation mismatch")
    [expected, actual]

/-- `_conserved` on what `run` has copied from the workload, under a context that shows a value.
Python takes the members of one and the same dict for equal, a `NaN` among them too. -/
def conservedFor (subject actual expected : Json) (name context : String) :
    Except NativeError Unit :=
  rejectShowing context (actual.identical expected = false ∧ actual.equal expected = false)
    (name ++ " conservation mismatch") [subject, expected, actual]

/-- An array of non-negative integers. -/
def isNaturals (value : Json) : Bool :=
  value.arr?.any fun items => items.all fun item => item.int?.any fun number => 0 ≤ number

/-- `_id_array`. -/
def idArray (value : Json) (name context : String) (known : List Int) :
    Except NativeError (List Int) := do
  let ids := (value.arr?.getD []).filterMap Json.int?
  reject context (value.arr?.isNone = true) (name ++ " must be an array")
  reject context (isNaturals value = false) (name ++ " must contain non-negative integers")
  reject context (¬ ids.Nodup) (name ++ " contains duplicate IDs")
  let unknown := ids.filter fun id => known.contains id = false
  rejectShowing context (unknown ≠ []) (name ++ " references unknown request ID")
    (((sortBy id unknown).take 1).map .int)
  return ids

/-! ## Requests -/

/-- The string under a name is one of the given ones. -/
def oneOf (value : Json) (names : List String) : Bool :=
  value.str?.any fun name => (names.map text).contains name

/-- Whether a value is in a set of strings, which a list or a dict cannot be looked up in. -/
def requireOneOf (value : Json) (names : List String) (context message : String)
    (shown : List Json) : Except NativeError Unit := do
  throwIf (value.isHashable = false) .unhashable
  rejectShowing context (oneOf value names = false) message shown

def isNonemptyStr (value : Json) : Bool := value.str?.any fun name => name ≠ []

/-- The metrics that `request_metrics` derives from the times of a request. -/
structure RequestMetrics where
  queueDelayUs : Json
  ttftUs : Json
  e2eLatencyUs : Json
  tpotUs : Json

/-- An optional integer as the value it has in Python. -/
def optional : Option Int → Json
  | none => .null
  | some value => .int value

section Requests

-- The quotient of two integers, as the float Python gives.
variable (divide : Int → Int → FloatNumeral)

/-- `request_metrics`. -/
def requestMetrics (record : Record) : RequestMetrics :=
  let arrival := record.int "arrival_time_us"
  let admitted := (record.get "admitted_time_us").int?
  let first := (record.get "first_token_time_us").int?
  let finish := (record.get "finish_time_us").int?
  let generated := record.int "generated_tokens"
  { queueDelayUs := optional (admitted.map fun time => time - arrival)
    ttftUs := if generated = 0 then .null else optional (first.map fun time => time - arrival)
    e2eLatencyUs := optional (finish.map fun time => time - arrival)
    tpotUs :=
      match first, finish with
      | some first, some finish =>
          if generated < 2 then .null else .float (divide (finish - first) (generated - 1))
      | _, _ => .null }

/-- The identity of a request, and its ids among those seen before it. -/
def checkIdentity (record : Record) (seen : List Text × List Int) (context : String) :
    Except NativeError (List Text × List Int) := do
  closedFields record requestRecordFields context
  reject context (isNonemptyStr (record.get "request_id") = false)
    "request_id must be a nonempty string"
  rejectShowing context (record.str "request_id" ∈ seen.1) "duplicate request_id"
    [record.get "request_id"]
  let internalId ← fieldInt record "internal_id" context
  rejectShowing context (internalId ∈ seen.2) "duplicate internal_id" [.int internalId]
  reject context (isNonemptyStr (record.get "workload_class") = false)
    "workload_class must be a nonempty string"
  rejectShowing context (workloadClasses.contains (record.str "workload_class") = false)
    "unknown workload_class" [record.get "workload_class"]
  nullableStr (record.get "prefix_group") "prefix_group" context
  reject context ((record.get "prefix_group").str? = some []) "prefix_group must be null or nonempty"
  let _ ← nullableInt record "deadline_us" context
  reject context ((record.get "metadata").obj?.isNone = true) "metadata must be an object"
  return (seen.1 ++ [record.str "request_id"], seen.2 ++ [internalId])

/-- The prompt of a request is null or an array of tokens. -/
def checkPromptTokens (record : Record) (context : String) : Except NativeError Unit := do
  let tokens := record.get "prompt_tokens"
  reject context (tokens.isNull = false ∧ tokens.arr?.isNone = true)
    "prompt_tokens must be null or an array"
  (tokens.arr?.getD []).zipIdx.forM fun token =>
    let isInt32 := token.1.int?.any fun number => -(2 ^ 31) ≤ number && number ≤ 2 ^ 31 - 1
    reject context (isInt32 = false)
      ("prompt_tokens[" ++ toString token.2 ++ "] must be a signed int32")

/-- The times and counts of a request fit together. -/
def checkLifecycle (record : Record) (context : String) : Except NativeError Unit := do
  let arrival ← fieldInt record "arrival_time_us" context
  let original ← fieldInt record "prompt_tokens_original" context
  let matched ← fieldInt record "prompt_tokens_matched" context
  let scheduled ← fieldInt record "prompt_tokens_scheduled" context
  let generated ← fieldInt record "generated_tokens" context
  let maxNewTokens ← fieldInt record "max_new_tokens" context
  let admitted ← nullableInt record "admitted_time_us" context
  let first ← nullableInt record "first_token_time_us" context
  let finish ← nullableInt record "finish_time_us" context
  reject context ((record.get "prompt_tokens").arr?.any
      (fun tokens => (tokens.length : Int) ≠ original) = true)
    "prompt_tokens length disagrees with prompt_tokens_original"
  reject context (original < matched ∨ original < scheduled)
    "matched/scheduled prompt tokens exceed original"
  reject context (admitted.isSome = true ∧ matched + scheduled ≠ original)
    "prompt accounting contradiction; expected original == matched + scheduled"
  reject context (admitted = none ∧ (matched ≠ 0 ∨ scheduled ≠ 0 ∨ generated ≠ 0))
    "unadmitted request reports executed work"
  reject context (maxNewTokens < generated) "generated_tokens exceeds max_new_tokens"
  reject context (admitted.any (fun time => time < arrival) = true)
    "admitted_time_us precedes arrival_time_us"
  reject context (first.any (fun time => admitted.all fun start => time < start) = true)
    "first_token_time_us precedes admission"
  reject context (finish.any (fun time => time < arrival ||
      admitted.any (fun start => time < start) || first.any fun start => time < start) = true)
    "finish_time_us contradicts lifecycle order"

/-- The final state agrees with what the request has done. -/
def checkState (record : Record) (context : String) : Except NativeError Unit := do
  let state := record.get "final_state"
  let admitted := (record.get "admitted_time_us").int?
  let first := (record.get "first_token_time_us").int?
  let finish := (record.get "finish_time_us").int?
  let generated := record.int "generated_tokens"
  let reason := record.get "reason"
  requireOneOf state ["Waiting", "Prefilling", "Decoding", "Finished", "Cancelled"] context
    "invalid final_state" [state]
  nullableStr reason "reason" context
  reject context (oneOf state ["Finished"] = true ∧
      (admitted = none ∨ finish = none ∨ reason.isNull = false))
    "Finished lifecycle/reason fields are inconsistent"
  reject context (oneOf state ["Finished"] = false ∧ finish ≠ none)
    "unfinished request has finish_time_us"
  reject context (oneOf state ["Cancelled"] = true ∧ isNonemptyStr reason = false)
    "Cancelled request requires a reason"
  reject context (oneOf state ["Cancelled"] = false ∧ reason.isNull = false)
    "non-Cancelled request must have null reason"
  reject context (oneOf state ["Waiting"] = true ∧ (admitted ≠ none ∨ first ≠ none ∨ generated ≠ 0))
    "Waiting request has admitted/decode state"
  reject context (oneOf state ["Prefilling"] = true ∧
      (admitted = none ∨ first ≠ none ∨ generated ≠ 0))
    "Prefilling lifecycle fields are inconsistent"
  reject context (oneOf state ["Decoding"] = true ∧ admitted = none)
    "Decoding request lacks admission"
  reject context (generated = 0 ∧ first ≠ none) "zero-output request has first_token_time_us"
  reject context (0 < generated ∧ first = none) "generated request lacks first_token_time_us"

/-- The decode times of a request, their gaps and the metrics derived from its times. -/
def checkTimings (record : Record) (context : String) : Except NativeError Unit := do
  let times := record.ints "decode_token_times_us"
  let gaps := record.ints "inter_token_latencies_us"
  let generated := record.int "generated_tokens"
  let first := (record.get "first_token_time_us").int?
  let finish := (record.get "finish_time_us").int?
  reject context ((record.get "decode_token_times_us").arr?.isNone = true ∨
      (record.get "inter_token_latencies_us").arr?.isNone = true)
    "decode timing fields must be arrays"
  reject context (isNaturals (record.get "decode_token_times_us") = false ∨
      isNaturals (record.get "inter_token_latencies_us") = false)
    "decode timing values must be non-negative integers"
  conserved (.int times.length) (.int generated) "decode timestamp count" context
  conserved (.int gaps.length) (.int (max (generated - 1) 0)) "inter-token gap count" context
  reject context (times ≠ sortBy id times) "decode timestamps must be non-decreasing"
  reject context (times ≠ [] ∧ times.head? ≠ first)
    "first decode timestamp disagrees with first_token_time_us"
  reject context (oneOf (record.get "final_state") ["Finished"] = true ∧ times ≠ [] ∧
      times.getLast? ≠ finish)
    "final decode timestamp disagrees with finish_time_us"
  conserved (.arr (gaps.map .int))
    (.arr ((times.zip times.tail).map fun pair => .int (pair.2 - pair.1))) "inter-token gaps" context
  let metrics := requestMetrics divide record
  exactNumber (record.get "queue_delay_us") metrics.queueDelayUs "queue_delay_us" context
  exactNumber (record.get "ttft_us") metrics.ttftUs "ttft_us" context
  exactNumber (record.get "end_to_end_latency_us") metrics.e2eLatencyUs "end_to_end_latency_us"
    context
  exactNumber (record.get "tpot_us") metrics.tpotUs "tpot_us" context

/-- The body of the loop over the request records, with the ids seen so far. -/
def validateRequestRecord (seen : List Text × List Int) (item : Nat × Record) :
    Except NativeError (List Text × List Int) := do
  let context := "request record at result line " ++ toString item.1
  let next ← checkIdentity item.2 seen context
  checkPromptTokens item.2 context
  checkLifecycle item.2 context
  checkState item.2 context
  checkTimings divide item.2 context
  return next

end Requests

/-! ## Iterations -/

/-- One entry of `deferred`, with the ids of those before it. -/
def checkDeferred (known : List Int) (context : String) (seen : List Int) (item : Json × Nat) :
    Except NativeError (List Int) := do
  let place := "deferred[" ++ toString item.2 ++ "]"
  let entry := item.1.obj?.getD []
  let keys := entry.map Prod.fst
  reject context (item.1.obj?.isNone = true ∨
      sortBy id keys ≠ [text "reason", text "request_id"])
    (place ++ " must contain request_id and reason")
  match (entry.get "request_id").int? with
  | none =>
      .error (.validation (invalid (context ++ ": " ++ place ++ " references an unknown request")))
  | some id =>
      reject context (id ∉ known) (place ++ " references an unknown request")
      rejectShowing context (id ∈ seen) "duplicate deferred request ID" [.int id]
      requireOneOf (entry.get "reason") ["sequence budget", "token budget", "KV capacity"] context
        "invalid deferred reason" [entry.get "reason"]
      return seen ++ [id]

/-- The amounts an iteration reports. -/
def iterationAmounts : List String :=
  ["scheduled_sequences", "scheduled_prefill_tokens", "scheduled_decode_tokens",
    "total_scheduled_tokens", "kv_allocated", "kv_free", "represented_kv_tokens",
    "internal_fragmentation_tokens", "cached_blocks", "shared_referenced_blocks", "prefix_hits",
    "prefix_misses", "matched_tokens"]

section Iterations

variable (divide : Int → Int → FloatNumeral) (config : Option NativeConfig)

/-- The block counts of an iteration against the configured capacity. -/
def checkIterationCapacity (record : Record) (context : String) : Except NativeError Unit := do
  match config with
  | none => return ()
  | some config =>
      let allocated := record.int "kv_allocated"
      conserved (.int (allocated + record.int "kv_free")) (.int config.totalBlocks)
        "configured KV block capacity" context
      exactNumber (record.get "kv_utilization") (.float (divide allocated config.totalBlocks))
        "kv_utilization" context
      conserved (record.get "internal_fragmentation_tokens")
        (.int (allocated * config.blockSizeTokens - record.int "represented_kv_tokens"))
        "internal_fragmentation_tokens" context

/-- The body of the loop over the iteration records, with the number and the end of the iteration
before. -/
def validateIterationRecord (known : List Int) (previous : Int × Int) (item : Nat × Record) :
    Except NativeError (Int × Int) := do
  let context := "iteration record at result line " ++ toString item.1
  let record := item.2
  closedFields record iterationRecordFields context
  let number ← fieldInt record "iteration_number" context
  let start ← fieldInt record "start_time_us" context
  let finish ← fieldInt record "end_time_us" context
  reject context (number ≤ previous.1) "iteration_number must be unique and strictly increasing"
  reject context (start < previous.2 ∨ finish < start) "iteration timestamps are not monotonic"
  requireOneOf (record.get "policy") ["DecodeFirst", "FcfsMixed"] context
    "invalid scheduling policy" [record.get "policy"]
  let prefill ← idArray (record.get "prefill_ids") "prefill_ids" context known
  let decode ← idArray (record.get "decode_ids") "decode_ids" context known
  reject context (prefill.any decode.contains = true)
    "request appears in both prefill_ids and decode_ids"
  reject context ((record.get "deferred").arr?.isNone = true) "deferred must be an array"
  let deferred ← ((record.get "deferred").arr?.getD []).zipIdx.foldlM (checkDeferred known context) []
  reject context (deferred.any (prefill ++ decode).contains = true)
    "deferred request also appears in scheduled work"
  iterationAmounts.forM fun name => do
    let _ ← fieldInt record name context
  conserved (record.get "scheduled_sequences") (.int (prefill.length + decode.length))
    "scheduled_sequences" context
  conserved (record.get "scheduled_decode_tokens") (.int decode.length) "scheduled_decode_tokens"
    context
  conserved (record.get "total_scheduled_tokens")
    (.int (record.int "scheduled_prefill_tokens" + record.int "scheduled_decode_tokens"))
    "total_scheduled_tokens" context
  numberInUnitInterval (record.get "kv_utilization") "kv_utilization" context false
  reject context ((record.get "stall").bool?.isNone = true) "stall must be boolean"
  let evicted := record.ints "evicted_ids"
  reject context (isNaturals (record.get "evicted_ids") = false)
    "evicted_ids must contain non-negative integers"
  reject context (¬ evicted.Nodup) "evicted_ids contains duplicate physical IDs"
  reject context ((record.get "stall").bool? = some true ∧
      (prefill ≠ [] ∨ decode ≠ [] ∨ record.int "total_scheduled_tokens" ≠ 0))
    "stalled iteration contains scheduled work"
  checkIterationCapacity divide config record context
  reject context (record.int "kv_allocated" < record.int "cached_blocks" ∨
      record.int "kv_allocated" < record.int "shared_referenced_blocks")
    "cached/shared block gauges exceed allocated blocks"
  return (number, finish)

end Iterations

/-! ## The summary -/

def requiredInts : List String :=
  ["submitted", "completed", "cancelled", "rejected", "stalled", "makespan_us", "max_batch_size",
    "deferred_requests", "kv_allocation_failures", "kv_capacity_deferrals", "prefix_lookups",
    "prefix_lookup_hits", "prefix_lookup_misses", "matched_prefix_blocks",
    "cache_eligible_prompt_tokens", "collision_verifications", "matched_prefix_tokens",
    "saved_simulated_prefill_tokens", "eviction_count", "submitted_prompt_tokens",
    "scheduled_prefill_tokens", "generated_tokens", "scheduled_decode_tokens"]

def nullableInts : List String :=
  ["scheduling_iterations", "nonempty_batches", "idle_iterations", "total_scheduled_sequences",
    "max_scheduled_tokens", "current_allocated_blocks", "current_free_blocks",
    "peak_allocated_blocks", "represented_kv_tokens", "internal_fragmentation_tokens",
    "cached_blocks", "shared_referenced_blocks"]

/-- The sum of a count over records. -/
def total (records : List Record) (name : String) : Int :=
  (records.map fun record => record.int name).sum

/-- The largest value of a count over records, zero if there is none. -/
def largest (records : List Record) (name : String) : Int :=
  (records.map fun record => record.int name).foldl max 0

/-- `left < right` for two numbers. -/
def Json.less (left right : Json) : Bool :=
  match left.number?, right.number? with
  | some left, some right => left < right
  | _, _ => false

/-- The first of the largest numbers, zero if there is none. -/
def largestNumber : List Json → Json
  | [] => .int 0
  | value :: values =>
      values.foldl (fun best value => if best.less value then value else best) value

def stateCount (requests : List Record) (state : String) : Int :=
  requests.countP fun record => oneOf (record.get "final_state") [state]

/-- The latest finish of a request or end of an iteration. -/
def latestTime (requests iterations : List Record) : Int :=
  (requests.filterMap (fun record => (record.get "finish_time_us").int?) ++
    iterations.map fun record => record.int "end_time_us").foldl max 0

section Summary

variable (divide : Int → Int → FloatNumeral) (config : Option NativeConfig)

/-- A continuous run has one of the policies. -/
def checkContinuousPolicy (mode policy : Json) (context : String) : Except NativeError Unit :=
  if oneOf mode ["continuous_batching"] then
    requireOneOf policy ["DecodeFirst", "FcfsMixed"] context "invalid continuous scheduling_policy" []
  else .ok ()

/-- The mode and the policy are the configured ones. -/
def checkConfiguredMode (mode policy : Json) (context : String) : Except NativeError Unit :=
  match config with
  | none => .ok ()
  | some config => do
      conserved mode (.str config.executionMode) "execution_mode" context
      conserved policy
        (if oneOf mode ["single_active_fcfs"] then .null else .str config.schedulingPolicy)
        "scheduling_policy" context

/-- The fields of the summary, one by one. -/
def checkSummaryFields (summary : Record) (context : String) : Except NativeError Unit := do
  let mode := summary.get "execution_mode"
  let policy := summary.get "scheduling_policy"
  closedFields summary summaryRecordFields context
  requireOneOf mode ["single_active_fcfs", "continuous_batching"] context
    "invalid execution_mode" []
  reject context (oneOf mode ["single_active_fcfs"] = true ∧ policy.isNull = false)
    "FCFS scheduling_policy must be null"
  checkContinuousPolicy mode policy context
  checkConfiguredMode config mode policy context
  requireOneOf (summary.get "run_status") ["completed", "stalled"] context "invalid run_status"
    [summary.get "run_status"]
  requiredInts.forM fun name => do
    let _ ← fieldInt summary name context
  nullableInts.forM fun name => do
    let _ ← nullableInt summary name context
  let average := summary.get "average_batch_size"
  let finite := average.isNumber && average.number?.any fun number => 0 ≤ number
  reject context (average.isNull = false ∧ finite = false)
    "average_batch_size must be null or a finite non-negative number"
  ["kv_current_utilization", "kv_peak_utilization", "prefix_token_hit_rate"].forM fun name =>
    numberInUnitInterval (summary.get name) name context true

/-- The sums of the summary over its requests, and the end of the run. -/
def checkRequestTotals (requests iterations : List Record) (summary : Record) (context : String) :
    Except NativeError Unit := do
  conserved (summary.get "submitted") (.int requests.length) "submitted request count" context
  conserved (summary.get "completed") (.int (stateCount requests "Finished"))
    "completed request count" context
  conserved (summary.get "cancelled") (.int (stateCount requests "Cancelled"))
    "cancelled request count" context
  reject context (summary.int "rejected" ≠ 0) "rejected count requires explicit rejection records"
  let unfinished := requests.length - summary.int "completed" - summary.int "cancelled" -
    summary.int "rejected"
  reject context (oneOf (summary.get "run_status") ["completed"] = true ∧
      (unfinished ≠ 0 ∨ summary.int "stalled" ≠ 0))
    "completed status contradicts unfinished/stalled work"
  reject context (oneOf (summary.get "run_status") ["stalled"] = true ∧
      (unfinished = 0 ∨ summary.int "stalled" = 0))
    "stalled status requires unfinished requests and stalled iterations"
  conserved (summary.get "makespan_us") (.int (latestTime requests iterations)) "makespan_us" context
  [("submitted_prompt_tokens", "prompt_tokens_original"),
    ("scheduled_prefill_tokens", "prompt_tokens_scheduled"),
    ("generated_tokens", "generated_tokens"), ("scheduled_decode_tokens", "generated_tokens"),
    ("matched_prefix_tokens", "prompt_tokens_matched")].forM fun names =>
      conserved (summary.get names.1) (.int (total requests names.2)) names.1 context
  conserved (summary.get "prefix_lookups")
    (.int (summary.int "prefix_lookup_hits" + summary.int "prefix_lookup_misses"))
    "prefix_lookups" context
  let eligible := summary.int "cache_eligible_prompt_tokens"
  exactNumber (summary.get "prefix_token_hit_rate")
    (if eligible = 0 then .null else .float (divide (summary.int "matched_prefix_tokens") eligible))
    "prefix_token_hit_rate" context
  conserved (summary.get "saved_simulated_prefill_tokens") (summary.get "matched_prefix_tokens")
    "saved_simulated_prefill_tokens" context

/-- The summary of a run of the single-active engine. -/
def checkFcfsSummary (requests iterations : List Record) (summary : Record) (context : String) :
    Except NativeError Unit := do
  reject context (iterations ≠ []) "single_active_fcfs must not contain iteration records"
  ["scheduling_iterations", "nonempty_batches", "idle_iterations", "total_scheduled_sequences",
    "max_scheduled_tokens", "current_allocated_blocks", "current_free_blocks",
    "peak_allocated_blocks", "kv_current_utilization", "kv_peak_utilization",
    "represented_kv_tokens", "internal_fragmentation_tokens", "cached_blocks",
    "shared_referenced_blocks"].forM fun name =>
      reject context ((summary.get name).isNull = false) ("FCFS field " ++ name ++ " must be null")
  exactNumber (summary.get "average_batch_size") (if requests = [] then .null else .int 1)
    "average_batch_size" context
  conserved (summary.get "max_batch_size") (.int (if requests = [] then 0 else 1)) "max_batch_size"
    context

/-- The sums of the summary over the iterations. -/
def iterationSums (iterations : List Record) : List (String × Int) :=
  let stalled := iterations.filter fun item => (item.get "stall").bool? = some true
  let deferred := iterations.flatMap fun item => (item.get "deferred").arr?.getD []
  [("scheduled_prefill_tokens", total iterations "scheduled_prefill_tokens"),
    ("scheduled_decode_tokens", total iterations "scheduled_decode_tokens"),
    ("total_scheduled_sequences", total iterations "scheduled_sequences"),
    ("nonempty_batches", iterations.countP fun item => 0 < item.int "scheduled_sequences"),
    ("stalled", stalled.length), ("deferred_requests", deferred.length),
    ("kv_capacity_deferrals",
      deferred.countP fun item => oneOf ((item.obj?.getD []).get "reason") ["KV capacity"]),
    ("prefix_lookup_hits", total iterations "prefix_hits"),
    ("prefix_lookup_misses", total iterations "prefix_misses"),
    ("matched_prefix_tokens", total iterations "matched_tokens"),
    ("eviction_count", (iterations.map fun item => (item.ints "evicted_ids").length).sum)]

/-- The gauges of the summary and the fields of the last iteration they repeat. -/
def finalGauges : List (String × String) :=
  [("current_allocated_blocks", "kv_allocated"), ("current_free_blocks", "kv_free"),
    ("kv_current_utilization", "kv_utilization"), ("represented_kv_tokens", "represented_kv_tokens"),
    ("internal_fragmentation_tokens", "internal_fragmentation_tokens"),
    ("cached_blocks", "cached_blocks"), ("shared_referenced_blocks", "shared_referenced_blocks")]

/-- The value a gauge of the summary has to have. -/
def expectedGauge (iterations : List Record) (summary : Record) (names : String × String) : Json :=
  match iterations.getLast?, config with
  | some last, _ => last.get names.2
  | none, some config =>
      .int (if names.1 = "current_free_blocks" then config.totalBlocks else 0)
  | none, none => if names.1 = "current_free_blocks" then summary.get names.1 else .int 0

/-- The peaks of the summary cover those of the iterations. -/
def checkPeaks (iterations : List Record) (summary : Record) (context : String) :
    Except NativeError Unit := do
  let blocks := largest iterations "kv_allocated"
  let utilization := largestNumber (iterations.map fun item => item.get "kv_utilization")
  let peak := summary.get "kv_peak_utilization"
  rejectShowing context (summary.int "peak_allocated_blocks" < blocks)
    "peak_allocated_blocks must cover the iteration peak"
    [.int blocks, summary.get "peak_allocated_blocks"]
  throwIf (peak.isNull = true) .unordered
  rejectShowing context (peak.less utilization = true)
    "kv_peak_utilization must cover the iteration peak" [utilization, peak]
  match config with
  | none => .ok ()
  | some config => do
      reject context (config.totalBlocks < summary.int "peak_allocated_blocks")
        "peak_allocated_blocks exceeds configured KV capacity"
      exactNumber (summary.get "kv_peak_utilization")
        (.float (divide (summary.int "peak_allocated_blocks") config.totalBlocks))
        "kv_peak_utilization" context

/-- The final block counts against the configured capacity. -/
def checkSummaryCapacity (summary : Record) (context : String) : Except NativeError Unit :=
  match config with
  | none => .ok ()
  | some config => do
      let allocated := summary.int "current_allocated_blocks"
      conserved (.int (allocated + summary.int "current_free_blocks")) (.int config.totalBlocks)
        "summary configured KV block capacity" context
      exactNumber (summary.get "kv_current_utilization")
        (.float (divide allocated config.totalBlocks)) "kv_current_utilization" context
      conserved (summary.get "internal_fragmentation_tokens")
        (.int (allocated * config.blockSizeTokens - summary.int "represented_kv_tokens"))
        "summary internal_fragmentation_tokens" context

/-- What the iterations show of one request. -/
def checkAppearances (iterations : List Record) (context : String) (request : Record) :
    Except NativeError Unit := do
  let id := request.int "internal_id"
  let name := "request " ++ toString id
  let decodes := iterations.filter fun item => (item.ints "decode_ids").contains id
  let prefills := iterations.filter fun item => (item.ints "prefill_ids").contains id
  let admitted := (request.get "admitted_time_us").isNull = false
  conserved (.int decodes.length) (request.get "generated_tokens") (name ++ " decode appearances")
    context
  conserved (.arr (decodes.map fun item => item.get "end_time_us"))
    (request.get "decode_token_times_us") (name ++ " decode completion timestamps") context
  conserved (.int prefills.length) (.int (if admitted then 1 else 0))
    (name ++ " prefill appearances") context
  match prefills.head? with
  | none => .ok ()
  | some first => do
      conserved (first.get "start_time_us") (request.get "admitted_time_us")
        (name ++ " prefill admission timestamp") context
      let zeroOutput := oneOf (request.get "final_state") ["Finished"] = true ∧
        request.int "generated_tokens" = 0
      if zeroOutput then
        conserved (first.get "end_time_us") (request.get "finish_time_us")
          (name ++ " zero-output finish timestamp") context

/-- The summary of a run of the continuous-batching engine. -/
def checkContinuousSummary (requests iterations : List Record) (summary : Record)
    (context : String) : Except NativeError Unit := do
  nullableInts.forM fun name =>
    reject context ((summary.get name).isNull = true)
      ("continuous field " ++ name ++ " must not be null")
  reject context ((summary.get "average_batch_size").isNull = true ∧
      summary.int "nonempty_batches" ≠ 0)
    "nonempty run requires average_batch_size"
  conserved (summary.get "scheduling_iterations") (.int iterations.length) "scheduling_iterations"
    context
  (iterationSums iterations).forM fun expected =>
    conserved (summary.get expected.1) (.int expected.2) expected.1 context
  let idle := iterations.countP fun item =>
    item.int "scheduled_sequences" = 0 ∧ (item.get "stall").bool? = some false
  conserved (summary.get "idle_iterations") (.int idle) "idle_iterations" context
  conserved (summary.get "max_batch_size") (.int (largest iterations "scheduled_sequences"))
    "max_batch_size" context
  conserved (summary.get "max_scheduled_tokens") (.int (largest iterations "total_scheduled_tokens"))
    "max_scheduled_tokens" context
  let batches := summary.int "nonempty_batches"
  exactNumber (summary.get "average_batch_size")
    (if batches = 0 then .null
      else .float (divide (summary.int "total_scheduled_sequences") batches))
    "average_batch_size" context
  checkPeaks divide config iterations summary context
  finalGauges.forM fun names =>
    conserved (summary.get names.1) (expectedGauge config iterations summary names) names.1 context
  checkSummaryCapacity divide config summary context
  reject context (summary.int "current_allocated_blocks" < summary.int "cached_blocks" ∨
      summary.int "current_allocated_blocks" < summary.int "shared_referenced_blocks")
    "cached/shared block gauges exceed current allocated blocks"
  requests.forM (checkAppearances iterations context)

/-- What the summary says of the iterations depends on the engine that ran. -/
def checkSummaryMode (requests iterations : List Record) (summary : Record) (context : String) :
    Except NativeError Unit :=
  if oneOf (summary.get "execution_mode") ["single_active_fcfs"] then
    checkFcfsSummary requests iterations summary context
  else checkContinuousSummary divide config requests iterations summary context

end Summary

/-! ## The whole stream -/

/-- A field of a workload record, null when it is missing. -/
def envelope (workload : List Record) (source : Record) : List (String × Json) :=
  let position := (sortBy requestOrder workload).findIdx fun record =>
    record.str "request_id" = source.str "request_id"
  [("internal_id", .int (position + 1)), ("workload_class", source.get "workload_class"),
    ("prefix_group", source.get "prefix_group"), ("deadline_us", source.get "deadline_us"),
    ("metadata", if source.contains "metadata" then source.get "metadata" else .obj []),
    ("prompt_tokens", source.get "prompt_tokens"),
    ("arrival_time_us", source.get "arrival_time_us"),
    ("prompt_tokens_original", source.get "prompt_token_count"),
    ("max_new_tokens", source.get "max_new_tokens")]

/-- The requests are those of the workload, when one is given. -/
def checkWorkload (requests : List Record) :
    Option (List Record) → Except NativeError Unit
  | none => .ok ()
  | some workload => do
    let ids := workload.map fun record => record.str "request_id"
    let external := requests.map fun record => record.str "request_id"
    throwIf (¬ ids.Nodup)
      (.validation (invalid "workload envelope contains duplicate external request IDs"))
    rejectShowing "workload envelope" (ids.any (fun id => external.contains id = false) ||
        external.any (fun id => ids.contains id = false))
      "workload/result external ID set conservation mismatch"
      [.arr (external.map .str), .arr (ids.map .str)]
    requests.forM fun result =>
      match workload.find? fun source => source.str "request_id" = result.str "request_id" with
      | none => .ok ()
      | some source =>
          (envelope workload source).forM fun expected =>
            conservedFor (result.get "request_id") (result.get expected.1) expected.2 expected.1
              "workload envelope for request"

/-- The types of the records of the stream. -/
def nativeRecordTypes : List String := ["request", "iteration", "summary"]

/-- The common fields of a record of the stream. -/
def nativeRecord (item : Json × Nat) : Except NativeError (Nat × Record) :=
  let line := "result line " ++ toString item.2
  match item.1.obj? with
  | none => .error (.validation (invalid (line ++ ": record must be an object")))
  | some record => do
      let recordType := record.get "record_type"
      requireOneOf recordType nativeRecordTypes line "unknown native record_type" [recordType]
      let kind := (nativeRecordTypes.find? fun kind => oneOf recordType [kind]).getD ""
      let context := kind ++ " record at " ++ line
      reject context (oneOf (record.get "schema_version") [simulatorSchemaVersion] = false)
        ("incompatible simulator schema; expected '" ++ simulatorSchemaVersion ++ "'")
      reject context (oneOf (record.get "evidence_type") ["SIMULATED"] = false)
        "evidence_type must be SIMULATED"
      return (item.2, record)

/-- The records of one type, with their lines. -/
def ofType (kind : String) (items : List (Nat × Record)) : List (Nat × Record) :=
  items.filter fun item => oneOf (item.2.get "record_type") [kind]

/-- `validate_native_records`: the requests, the iterations and the summary of a stream. -/
def validateNativeRecords (divide : Int → Int → FloatNumeral) (config : Option NativeConfig)
    (workload : Option (List Record)) (records : List Json) :
    Except NativeError (List Record × List Record × Record) := do
  let indexed ← (records.zipIdx 1).mapM nativeRecord
  match ofType "summary" indexed, indexed.getLast? with
  | [(line, summary)], some last => do
      throwIf (oneOf (last.2.get "record_type") ["summary"] = false)
        (.validation (invalid "summary record must be terminal"))
      let requests := (ofType "request" indexed).map Prod.snd
      let iterations := (ofType "iteration" indexed).map Prod.snd
      let (_, nativeIds) ← (ofType "request" indexed).foldlM (validateRequestRecord divide) ([], [])
      let _ ← (ofType "iteration" indexed).foldlM
        (validateIterationRecord divide config nativeIds) (0, 0)
      let context := "summary record at result line " ++ toString line
      checkSummaryFields config summary context
      checkRequestTotals divide requests iterations summary context
      checkSummaryMode divide config requests iterations summary context
      checkWorkload requests workload
      return (requests, iterations, summary)
  | summaries, _ =>
      .error (.validation (invalid ("native result must contain exactly one summary record; got " ++
        toString summaries.length)))

end LlmLab.Benchmarks
