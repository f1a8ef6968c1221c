import LlmLab.Benchmarks.ServingCommon.NativeRecords
import LlmLab.Benchmarks.ServingRunner.Transport
import LlmLab.Serving.Simulation.Engine

/-!
# The records of a native run

`run_fcfs` of `serving_benchmark_runner.cpp`, and what `run` of `run_serving_simulation.py` does
with its records.  A record stands for the line that is written and for the dict that `json.loads`
reads from it.  A double is a quotient of two counters, as Python reads it back.
-/

namespace LlmLab.Serving

/-- `to_string` of a request state. -/
def RequestState.name : RequestState → String
  | .waiting => "Waiting"
  | .prefilling => "Prefilling"
  | .decoding => "Decoding"
  | .finished => "Finished"
  | .preempted => "Preempted"
  | .cancelled => "Cancelled"

end LlmLab.Serving

namespace LlmLab.Benchmarks

open LlmLab.Serving

namespace Runner

/-! ## Values -/

/-- A record by the names of its fields. -/
def named (fields : List (String × Json)) : Record :=
  fields.map fun field => (text field.1, field.2)

def string (s : String) : Json := .str (text s)

def number (count : Nat) : Json := .int count

/-- A string of the input, as Python decodes it. -/
def inputString (bytes : Bytes) : Json := .str ((decodeUtf8 bytes).getD [])

/-- A printed double; at 17 digits a whole one below 10^17 has no point, and reads back as an
integer. -/
def double (value : FloatNumeral) : Json :=
  match value.value with
  | some whole => if whole.den = 1 ∧ |whole.num| < 10 ^ 17 then .int whole.num else .float value
  | none => .float value

/-- A sum in a `uint64_t`, which wraps around. -/
def sum64 (values : List Nat) : Nat := values.foldl (fun total value => (total + value) % 2 ^ 64) 0

/-- A call whose exception ends the run. -/
def orThrow {α σ : Type} : Except Exn α × σ → Except Exn (α × σ)
  | (.ok value, state) => .ok (value, state)
  | (.error error, _) => .error error

section Writer

-- The quotient of two integers as a double.
variable (divide : Int → Int → FloatNumeral)

/-! ## Requests -/

/-- The mean time between the tokens of a request. -/
def tpot (request : Request) : Json :=
  match request.firstTokenTimeUs, request.finishTimeUs with
  | some first, some finish =>
      if 2 ≤ request.generatedTokenCount then
        double (divide (finish - first) (request.generatedTokenCount - 1))
      else .null
  | _, _ => .null

/-- `write_request`. -/
def writeRequest (input : InputRequest) (request : Request) (matched scheduled : Nat)
    (tokenTimes : List Int) : Record :=
  let since := fun time : Int => time - request.arrivalTimeUs
  named [("record_type", string "request"), ("schema_version", string simulatorSchemaVersion),
    ("evidence_type", string "SIMULATED"), ("internal_id", number request.requestId),
    ("request_id", inputString input.externalId),
    ("workload_class", inputString input.workloadClass),
    ("arrival_time_us", .int request.arrivalTimeUs),
    ("admitted_time_us", optional request.admittedTimeUs),
    ("first_token_time_us", optional request.firstTokenTimeUs),
    ("finish_time_us", optional request.finishTimeUs),
    ("queue_delay_us", optional (request.admittedTimeUs.map since)),
    ("ttft_us", if 0 < request.generatedTokenCount
      then optional (request.firstTokenTimeUs.map since) else .null),
    ("end_to_end_latency_us", optional (request.finishTimeUs.map since)),
    ("tpot_us", tpot divide request), ("prompt_tokens_original", number request.promptLength),
    ("prompt_tokens_matched", number matched), ("prompt_tokens_scheduled", number scheduled),
    ("generated_tokens", number request.generatedTokenCount),
    ("max_new_tokens", number request.maxNewTokens),
    ("final_state", string request.state.name), ("reason", .null),
    ("decode_token_times_us", .arr (tokenTimes.map .int)),
    ("inter_token_latencies_us",
      .arr ((tokenTimes.zip tokenTimes.tail).map fun pair => .int (pair.2 - pair.1)))]

/-! ## The single-active engine -/

/-- The times at which the events of one request complete a decode step. -/
def decodeTimes (log : List Event) (id : RequestId) : List Int :=
  (log.filter fun event => event.type = .decodeStepComplete ∧ event.requestId = id).map
    (·.timestampUs)

/-- The summary of a run of the single-active engine. -/
def fcfsSummary (nowUs : Int) (promptTokens generatedTokens submitted : Nat) : Record :=
  named [("record_type", string "summary"), ("schema_version", string simulatorSchemaVersion),
    ("evidence_type", string "SIMULATED"), ("execution_mode", string "single_active_fcfs"),
    ("scheduling_policy", .null), ("run_status", string "completed"),
    ("submitted", number submitted), ("completed", number submitted), ("cancelled", .int 0),
    ("rejected", .int 0), ("stalled", .int 0), ("makespan_us", .int nowUs),
    ("scheduling_iterations", .null), ("nonempty_batches", .null), ("idle_iterations", .null),
    ("total_scheduled_sequences", .null), ("max_scheduled_tokens", .null),
    ("deferred_requests", .int 0),
    ("average_batch_size", if submitted = 0 then .null else .int 1),
    ("max_batch_size", .int (if submitted = 0 then 0 else 1)),
    ("current_allocated_blocks", .null), ("current_free_blocks", .null),
    ("kv_peak_utilization", .null), ("kv_current_utilization", .null),
    ("prefix_token_hit_rate", .null), ("prefix_lookup_hits", .int 0),
    ("prefix_lookup_misses", .int 0), ("prefix_lookups", .int 0),
    ("matched_prefix_blocks", .int 0), ("cache_eligible_prompt_tokens", .int 0),
    ("collision_verifications", .int 0), ("matched_prefix_tokens", .int 0),
    ("saved_simulated_prefill_tokens", .int 0), ("scheduled_prefill_tokens", number promptTokens),
    ("scheduled_decode_tokens", number generatedTokens),
    ("submitted_prompt_tokens", number promptTokens), ("generated_tokens", number generatedTokens),
    ("kv_capacity_deferrals", .int 0), ("kv_allocation_failures", .int 0),
    ("eviction_count", .int 0), ("internal_fragmentation_tokens", .null),
    ("represented_kv_tokens", .null), ("cached_blocks", .null),
    ("shared_referenced_blocks", .null), ("peak_allocated_blocks", .null)]

/-- The record of a submitted request in an engine. -/
def fcfsRequest (engine : SimulationEngine) (input : InputRequest) : Except Exn Request :=
  match engine.requests.find? input.request.requestId with
  | none => .error (.outOfRange "unknown request ID")
  | some request => .ok request

/-- The records of a run that has ended. -/
def fcfsRecords (engine : SimulationEngine) (inputs : List InputRequest) :
    Except Exn (List Record) := do
  let finals ← inputs.mapM (fcfsRequest engine)
  let requests := (inputs.zip finals).map fun pair =>
    writeRequest divide pair.1 pair.2 0 pair.1.request.promptLength
      (decodeTimes engine.eventLog pair.1.request.requestId)
  let summary := fcfsSummary engine.nowUs
    (sum64 (inputs.map fun input => input.request.promptLength))
    (sum64 (finals.map (·.generatedTokenCount))) inputs.length
  return requests ++ [summary]

/-- `run_fcfs`. -/
def runFcfs (backend : SimulatedBackend) (inputs : List InputRequest) :
    Except Exn (List Record) := do
  let created ← SimulationEngine.create backend.toBackend 1
  let submitted ← inputs.foldlM (fun engine input => do
    let (_, next) ← orThrow (engine.submitRequest input.request)
    return next) created
  let (_, engine) ← orThrow submitted.run
  fcfsRecords divide engine inputs

end Writer

end Runner

/-! ## What becomes of the records -/

/-- `record[name] = value`. -/
def Record.set (record : Record) (name : String) (value : Json) : Record :=
  if record.contains name then
    record.map fun member => if member.1 = text name then (member.1, value) else member
  else record ++ [(text name, value)]

/-- The fields of a request record that come from the workload. -/
def decorated (source record : Record) : Record :=
  ((((record.set "workload_class" (source.get "workload_class")).set "prefix_group"
    (source.get "prefix_group")).set "deadline_us" (source.get "deadline_us")).set "metadata"
    (if source.contains "metadata" then source.get "metadata" else .obj [])).set "prompt_tokens"
    (source.get "prompt_tokens")

/-- The loop body of `run` over the native records; the ids of a workload are distinct. -/
def decorate (workload : List Record) (record : Record) : Except NativeError Record :=
  if oneOf (record.get "record_type") ["request"] then do
    throwIf ((record.get "request_id").isHashable = false) .unhashable
    match workload.find? fun source => source.str "request_id" = record.str "request_id" with
    | none => .error (.validation (invalid "native runner emitted unknown request_id"))
    | some source => return decorated source record
  else .ok record

end LlmLab.Benchmarks
