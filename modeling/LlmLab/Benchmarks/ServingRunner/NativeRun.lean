import LlmLab.Benchmarks.ServingRunner.ContinuousIterations
import LlmLab.Benchmarks.ServingRunner.FcfsStream
import LlmLab.Serving.Simulation.Clock

/-!
# The native writer and its validator

What the native runner writes for a workload that it has read, in both execution modes, once `run`
has completed the records and `validate_native_records` checks them with the configuration and the
workload.  All checks pass when the token sums of the writer fit their counters, which it adds up
without a check for overflow.
-/

namespace LlmLab.Benchmarks

open LlmLab.Serving

/-- The records of a run, completed as `run` completes them, pass every check. -/
def Received (divide : Int → Int → FloatNumeral) (config : NativeConfig)
    (workload native : List Record) : Prop :=
  ∃ completed result, native.mapM (decorate workload) = .ok completed ∧
    validateNativeRecords divide (some config) (some workload) (completed.map .obj) = .ok result

/-! ## The stream -/

section Stream

variable {divide : Int → Int → FloatNumeral} {deliveries : List (Delivery divide)}
  {workload iterations : List Record} {summary : Record} {config : NativeConfig}

/-- A stream that is received shows the sums of its requests. -/
theorem conserved_of_received (covers : Covers deliveries workload)
    (distinct : (workload.map fun source => source.str "request_id").Nodup)
    (traced : ∀ record ∈ iterations, IsOf "iteration" record) (isOf : IsOf "summary" summary)
    (received : Received divide config workload
      (iterations ++ deliveries.map Delivery.record ++ [summary])) :
    (summary.get "submitted_prompt_tokens").equal (.int ((deliveries.map fun delivery =>
        delivery.entry.request.promptLength).sum : Nat)) = true ∧
      (summary.get "generated_tokens").equal (.int ((deliveries.map fun delivery =>
        delivery.entry.request.generatedTokenCount).sum : Nat)) = true := by
  have same : ∀ {actual expected : Json} {name context : String} {done : Unit},
      conserved actual expected name context = .ok done → actual.equal expected = true :=
    fun checked => Bool.eq_true_of_not_eq_false (throwIf_eq_ok.mp checked)
  have each : ∀ record ∈ deliveries.map Delivery.shown, IsOf "request" record :=
    List.forall_mem_map.mpr fun delivery _ => delivery.isOf_shown
  obtain ⟨completed, result, decorated, accepted⟩ := received
  rw [mapM_decorate covers distinct traced isOf] at decorated
  obtain rfl := Except.ok.inj decorated
  rw [validateNativeRecords_stream traced each isOf] at accepted
  unfold checkStream at accepted
  obtain ⟨seen, -, accepted⟩ := except_bind_eq_ok.mp accepted
  obtain ⟨_, -, accepted⟩ := except_bind_eq_ok.mp accepted
  obtain ⟨_, -, accepted⟩ := except_bind_eq_ok.mp accepted
  obtain ⟨_, totals, -⟩ := except_bind_eq_ok.mp accepted
  unfold checkRequestTotals at totals
  simp only [except_bind_eq_ok, forM_eq_ok, List.forall_mem_cons] at totals
  obtain ⟨_, -, _, -, _, -, _, -, _, -, _, -, _, -, _, ⟨prompts, -, generated, -⟩, -⟩ := totals
  rw [total_shown fun delivery _ => delivery.shows.original] at prompts
  rw [total_shown fun delivery _ => delivery.shows.generated] at generated
  exact ⟨same prompts, same generated⟩

/-- A sum that the writer prints as it is has not wrapped around. -/
theorem fits_of_equal {values : List Nat} {sum : Nat}
    (same : (Json.int (Runner.sum64 values)).equal (.int sum) = true) : sum ≤ uint64Max := by
  have bound : Runner.sum64 values ≤ uint64Max := by
    refine List.foldlRecOn (motive := (· ≤ uint64Max)) values _ (Nat.zero_le _)
      fun total _ value _ => ?_
    exact Nat.le_of_lt_succ (Nat.mod_lt _ (by decide))
  rw [equal_int_iff, Nat.cast_inj] at same
  exact same ▸ bound

theorem generated_le {delivery : Delivery divide} (member : delivery ∈ deliveries)
    (bound : (deliveries.map fun delivery => delivery.entry.request.generatedTokenCount).sum ≤
      uint64Max) : delivery.entry.request.generatedTokenCount ≤ uint64Max :=
  (List.single_le_sum (fun _ _ => Nat.zero_le _) _ (List.mem_map_of_mem
    (f := fun delivery : Delivery divide => delivery.entry.request.generatedTokenCount)
    member)).trans bound

/-- One rounding of a quotient finds the same mean time between the tokens of a delivery. -/
theorem RoundsQuotients.dividesAlike (rounds : RoundsQuotients divide) {delivery : Delivery divide}
    (early : ∀ finishUs, delivery.entry.request.finishTimeUs = some finishUs → finishUs ≤ int64Max)
    (few : delivery.entry.request.generatedTokenCount ≤ uint64Max) :
    DividesAlike divide divide delivery.entry.request := by
  refine @Delivery.dividesAlike divide divide (2 ^ 64) delivery (fun count total low high positive
    fits => ?_) (fun finishUs finish => ?_) ?_
  · obtain ⟨value, finite, -⟩ := rounds.finite low high positive fits
    exact ⟨value, finite, finite⟩
  · have bound := early finishUs finish
    unfold int64Max at bound
    omega
  · unfold uint64Max at few
    omega

end Stream

/-! ## The continuous engine -/

section Continuous

variable {divide : Int → Int → FloatNumeral} {batching : ContinuousBatchingConfig}
  {workload native : List Record} {result : RunResult} {engine : ContinuousBatchingEngine}
  {deliveries : List (Delivery divide)} {config : NativeConfig}

theorem isOf_continuousSummary {promptTokens generatedTokens submitted : Nat} :
    IsOf "summary" (Runner.continuousSummary divide engine result promptTokens generatedTokens
      submitted) := by
  constructor <;>
    simp [Runner.continuousSummary, Runner.get_named, List.lookup_cons, Runner.string]

namespace Ran

theorem dividesAlike (ran : Ran divide batching workload native result engine deliveries)
    (rounds : RoundsQuotients divide) :
    ∀ delivery ∈ deliveries, DividesAlike divide divide delivery.entry.request := by
  intro delivery member
  obtain ⟨requests, accounted⟩ := ran.accounted
  obtain ⟨generated, bound⟩ := ran.generated_eq
  have clock := accounted.carries.bounded.clock
  refine rounds.dividesAlike (fun finishUs finish => ?_)
    (generated_le member (generated.trans_le bound))
  obtain ⟨finished, -⟩ := delivery.sound.reported.finish finish
  exact (ran.finish_le member finish).trans clock

/-- The records of a continuous run are received if and only if the prompt tokens of the workload
fit their counter. -/
theorem received_iff (ran : Ran divide batching workload native result engine deliveries)
    (rounds : RoundsQuotients divide) (configured : Configured config batching)
    (distinct : (workload.map fun source => source.str "request_id").Nodup) :
    Received divide config workload native ↔
      (workload.map fun source => source.int "prompt_token_count").sum ≤ uint64Max := by
  obtain ⟨requests, accounted⟩ := ran.accounted
  obtain ⟨generated, bound⟩ := ran.generated_eq
  rw [← ran.config] at configured
  have traced : ∀ record ∈ iterationsOf divide engine, IsOf "iteration" record :=
    List.forall_mem_map.mpr fun entry _ => isOf_iteration
  rw [← ran.covers.sum_eq fun delivery => delivery.sound.counts, Nat.cast_le, ran.lines]
  constructor
  · intro received
    obtain ⟨prompts, -⟩ :=
      conserved_of_received ran.covers distinct traced isOf_continuousSummary received
    rw [(showsContinuous accounted.recorded.shown.nonneg).prompts] at prompts
    exact fits_of_equal prompts
  · intro prompts
    have listed : ∀ id request, engine.requests.find? id = some request →
        (id : Int) ∈ (deliveries.map Delivery.entry).map RequestEntry.number := by
      intro id request found
      obtain ⟨delivery, member, number, -⟩ := ran.all id request found
      refine List.mem_map.mpr ⟨delivery.entry, List.mem_map_of_mem member, ?_⟩
      rw [RequestEntry.number, delivery.numbered, number]
    rw [sum64_eq prompts, sum64_eq (generated.trans_le bound)]
    have shows := @showsContinuous divide engine result
      (deliveries.map fun delivery => delivery.entry.request.promptLength).sum
      (deliveries.map fun delivery => delivery.entry.request.generatedTokenCount).sum
      deliveries.length accounted.recorded.shown.nonneg
    obtain ⟨_, accepted, -⟩ := (passes_validateNativeRecords (ran.dividesAlike rounds) ran.covers
      distinct isOf_continuousSummary traced (passes_iterations rounds configured accounted listed)
      (fun _ => passes_continuousFields rounds configured accounted shows)
      (fun _ => passes_continuousTotals rounds ran shows)
      fun _ => passes_continuousMode rounds configured ran shows).exists_ok
    exact ⟨_, _, mapM_decorate ran.covers distinct traced isOf_continuousSummary, accepted⟩

end Ran

end Continuous

/-! ## The single-active engine -/

section Fcfs

variable {divide : Int → Int → FloatNumeral} {backend : SimulatedBackend}
  {workload native : List Record} {inputs : List Runner.InputRequest}
  {deliveries : List (Delivery divide)} {config : NativeConfig} {nowUs : Int}

/-- The clock of a run over representable arrivals. -/
theorem fcfsEngine_clock (carried : Carried workload inputs)
    (representable : ∀ source ∈ workload, source.Representable) :
    (Runner.fcfsEngine backend inputs).nowUs ≤ int64Max := by
  refine (SimulationEngine.runs_timed backend.toBackend
    (List.forall_mem_map.mpr fun input member => ?_)).now
  obtain ⟨entry, listed, transported⟩ := exists_mem_of_forall₂ carried.transported member
  have bounds := representable _ (mem_sortBy.mp (List.fst_mem_of_mem_zipIdx listed))
  exact transported.arrival.trans_le bounds.arrival

/-- The records of a single-active run are received if and only if the prompt tokens and the new
tokens of the workload fit their counters. -/
theorem received_runFcfs_iff (carried : Carried workload inputs)
    (representable : ∀ source ∈ workload, source.Representable) (rounds : RoundsQuotients divide)
    (mode : config.executionMode = text "single_active_fcfs")
    (run : Runner.runFcfs divide backend inputs = .ok native) :
    Received divide config workload native ↔
      (workload.map fun source => source.int "prompt_token_count").sum ≤ uint64Max ∧
      (workload.map fun source => source.int "max_new_tokens").sum ≤ uint64Max := by
  obtain ⟨deliveries, covers, served, lines, bound, reached⟩ := runFcfs_deliveries carried run
  have ends : EndsAt deliveries (Runner.fcfsEngine backend inputs).nowUs := ⟨bound, reached⟩
  have finished : (deliveries.map fun delivery => delivery.entry.request.maxNewTokens) =
      deliveries.map fun delivery => delivery.entry.request.generatedTokenCount :=
    List.map_congr_left fun delivery member => (served delivery member).generated.symm
  rw [← covers.sum_eq fun delivery => delivery.sound.counts,
    ← covers.sum_eq fun delivery => delivery.maxNewTokens, finished, Nat.cast_le, Nat.cast_le,
    lines]
  constructor
  · intro received
    rw [← List.nil_append (deliveries.map Delivery.record)] at received
    obtain ⟨prompts, generated⟩ := conserved_of_received covers carried.distinct
      (List.forall_mem_nil _) isOf_fcfsSummary received
    have shows := @showsSummary (Runner.fcfsEngine backend inputs).nowUs
      (Runner.sum64 (deliveries.map fun delivery => delivery.entry.request.promptLength))
      (Runner.sum64 (deliveries.map fun delivery => delivery.entry.request.generatedTokenCount))
      deliveries.length ends.nonneg
    rw [shows.prompts _ (List.mem_cons_self ..)] at prompts
    rw [shows.generated _ (List.mem_cons_self ..)] at generated
    exact ⟨fits_of_equal prompts, fits_of_equal generated⟩
  · rintro ⟨prompts, generated⟩
    rw [sum64_eq prompts, sum64_eq generated]
    have clock := @fcfsEngine_clock backend _ _ carried representable
    have alike : ∀ delivery ∈ deliveries, DividesAlike divide divide delivery.entry.request :=
      fun delivery member => rounds.dividesAlike (fun finishUs finish =>
        (ends.bound delivery member finishUs finish).trans clock) (generated_le member generated)
    obtain ⟨_, accepted, -⟩ := (passes_fcfsRecords alike covers carried.distinct ends served
      isOf_fcfsSummary (showsSummary ends.nonneg) mode).exists_ok
    have completed := mapM_decorate covers carried.distinct (List.forall_mem_nil _)
      (@isOf_fcfsSummary (Runner.fcfsEngine backend inputs).nowUs
        (deliveries.map fun delivery => delivery.entry.request.promptLength).sum
        (deliveries.map fun delivery => delivery.entry.request.generatedTokenCount).sum
        deliveries.length)
    rw [List.nil_append, List.nil_append] at completed
    exact ⟨_, _, completed, accepted⟩

end Fcfs

/-! ## The program -/

namespace Runner

variable {config : ServingConfig} {batching : ContinuousBatchingConfig}

theorem policyOf_name {name : Text} {policy : SchedulingPolicy} (found : policyOf name = .ok policy) :
    name = text policy.name := by
  unfold policyOf at found
  split at found
  · next same => cases found; exact same
  · split at found
    · next same => cases found; exact same
    · cases found

theorem argument_uint64 {value parsed : Int} {name : String}
    (read : argument uint64 value name = .ok parsed) : (parsed.toNat : Int) = value := by
  obtain ⟨⟨low, -⟩, rfl⟩ := parseInteger_toString_eq_ok.mp read
  exact Int.toNat_of_nonneg low

/-- The validator knows the configuration that the runner makes of its arguments. -/
theorem configured_of_batchingConfig (mode : config.executionMode = text "continuous_batching")
    (made : batchingConfig config = .ok batching) : Configured config.toNativeConfig batching := by
  unfold batchingConfig at made
  simp only [except_bind_eq_ok] at made
  obtain ⟨policy, named, sequences, -, tokens, -, blocks, total, size, block, cache, created,
    made⟩ := made
  unfold KVCacheConfig.create at created
  unfold ContinuousBatchingConfig.create at made
  split_ifs at created
  split_ifs at made
  obtain rfl := Except.ok.inj created
  obtain rfl := Except.ok.inj made
  exact ⟨mode, policyOf_name named, (argument_uint64 total).symm, (argument_uint64 block).symm⟩

end Runner

/-- The native process reads the file that `write_tsv` makes of a workload, writes the records and
exits with 0. -/
def NativeRun (divide : Int → Int → FloatNumeral) (config : ServingConfig)
    (workload native : List Record) : Prop :=
  ∃ contents inputs, writeTsv workload = .ok contents ∧ Runner.readWorkload contents = .ok inputs ∧
    Runner.mainImpl divide config inputs = .ok native

/-- The counters that the writer adds up without a check hold their sums. -/
def SumsFit (config : ServingConfig) (workload : List Record) : Prop :=
  (workload.map fun source => source.int "prompt_token_count").sum ≤ uint64Max ∧
    (config.executionMode = text "single_active_fcfs" →
      (workload.map fun source => source.int "max_new_tokens").sum ≤ uint64Max)

section Program

variable {divide : Int → Int → FloatNumeral} {config : ServingConfig}
  {workload native : List Record}

/-- The records of a run over accepted records of distinct ids are received if and only if the sums
fit. -/
theorem NativeRun.received_iff (ran : NativeRun divide config workload native)
    (rounds : RoundsQuotients divide) (accepted : ∀ source ∈ workload, source.Accepted)
    (distinct : (workload.map fun source => source.str "request_id").Nodup) :
    Received divide config.toNativeConfig workload native ↔ SumsFit config workload := by
  obtain ⟨contents, inputs, written, taken, run⟩ := ran
  obtain ⟨representable, transported⟩ :=
    transported_of_readWorkload accepted distinct written taken
  have carried : Carried workload inputs := ⟨accepted, distinct, transported⟩
  unfold Runner.mainImpl at run
  obtain ⟨backend, -, run⟩ := except_bind_eq_ok.mp run
  split at run
  · next mode =>
    obtain ⟨batching, made, run⟩ := except_bind_eq_ok.mp run
    obtain ⟨result, engine, deliveries, ran⟩ := runContinuous_ran carried representable run
    rw [ran.received_iff rounds (Runner.configured_of_batchingConfig mode made) distinct, SumsFit,
      mode]
    exact (and_iff_left fun other => absurd other (by decide)).symm
  · split at run
    · next mode =>
      rw [received_runFcfs_iff carried representable rounds mode run, SumsFit,
        forall_prop_of_true mode]
    · cases run

/-- For every workload that `read_workload` accepts, in both execution modes and also when the run
ends stalled: the records that the native runner writes pass the checks of `validate_native_records`
if and only if the sums fit that the runner adds up in a `uint64_t` without a check. -/
theorem received_iff_sumsFit {loads : Text → Except String Json} {bytes : Bytes}
    (rounds : RoundsQuotients divide) (read : readWorkload loads bytes = .ok workload)
    (ran : NativeRun divide config workload native) :
    Received divide config.toNativeConfig workload native ↔ SumsFit config workload := by
  obtain ⟨accepted, distinct⟩ := accepted_of_readWorkload read
  exact ran.received_iff rounds accepted distinct

end Program

/-! ## Samples -/

theorem roundsQuotients_exactDivide : RoundsQuotients exactDivide :=
  ⟨id, monotone_id, rfl, rfl, fun _ _ _ _ _ _ => rfl⟩

/-- A request whose prompt is only counted, and that asks for no token. -/
def countedRecord (requestId : String) (promptTokenCount : Int) : Record :=
  [(text "arrival_time_us", .int 0), (text "max_new_tokens", .int 0),
    (text "prompt_token_count", .int promptTokenCount), (text "request_id", .str (text requestId)),
    (text "schema_version", .str (text workloadSchemaVersion)),
    (text "workload_class", .str (text "chat"))]

/-- Four requests of one prompt length. -/
def countedWorkload (promptTokenCount : Int) : List Record :=
  [countedRecord "a" promptTokenCount, countedRecord "b" promptTokenCount,
    countedRecord "c" promptTokenCount, countedRecord "d" promptTokenCount]

/-- A single block, and no cost. -/
def countedConfig (executionMode schedulingPolicy : String) : ServingConfig where
  executionMode := text executionMode
  schedulingPolicy := text schedulingPolicy
  totalBlocks := 1
  blockSizeTokens := 1
  maxNumSequences := 2
  maxBatchedTokens := 2 ^ 62
  prefixCache := {}
  backend := {}

def continuousSample : ServingConfig := countedConfig "continuous_batching" "DecodeFirst"

def fcfsSample : ServingConfig := countedConfig "single_active_fcfs" "FCFS"

theorem eq_ok_of_isOk {ε α : Type} {result : Except ε α} (fine : result.isOk = true) :
    ∃ value, result = .ok value := by
  cases result with
  | error error => cases fine
  | ok value => exact ⟨value, rfl⟩

/-- A run that is computed to succeed writes records. -/
theorem exists_nativeRun {config : ServingConfig} {workload : List Record}
    (runs : ((writeTsv workload).toOption.any fun contents =>
      (Runner.readWorkload contents).toOption.any fun inputs =>
        (Runner.mainImpl exactDivide config inputs).isOk) = true) :
    ∃ native, NativeRun exactDivide config workload native := by
  cases written : writeTsv workload with
  | error error =>
      rw [written] at runs
      cases runs
  | ok contents =>
      rw [written] at runs
      cases taken : Runner.readWorkload contents with
      | error error =>
          rw [Except.toOption, Option.any_some, taken] at runs
          cases runs
      | ok inputs =>
          rw [Except.toOption, Option.any_some, taken, Except.toOption, Option.any_some] at runs
          obtain ⟨native, ran⟩ := eq_ok_of_isOk runs
          exact ⟨native, contents, inputs, written, taken, ran⟩

/-- The workload is written, and read back as it is. -/
theorem exists_read_counted {count : Int}
    (valid : ∀ source ∈ countedWorkload count, (validateWorkloadRecord (.obj source) 1).isOk = true)
    (written : (writeWorkload (countedWorkload count) false false).isOk = true)
    (apart : ((countedWorkload count).map Record.line).Nodup)
    (oneLine : ∀ source ∈ countedWorkload count,
      source.line.all (fun c => !isLineBoundary c) = true) :
    ∃ contents, writeWorkload (countedWorkload count) false false = .ok contents ∧
      readWorkload (loadsAmong (countedWorkload count)) contents = .ok (countedWorkload count) := by
  have names : (countedWorkload count).map (fun source => source.str "request_id") =
      [text "a", text "b", text "c", text "d"] := rfl
  obtain ⟨contents, written⟩ := eq_ok_of_isOk written
  refine ⟨contents, written, readWorkload_of_oneLine (fun source member => ?_)
    (names ▸ by decide +kernel) (inverts_loadsAmong apart) written
    fun source member => oneLine_iff_all.mpr (oneLine source member)⟩
  obtain ⟨record, valid⟩ := eq_ok_of_isOk (valid source member)
  obtain ⟨same, accepted⟩ := validateWorkloadRecord_eq_ok.mp valid
  cases same
  exact accepted

/-- In both modes, the records of four requests with prompts of one token are received. -/
theorem received_iff_sumsFit_counted : ∃ contents,
    writeWorkload (countedWorkload 1) false false = .ok contents ∧
    readWorkload (loadsAmong (countedWorkload 1)) contents = .ok (countedWorkload 1) ∧
    (∃ native, NativeRun exactDivide continuousSample (countedWorkload 1) native ∧
      Received exactDivide continuousSample.toNativeConfig (countedWorkload 1) native) ∧
    ∃ native, NativeRun exactDivide fcfsSample (countedWorkload 1) native ∧
      Received exactDivide fcfsSample.toNativeConfig (countedWorkload 1) native := by
  obtain ⟨contents, written, read⟩ := @exists_read_counted 1 (by decide +kernel) (by decide +kernel)
    (by decide +kernel) (by decide +kernel)
  obtain ⟨continuous, batched⟩ :=
    @exists_nativeRun continuousSample (countedWorkload 1) (by decide +kernel)
  obtain ⟨single, served⟩ := @exists_nativeRun fcfsSample (countedWorkload 1) (by decide +kernel)
  have fits : ∀ config, SumsFit config (countedWorkload 1) := fun config =>
    ⟨by decide +kernel, fun _ => by decide +kernel⟩
  exact ⟨contents, written, read,
    ⟨_, batched, (received_iff_sumsFit roundsQuotients_exactDivide read batched).mpr (fits _)⟩,
    _, served, (received_iff_sumsFit roundsQuotients_exactDivide read served).mpr (fits _)⟩

/-- In both modes, the records of four requests with prompts of 2^62 tokens are not received: the
sum of the prompts wraps around. -/
theorem not_received_counted : ∃ contents,
    writeWorkload (countedWorkload (2 ^ 62)) false false = .ok contents ∧
    readWorkload (loadsAmong (countedWorkload (2 ^ 62))) contents = .ok (countedWorkload (2 ^ 62)) ∧
    (∃ native, NativeRun exactDivide continuousSample (countedWorkload (2 ^ 62)) native ∧
      ¬ Received exactDivide continuousSample.toNativeConfig (countedWorkload (2 ^ 62)) native) ∧
    ∃ native, NativeRun exactDivide fcfsSample (countedWorkload (2 ^ 62)) native ∧
      ¬ Received exactDivide fcfsSample.toNativeConfig (countedWorkload (2 ^ 62)) native := by
  obtain ⟨contents, written, read⟩ := @exists_read_counted (2 ^ 62) (by decide +kernel)
    (by decide +kernel) (by decide +kernel) (by decide +kernel)
  obtain ⟨continuous, batched⟩ :=
    @exists_nativeRun continuousSample (countedWorkload (2 ^ 62)) (by decide +kernel)
  obtain ⟨single, served⟩ :=
    @exists_nativeRun fcfsSample (countedWorkload (2 ^ 62)) (by decide +kernel)
  obtain ⟨accepted, distinct⟩ := accepted_of_readWorkload read
  have wraps : ¬ ((countedWorkload (2 ^ 62)).map fun source =>
      source.int "prompt_token_count").sum ≤ uint64Max := by
    decide +kernel
  refine ⟨contents, written, read, ⟨_, batched, fun received => ?_⟩, _, served, fun received => ?_⟩
  · exact wraps ((batched.received_iff roundsQuotients_exactDivide accepted distinct).mp received).1
  · exact wraps ((served.received_iff roundsQuotients_exactDivide accepted distinct).mp received).1

end LlmLab.Benchmarks
