import LlmLab.Benchmarks.ServingRunner.ContinuousTotals

/-!
# The summary of a continuous run

The summary that `run_continuous` writes passes the checks of `validate_native_records` on its
fields, on what it says of the requests and on what it says of the iterations.
-/

namespace LlmLab.Benchmarks

open LlmLab.Serving

/-! ## The fields of the summary -/

/-- What the summary of a continuous run shows. -/
structure ShowsContinuous (divide : Int → Int → FloatNumeral) (engine : ContinuousBatchingEngine)
    (result : RunResult) (promptTokens generatedTokens submitted : Nat) (summary : Record) :
    Prop where
  keys : ∀ key, key ∈ summary.map Prod.fst ↔ key ∈ summaryRecordFields
  counts : ∀ name ∈ requiredInts ++ nullableInts, IsCount (summary.get name)
  mode : summary.get "execution_mode" = .str (text "continuous_batching")
  policy : summary.get "scheduling_policy" = .str (text engine.config.schedulingPolicy.name)
  status : summary.get "run_status" =
    .str (text (if result = .completed then "completed" else "stalled"))
  submitted : summary.get "submitted" = .int submitted
  completed : summary.get "completed" = .int engine.statistics.completedRequestCount
  cancelled : summary.get "cancelled" = .int engine.statistics.cancelledRequestCount
  rejected : summary.get "rejected" = .int 0
  stalled : summary.get "stalled" = .int engine.statistics.stalledIterationCount
  makespan : summary.get "makespan_us" = .int engine.nowUs
  iterations : summary.get "scheduling_iterations" =
    .int engine.statistics.schedulingIterationCount
  nonempty : summary.get "nonempty_batches" = .int engine.statistics.nonemptyBatchCount
  idle : summary.get "idle_iterations" = .int engine.statistics.idleIterationCount
  sequences : summary.get "total_scheduled_sequences" =
    .int engine.statistics.totalScheduledSequences
  mostTokens : summary.get "max_scheduled_tokens" = .int engine.statistics.maximumScheduledTokens
  largestBatch : summary.get "max_batch_size" = .int engine.statistics.maximumBatchSize
  averageBatch : summary.get "average_batch_size" =
    if engine.statistics.nonemptyBatchCount = 0 then .null
    else Runner.double (divide engine.statistics.totalScheduledSequences
      engine.statistics.nonemptyBatchCount)
  deferred : summary.get "deferred_requests" = .int engine.statistics.deferredRequestCount
  kvDeferrals : summary.get "kv_capacity_deferrals" =
    .int engine.statistics.kvCapacityDeferralCount
  hits : summary.get "prefix_lookup_hits" = .int engine.statistics.cacheHitLookupCount
  misses : summary.get "prefix_lookup_misses" = .int engine.statistics.cacheMissLookupCount
  lookups : summary.get "prefix_lookups" = .int engine.statistics.cacheLookupCount
  eligible : summary.get "cache_eligible_prompt_tokens" =
    .int engine.statistics.totalCacheEligiblePromptTokensLookedUp
  hitRate : summary.get "prefix_token_hit_rate" =
    if engine.statistics.totalCacheEligiblePromptTokensLookedUp = 0 then .null
    else Runner.double (divide engine.statistics.totalMatchedPrefixTokens
      engine.statistics.totalCacheEligiblePromptTokensLookedUp)
  matched : summary.get "matched_prefix_tokens" = .int engine.statistics.totalMatchedPrefixTokens
  saved : summary.get "saved_simulated_prefill_tokens" =
    .int engine.statistics.savedSimulatedPrefillTokens
  prefillTokens : summary.get "scheduled_prefill_tokens" =
    .int engine.statistics.totalPrefillTokensScheduled
  decodeTokens : summary.get "scheduled_decode_tokens" =
    .int engine.statistics.totalDecodeTokensScheduled
  prompts : summary.get "submitted_prompt_tokens" = .int promptTokens
  generated : summary.get "generated_tokens" = .int generatedTokens
  evictions : summary.get "eviction_count" = .int engine.statistics.prefixCacheEvictionCount
  allocated : summary.get "current_allocated_blocks" =
    .int engine.statistics.currentAllocatedKvBlocks
  free : summary.get "current_free_blocks" = .int engine.kvCache.freeBlocks.size
  peak : summary.get "peak_allocated_blocks" = .int engine.statistics.peakAllocatedKvBlocks
  utilization : summary.get "kv_current_utilization" = Runner.double
    (divide engine.statistics.currentAllocatedKvBlocks engine.config.kvCacheConfig.totalNumBlocks)
  peakUtilization : summary.get "kv_peak_utilization" = Runner.double
    (divide engine.statistics.peakAllocatedKvBlocks engine.config.kvCacheConfig.totalNumBlocks)
  represented : summary.get "represented_kv_tokens" = .int engine.statistics.representedKvTokens
  fragmentation : summary.get "internal_fragmentation_tokens" =
    .int engine.statistics.internalFragmentationTokens
  cached : summary.get "cached_blocks" = .int engine.statistics.cachedKvBlocks
  shared : summary.get "shared_referenced_blocks" =
    .int engine.statistics.referencedSharedKvBlocks

/-- What stands in the summary that `run_continuous` writes. -/
theorem showsContinuous {divide : Int → Int → FloatNumeral} {engine : ContinuousBatchingEngine}
    {result : RunResult} {promptTokens generatedTokens submitted : Nat} (nonneg : 0 ≤ engine.nowUs) :
    ShowsContinuous divide engine result promptTokens generatedTokens submitted
      (Runner.continuousSummary divide engine result promptTokens generatedTokens submitted) := by
  constructor
  case keys =>
    intro key
    rw [Runner.continuousSummary, Runner.mem_keys_named]
    refine mem_map_text ?_ ?_ <;> simp only [List.map_cons, List.map_nil] <;> decide +kernel
  case counts =>
    have zero : IsCount (.int 0) := ⟨0, rfl, le_rfl⟩
    have clock : IsCount (.int engine.nowUs) := ⟨_, rfl, nonneg⟩
    have count : ∀ number, IsCount (Runner.number number) :=
      fun number => ⟨number, rfl, Int.natCast_nonneg number⟩
    simp only [requiredInts, nullableInts, Runner.continuousSummary, Runner.get_named,
      List.forall_mem_cons, List.cons_append, List.nil_append]
    simp [List.lookup_cons, count, zero, clock]
  all_goals
    simp [Runner.continuousSummary, Runner.get_named, List.lookup_cons, Runner.number,
      Runner.string]

/-! ## The checks of the fields -/

section Fields

open ContinuousBatchingEngine (Accounted)

variable {divide : Int → Int → FloatNumeral} {batching : ContinuousBatchingConfig}
  {workload native : List Record} {result : RunResult} {engine : ContinuousBatchingEngine}
  {requests : List Request} {promptTokens generatedTokens submitted : Nat} {summary : Record}
  {config : NativeConfig} {context : String}

theorem oneOf_continuous : oneOf (.str (text "continuous_batching")) ["continuous_batching"] = true ∧
    oneOf (.str (text "continuous_batching")) ["single_active_fcfs"] = false := by
  rw [← Bool.not_eq_true, oneOf_text, oneOf_text]
  decide

theorem oneOf_policy (policy : SchedulingPolicy) :
    oneOf (.str (text policy.name)) ["DecodeFirst", "FcfsMixed"] = true := by
  rw [oneOf_text]
  cases policy <;> decide

/-- The average batch is null or a number that is not negative. -/
theorem average_finite (rounds : RoundsQuotients divide) (accounted : engine.Accounted requests)
    (some' : engine.statistics.nonemptyBatchCount ≠ 0) :
    ∃ value, (divide engine.statistics.totalScheduledSequences
      engine.statistics.nonemptyBatchCount).value = some value ∧ 0 ≤ value := by
  have batches := accounted.batches_le
  have bounded := accounted.carries.bounded.sequences
  unfold uint64Max at bounded
  exact rounds.finite (by omega) (by omega) (by omega) (by omega)

/-- The hit rate is null or in the unit interval. -/
theorem hitRate_unit (rounds : RoundsQuotients divide) (accounted : engine.Accounted requests)
    (some' : engine.statistics.totalCacheEligiblePromptTokensLookedUp ≠ 0) :
    ∃ value, (divide engine.statistics.totalMatchedPrefixTokens
      engine.statistics.totalCacheEligiblePromptTokensLookedUp).value = some value ∧
        0 ≤ value ∧ value ≤ 1 := by
  obtain ⟨matched, bounded⟩ := accounted.eligible_le
  unfold uint64Max at bounded
  exact rounds.unit (by omega) (by omega) (by omega) (by omega)

/-- A part of the blocks has a utilization in the unit interval. -/
theorem utilization_unit (rounds : RoundsQuotients divide) {blocks : Nat}
    (part : blocks ≤ batching.kvCacheConfig.totalNumBlocks) :
    ∃ value, (divide blocks batching.kvCacheConfig.totalNumBlocks).value = some value ∧
      0 ≤ value ∧ value ≤ 1 := by
  obtain ⟨positive, fits⟩ := kvBlocks_range batching
  exact rounds.unit (by omega) (by omega) positive fits

/-- The fields of the summary are of their types. -/
theorem passes_continuousFields (rounds : RoundsQuotients divide)
    (configured : Configured config engine.config) (accounted : engine.Accounted requests)
    (shows : ShowsContinuous divide engine result promptTokens generatedTokens submitted summary) :
    Passes (fun _ => True) (checkSummaryFields (some config) summary context) := by
  obtain ⟨allocated, peak⟩ := accounted.peak_le
  obtain ⟨continuous, other⟩ := oneOf_continuous
  unfold checkSummaryFields checkContinuousPolicy checkConfiguredMode
  rw [shows.mode, shows.policy, shows.status, shows.averageBatch]
  simp only [continuous, other, if_true, configured.mode, configured.policy]
  refine (passes_closedFields shows.keys).andThen ((passes_requireOneOf ?_).andThen
    ((passes_reject ?_).andThen ((passes_requireOneOf (oneOf_policy _)).andThen
    (Passes.andThen (P := fun _ => True) ?_ ((passes_requireOneOf ?_).andThen
    ((passes_forM fun name member => ?_).andThen ((passes_forM fun name member => ?_).andThen
    ((passes_reject ?_).andThen (passes_forM ?_)))))))))
  · rw [oneOf_text]
    decide
  · exact fun bad => Bool.noConfusion bad.1
  · exact (passes_conserved (Json.equal_of_same .str rfl)).andThen
      (passes_conserved (Json.equal_of_same .str rfl))
  · rw [oneOf_text]
    split <;> decide
  · obtain ⟨number, found, low⟩ := shows.counts name (List.mem_append_left _ member)
    exact (passes_fieldInt found low).andThen trivial
  · obtain ⟨number, found, low⟩ := shows.counts name (List.mem_append_right _ member)
    refine (@passes_nullableInt _ _ _ (some number) found fun other same => ?_).andThen trivial
    exact Option.some.inj same ▸ low
  · split
    · exact fun bad => Bool.noConfusion bad.1
    · next some' =>
        obtain ⟨value, finite, low⟩ := average_finite rounds accounted some'
        rw [isNumber_double, number?_double finite, Option.any_some, decide_eq_true low]
        exact fun bad => Bool.noConfusion bad.2
  · rw [List.forall_mem_cons, List.forall_mem_cons, List.forall_mem_singleton, shows.utilization,
      shows.peakUtilization, shows.hitRate]
    refine ⟨?_, ?_, ?_⟩
    · obtain ⟨value, finite, low, high⟩ := utilization_unit rounds (allocated.trans peak)
      exact passes_unitInterval finite low high
    · obtain ⟨value, finite, low, high⟩ := utilization_unit rounds peak
      exact passes_unitInterval finite low high
    · split
      · exact passes_reject fun bad => bad.2.elim Bool.noConfusion Bool.noConfusion
      · next some' =>
          obtain ⟨value, finite, low, high⟩ := hitRate_unit rounds accounted some'
          exact passes_unitInterval finite low high

end Fields

/-! ## What it says of the requests -/

section Requests

variable {divide : Int → Int → FloatNumeral} {batching : ContinuousBatchingConfig}
  {workload native : List Record} {result : RunResult} {engine : ContinuousBatchingEngine}
  {deliveries : List (Delivery divide)} {summary : Record} {context : String}

/-- The summary counts and adds up the request records. -/
theorem passes_continuousTotals (rounds : RoundsQuotients divide)
    (ran : Ran divide batching workload native result engine deliveries)
    (shows : ShowsContinuous divide engine result
      (deliveries.map fun delivery => delivery.entry.request.promptLength).sum
      (deliveries.map fun delivery => delivery.entry.request.generatedTokenCount).sum
      deliveries.length summary) :
    Passes (fun _ => True) (checkRequestTotals divide (deliveries.map Delivery.shown)
      (iterationsOf divide engine) summary context) := by
  obtain ⟨requests, accounted⟩ := ran.accounted
  obtain ⟨uncancelled, whole, partly⟩ := ran.settled
  obtain ⟨matched, scheduled⟩ := ran.prompts_eq
  have finished := accounted.conserved.completed.trans (ran.requestsIn_eq .finished)
  have cancelled := accounted.carries.uncancelled
  unfold checkRequestTotals
  rw [int_eq shows.completed, int_eq shows.cancelled, int_eq shows.rejected, int_eq shows.stalled,
    int_eq shows.hits, int_eq shows.misses, int_eq shows.eligible, int_eq shows.matched,
    show stateCount _ "Finished" = _ from stateCount_shown .finished,
    show stateCount _ "Cancelled" = _ from stateCount_shown .cancelled, ran.latestTime_eq,
    List.length_map, shows.submitted, shows.completed, shows.cancelled, shows.status,
    shows.makespan, shows.lookups, shows.hitRate, shows.saved, shows.matched]
  refine (passes_conserved_int rfl).andThen ((passes_conserved_int ?_).andThen
    ((passes_conserved_int ?_).andThen ((passes_reject (by simp)).andThen
    ((passes_reject ?_).andThen ((passes_reject ?_).andThen ((passes_conserved_int rfl).andThen
    ((passes_forM ?_).andThen ((passes_conserved_int ?_).andThen
    (Passes.andThen (P := fun _ => True) ?_ (passes_conserved_int ?_))))))))))
  · rw [finished]
  · rw [cancelled, uncancelled]
  · rintro ⟨status, wrong⟩
    cases result with
    | completed =>
        obtain ⟨none, all⟩ := whole rfl
        omega
    | stalled =>
        rw [if_neg (by decide), oneOf_text] at status
        exact absurd status (by decide)
  · rintro ⟨status, wrong⟩
    cases result with
    | completed =>
        rw [if_pos rfl, oneOf_text] at status
        exact absurd status (by decide)
    | stalled =>
        obtain ⟨some', less⟩ := partly rfl
        omega
  · simp only [List.forall_mem_cons]
    rw [total_shown fun delivery _ => delivery.shows.original,
      total_shown fun delivery _ => delivery.shows.scheduled,
      total_shown fun delivery _ => delivery.shows.generated,
      total_shown fun delivery _ => delivery.shows.matched, shows.prompts, shows.prefillTokens,
      shows.generated, shows.decodeTokens, shows.matched, matched, scheduled, ran.generated_eq.1]
    exact ⟨passes_conserved_int rfl, passes_conserved_int rfl, passes_conserved_int rfl,
      passes_conserved_int rfl, passes_conserved_int rfl, List.forall_mem_nil _⟩
  · exact_mod_cast accounted.conserved.lookups
  · by_cases unasked : engine.statistics.totalCacheEligiblePromptTokensLookedUp = 0
    · rw [if_pos unasked, if_pos (Int.natCast_eq_zero.mpr unasked)]
      exact passes_exactNumber_null
    · obtain ⟨value, finite, -, -⟩ := hitRate_unit rounds accounted unasked
      rw [if_neg unasked, if_neg (mt Int.natCast_eq_zero.mp unasked)]
      exact passes_quotient finite
  · rw [accounted.conserved.saved]

end Requests

end LlmLab.Benchmarks
