import LlmLab.Benchmarks.ServingRunner.ContinuousSummary

/-!
# The summary and the iterations

What the summary of a continuous run says of its iteration records.
-/

namespace LlmLab.Benchmarks

open LlmLab.Serving

open ContinuousBatchingEngine (Accounted EntrySound)

section Iterations

variable {divide : Int → Int → FloatNumeral} {engine : ContinuousBatchingEngine}
  {requests : List Request} {name : String} {figure : BatchTraceEntry → Nat}

/-! ## Sums over the iterations -/

theorem total_iterations (each : ∀ entry ∈ engine.planTrace, (Runner.writeIteration divide
      engine.config.kvCacheConfig.totalNumBlocks entry).get name = .int (figure entry)) :
    total (iterationsOf divide engine) name = ((engine.planTrace.map figure).sum : Nat) := by
  rw [total, List.map_map, Nat.cast_list_sum, List.map_map]
  exact congrArg List.sum (List.map_congr_left fun entry member => int_eq (each entry member))

theorem largest_iterations (each : ∀ entry ∈ engine.planTrace, (Runner.writeIteration divide
      engine.config.kvCacheConfig.totalNumBlocks entry).get name = .int (figure entry)) :
    largest (iterationsOf divide engine) name = ((engine.planTrace.map figure).foldl max 0 : Nat) := by
  have values : (iterationsOf divide engine).map (fun record => record.int name) =
      (engine.planTrace.map figure).map Nat.cast := by
    rw [List.map_map, List.map_map]
    exact List.map_congr_left fun entry member => int_eq (each entry member)
  rw [largest, values, List.foldl_map]
  exact (List.foldl_hom Nat.cast fun most value => (Nat.cast_max ..).symm)

theorem countP_iterations {test : Record → Bool} {property : BatchTraceEntry → Bool}
    (each : ∀ entry ∈ engine.planTrace, test (Runner.writeIteration divide
      engine.config.kvCacheConfig.totalNumBlocks entry) = property entry) :
    (iterationsOf divide engine).countP test = engine.planTrace.countP property := by
  rw [List.countP_map]
  exact List.countP_congr fun entry member => by rw [Function.comp_apply, each entry member]

/-- The deferrals of all iterations. -/
theorem deferrals_iterations : ((iterationsOf divide engine).flatMap
      fun item => (item.get "deferred").arr?.getD []) =
    (engine.planTrace.flatMap fun entry => entry.plan.deferredRequests).map
      Runner.deferralJson := by
  rw [List.flatMap_map, List.map_flatMap]
  refine List.flatMap_congr fun entry _ => ?_
  rw [showsIteration.deferred]
  rfl

end Iterations

/-! ## The checks -/

section Checks

variable {divide : Int → Int → FloatNumeral} {engine : ContinuousBatchingEngine}
  {requests : List Request} {result : RunResult} {promptTokens generatedTokens submitted : Nat}
  {summary : Record} {context : String}

/-- The deferrals for lack of blocks are those that say so. -/
theorem oneOf_kvCapacity (item : DeferredRequest) :
    oneOf (((Runner.deferralJson item).obj?.getD []).get "reason") ["KV capacity"] =
      decide (item.reason = .kvCapacity) := by
  have reason : Record.get ((Runner.deferralJson item).obj?.getD []) "reason" =
      .str (text item.reason.name) := by
    simp [Runner.deferralJson, Json.obj?, Runner.get_named, List.lookup_cons, Runner.string]
  rw [reason, Bool.eq_iff_iff, oneOf_text, decide_eq_true_iff]
  cases item.reason <;> decide

/-- The matched tokens of an iteration fit their counter. -/
theorem matched_iteration (accounted : engine.Accounted requests) {entry : BatchTraceEntry}
    (member : entry ∈ engine.planTrace) :
    Runner.sum64 (entry.plan.prefillWork.map (·.matchedPrefixTokenCount)) =
      (entry.plan.prefillWork.map (·.matchedPrefixTokenCount)).sum := by
  obtain ⟨matched, fits⟩ := accounted.eligible_le
  have total : engine.statistics.totalMatchedPrefixTokens = engine.summed fun plan =>
      (plan.prefillWork.map (·.matchedPrefixTokenCount)).sum := by
    rw [accounted.conserved.saved, ← accounted.balanced.copied]
    exact accounted.balanced.saved
  have part := List.single_le_sum (fun _ _ => Nat.zero_le _) _ (List.mem_map_of_mem
    (f := fun entry : BatchTraceEntry =>
      (entry.plan.prefillWork.map (·.matchedPrefixTokenCount)).sum) member)
  exact sum64_eq ((part.trans total.ge).trans (matched.trans fits))

/-- The hits and the misses of the engine are those of its iterations. -/
theorem lookups_iterations (accounted : engine.Accounted requests) :
    engine.statistics.cacheHitLookupCount =
        (engine.planTrace.map fun entry => ContinuousBatchingEngine.prefixHits
          entry.plan.prefillWork).sum ∧
      engine.statistics.cacheMissLookupCount =
        (engine.planTrace.map fun entry => ContinuousBatchingEngine.prefixMisses
          entry.plan.prefillWork).sum := by
  have looked := accounted.recorded.looked
  rw [← accounted.balanced.copied]
  refine ⟨looked.hits.trans ((Nat.zero_add _).trans ?_),
    looked.misses.trans ((Nat.zero_add _).trans ?_)⟩
  · exact List.countP_flatMap
  · exact List.countP_flatMap

/-- The summary adds up the iterations. -/
theorem passes_iterationSums (accounted : engine.Accounted requests)
    (shows : ShowsContinuous divide engine result promptTokens generatedTokens submitted summary) :
    Passes (fun _ => True) ((iterationSums (iterationsOf divide engine)).forM fun expected =>
      conserved (summary.get expected.1) (.int expected.2) expected.1 context) := by
  have conserved := accounted.conserved
  obtain ⟨hits, misses⟩ := lookups_iterations accounted
  refine passes_forM ?_
  simp only [iterationSums, List.forall_mem_cons, deferrals_iterations]
  rw [total_iterations fun _ _ => showsIteration.prefillTokens,
    total_iterations fun _ _ => showsIteration.decodeTokens,
    total_iterations fun _ _ => showsIteration.sequences,
    total_iterations fun _ _ => showsIteration.hits,
    total_iterations fun _ _ => showsIteration.misses,
    total_iterations fun _ _ => showsIteration.matched, shows.prefillTokens, shows.decodeTokens,
    shows.sequences, shows.nonempty, shows.stalled, shows.deferred, shows.kvDeferrals, shows.hits,
    shows.misses, shows.matched, shows.evictions, List.length_map]
  refine ⟨passes_conserved_int ?_, passes_conserved_int ?_, passes_conserved_int ?_,
    passes_conserved_int ?_, passes_conserved_int ?_, passes_conserved_int ?_,
    passes_conserved_int ?_, passes_conserved_int ?_, passes_conserved_int ?_,
    passes_conserved_int ?_, passes_conserved_int ?_, List.forall_mem_nil _⟩
  · exact congrArg Nat.cast conserved.prefills
  · exact congrArg Nat.cast conserved.decodes
  · exact congrArg Nat.cast conserved.sequences
  · rw [accounted.totals.nonempty, countP_iterations fun entry _ => ?_]
    rw [int_eq showsIteration.sequences]
    simp
  · rw [accounted.totals.stalled, ← List.countP_eq_length_filter,
      @countP_iterations _ _ _ (fun entry => entry.plan.deferredOnly) fun entry _ => ?_]
    rw [showsIteration.stall]
    simp [Json.bool?]
  · rw [List.length_flatMap]
    exact congrArg Nat.cast conserved.deferrals
  · rw [List.countP_map, List.countP_flatMap, conserved.kvDeferrals]
    simp only [Function.comp_def, oneOf_kvCapacity]
    rfl
  · exact congrArg Nat.cast hits
  · exact congrArg Nat.cast misses
  · rw [List.map_congr_left fun entry member => matched_iteration accounted member,
      conserved.saved, ← accounted.balanced.copied]
    exact congrArg Nat.cast accounted.balanced.saved
  · rw [conserved.evictions, ContinuousBatchingEngine.summed, Nat.cast_list_sum, List.map_map,
      List.map_map]
    refine congrArg List.sum (List.map_congr_left fun entry _ => ?_)
    rw [Function.comp_apply, Function.comp_apply,
      ints_eq (showsIteration.evicted.trans (idsJson_eq _)), List.length_map]

/-- The largest number is one of them. -/
theorem largestNumber_mem {values : List Json} (some' : values ≠ []) :
    largestNumber values ∈ values := by
  obtain ⟨value, values, rfl⟩ := List.exists_cons_of_ne_nil some'
  refine List.foldlRecOn values _ List.mem_cons_self fun best among value member => ?_
  split
  · exact List.mem_cons_of_mem _ member
  · exact among

theorem isNull_double (value : FloatNumeral) : (Runner.double value).isNull = false := by
  have number := isNumber_double value
  cases shown : Runner.double value with
  | null =>
      rw [shown] at number
      cases number
  | _ => rfl

variable {config : NativeConfig}

/-- The peaks of the summary cover those of the iterations. -/
theorem passes_checkPeaks (rounds : RoundsQuotients divide)
    (configured : Configured config engine.config) (accounted : engine.Accounted requests)
    (shows : ShowsContinuous divide engine result promptTokens generatedTokens submitted summary) :
    Passes (fun _ => True)
      (checkPeaks divide (some config) (iterationsOf divide engine) summary context) := by
  obtain ⟨positive, fits⟩ := kvBlocks_range engine.config
  obtain ⟨-, peak⟩ := accounted.peak_le
  obtain ⟨value, finite, low, -⟩ := utilization_unit rounds peak
  have utilizations : (iterationsOf divide engine).map (fun item => item.get "kv_utilization") =
      engine.planTrace.map fun entry => Runner.double
        (divide entry.allocatedKvBlocks engine.config.kvCacheConfig.totalNumBlocks) :=
    (List.map_map ..).trans (List.map_congr_left fun entry _ => showsIteration.utilization)
  unfold checkPeaks
  dsimp only
  rw [largest_iterations fun _ _ => showsIteration.allocated, int_eq shows.peak,
    shows.peakUtilization, configured.totalBlocks, utilizations]
  refine (passes_rejectShowing ?_).andThen ((passes_throwIf ?_).andThen
    ((passes_rejectShowing ?_).andThen ((passes_reject ?_).andThen (passes_quotient finite))))
  · rw [not_lt, Nat.cast_le]
    refine List.foldlRecOn (motive := (· ≤ engine.statistics.peakAllocatedKvBlocks)) _ max
      (Nat.zero_le _) fun most bound blocks member => ?_
    obtain ⟨entry, inside, rfl⟩ := List.mem_map.mp member
    exact max_le bound (accounted.conserved.peak entry inside)
  · rw [isNull_double]
    exact Bool.noConfusion
  · rw [Bool.not_eq_true]
    cases trace : engine.planTrace with
    | nil =>
        unfold Json.less
        rw [number?_double finite]
        exact decide_eq_false (not_lt.mpr low)
    | cons first rest =>
        obtain ⟨entry, inside, same⟩ :=
          List.mem_map.mp (@largestNumber_mem (List.map _ (first :: rest)) (by simp))
        rw [← trace] at inside
        rw [← same]
        exact rounds.not_less (by omega)
          (Nat.cast_le.mpr (accounted.conserved.peak entry inside)) (by omega) positive fits
  · omega

/-- A printed double equals itself. -/
theorem equal_double_self {value : FloatNumeral} {quotient : Rat}
    (finite : value.value = some quotient) :
    (Runner.double value).equal (Runner.double value) = true := by
  unfold Runner.double
  rw [finite]
  dsimp only
  split
  · exact equal_int_iff.mpr rfl
  · simp [Json.equal, finite]

/-- A printed zero equals the integer. -/
theorem equal_double_zero {value : FloatNumeral} (zero : value.value = some 0) :
    (Runner.double value).equal (.int 0) = true := by
  unfold Runner.double
  rw [zero]
  dsimp only
  split
  · exact equal_int_iff.mpr rfl
  · simp [Json.equal, zero, Json.number?]

/-- The gauges of the summary repeat those of the last iteration. -/
theorem passes_finalGauges (rounds : RoundsQuotients divide)
    (configured : Configured config engine.config) (accounted : engine.Accounted requests)
    (shows : ShowsContinuous divide engine result promptTokens generatedTokens submitted summary) :
    Passes (fun _ => True) (finalGauges.forM fun names =>
      conserved (summary.get names.1)
        (expectedGauge (some config) (iterationsOf divide engine) summary names) names.1
        context) := by
  obtain ⟨positive, fits⟩ := kvBlocks_range engine.config
  obtain ⟨allocated, peak⟩ := accounted.peak_le
  obtain ⟨whole, -⟩ := accounted.capacity
  obtain ⟨value, finite, -, -⟩ := utilization_unit rounds (allocated.trans peak)
  refine passes_forM ?_
  simp only [finalGauges, List.forall_mem_cons]
  rw [shows.allocated, shows.free, shows.utilization, shows.represented, shows.fragmentation,
    shows.cached, shows.shared]
  unfold expectedGauge
  rw [List.getLast?_map]
  cases last : engine.planTrace.getLast? with
  | none =>
      obtain ⟨unused, unrepresented, unfragmented, uncached, unshared⟩ :=
        accounted.untouched (List.getLast?_eq_none_iff.mp last)
      have free : engine.kvCache.freeBlocks.size = engine.config.kvCacheConfig.totalNumBlocks := by
        omega
      have zero := rounds.zero positive fits
      dsimp only [Option.map_none]
      rw [unused, unrepresented, unfragmented, uncached, unshared, free, configured.totalBlocks]
      exact ⟨passes_conserved_int rfl, passes_conserved_int rfl,
        passes_conserved (equal_double_zero zero), passes_conserved_int rfl,
        passes_conserved_int rfl, passes_conserved_int rfl, passes_conserved_int rfl,
        List.forall_mem_nil _⟩
  | some entry =>
      obtain ⟨used, free, represented, fragmented, cached, shared⟩ := accounted.last last
      dsimp only [Option.map_some]
      rw [showsIteration.allocated, showsIteration.free, showsIteration.utilization,
        showsIteration.represented, showsIteration.fragmentation, showsIteration.cached,
        showsIteration.shared, ← used, ← free, ← represented, ← fragmented, ← cached, ← shared]
      exact ⟨passes_conserved_int rfl, passes_conserved_int rfl,
        passes_conserved (equal_double_self finite), passes_conserved_int rfl,
        passes_conserved_int rfl, passes_conserved_int rfl, passes_conserved_int rfl,
        List.forall_mem_nil _⟩

/-- The final block counts add up to the configured capacity. -/
theorem passes_checkSummaryCapacity (rounds : RoundsQuotients divide)
    (configured : Configured config engine.config) (accounted : engine.Accounted requests)
    (shows : ShowsContinuous divide engine result promptTokens generatedTokens submitted summary) :
    Passes (fun _ => True) (checkSummaryCapacity divide (some config) summary context) := by
  obtain ⟨allocated, peak⟩ := accounted.peak_le
  obtain ⟨whole, slots, -⟩ := accounted.capacity
  obtain ⟨value, finite, -, -⟩ := utilization_unit rounds (allocated.trans peak)
  have slots' : (engine.statistics.representedKvTokens : Int) +
      engine.statistics.internalFragmentationTokens =
      engine.statistics.currentAllocatedKvBlocks * engine.config.kvCacheConfig.blockSizeTokens := by
    exact_mod_cast slots
  unfold checkSummaryCapacity
  dsimp only
  rw [int_eq shows.allocated, int_eq shows.free, int_eq shows.represented, shows.utilization,
    shows.fragmentation, configured.totalBlocks, configured.blockSizeTokens]
  exact (passes_conserved_int (by omega)).andThen ((passes_quotient finite).andThen
    (passes_conserved_int (by omega)))

end Checks

/-! ## The appearances of a request -/

section Appearances

variable {divide : Int → Int → FloatNumeral} {engine : ContinuousBatchingEngine} {id : RequestId}
  {requests : List Request} {delivery : Delivery divide} {context : String}

/-- The iterations whose record lists a request. -/
theorem filter_iterations {name : String} {ids : BatchTraceEntry → List RequestId}
    (shown : ∀ entry ∈ engine.planTrace, (Runner.writeIteration divide
      engine.config.kvCacheConfig.totalNumBlocks entry).get name = Runner.idsJson (ids entry)) :
    ((iterationsOf divide engine).filter fun item => (item.ints name).contains (id : Int)) =
      (engine.planTrace.filter fun entry => id ∈ ids entry).map
        (Runner.writeIteration divide engine.config.kvCacheConfig.totalNumBlocks) := by
  rw [List.filter_map]
  refine congrArg _ (List.filter_congr fun entry member => ?_)
  rw [Function.comp_apply, ints_eq ((shown entry member).trans (idsJson_eq _)), Bool.eq_iff_iff,
    List.contains_iff_mem, decide_eq_true_iff, List.mem_map_of_injective Nat.cast_injective]

/-- A delivered request appears in the iterations as its record says. -/
theorem passes_checkAppearances (accounted : engine.Accounted requests)
    (traced : delivery.Traced engine) :
    Passes (fun _ => True) (checkAppearances (iterationsOf divide engine) context
      delivery.shown) := by
  have told := accounted.timeline.told _ _ traced.found
  have subject : delivery.shown.int "internal_id" = delivery.number := by
    rw [int_eq delivery.shows.internalId, delivery.numbered]
  have decodes : ((iterationsOf divide engine).filter fun item =>
      (item.ints "decode_ids").contains (delivery.number : Int)) =
      (decodeEntries engine.planTrace delivery.number).map (Runner.writeIteration divide
        engine.config.kvCacheConfig.totalNumBlocks) :=
    filter_iterations fun _ _ => showsIteration.decodes
  have prefills : ((iterationsOf divide engine).filter fun item =>
      (item.ints "prefill_ids").contains (delivery.number : Int)) =
      (prefillEntries engine.planTrace delivery.number).map (Runner.writeIteration divide
        engine.config.kvCacheConfig.totalNumBlocks) :=
    filter_iterations fun _ _ => showsIteration.prefills
  have times : ((decodeEntries engine.planTrace delivery.number).map (Runner.writeIteration divide
      engine.config.kvCacheConfig.totalNumBlocks)).map (fun item => item.get "end_time_us") =
      delivery.entry.times.map .int := by
    rw [traced.times, tokenTimesOf, List.map_map, List.map_map]
    exact List.map_congr_left fun entry _ => showsIteration.finish
  unfold checkAppearances
  dsimp only
  rw [subject, decodes, prefills, times, List.length_map, List.length_map, told.decodes,
    delivery.shows.generated, delivery.shows.decodeTimes, delivery.shows.admitted]
  refine (passes_conserved_int rfl).andThen ((passes_conserved (equal_ints _)).andThen ?_)
  rcases accounted.admission traced.found with ⟨none, -, unadmitted, -⟩ | ⟨first, only, admitted, -⟩
  · rw [none, unadmitted]
    exact (passes_conserved_int rfl).andThen trivial
  · rw [only, admitted]
    refine (passes_conserved_int rfl).andThen (Passes.andThen (P := fun _ => True) ?_ ?_)
    · rw [showsIteration.start]
      exact passes_conserved_int rfl
    · rw [delivery.shows.state, int_eq delivery.shows.generated]
      split
      · next empty =>
          -- Without an output the request finishes with its prefill.
          have finished := (@oneOf_name delivery.entry.request.state .finished).mp empty.1
          obtain ⟨all, last, finish, listed⟩ := accounted.ending traced.found finished
          rw [if_pos (all.symm.trans (Int.natCast_eq_zero.mp empty.2)), only] at listed
          rw [delivery.shows.finish, finish, (List.cons.inj listed).1, showsIteration.finish]
          exact passes_conserved_int rfl
      · trivial

end Appearances

/-! ## The whole summary -/

section Summary

variable {divide : Int → Int → FloatNumeral} {batching : ContinuousBatchingConfig}
  {workload native : List Record} {result : RunResult} {engine : ContinuousBatchingEngine}
  {deliveries : List (Delivery divide)} {promptTokens generatedTokens submitted : Nat}
  {summary : Record} {config : NativeConfig} {context : String}

/-- The summary agrees with the iterations. -/
theorem passes_continuousMode (rounds : RoundsQuotients divide)
    (configured : Configured config engine.config)
    (ran : Ran divide batching workload native result engine deliveries)
    (shows : ShowsContinuous divide engine result promptTokens generatedTokens submitted summary) :
    Passes (fun _ => True) (checkSummaryMode divide (some config) (deliveries.map Delivery.shown)
      (iterationsOf divide engine) summary context) := by
  obtain ⟨requests, accounted⟩ := ran.accounted
  obtain ⟨whole, slots, cached, shared⟩ := accounted.capacity
  have idle : ((iterationsOf divide engine).countP fun item =>
      item.int "scheduled_sequences" = 0 ∧ (item.get "stall").bool? = some false) =
      engine.statistics.idleIterationCount := by
    rw [accounted.totals.idle]
    refine countP_iterations fun entry _ => ?_
    rw [int_eq showsIteration.sequences, showsIteration.stall]
    simp [Json.bool?]
  unfold checkSummaryMode
  rw [shows.mode, oneOf_continuous.2, if_neg Bool.false_ne_true]
  unfold checkContinuousSummary
  dsimp only
  rw [largest_iterations fun _ _ => showsIteration.sequences,
    largest_iterations fun _ _ => showsIteration.tokens, idle, int_eq shows.nonempty,
    int_eq shows.sequences, int_eq shows.allocated, int_eq shows.cached, int_eq shows.shared,
    List.length_map, shows.iterations, shows.idle, shows.largestBatch, shows.mostTokens,
    shows.averageBatch]
  refine (passes_forM fun name member => ?_).andThen ((passes_reject ?_).andThen
    ((passes_conserved_int ?_).andThen ((passes_iterationSums accounted shows).andThen
    ((passes_conserved_int rfl).andThen ((passes_conserved_int ?_).andThen
    ((passes_conserved_int ?_).andThen (Passes.andThen (P := fun _ => True) ?_
    ((passes_checkPeaks rounds configured accounted shows).andThen
    ((passes_finalGauges rounds configured accounted shows).andThen
    ((passes_checkSummaryCapacity rounds configured accounted shows).andThen
    ((passes_reject (by omega)).andThen (passes_forM fun record member => ?_))))))))))))
  · obtain ⟨number, found, -⟩ := shows.counts name (List.mem_append_right _ member)
    rw [found]
    exact passes_reject Bool.noConfusion
  · rintro ⟨null, some'⟩
    rw [if_neg (mt Int.natCast_eq_zero.mpr some'), isNull_double] at null
    cases null
  · exact congrArg Nat.cast accounted.conserved.iterations
  · exact congrArg Nat.cast accounted.conserved.largestBatch
  · exact congrArg Nat.cast accounted.conserved.mostTokens
  · by_cases unused : engine.statistics.nonemptyBatchCount = 0
    · rw [if_pos unused, if_pos (Int.natCast_eq_zero.mpr unused)]
      exact passes_exactNumber_null
    · obtain ⟨value, finite, -⟩ := average_finite rounds accounted unused
      rw [if_neg unused, if_neg (mt Int.natCast_eq_zero.mp unused)]
      exact passes_quotient finite
  · obtain ⟨delivery, inside, rfl⟩ := List.mem_map.mp member
    exact passes_checkAppearances accounted (ran.traced delivery inside)

end Summary

end LlmLab.Benchmarks
