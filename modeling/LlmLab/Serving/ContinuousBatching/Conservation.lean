import LlmLab.Serving.KVCache.Meters
import LlmLab.Serving.ContinuousBatching.Calls

/-!
# Conservation of the statistics

The statistics come from the plans, from the counters of the KV-cache manager and from the request
records.  In every reachable state the three agree: the totals are sums over the trace, the cache
figures are those of the manager, and the counts of requests are those of the records.
-/

namespace LlmLab.Serving

open KVCacheManager

namespace KVCacheManager

variable {manager next : KVCacheManager} {id : RequestId}

/-- An appended token counts its evictions. -/
theorem Appended.metrics {evictionIds : List Nat} {allocationId : Option Nat}
    (appended : manager.Appended id evictionIds allocationId next) :
    next.prefixMetrics = { manager.prefixMetrics with
      evictionCount := manager.prefixMetrics.evictionCount + evictionIds.length } := by
  cases appended with
  | grown _ none grown =>
      rw [none]
      exact congrArg (·.prefixMetrics) grown.result
  | extended _ _ extended => exact extended.metrics

end KVCacheManager

namespace ContinuousBatchingEngine

variable {engine next : ContinuousBatchingEngine} {arrived : OrdSet RequestId}
  {consumed : List Candidate} {builder : PlanBuilder} {candidate : Candidate} {id : RequestId}
  {request : Request} {demand : Demand} {endTimestampUs : Int}

/-- Whether a request has an exact-token prompt. -/
def hasExactPrompt (engine : ContinuousBatchingEngine) (id : RequestId) : Bool :=
  (engine.requests.find? id).any fun request => request.promptTokens?.isSome

/-- The exact-token prefills of a plan. -/
def exactPrefills (engine : ContinuousBatchingEngine) (works : List PrefillWork) : Nat :=
  works.countP fun work => engine.hasExactPrompt work.requestId

/-- The cached prefix tokens that a plan reuses. -/
def matchedTokens (works : List PrefillWork) : Nat :=
  (works.map (·.matchedPrefixTokenCount)).sum

/-! ## One plan -/

/-- What the work of a plan adds to the metrics of the manager. -/
structure Billed (engine : ContinuousBatchingEngine) (builder : PlanBuilder) : Prop where
  evictions : builder.cache.prefixMetrics.evictionCount =
    engine.kvCache.prefixMetrics.evictionCount + builder.allEvictions.length
  saved : builder.cache.prefixMetrics.savedPrefillTokenCount =
    engine.kvCache.prefixMetrics.savedPrefillTokenCount + matchedTokens builder.prefills
  lookups : builder.cache.prefixMetrics.cacheLookupCount =
    engine.kvCache.prefixMetrics.cacheLookupCount +
      if engine.config.prefixCacheConfig.enabled then engine.exactPrefills builder.prefills else 0

/-- Only a prompt over the cache is billed. -/
theorem billed_spec {cache : KVCacheManager} (isPrefill : candidate.isPrefill = true)
    (demands : engine.Demands cache candidate request demand) :
    (engine.billed cache request demand.lookup).savedPrefillTokenCount =
        cache.prefixMetrics.savedPrefillTokenCount + demand.lookup.matchedTokenCount ∧
      (engine.billed cache request demand.lookup).cacheLookupCount =
        cache.prefixMetrics.cacheLookupCount + if (engine.cachedTokens? request).isSome then 1
          else 0 := by
  unfold billed
  cases demands with
  | @exact tokens lookup _ exact current spec _ =>
      rw [exact]
      refine ⟨acquiredMetrics_saved _ fun none => ?_, acquiredMetrics_cacheLookupCount ..⟩
      rw [spec.blocks] at none
      rw [spec.matchedTokens, none, Nat.zero_mul]
  | count _ none =>
      rw [none]
      exact ⟨rfl, rfl⟩
  | decode isDecode =>
      rw [isPrefill] at isDecode
      cases isDecode

theorem cachedTokens?_isSome (found : engine.requests.find? id = some request) :
    (engine.cachedTokens? request).isSome =
      (engine.config.prefixCacheConfig.enabled && engine.hasExactPrompt id) := by
  unfold cachedTokens? hasExactPrompt
  rw [found]
  cases engine.config.prefixCacheConfig.enabled <;> rfl

/-- The manager of a builder is billed for the work on its trail. -/
theorem Trail.billed (trail : engine.Trail arrived consumed builder) :
    engine.Billed builder := by
  induction trail with
  | start => exact ⟨rfl, rfl, by simp [exactPrefills]⟩
  | @step consumed builder next candidate request trail describes _ decided ih =>
      cases decided with
      | deferred => exact ⟨ih.evictions, ih.saved, ih.lookups⟩
      | @prefill demand cache isPrefill demands _ _ effect _ =>
          obtain ⟨_, _, _, _, _, _, _, metrics⟩ := prefill_served isPrefill demands effect
          obtain ⟨saved, lookups⟩ := billed_spec isPrefill demands
          refine ⟨?_, ?_, ?_⟩
          · change cache.prefixMetrics.evictionCount = _ + (builder.allEvictions ++ _).length
            rw [metrics, List.length_append, ← Nat.add_assoc, ← ih.evictions]
          · change cache.prefixMetrics.savedPrefillTokenCount = _ + matchedTokens (_ ++ [_])
            rw [metrics, matchedTokens, List.map_append, List.sum_append, ← Nat.add_assoc]
            refine saved.trans ?_
            rw [ih.saved]
            rfl
          · change cache.prefixMetrics.cacheLookupCount =
              _ + if _ then engine.exactPrefills (_ ++ [_]) else 0
            rw [metrics]
            refine lookups.trans ?_
            rw [ih.lookups, cachedTokens?_isSome describes.found, exactPrefills, exactPrefills,
              List.countP_append, List.countP_singleton]
            change _ = _ + if _ then _ + (if engine.hasExactPrompt candidate.requestId then 1
              else 0) else 0
            cases engine.config.prefixCacheConfig.enabled <;>
              cases engine.hasExactPrompt candidate.requestId <;> simp [Nat.add_assoc]
      | @decode demand cache isDecode demands _ _ effect _ =>
          obtain ⟨victims, fresh, appended, rfl, -⟩ := decode_appended isDecode demands effect
          have metrics := appended.metrics
          refine ⟨?_, ?_, ?_⟩
          · change cache.prefixMetrics.evictionCount = _ + (builder.allEvictions ++ _).length
            rw [metrics, List.length_append, ← Nat.add_assoc, ← ih.evictions]
          · change cache.prefixMetrics.savedPrefillTokenCount = _
            rw [metrics]
            exact ih.saved
          · change cache.prefixMetrics.cacheLookupCount = _
            rw [metrics]
            exact ih.lookups

/-! ## One iteration -/

theorem Committed.statistics_eq (committed : engine.Committed arrived builder endTimestampUs next) :
    next.statistics = statisticsAfter engine.statistics (builder.plan engine.nextIterationNumber)
      (engine.finishing (builder.plan engine.nextIterationNumber)).length next.kvCache := by
  rw [committed.rest]

theorem Committed.planTrace_eq (committed : engine.Committed arrived builder endTimestampUs next) :
    next.planTrace = engine.planTrace ++ [engine.entryOf
      (builder.plan engine.nextIterationNumber) endTimestampUs next.kvCache] := by
  rw [committed.rest]

theorem Committed.nextIterationNumber_eq
    (committed : engine.Committed arrived builder endTimestampUs next) :
    next.nextIterationNumber = engine.nextIterationNumber + 1 := by
  rw [committed.rest]

/-- The publications and releases of an iteration leave the metrics alone. -/
theorem Committed.prefixMetrics_eq (trail : engine.Trail arrived consumed builder)
    (coherent : engine.Coherent)
    (committed : engine.Committed arrived builder endTimestampUs next) :
    next.kvCache.prefixMetrics = builder.cache.prefixMetrics := by
  refine committed.passes.metrics_eq (trail.sound coherent) fun event member => ?_
  rcases List.mem_append.mp member with publication | release
  · obtain ⟨id, -, rfl⟩ := List.mem_map.mp publication
    exact True.intro
  · obtain ⟨id, -, rfl⟩ := List.mem_map.mp release
    exact True.intro

theorem advance_generatedTokenCount {plan : BatchPlan}
    (scheduled : engine.Scheduled arrived plan id request) (nowUs endTimestampUs : Int) :
    (advance plan nowUs endTimestampUs id request).generatedTokenCount =
      request.generatedTokenCount + if id ∈ plan.decodeRequestIds then 1 else 0 := by
  unfold advance
  cases scheduled with
  | prefill prefill notDecode =>
      rw [if_pos prefill, if_neg notDecode]
      exact Request.admitted_generatedTokenCount ..
  | decode notPrefill decode =>
      rw [if_neg notPrefill, if_pos decode, if_pos decode]
      exact Request.decoded_generatedTokenCount ..
  | idle notPrefill notDecode =>
      rw [if_neg notPrefill, if_neg notDecode, if_neg notDecode]
      rfl

/-- A request is finished after an iteration where it was before or the iteration finishes it. -/
theorem advance_finished {plan : BatchPlan} (found : engine.requests.find? id = some request)
    (scheduled : engine.Scheduled arrived plan id request) (nowUs endTimestampUs : Int) :
    (if (advance plan nowUs endTimestampUs id request).state = .finished then 1 else 0) =
      (if request.state = .finished then 1 else 0) +
        if id ∈ engine.finishing plan then 1 else 0 := by
  have finishes := @mem_finishing engine id request plan found
  unfold advance
  cases scheduled with
  | prefill prefill notDecode waiting =>
      rw [if_pos prefill, Request.admitted_state, waiting]
      have ends : id ∈ engine.finishing plan ↔ request.maxNewTokens = 0 := by
        rw [finishes]
        exact ⟨fun either => either.elim And.right fun decode => absurd decode.1 notDecode,
          fun none => Or.inl ⟨prefill, none⟩⟩
      by_cases none : request.maxNewTokens = 0
      · rw [if_pos none, if_pos (ends.mpr none)]
        rfl
      · rw [if_neg none, if_neg (mt ends.mp none)]
        rfl
  | decode notPrefill decode decoding =>
      rw [if_neg notPrefill, if_pos decode, Request.decoded_state, decoding]
      have ends : id ∈ engine.finishing plan ↔
          request.generatedTokenCount + 1 = request.maxNewTokens := by
        rw [finishes]
        exact ⟨fun either => either.elim (fun prefill => absurd prefill.1 notPrefill) And.right,
          fun last => Or.inr ⟨decode, last⟩⟩
      by_cases last : request.generatedTokenCount + 1 = request.maxNewTokens
      · rw [if_pos last, if_pos (ends.mpr last)]
        rfl
      · rw [if_neg last, if_neg (mt ends.mp last)]
        rfl
  | idle notPrefill notDecode =>
      have goesOn : id ∉ engine.finishing plan := fun member =>
        (finishes.mp member).elim (fun prefill => notPrefill prefill.1)
          fun decode => notDecode decode.1
      rw [if_neg notPrefill, if_neg notDecode, if_neg goesOn, Nat.add_zero]

/-- An iteration cancels nothing. -/
theorem advance_cancelled {plan : BatchPlan}
    (scheduled : engine.Scheduled arrived plan id request) (nowUs endTimestampUs : Int) :
    (advance plan nowUs endTimestampUs id request).state = .cancelled ↔
      request.state = .cancelled := by
  unfold advance
  cases scheduled with
  | prefill prefill _ waiting =>
      rw [if_pos prefill, Request.admitted_state, waiting]
      split <;> simp
  | decode notPrefill decode decoding =>
      rw [if_neg notPrefill, if_pos decode, Request.decoded_state, decoding]
      split <;> simp
  | idle notPrefill notDecode => rw [if_neg notPrefill, if_neg notDecode]

theorem Committed.hasExactPrompt_eq
    (committed : engine.Committed arrived builder endTimestampUs next) :
    next.hasExactPrompt = engine.hasExactPrompt := by
  funext id
  unfold hasExactPrompt
  rw [committed.requests]
  cases engine.requests.find? id with
  | none => rfl
  | some request =>
      rw [Option.map_some, Option.any_some, Option.any_some, Request.promptTokens?,
        Request.promptTokens?, advance_prompt]

theorem Runs.finishing_nodup {plan : BatchPlan} (runs : engine.Runs arrived plan) :
    (engine.finishing plan).Nodup :=
  (List.nodup_append.mp runs.nodup).1.sublist
    (List.filter_sublist.append List.filter_sublist)

/-! ## The trace -/

/-- The sum of a figure over the plans of the trace. -/
def summed (engine : ContinuousBatchingEngine) (figure : BatchPlan → Nat) : Nat :=
  (engine.planTrace.map fun entry => figure entry.plan).sum

/-- The largest value of a figure over the plans of the trace. -/
def largest (engine : ContinuousBatchingEngine) (figure : BatchPlan → Nat) : Nat :=
  (engine.planTrace.map fun entry => figure entry.plan).foldl max 0

theorem Committed.summed_eq (committed : engine.Committed arrived builder endTimestampUs next)
    (figure : BatchPlan → Nat) : next.summed figure =
      engine.summed figure + figure (builder.plan engine.nextIterationNumber) := by
  unfold summed
  rw [committed.planTrace_eq, List.map_append, List.sum_append]
  exact congrArg _ (Nat.add_zero _)

/-- A statistic that every iteration updates from its plan is a fold over the trace. -/
theorem reach_folded (combine : Nat → Nat → Nat) {statistic : ContinuousBatchingStatistics → Nat}
    {figure : BatchPlan → Nat} (start : statistic {} = 0)
    (cancels : ∀ statistics cache, statistic (ContinuousBatchingStatistics.copyCache
      { statistics with cancelledRequestCount := statistics.cancelledRequestCount + 1 } cache) =
        statistic statistics)
    (commits : ∀ statistics plan completed cache,
      statistic (statisticsAfter statistics plan completed cache) =
        combine (statistic statistics) (figure plan))
    (backend : SimulatedBackend) (config : ContinuousBatchingConfig) (calls : List EngineCall) :
    let engine := reach backend config calls
    statistic engine.statistics =
      (engine.planTrace.map fun entry => figure entry.plan).foldl combine 0 := by
  refine (@reach_invariant (fun engine => statistic engine.statistics =
    (engine.planTrace.map fun entry => figure entry.plan).foldl combine 0) backend config calls
    start fun {engine next} coherent holds moved => ?_).2
  cases moved with
  | submitted | halted => exact holds
  | cancelled => exact (cancels ..).trans holds
  | iterated _ iterated =>
      rcases iterated.committed coherent with rfl | ⟨_, builder, _, _, _, committed⟩
      · exact holds
      · rw [committed.statistics_eq, committed.planTrace_eq, commits, holds, List.map_append,
          List.foldl_append]
        rfl

/-- A statistic to which every iteration adds a figure of its plan is a sum over the trace. -/
theorem reach_summed {statistic : ContinuousBatchingStatistics → Nat} {figure : BatchPlan → Nat}
    (start : statistic {} = 0)
    (cancels : ∀ statistics cache, statistic (ContinuousBatchingStatistics.copyCache
      { statistics with cancelledRequestCount := statistics.cancelledRequestCount + 1 } cache) =
        statistic statistics)
    (commits : ∀ statistics plan completed cache,
      statistic (statisticsAfter statistics plan completed cache) =
        statistic statistics + figure plan)
    (backend : SimulatedBackend) (config : ContinuousBatchingConfig) (calls : List EngineCall) :
    statistic (reach backend config calls).statistics =
      (reach backend config calls).summed figure := by
  rw [summed, List.sum_eq_foldl]
  exact reach_folded (· + ·) start cancels commits backend config calls

/-- What holds of every plan that an iteration carries out holds of the trace. -/
theorem reach_traced {property : BatchPlan → Prop}
    (planned : ∀ {engine : ContinuousBatchingEngine} {consumed builder}, engine.Coherent →
      engine.Planned consumed builder → property (builder.plan engine.nextIterationNumber))
    (backend : SimulatedBackend) (config : ContinuousBatchingConfig) (calls : List EngineCall) :
    ∀ entry ∈ (reach backend config calls).planTrace, property entry.plan := by
  refine (@reach_invariant (fun engine => ∀ entry ∈ engine.planTrace, property entry.plan) backend
    config calls (fun entry member => by cases member)
    fun {engine next} coherent holds moved => ?_).2
  cases moved with
  | submitted | halted | cancelled => exact holds
  | iterated _ iterated =>
      rcases iterated.committed coherent with rfl | ⟨_, builder, _, trail, _, committed⟩
      · exact holds
      · intro entry member
        rw [committed.planTrace_eq] at member
        rcases List.mem_append.mp member with old | new
        · exact holds entry old
        · rw [List.mem_singleton.mp new]
          exact planned coherent trail.planned

/-! ## The manager and the requests -/

/-- The number of requests in a state. -/
def requestsIn (engine : ContinuousBatchingEngine) (state : RequestState) : Nat :=
  engine.requests.total fun request => if request.state = state then 1 else 0

/-- The statistics agree with the manager and with the request records. -/
structure Balanced (engine : ContinuousBatchingEngine) : Prop where
  number : engine.nextIterationNumber = engine.planTrace.length + 1
  numbered : ∀ i entry, engine.planTrace[i]? = some entry → entry.iterationNumber = i + 1
  copied : engine.statistics.copyCache engine.kvCache = engine.statistics
  peak : engine.statistics.peakAllocatedKvBlocks = engine.kvCache.peakAllocatedBlockCount
  metered : engine.kvCache.Metered
  highest : ∀ entry ∈ engine.planTrace,
    entry.allocatedKvBlocks ≤ engine.kvCache.peakAllocatedBlockCount
  evictions : engine.kvCache.prefixMetrics.evictionCount =
    engine.summed (·.plannedEvictionIds.length)
  saved : engine.kvCache.prefixMetrics.savedPrefillTokenCount =
    engine.summed fun plan => matchedTokens plan.prefillWork
  known : ∀ entry ∈ engine.planTrace, ∀ work ∈ entry.plan.prefillWork,
    ∃ request, engine.requests.find? work.requestId = some request
  lookups : engine.kvCache.prefixMetrics.cacheLookupCount =
    if engine.config.prefixCacheConfig.enabled then
      engine.summed fun plan => engine.exactPrefills plan.prefillWork
    else 0
  generated : engine.statistics.totalDecodeTokensScheduled =
    engine.requests.total (·.generatedTokenCount)
  completed : engine.statistics.completedRequestCount = engine.requestsIn .finished
  cancelled : engine.statistics.cancelledRequestCount = engine.requestsIn .cancelled

/-- A new engine is balanced. -/
theorem create_balanced (backend : SimulatedBackend) (config : ContinuousBatchingConfig) :
    (create backend config).Balanced where
  number := rfl
  numbered _ _ found := by cases found
  copied := by
    have metered := create_metered config.kvCacheConfig config.prefixCacheConfig
      stableTokenBlockHash
    have idle : (create backend config).kvCache.allocatedBlockCount = 0 :=
      Nat.le_zero.mp metered.peak
    have none : (create backend config).kvCache.internalFragmentationTokens = 0 := by
      unfold internalFragmentationTokens
      rw [idle, Nat.zero_mul, Nat.zero_sub]
    have uncached : (create backend config).kvCache.cachedBlockCount = 0 := by
      refine List.countP_eq_zero.mpr fun block member => ?_
      obtain ⟨id, -, rfl⟩ := List.mem_map.mp member
      simp
    have unshared : (create backend config).kvCache.referencedSharedBlockCount = 0 := by
      refine List.countP_eq_zero.mpr fun block member => ?_
      obtain ⟨id, -, rfl⟩ := List.mem_map.mp member
      simp
    unfold ContinuousBatchingStatistics.copyCache
    rw [idle, none, uncached, unshared]
    rfl
  peak := rfl
  metered := create_metered ..
  highest _ member := by cases member
  evictions := rfl
  saved := rfl
  known _ member := by cases member
  lookups := (ite_self _).symm
  generated := rfl
  completed := rfl
  cancelled := rfl

/-- An iteration keeps the balance. -/
theorem Committed.balanced (trail : engine.Trail arrived consumed builder)
    (coherent : engine.Coherent) (distinct : (consumed.map (·.requestId)).Nodup)
    (committed : engine.Committed arrived builder endTimestampUs next)
    (balanced : engine.Balanced) : next.Balanced := by
  have runs := trail.runs coherent distinct engine.nextIterationNumber
  have whole := committed.allPasses trail
  have metrics := committed.prefixMetrics_eq trail coherent
  have billed := trail.billed
  have metered := whole.metered coherent.sound balanced.metered
  have statistics := committed.statistics_eq
  have scheduled : ∀ {id request}, engine.requests.find? id = some request →
      engine.Scheduled arrived (builder.plan engine.nextIterationNumber) id request :=
    fun found => runs.scheduled found
  refine ⟨?_, fun i entry found => ?_, ?_, ?_, metered, fun entry member => ?_, ?_, ?_,
    fun entry member work listed => ?_, ?_, ?_, ?_, ?_⟩
  · rw [committed.nextIterationNumber_eq, committed.planTrace_eq, List.length_append,
      balanced.number]
    rfl
  · rw [committed.planTrace_eq] at found
    rcases Nat.lt_or_ge i engine.planTrace.length with old | new
    · rw [List.getElem?_append_left old] at found
      exact balanced.numbered i entry found
    · rw [List.getElem?_append_right new, List.getElem?_singleton] at found
      split at found
      · next first =>
          cases found
          change engine.nextIterationNumber = i + 1
          rw [balanced.number]
          omega
      · cases found
  · rw [statistics]
    rfl
  · rw [statistics]
    rfl
  · rw [committed.planTrace_eq] at member
    rcases List.mem_append.mp member with old | new
    · exact (balanced.highest entry old).trans (whole.peak_le coherent.sound)
    · rw [List.mem_singleton.mp new]
      exact metered.peak
  · rw [metrics, billed.evictions, balanced.evictions, committed.summed_eq]
    rfl
  · rw [metrics, billed.saved, balanced.saved, committed.summed_eq]
    rfl
  · have before : ∃ request, engine.requests.find? work.requestId = some request := by
      rw [committed.planTrace_eq] at member
      rcases List.mem_append.mp member with old | new
      · exact balanced.known entry old work listed
      · rw [List.mem_singleton.mp new] at listed
        obtain ⟨request, found, -⟩ := trail.planned.prompts work listed
        exact ⟨request, found⟩
    obtain ⟨request, found⟩ := before
    exact ⟨_, (committed.requests _).trans (congrArg _ found)⟩
  · have same : next.exactPrefills = engine.exactPrefills := by
      unfold exactPrefills
      rw [committed.hasExactPrompt_eq]
    rw [metrics, billed.lookups, balanced.lookups, committed.config_eq, same,
      committed.summed_eq]
    split
    · rfl
    · rfl
  · rw [statistics]
    refine (congrArg (· + _) balanced.generated).trans ?_
    exact (OrdMap.total_step committed.requests
      (List.nodup_append.mp (List.nodup_append.mp runs.nodup).1).2.1
      (fun id member => (runs.decode id member).imp fun _ found => found.1)
      fun id request found => advance_generatedTokenCount (scheduled found) ..).symm
  · rw [statistics]
    refine (congrArg (· + _) balanced.completed).trans ?_
    refine (OrdMap.total_step committed.requests runs.finishing_nodup (fun id member => ?_)
      fun id request found => advance_finished found (scheduled found) ..).symm
    rcases List.mem_append.mp member with prefill | decode
    · obtain ⟨request, found, -⟩ := runs.prefill id (List.mem_of_mem_filter prefill)
      exact ⟨request, found⟩
    · obtain ⟨request, found, -⟩ := runs.decode id (List.mem_of_mem_filter decode)
      exact ⟨request, found⟩
  · rw [statistics]
    refine (congrArg (· + 0) balanced.cancelled).trans ?_
    refine (OrdMap.total_step committed.requests List.nodup_nil (fun id member => by cases member)
      fun id request found => ?_).symm
    have same := advance_cancelled (scheduled found) engine.nowUs endTimestampUs
    simp [same]

/-- A submission keeps the balance: the new request is not in the trace. -/
theorem submitted_balanced (balanced : engine.Balanced) (pristine : request.Pristine)
    (fresh : engine.requests.find? request.requestId = none) :
    ({ engine with requests := engine.requests.insert request.requestId request } :
      ContinuousBatchingEngine).Balanced := by
  set next : ContinuousBatchingEngine :=
    { engine with requests := engine.requests.insert request.requestId request } with result
  have kept : ∀ {id known}, engine.requests.find? id = some known →
      next.requests.find? id = some known := fun {id known} found => by
    refine (OrdMap.find?_insert ..).trans ?_
    rw [if_neg fun same => ?_, found]
    rw [same, fresh] at found
    cases found
  refine ⟨balanced.number, balanced.numbered, balanced.copied, balanced.peak, balanced.metered,
    balanced.highest, balanced.evictions, balanced.saved, fun entry member work listed => ?_, ?_,
    ?_, ?_, ?_⟩
  · obtain ⟨known, found⟩ := balanced.known entry member work listed
    exact ⟨known, kept found⟩
  · refine balanced.lookups.trans ?_
    have same : (engine.planTrace.map fun entry => engine.exactPrefills entry.plan.prefillWork) =
        engine.planTrace.map fun entry => next.exactPrefills entry.plan.prefillWork := by
      refine List.map_congr_left fun entry member => List.countP_congr fun work listed => ?_
      obtain ⟨known, found⟩ := balanced.known entry member work listed
      rw [hasExactPrompt, hasExactPrompt, found, kept found]
    unfold summed
    rw [same]
  · refine balanced.generated.trans ((OrdMap.total_insert _ fresh).trans ?_).symm
    rw [pristine.2.1, Nat.zero_add]
  · refine balanced.completed.trans ((OrdMap.total_insert _ fresh).trans ?_).symm
    rw [pristine.1, if_neg (by simp), Nat.zero_add]
    rfl
  · refine balanced.cancelled.trans ((OrdMap.total_insert _ fresh).trans ?_).symm
    rw [pristine.1, if_neg (by simp), Nat.zero_add]
    rfl

/-- A cancellation keeps the balance: the record stays, with its prompt and its tokens. -/
theorem cancelledWith_balanced (coherent : engine.Coherent) (balanced : engine.Balanced)
    (found : engine.requests.find? id = some request)
    (live : request.state = .waiting ∨ request.state = .decoding) {cache : KVCacheManager}
    (passes : Passes engine.kvCache (if request.state = .decoding then [.release id] else [])
      cache) : (engine.cancelledWith id request cache).Balanced := by
  have unmetered : ∀ event ∈ (if request.state = .decoding then [KVEvent.release id] else []),
      event.Unmetered := fun event member => by
    split at member
    · rw [List.mem_singleton.mp member]
      exact True.intro
    · cases member
  have metrics := passes.metrics_eq coherent.sound unmetered
  have peak := passes.peak_eq coherent.sound unmetered
  have unfinished : request.state ≠ .finished ∧ request.state ≠ .cancelled := by
    rcases live with waiting | decoding
    · simp [waiting]
    · simp [decoding]
  have exact : (engine.cancelledWith id request cache).hasExactPrompt = engine.hasExactPrompt := by
    funext other
    unfold hasExactPrompt cancelledWith
    dsimp only
    rw [OrdMap.find?_insert]
    split
    · next same =>
        rw [same, found]
        rfl
    · rfl
  refine ⟨balanced.number, balanced.numbered, rfl, balanced.peak.trans peak.symm,
    passes.metered coherent.sound balanced.metered, fun entry member => ?_, ?_, ?_,
    fun entry member work listed => ?_, ?_, ?_, ?_, ?_⟩
  · exact (balanced.highest entry member).trans peak.ge
  · exact (congrArg (·.evictionCount) metrics).trans balanced.evictions
  · exact (congrArg (·.savedPrefillTokenCount) metrics).trans balanced.saved
  · obtain ⟨known, old⟩ := balanced.known entry member work listed
    change ∃ request, (engine.requests.insert id _).find? work.requestId = some request
    rw [OrdMap.find?_insert]
    split
    · exact ⟨_, rfl⟩
    · exact ⟨known, old⟩
  · refine (congrArg (·.cacheLookupCount) metrics).trans ?_
    unfold exactPrefills
    rw [exact]
    exact balanced.lookups
  · have overwritten := OrdMap.total_put (·.generatedTokenCount) engine.requests id
      { request with state := .cancelled, finishTimeUs := some engine.nowUs }
    have before := balanced.generated
    rw [found, Option.elim_some] at overwritten
    dsimp only at overwritten
    change engine.statistics.totalDecodeTokensScheduled = (engine.requests.insert id _).total _
    omega
  · have overwritten := OrdMap.total_put
      (fun request : Request => if request.state = .finished then 1 else 0) engine.requests id
      { request with state := .cancelled, finishTimeUs := some engine.nowUs }
    have before := balanced.completed
    rw [found, Option.elim_some, if_neg unfinished.1, if_neg (by simp)] at overwritten
    unfold requestsIn at before
    change engine.statistics.completedRequestCount = (engine.requests.insert id _).total _
    omega
  · have overwritten := OrdMap.total_put
      (fun request : Request => if request.state = .cancelled then 1 else 0) engine.requests id
      { request with state := .cancelled, finishTimeUs := some engine.nowUs }
    have before := balanced.cancelled
    rw [found, Option.elim_some, if_neg unfinished.2, if_pos rfl] at overwritten
    unfold requestsIn at before
    change engine.statistics.cancelledRequestCount + 1 = (engine.requests.insert id _).total _
    omega

/-- Every move keeps the balance. -/
theorem Moved.balanced (moved : engine.Moved next) (coherent : engine.Coherent)
    (balanced : engine.Balanced) : next.Balanced := by
  cases moved with
  | submitted _ pristine _ _ fresh => exact submitted_balanced balanced pristine fresh
  | cancelled _ found live passes =>
      exact cancelledWith_balanced coherent balanced found live passes
  | iterated _ iterated =>
      rcases iterated.committed coherent with rfl | ⟨_, _, _, trail, distinct, committed⟩
      · exact balanced
      · exact committed.balanced trail coherent distinct balanced
  | halted => exact ⟨balanced.number, balanced.numbered, balanced.copied, balanced.peak,
      balanced.metered, balanced.highest, balanced.evictions, balanced.saved, balanced.known,
      balanced.lookups, balanced.generated, balanced.completed, balanced.cancelled⟩

theorem reach_balanced (backend : SimulatedBackend) (config : ContinuousBatchingConfig)
    (calls : List EngineCall) : (reach backend config calls).Balanced :=
  (@reach_invariant Balanced backend config calls (create_balanced backend config)
    fun coherent balanced moved => moved.balanced coherent balanced).2

/-! ## The statistics -/

/-- What the statistics of an engine say. -/
structure Conserved (engine : ContinuousBatchingEngine) : Prop where
  iterations : engine.statistics.schedulingIterationCount = engine.planTrace.length
  kinds : engine.statistics.schedulingIterationCount = engine.statistics.nonemptyBatchCount +
    engine.statistics.idleIterationCount + engine.statistics.stalledIterationCount
  numbered : ∀ i entry, engine.planTrace[i]? = some entry → entry.iterationNumber = i + 1
  prefills : engine.statistics.totalPrefillTokensScheduled = engine.summed (·.totalPrefillTokens)
  decodes : engine.statistics.totalDecodeTokensScheduled = engine.summed (·.totalDecodeTokens)
  sequences : engine.statistics.totalScheduledSequences =
    engine.summed (·.scheduledSequenceCount)
  deferrals : engine.statistics.deferredRequestCount =
    engine.summed (·.deferredRequests.length)
  kvDeferrals : engine.statistics.kvCapacityDeferralCount =
    engine.summed fun plan => plan.deferredRequests.countP (·.reason = .kvCapacity)
  evictions : engine.statistics.prefixCacheEvictionCount =
    engine.summed (·.plannedEvictionIds.length)
  largestBatch : engine.statistics.maximumBatchSize = engine.largest (·.scheduledSequenceCount)
  mostTokens : engine.statistics.maximumScheduledTokens = engine.largest (·.totalScheduledTokens)
  prompts : engine.statistics.totalOriginalPromptTokens =
    engine.statistics.totalMatchedPrefixTokens + engine.statistics.totalPrefillTokensScheduled
  generated : engine.statistics.totalDecodeTokensScheduled =
    engine.requests.total (·.generatedTokenCount)
  saved : engine.statistics.totalMatchedPrefixTokens =
    engine.statistics.savedSimulatedPrefillTokens
  matched : engine.statistics.savedSimulatedPrefillTokens =
    engine.statistics.cacheMatchedBlockCount * engine.config.kvCacheConfig.blockSizeTokens
  eligible : engine.statistics.savedSimulatedPrefillTokens ≤
    engine.statistics.totalCacheEligiblePromptTokensLookedUp
  lookups : engine.statistics.cacheLookupCount =
    engine.statistics.cacheHitLookupCount + engine.statistics.cacheMissLookupCount
  exact : engine.statistics.cacheLookupCount =
    if engine.config.prefixCacheConfig.enabled then
      engine.summed fun plan => engine.exactPrefills plan.prefillWork
    else 0
  completed : engine.statistics.completedRequestCount = engine.requestsIn .finished
  cancelled : engine.statistics.cancelledRequestCount = engine.requestsIn .cancelled
  failures : engine.statistics.kvAllocationFailureCount = 0
  peak : ∀ entry ∈ engine.planTrace,
    entry.allocatedKvBlocks ≤ engine.statistics.peakAllocatedKvBlocks

theorem summed_congr {figure figure' : BatchPlan → Nat}
    (same : ∀ entry ∈ engine.planTrace, figure entry.plan = figure' entry.plan) :
    engine.summed figure = engine.summed figure' :=
  congrArg List.sum (List.map_congr_left same)

theorem summed_add (engine : ContinuousBatchingEngine) (first second : BatchPlan → Nat) :
    (engine.summed fun plan => first plan + second plan) =
      engine.summed first + engine.summed second :=
  List.sum_map_add

/-- Every prompt token is matched or scheduled. -/
theorem Planned.prompt_tokens (planned : engine.Planned consumed builder) (number : Nat) :
    ((builder.plan number).prefillWork.map (·.originalPromptTokenCount)).sum =
      matchedTokens (builder.plan number).prefillWork +
        (builder.plan number).totalPrefillTokens := by
  change (builder.prefills.map _).sum = (builder.prefills.map _).sum + (builder.prefills.map _).sum
  rw [← List.sum_map_add]
  refine congrArg List.sum (List.map_congr_left fun work member => ?_)
  obtain ⟨request, -, original, split⟩ := planned.prompts work member
  exact original.trans split.symm

/-- The iterations of each kind are those of the trace. -/
theorem reach_kinds (backend : SimulatedBackend) (config : ContinuousBatchingConfig)
    (calls : List EngineCall) :
    let engine := reach backend config calls
    engine.statistics.stalledIterationCount =
        engine.summed (fun plan => if plan.deferredOnly then 1 else 0) ∧
      engine.statistics.idleIterationCount = engine.summed (fun plan =>
        if plan.deferredOnly = false ∧ plan.isEmpty then 1 else 0) ∧
      engine.statistics.nonemptyBatchCount = engine.summed (fun plan =>
        if plan.deferredOnly = false ∧ plan.isEmpty = false then 1 else 0) := by
  refine ⟨?_, ?_, ?_⟩
  · exact @reach_summed (·.stalledIterationCount) (fun plan => if plan.deferredOnly then 1 else 0)
      rfl (fun _ _ => rfl) (fun _ _ _ _ => rfl) backend config calls
  · exact @reach_summed (·.idleIterationCount)
      (fun plan => if plan.deferredOnly = false ∧ plan.isEmpty then 1 else 0) rfl (fun _ _ => rfl)
      (fun _ _ _ _ => rfl) backend config calls
  · exact @reach_summed (·.nonemptyBatchCount)
      (fun plan => if plan.deferredOnly = false ∧ plan.isEmpty = false then 1 else 0) rfl
      (fun _ _ => rfl) (fun _ _ _ _ => rfl) backend config calls

/-- The statistics of every reachable state. -/
theorem reach_statistics (backend : SimulatedBackend) (config : ContinuousBatchingConfig)
    (calls : List EngineCall) : (reach backend config calls).Conserved := by
  have balanced := reach_balanced backend config calls
  have coherent := reach_coherent backend config calls
  have copied := balanced.copied
  have iterations := @reach_summed (·.schedulingIterationCount) (fun _ => 1) rfl (fun _ _ => rfl)
    (fun _ _ _ _ => rfl) backend config calls
  obtain ⟨stalled, idle, nonempty⟩ := reach_kinds backend config calls
  have prefills := @reach_summed (·.totalPrefillTokensScheduled) (·.totalPrefillTokens) rfl
    (fun _ _ => rfl) (fun _ _ _ _ => rfl) backend config calls
  have original := @reach_summed (·.totalOriginalPromptTokens)
    (fun plan => (plan.prefillWork.map (·.originalPromptTokenCount)).sum) rfl (fun _ _ => rfl)
    (fun _ _ _ _ => rfl) backend config calls
  have matched := @reach_summed (·.totalMatchedPrefixTokens)
    (fun plan => matchedTokens plan.prefillWork) rfl (fun _ _ => rfl) (fun _ _ _ _ => rfl)
    backend config calls
  set engine := reach backend config calls
  have metrics : engine.statistics.savedSimulatedPrefillTokens =
      engine.kvCache.prefixMetrics.savedPrefillTokenCount := by
    rw [← copied]
    rfl
  refine
    { iterations := ?_
      kinds := ?_
      numbered := balanced.numbered
      prefills
      decodes := ?_
      sequences := ?_
      deferrals := ?_
      kvDeferrals := ?_
      evictions := ?_
      largestBatch := ?_
      mostTokens := ?_
      prompts := ?_
      generated := balanced.generated
      saved := ?_
      matched := ?_
      eligible := ?_
      lookups := ?_
      exact := ?_
      completed := balanced.completed
      cancelled := balanced.cancelled
      failures := ?_
      peak := fun entry member => balanced.peak ▸ balanced.highest entry member }
  · rw [iterations]
    simp [summed]
  · rw [iterations, nonempty, idle, stalled, ← summed_add, ← summed_add]
    refine summed_congr fun entry _ => ?_
    cases entry.plan.deferredOnly <;> cases entry.plan.isEmpty <;> rfl
  · exact @reach_summed (·.totalDecodeTokensScheduled) (·.totalDecodeTokens) rfl (fun _ _ => rfl)
      (fun _ _ _ _ => rfl) backend config calls
  · exact @reach_summed (·.totalScheduledSequences) (·.scheduledSequenceCount) rfl
      (fun _ _ => rfl) (fun _ _ _ _ => rfl) backend config calls
  · exact @reach_summed (·.deferredRequestCount) (·.deferredRequests.length) rfl
      (fun _ _ => rfl) (fun _ _ _ _ => rfl) backend config calls
  · exact @reach_summed (·.kvCapacityDeferralCount) (fun plan => kvDeferrals plan.deferredRequests)
      rfl (fun _ _ => rfl) (fun _ _ _ _ => rfl) backend config calls
  · rw [← copied]
    exact balanced.evictions
  · exact @reach_folded max (·.maximumBatchSize) (·.scheduledSequenceCount) rfl (fun _ _ => rfl)
      (fun _ _ _ _ => rfl) backend config calls
  · exact @reach_folded max (·.maximumScheduledTokens) (·.totalScheduledTokens) rfl
      (fun _ _ => rfl) (fun _ _ _ _ => rfl) backend config calls
  · rw [original, matched, prefills, ← summed_add]
    exact summed_congr (@reach_traced (fun plan =>
      (plan.prefillWork.map (·.originalPromptTokenCount)).sum =
        matchedTokens plan.prefillWork + plan.totalPrefillTokens)
      (fun _ planned => planned.prompt_tokens _) backend config calls)
  · rw [matched, metrics]
    exact balanced.saved.symm
  · have sameConfig : engine.kvCache.config = engine.config.kvCacheConfig := coherent.setup.config
    rw [metrics, ← copied, ← sameConfig]
    exact balanced.metered.saved
  · rw [metrics, ← copied]
    exact balanced.metered.eligible
  · rw [← copied]
    exact balanced.metered.lookups
  · rw [← copied]
    exact balanced.lookups
  · rw [← copied]
    exact balanced.metered.failures

/-- Statistics conservation: in every reachable state the figures agree with the trace, with the
manager and with the request records. -/
theorem reach_conserved (backend : SimulatedBackend) (config : ContinuousBatchingConfig)
    (calls : List EngineCall) : (reach backend config calls).Conserved :=
  reach_statistics backend config calls

end ContinuousBatchingEngine

end LlmLab.Serving
