import LlmLab.Serving.KVCache.Bookkeeping
import LlmLab.Serving.ContinuousBatching.Conservation
import LlmLab.Serving.ContinuousBatching.Termination
import LlmLab.Serving.ContinuousBatching.Timeline

/-!
# What a run reports

A run that submits its requests and lets the engine go: the figures of its trace entries, the hits
and misses of its prefills, the gauges of its last entry and the counters that do not wrap around.
-/

namespace LlmLab.Serving

open KVCacheManager

namespace KVCacheManager

variable {manager : KVCacheManager}

/-- The allocated blocks are those that are not free. -/
theorem Sound.allocatedBlockCount_eq (sound : manager.Sound) :
    manager.allocatedBlockCount = manager.blocks.countP fun block => block.state ≠ .free := by
  have free : manager.freeBlocks.size = manager.blocks.countP fun block => block.state = .free := by
    rw [sound.freeBlocks_size, ← List.countP_eq_length_filter]
    conv_rhs => rw [blocks_eq_map_range, List.countP_map]
    rfl
  have whole : manager.blocks.length = _ :=
    List.length_eq_countP_add_countP fun block : PhysicalKVBlock => decide (block.state = .free)
  have rest : (manager.blocks.countP fun block => decide ¬ decide (block.state = .free) = true) =
      manager.blocks.countP fun block => block.state ≠ .free :=
    List.countP_congr fun block _ => by simp
  unfold allocatedBlockCount
  omega

theorem Sound.allocated_add_free (sound : manager.Sound) :
    manager.allocatedBlockCount + manager.freeBlocks.size = manager.config.totalNumBlocks := by
  have length := sound.valid.blocks.length
  have partition := sound.partition
  unfold allocatedBlockCount
  omega

theorem Sound.cachedBlockCount_le (sound : manager.Sound) :
    manager.cachedBlockCount ≤ manager.allocatedBlockCount := by
  have partition := sound.partition
  unfold allocatedBlockCount
  omega

/-- A block with a key is not free. -/
theorem Sound.referencedSharedBlockCount_le (sound : manager.Sound) :
    manager.referencedSharedBlockCount ≤ manager.allocatedBlockCount := by
  rw [sound.allocatedBlockCount_eq]
  refine List.countP_mono_left fun block member shared => ?_
  obtain ⟨keyed, -⟩ := (Bool.and_eq_true ..).mp shared
  obtain ⟨key, carries⟩ := Option.isSome_iff_exists.mp keyed
  rw [blocks_eq_map_range] at member
  obtain ⟨x, -, rfl⟩ := List.mem_map.mp member
  exact decide_eq_true (sound.valid.blocks.occupied carries).2

end KVCacheManager

namespace ContinuousBatchingEngine

variable {engine next : ContinuousBatchingEngine} {arrived : OrdSet RequestId}
  {consumed : List Candidate} {builder : PlanBuilder} {candidate : Candidate} {id : RequestId}
  {request : Request} {demand : Demand} {endTimestampUs : Int}

/-! ## Hits and misses -/

/-- The prefills that looked a prompt up and found a part of it. -/
def prefixHits (works : List PrefillWork) : Nat :=
  works.countP fun work => work.prefixLookupKind ≠ .disabled ∧ 0 < work.matchedPrefixTokenCount

/-- The prefills that looked a prompt up and found nothing. -/
def prefixMisses (works : List PrefillWork) : Nat :=
  works.countP fun work => work.prefixLookupKind ≠ .disabled ∧ work.matchedPrefixTokenCount = 0

/-- The prompt tokens of some prefills. -/
def originalTokens (works : List PrefillWork) : Nat :=
  (works.map (·.originalPromptTokenCount)).sum

/-- What the lookups of some prefills add to the metrics of a manager. -/
structure LookedUp (works : List PrefillWork) (before after : PrefixCacheMetrics) : Prop where
  hits : after.cacheHitLookupCount = before.cacheHitLookupCount + prefixHits works
  misses : after.cacheMissLookupCount = before.cacheMissLookupCount + prefixMisses works
  eligible : after.totalCacheEligiblePromptTokensLookedUp ≤
    before.totalCacheEligiblePromptTokensLookedUp + originalTokens works

/-- A prefill is billed for its hit or its miss as its work shows it. -/
theorem billed_lookup {cache : KVCacheManager} (sound : cache.Sound)
    (setup : cache.prefixConfig = engine.config.prefixCacheConfig)
    (isPrefill : candidate.isPrefill = true)
    (demands : engine.Demands cache candidate request demand) :
    LookedUp [prefillWorkOf cache candidate request demand] cache.prefixMetrics
      (engine.billed cache request demand.lookup) := by
  suffices looked : ∀ work : PrefillWork, work.prefixLookupKind = demand.lookup.kind →
      work.matchedPrefixTokenCount = demand.lookup.matchedTokenCount →
      work.originalPromptTokenCount = request.promptLength →
      LookedUp [work] cache.prefixMetrics (engine.billed cache request demand.lookup) from
    looked _ rfl rfl rfl
  intro work kind matched original
  unfold billed
  cases demands with
  | @exact tokens lookup _ exact current spec _ =>
      have enabled := setup ▸ (cachedTokens?_eq_some exact).1
      obtain ⟨-, eligible, named⟩ :=
        (findLongestCachedPrefixIn_ensures sound.valid enabled).of_eq_ok current
      have looked : lookup.kind ≠ .disabled := by
        rw [named]
        unfold lookupKind
        split_ifs <;> simp
      have size := cache.config.blockSize_pos
      have none : lookup.matchedTokenCount = 0 ↔ lookup.matchedBlockCount = 0 := by
        rw [spec.matchedTokens, spec.blocks, Nat.mul_eq_zero]
        omega
      have counted : lookup.eligibleTokenCount ≤ work.originalPromptTokenCount := by
        rw [eligible, original, request.promptLength_eq_length (cachedTokens?_eq_some exact).2]
        exact Nat.div_mul_le_self ..
      rw [exact]
      unfold acquiredMetrics
      by_cases missed : lookup.matchedBlockCount = 0
      · constructor <;>
          simp [prefixHits, prefixMisses, originalTokens, kind, matched, looked, missed,
            none.mpr missed, counted]
      · constructor <;>
          simp [prefixHits, prefixMisses, originalTokens, kind, matched, looked, missed,
            mt none.mp missed, Nat.pos_of_ne_zero (mt none.mp missed), counted]
  | count _ none =>
      rw [none]
      constructor <;> simp [prefixHits, prefixMisses, kind]
  | decode isDecode =>
      rw [isPrefill] at isDecode
      cases isDecode

namespace LookedUp

variable {works more : List PrefillWork} {before between after : PrefixCacheMetrics}

theorem none (metrics : PrefixCacheMetrics) : LookedUp [] metrics metrics := ⟨rfl, rfl, le_rfl⟩

theorem append (first : LookedUp works before between) (second : LookedUp more between after) :
    LookedUp (works ++ more) before after := by
  have hits : prefixHits (works ++ more) = prefixHits works + prefixHits more :=
    List.countP_append
  have misses : prefixMisses (works ++ more) = prefixMisses works + prefixMisses more :=
    List.countP_append
  constructor
  · rw [second.hits, first.hits, hits, Nat.add_assoc]
  · rw [second.misses, first.misses, misses, Nat.add_assoc]
  · have sums : originalTokens (works ++ more) = originalTokens works + originalTokens more := by
      unfold originalTokens
      rw [List.map_append, List.sum_append]
    have left := first.eligible
    have right := second.eligible
    omega

end LookedUp

/-- The manager of a builder counts the lookups of the work on its trail. -/
theorem Trail.lookedUp (trail : engine.Trail arrived consumed builder) (coherent : engine.Coherent) :
    LookedUp builder.prefills engine.kvCache.prefixMetrics builder.cache.prefixMetrics := by
  induction trail with
  | start => exact .none _
  | @step consumed builder next candidate request trail describes fresh decided ih =>
      cases decided with
      | deferred => exact ih
      | @prefill demand cache isPrefill demands _ _ effect _ =>
          obtain ⟨_, _, _, _, _, _, _, metrics⟩ := prefill_served isPrefill demands effect
          have ready := trail.ready coherent describes fresh
          refine ih.append ?_
          have billed := billed_lookup ready.sound ready.prefixConfig isPrefill demands
          change LookedUp _ _ cache.prefixMetrics
          rw [metrics]
          exact ⟨billed.hits, billed.misses, billed.eligible⟩
      | @decode demand cache isDecode demands _ _ effect _ =>
          obtain ⟨victims, fresh', appended, rfl, -⟩ := decode_appended isDecode demands effect
          change LookedUp _ _ cache.prefixMetrics
          rw [appended.metrics]
          exact ⟨ih.hits, ih.misses, ih.eligible⟩

/-- The prefills of the trace. -/
def prefills (engine : ContinuousBatchingEngine) : List PrefillWork :=
  engine.planTrace.flatMap fun entry => entry.plan.prefillWork

/-- The lookups that the manager has counted are those of the trace. -/
def Looked (engine : ContinuousBatchingEngine) : Prop :=
  LookedUp engine.prefills {} engine.kvCache.prefixMetrics

/-- A step counts one lookup for each prefill that it schedules. -/
theorem Moved.looked (moved : engine.Moved next) (coherent : engine.Coherent)
    (looked : engine.Looked) : next.Looked := by
  cases moved with
  | submitted | halted => exact looked
  | @cancelled _ _ cache _ _ _ passes =>
      have metrics := passes.metrics_eq coherent.sound fun event member => by
        split at member
        · rw [List.mem_singleton.mp member]
          exact True.intro
        · cases member
      change LookedUp _ _ cache.prefixMetrics
      rw [metrics]
      exact looked
  | iterated _ iterated =>
      rcases iterated.committed coherent with rfl | ⟨_, _, _, trail, _, committed⟩
      · exact looked
      · unfold Looked prefills
        rw [committed.prefixMetrics_eq trail coherent, committed.planTrace_eq,
          List.flatMap_append, List.flatMap_singleton]
        exact looked.append (trail.lookedUp coherent)

/-! ## The entries of the trace -/

/-- The figures of a trace entry fit together. -/
structure EntrySound (config : ContinuousBatchingConfig) (entry : BatchTraceEntry) : Prop where
  start : 0 ≤ entry.startTimestampUs
  forward : entry.startTimestampUs ≤ entry.endTimestampUs
  policy : entry.policy = config.schedulingPolicy
  blocks : entry.allocatedKvBlocks + entry.freeKvBlocks = config.kvCacheConfig.totalNumBlocks
  slots : entry.representedKvTokens + entry.internalFragmentationTokens =
    entry.allocatedKvBlocks * config.kvCacheConfig.blockSizeTokens
  cached : entry.cachedKvBlocks ≤ entry.allocatedKvBlocks
  shared : entry.referencedSharedKvBlocks ≤ entry.allocatedKvBlocks
  evictions : entry.plan.plannedEvictionIds.Nodup
  prefills : entry.plan.prefillRequestIds = entry.plan.prefillWork.map (·.requestId)
  decodeTokens : entry.plan.totalDecodeTokens = entry.plan.decodeRequestIds.length
  prefillTokens : entry.plan.totalPrefillTokens =
    (entry.plan.prefillWork.map (·.promptTokenCount)).sum
  tokens : entry.plan.totalScheduledTokens =
    entry.plan.totalPrefillTokens + entry.plan.totalDecodeTokens
  sequences : entry.plan.scheduledSequenceCount ≤ config.maxNumSequences

/-- The trace entry of a committed plan is sound. -/
theorem Committed.entrySound (trail : engine.Trail arrived consumed builder)
    (coherent : engine.Coherent) (nonneg : 0 ≤ engine.nowUs)
    (committed : engine.Committed arrived builder endTimestampUs next) (after : next.Coherent) :
    EntrySound engine.config (engine.entryOf (builder.plan engine.nextIterationNumber)
      endTimestampUs next.kvCache) := by
  have sound := after.sound
  have same : next.kvCache.config = engine.config.kvCacheConfig := by
    rw [after.setup.config, committed.config_eq]
    rfl
  exact {
    start := nonneg
    forward := committed.forward
    policy := rfl
    blocks := same ▸ sound.allocated_add_free
    slots := same ▸ sound.represented_add_fragmentation
    cached := sound.cachedBlockCount_le
    shared := sound.referencedSharedBlockCount_le
    evictions := (trail.roles coherent).evictions_nodup
    prefills := rfl
    decodeTokens := rfl
    prefillTokens := rfl
    tokens := rfl
    sequences := (plan_scheduledSequenceCount trail.planned _).trans_le (by
      have count := trail.planned.scheduled.length_eq
      rw [List.length_append, List.length_map, List.length_map] at count
      exact count ▸ trail.planned.sequences) }

/-- The gauges of an entry are those of the manager. -/
structure Gauges (entry : BatchTraceEntry) (cache : KVCacheManager) : Prop where
  allocated : entry.allocatedKvBlocks = cache.allocatedBlockCount
  free : entry.freeKvBlocks = cache.freeBlocks.size
  represented : entry.representedKvTokens = cache.representedTokenCount
  fragmentation : entry.internalFragmentationTokens = cache.internalFragmentationTokens
  cached : entry.cachedKvBlocks = cache.cachedBlockCount
  shared : entry.referencedSharedKvBlocks = cache.referencedSharedBlockCount

/-- The entries of a trace are sound, and where nothing has been cancelled the last one, or else a
new engine, shows the manager. -/
structure Shown (engine : ContinuousBatchingEngine) : Prop where
  nonneg : 0 ≤ engine.nowUs
  entries : ∀ entry ∈ engine.planTrace, EntrySound engine.config entry
  empty : engine.statistics.cancelledRequestCount = 0 → engine.planTrace = [] →
    engine.kvCache = .create engine.config.kvCacheConfig engine.config.prefixCacheConfig
      stableTokenBlockHash
  last : engine.statistics.cancelledRequestCount = 0 → ∀ entry,
    engine.planTrace.getLast? = some entry → Gauges entry engine.kvCache

/-- A step appends a sound entry that shows the manager it leaves. -/
theorem Moved.shown (moved : engine.Moved next) (coherent : engine.Coherent)
    (shown : engine.Shown) : next.Shown := by
  cases moved with
  | submitted | halted => exact ⟨shown.nonneg, shown.entries, shown.empty, shown.last⟩
  | cancelled =>
      exact ⟨shown.nonneg, shown.entries, fun none => absurd none (Nat.succ_ne_zero _),
        fun none => absurd none (Nat.succ_ne_zero _)⟩
  | iterated _ iterated =>
      have after := iterated.coherent coherent
      rcases iterated.committed coherent with rfl | ⟨_, _, _, trail, _, committed⟩
      · exact shown
      · have sound := committed.entrySound trail coherent shown.nonneg after
        refine ⟨?_, fun entry member => ?_, fun _ none => ?_, fun _ entry found => ?_⟩
        · rw [committed.nowUs_eq]
          exact shown.nonneg.trans committed.forward
        · rw [committed.config_eq]
          rw [committed.planTrace_eq] at member
          rcases List.mem_append.mp member with old | new
          · exact shown.entries entry old
          · rw [List.mem_singleton.mp new]
            exact sound
        · rw [committed.planTrace_eq] at none
          exact absurd none (by simp)
        · rw [committed.planTrace_eq, List.getLast?_concat] at found
          obtain rfl := Option.some.inj found
          exact ⟨rfl, rfl, rfl, rfl, rfl, rfl⟩

/-- Every prefill of the trace accounts for the whole prompt of a request. -/
def Charged (engine : ContinuousBatchingEngine) : Prop :=
  ∀ entry ∈ engine.planTrace, ∀ work ∈ entry.plan.prefillWork,
    ∃ request, engine.requests.find? work.requestId = some request ∧
      work.matchedPrefixTokenCount + work.promptTokenCount = request.promptLength

/-- A step schedules what its lookup has not matched of a prompt. -/
theorem Moved.charged (moved : engine.Moved next) (coherent : engine.Coherent)
    (charged : engine.Charged) : next.Charged := by
  cases moved with
  | @submitted request _ _ _ _ fresh =>
      intro entry member work listed
      obtain ⟨old, found, split⟩ := charged entry member work listed
      refine ⟨old, (OrdMap.find?_insert ..).trans ?_, split⟩
      rw [if_neg fun same => ?_, found]
      rw [same, fresh] at found
      cases found
  | @cancelled id request _ _ found =>
      intro entry member work listed
      obtain ⟨old, present, split⟩ := charged entry member work listed
      by_cases same : work.requestId = id
      · rw [same, found] at present
        obtain rfl := Option.some.inj present
        exact ⟨_, (OrdMap.find?_insert ..).trans (if_pos same), split⟩
      · exact ⟨old, (OrdMap.find?_insert ..).trans ((if_neg same).trans present), split⟩
  | iterated _ iterated =>
      rcases iterated.committed coherent with rfl | ⟨_, builder, endUs, trail, _, committed⟩
      · exact charged
      · intro entry member work listed
        have before : ∃ request, engine.requests.find? work.requestId = some request ∧
            work.matchedPrefixTokenCount + work.promptTokenCount = request.promptLength := by
          rw [committed.planTrace_eq] at member
          rcases List.mem_append.mp member with old | new
          · exact charged entry old work listed
          · rw [List.mem_singleton.mp new] at listed
            obtain ⟨request, found, -, split⟩ := trail.planned.prompts work listed
            exact ⟨request, found, split⟩
        obtain ⟨request, found, split⟩ := before
        refine ⟨_, (committed.requests _).trans (congrArg _ found), split.trans ?_⟩
        exact (Request.promptLength_congr _ (advance_prompt ..)).symm
  | halted => exact charged

/-! ## Counters and times that fit -/

/-- The counters that the writer adds up again, and all times, fit their types. -/
structure Bounded (engine : ContinuousBatchingEngine) : Prop where
  prompts : engine.statistics.totalOriginalPromptTokens ≤ uint64Max
  decodes : engine.statistics.totalDecodeTokensScheduled ≤ uint64Max
  sequences : engine.statistics.totalScheduledSequences ≤ uint64Max
  arrivals : ∀ id request, engine.requests.find? id = some request →
    request.arrivalTimeUs ≤ int64Max
  clock : engine.nowUs ≤ int64Max

/-- A checked sum of prompt totals fits. -/
theorem foldlM_addPromptTotals_fits {works : List PrefillWork}
    {statistics result : ContinuousBatchingStatistics}
    (fits : statistics.totalOriginalPromptTokens ≤ uint64Max)
    (summed : works.foldlM addPromptTotals statistics = .ok result) :
    result.totalOriginalPromptTokens ≤ uint64Max := by
  induction works generalizing statistics with
  | nil =>
      obtain rfl := Except.ok.inj summed
      exact fits
  | cons work works ih =>
      rw [List.foldlM_cons] at summed
      obtain ⟨counted, added, rest⟩ := except_bind_eq_ok.mp summed
      obtain ⟨original, first, added⟩ := except_bind_eq_ok.mp added
      obtain ⟨matched, -, added⟩ := except_bind_eq_ok.mp added
      obtain rfl := Except.ok.inj added
      obtain ⟨rfl, sum⟩ := (add_ensures _ _ _).of_eq_ok first
      exact ih sum rest

/-- Statistics that are prepared have added their sums by `checked_add`. -/
theorem prepareStatistics_fits {plan : BatchPlan} {completed : Nat} {cache : KVCacheManager}
    {statistics : ContinuousBatchingStatistics}
    (fits : engine.statistics.totalOriginalPromptTokens ≤ uint64Max)
    (prepared : engine.prepareStatistics plan completed cache = .ok statistics) :
    statistics.totalOriginalPromptTokens ≤ uint64Max ∧
      statistics.totalDecodeTokensScheduled ≤ uint64Max ∧
      statistics.totalScheduledSequences ≤ uint64Max := by
  have same := (prepareStatistics_ensures plan completed cache).of_eq_ok prepared
  unfold prepareStatistics at prepared
  obtain ⟨counted, kind, prepared⟩ := except_bind_eq_ok.mp prepared
  obtain rfl := (countIteration_ensures _ _).of_eq_ok kind
  obtain ⟨prefills, -, prepared⟩ := except_bind_eq_ok.mp prepared
  obtain ⟨decodes, added, prepared⟩ := except_bind_eq_ok.mp prepared
  obtain ⟨sequences, counted, prepared⟩ := except_bind_eq_ok.mp prepared
  obtain ⟨deferrals, -, prepared⟩ := except_bind_eq_ok.mp prepared
  obtain ⟨capacity, -, prepared⟩ := except_bind_eq_ok.mp prepared
  obtain ⟨kvTotal, -, prepared⟩ := except_bind_eq_ok.mp prepared
  obtain ⟨completedTotal, -, prepared⟩ := except_bind_eq_ok.mp prepared
  obtain ⟨totals, summed, prepared⟩ := except_bind_eq_ok.mp prepared
  obtain ⟨-, bound⟩ := (add_ensures _ _ _).of_eq_ok added
  obtain ⟨-, sequencesBound⟩ := (add_ensures _ _ _).of_eq_ok counted
  refine ⟨?_, ?_, ?_⟩
  · obtain rfl := Except.ok.inj prepared
    change totals.totalOriginalPromptTokens ≤ uint64Max
    exact foldlM_addPromptTotals_fits (by exact fits) summed
  · rw [same]
    exact bound
  · rw [same]
    exact sequencesBound

/-- An iteration that is prepared has bounded totals and ends at a time that fits. -/
theorem prepareIteration_fits {plan : BatchPlan} {timeValueUs : Int} {isDuration : Bool}
    {prepared : PreparedIteration} (bounded : engine.Bounded)
    (fits : isDuration = false → timeValueUs ≤ int64Max)
    (result : engine.prepareIteration plan arrived timeValueUs isDuration = .ok prepared) :
    prepared.statistics.totalOriginalPromptTokens ≤ uint64Max ∧
      prepared.statistics.totalDecodeTokensScheduled ≤ uint64Max ∧
      prepared.statistics.totalScheduledSequences ≤ uint64Max ∧ prepared.nowUs ≤ int64Max := by
  unfold prepareIteration at result
  obtain ⟨replayed, -, result⟩ := except_bind_eq_ok.mp result
  obtain ⟨published, -, result⟩ := except_bind_eq_ok.mp result
  obtain ⟨endUs, ends, result⟩ := except_bind_eq_ok.mp result
  obtain ⟨_, -, result⟩ := except_bind_eq_ok.mp result
  obtain ⟨⟨updates, completed⟩, -, result⟩ := except_bind_eq_ok.mp result
  obtain ⟨cache, -, result⟩ := except_bind_eq_ok.mp result
  obtain ⟨statistics, summed, result⟩ := except_bind_eq_ok.mp result
  obtain ⟨number, -, result⟩ := except_bind_eq_ok.mp result
  obtain rfl := Except.ok.inj result
  obtain ⟨prompts, decodes, sequences⟩ := prepareStatistics_fits bounded.prompts summed
  refine ⟨prompts, decodes, sequences, ?_⟩
  unfold endTimestamp at ends
  split at ends
  · exact checkedAdd_le bounded.clock ends
  · next given =>
      obtain rfl := Except.ok.inj ends
      exact fits (by simpa using given)

/-- A finished iteration keeps the counters and times within their types. -/
theorem iterate_bounded (coherent : engine.Coherent) (bounded : engine.Bounded)
    {outcome : IterationOutcome} (ran : engine.iterate = .ok (outcome, next)) : next.Bounded := by
  have arrivals : ∀ id request, next.requests.find? id = some request →
      request.arrivalTimeUs ≤ int64Max := fun id request found => by
    rcases ((iterate_ensures coherent).of_eq_ok ran).committed coherent with
      same | ⟨_, builder, endUs, _, _, committed⟩
    · exact bounded.arrivals id request (same ▸ found)
    · rw [committed.requests] at found
      obtain ⟨old, present, rfl⟩ := Option.map_eq_some_iff.mp found
      rw [advance_arrivalTimeUs]
      exact bounded.arrivals id old present
  have prepares : ∀ {plan timeValueUs isDuration} {prepared : PreparedIteration},
      (isDuration = false → timeValueUs ≤ int64Max) →
      engine.prepareIteration plan engine.arrivalsAtCurrentTimestamp timeValueUs isDuration =
        .ok prepared → next = engine.commitIteration prepared → next.Bounded :=
    fun fits result same => by
      obtain ⟨prompts, decodes, sequences, clock⟩ := prepareIteration_fits bounded fits result
      refine ⟨?_, ?_, ?_, arrivals, ?_⟩
      · rw [same]
        exact prompts
      · rw [same]
        exact decodes
      · rw [same]
        exact sequences
      · rw [same]
        exact clock
  unfold iterate at ran
  simp only at ran
  split at ran
  · have future := @nextFutureArrival_spec engine engine.arrivalsAtCurrentTimestamp
    split at ran
    · obtain ⟨-, rfl⟩ := Prod.mk.inj (Except.ok.inj ran)
      exact bounded
    · next time ahead =>
        obtain ⟨prepared, result, ran⟩ := except_bind_eq_ok.mp ran
        rw [ahead] at future
        obtain ⟨⟨id, request, found, -, same⟩, -⟩ := future
        exact prepares (fun _ => same ▸ bounded.arrivals id request found) result
          (Prod.mk.inj (Except.ok.inj ran)).2.symm
  · obtain ⟨plan, -, ran⟩ := except_bind_eq_ok.mp ran
    split at ran
    · obtain ⟨prepared, result, ran⟩ := except_bind_eq_ok.mp ran
      exact prepares (fun _ => bounded.clock) result (Prod.mk.inj (Except.ok.inj ran)).2.symm
    · obtain ⟨duration, -, ran⟩ := except_bind_eq_ok.mp ran
      obtain ⟨prepared, result, ran⟩ := except_bind_eq_ok.mp ran
      exact prepares (fun counted => by cases counted) result
        (Prod.mk.inj (Except.ok.inj ran)).2.symm

/-! ## Every reachable state -/

/-- What the records of a run need of the engine that they are written from. -/
structure Recorded (engine : ContinuousBatchingEngine) : Prop where
  looked : engine.Looked
  shown : engine.Shown
  charged : engine.Charged

theorem reach_recorded (backend : SimulatedBackend) (config : ContinuousBatchingConfig)
    (calls : List EngineCall) : (reach backend config calls).Recorded :=
  (reach_invariant backend config calls
    ⟨.none _, ⟨le_rfl, nofun, fun _ _ => rfl, nofun⟩, nofun⟩
    fun coherent recorded moved => ⟨moved.looked coherent recorded.looked,
      moved.shown coherent recorded.shown, moved.charged coherent recorded.charged⟩).2

end ContinuousBatchingEngine

end LlmLab.Serving
