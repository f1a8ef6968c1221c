import LlmLab.Serving.KVCache.Inert
import LlmLab.Serving.ContinuousBatching.Safety

/-!
# The prefix cache is neutral where it cannot act

Two engines run side by side: the same calls, except that prompts may be given in another form of
the same length and that the prefix cache may be configured differently.  As long as no prompt of
either run goes through the cache, the two engines answer alike and stay one engine, up to the
form of the prompts and the configuration.
-/

namespace LlmLab.Serving

open KVCacheManager

/-- A change of the form of every prompt, and another prefix configuration. -/
structure Variation where
  prompt : Prompt → Prompt
  prefixCacheConfig : PrefixCacheConfig
  length : ∀ request : Request,
    Request.promptLength { request with prompt := prompt request.prompt } = request.promptLength

namespace Variation

variable (variation : Variation)

/-- The request with its prompt in the other form. -/
def request (request : Request) : Request :=
  { request with prompt := variation.prompt request.prompt }

/-- The configuration with the other prefix configuration. -/
def config (config : ContinuousBatchingConfig) : ContinuousBatchingConfig :=
  { config with prefixCacheConfig := variation.prefixCacheConfig }

/-- The engine with every prompt in the other form and the other prefix configuration. -/
def engine (engine : ContinuousBatchingEngine) : ContinuousBatchingEngine :=
  { engine with
    config := variation.config engine.config
    requests := engine.requests.mapValues variation.request
    kvCache := engine.kvCache.withPrefixConfig variation.prefixCacheConfig }

/-- The call with every prompt in the other form. -/
def call : EngineCall → EngineCall
  | .submitRequest request => .submitRequest (variation.request request)
  | .cancelRequest requestId => .cancelRequest requestId
  | .runNextIteration => .runNextIteration
  | .run => .run

/-- The prompt goes through the cache on neither side. -/
structure Spares (config : ContinuousBatchingConfig) (request : Request) : Prop where
  own : config.prefixCacheConfig.enabled = false ∨ request.promptTokens? = none
  varied : variation.prefixCacheConfig.enabled = false ∨
    (variation.request request).promptTokens? = none

/-- A request within the token budget that spares the cache, and the same request varied. -/
structure Relates (config : ContinuousBatchingConfig) (request request' : Request) : Prop where
  spares : variation.Spares config request
  fits : request.promptLength ≤ config.maxBatchedTokens
  eq : request' = variation.request request

variable {variation} {config : ContinuousBatchingConfig} {request request' : Request}

theorem promptLength_request (variation : Variation) (request : Request) :
    (variation.request request).promptLength = request.promptLength :=
  variation.length request

/-- Only the prompts change when the engine has the configuration already. -/
theorem engine_of_same {engine : ContinuousBatchingEngine}
    (config : variation.config engine.config = engine.config)
    (cache : engine.kvCache.withPrefixConfig variation.prefixCacheConfig = engine.kvCache) :
    variation.engine engine =
      { engine with requests := engine.requests.mapValues variation.request } := by
  rw [Variation.engine, config, cache]

/-- An update that leaves the prompt as it is. -/
theorem Relates.update {updated : Request} (relates : variation.Relates config request request')
    (prompt : updated.prompt = request.prompt) :
    variation.Relates config updated (variation.request updated) := by
  have tokens : updated.promptTokens? = request.promptTokens? := by
    rw [Request.promptTokens?, prompt, Request.promptTokens?]
  have varied : (variation.request updated).promptTokens? =
      (variation.request request).promptTokens? := by
    rw [Request.promptTokens?, Variation.request, prompt, Request.promptTokens?, Variation.request]
  have length : updated.promptLength = request.promptLength := by
    rw [Request.promptLength, prompt, Request.promptLength]
  exact ⟨⟨tokens ▸ relates.spares.own, varied ▸ relates.spares.varied⟩, length ▸ relates.fits, rfl⟩

theorem Relates.transitionTo (relates : variation.Relates config request request')
    (state : RequestState) :
    Twin (variation.Relates config) (request.transitionTo state) (request'.transitionTo state) := by
  have updated := @Relates.update variation config request request' { request with state } relates rfl
  obtain ⟨spares, fits, rfl⟩ := relates
  exact Twin.throwIf_bind Iff.rfl fun _ => Twin.throwIf_bind Iff.rfl fun _ => .ok updated

end Variation

namespace ContinuousBatchingEngine

variable {variation : Variation} {engine other : ContinuousBatchingEngine} {id : RequestId}

/-- An engine whose prompts stay away from the cache, and the same engine varied. -/
structure Varied (variation : Variation) (engine other : ContinuousBatchingEngine) : Prop where
  cache : Recast engine.config.prefixCacheConfig variation.prefixCacheConfig engine.kvCache
    other.kvCache
  requests : ∀ id request, engine.requests.find? id = some request →
    variation.Relates engine.config request (variation.request request)
  eq : other = variation.engine engine

theorem create_varied (variation : Variation) (backend : SimulatedBackend)
    (config : ContinuousBatchingConfig) :
    Varied variation (create backend config) (create backend (variation.config config)) where
  cache := create_recast ..
  requests := fun _ _ found => nomatch found
  eq := rfl

namespace Varied

open Variation (promptLength_request)

/-! ## Reading the state -/

theorem requestAt (varied : Varied variation engine other) (id : RequestId) :
    Twin (variation.Relates engine.config) (engine.requestAt id) (other.requestAt id) := by
  have find : other.requests.find? id = (engine.requests.find? id).map variation.request := by
    rw [varied.eq]
    exact OrdMap.find?_mapValues ..
  unfold ContinuousBatchingEngine.requestAt
  rw [find]
  cases found : engine.requests.find? id with
  | none => exact .error _
  | some request => exact .ok (varied.requests id request found)

theorem cachedTokens?_eq {request : Request} (spares : variation.Spares engine.config request) :
    engine.cachedTokens? request = none := by
  unfold cachedTokens?
  rcases spares.own with off | countOnly
  · rw [off]
    rfl
  · rw [countOnly, ite_self]

theorem cachedTokens?_varied (varied : Varied variation engine other) {request : Request}
    (spares : variation.Spares engine.config request) :
    other.cachedTokens? (variation.request request) = none := by
  rw [varied.eq]
  unfold cachedTokens?
  rcases spares.varied with off | countOnly
  · exact if_neg (by simpa [Variation.engine, Variation.config] using off)
  · rw [countOnly, ite_self]

theorem arrivals_eq (varied : Varied variation engine other) :
    other.arrivalsAtCurrentTimestamp = engine.arrivalsAtCurrentTimestamp := by
  rw [varied.eq]
  unfold arrivalsAtCurrentTimestamp Variation.engine
  rw [OrdMap.mapValues_entries, List.filterMap_map]
  rfl

theorem hasRunnableWork_eq (varied : Varied variation engine other) (arrived : OrdSet RequestId) :
    other.hasRunnableWork arrived = engine.hasRunnableWork arrived := by
  rw [varied.eq]
  unfold hasRunnableWork Variation.engine
  rw [OrdMap.mapValues_entries, List.any_map]
  rfl

theorem nextFutureArrival_eq (varied : Varied variation engine other)
    (arrived : OrdSet RequestId) :
    other.nextFutureArrival arrived = engine.nextFutureArrival arrived := by
  rw [varied.eq]
  unfold nextFutureArrival Variation.engine
  rw [OrdMap.mapValues_entries, List.foldl_map]
  rfl

theorem orderedCandidates_eq (varied : Varied variation engine other)
    (arrived : OrdSet RequestId) :
    other.orderedCandidates arrived = engine.orderedCandidates arrived := by
  have candidates : other.runnableCandidates arrived = engine.runnableCandidates arrived := by
    rw [varied.eq]
    unfold runnableCandidates Variation.engine
    rw [OrdMap.mapValues_entries, List.filter_map, List.map_map]
    rfl
  unfold orderedCandidates
  rw [candidates, varied.eq]
  rfl

/-! ## Planning -/

/-- A candidate demands the same in both engines. -/
theorem demandOf (varied : Varied variation engine other) {cache cache' : KVCacheManager}
    (recast : Recast engine.config.prefixCacheConfig variation.prefixCacheConfig cache cache')
    (candidate : Candidate) {request : Request} (spares : variation.Spares engine.config request)
    (fits : request.promptLength ≤ engine.config.maxBatchedTokens) :
    other.demandOf cache' candidate (variation.request request) =
      engine.demandOf cache candidate request := by
  have config : cache'.config = cache.config := by
    rw [recast.eq]
    rfl
  have tokens : other.config.maxBatchedTokens = engine.config.maxBatchedTokens := by
    rw [varied.eq]
    rfl
  have within : ¬ engine.config.maxBatchedTokens < request.promptLength := not_lt.mpr fits
  unfold ContinuousBatchingEngine.demandOf
  split
  · unfold lookupPrefix
    rw [cachedTokens?_eq spares, varied.cachedTokens?_varied spares, promptLength_request, tokens,
      config]
    simp only [except_ok_bind, gt_iff_lt, within, false_and]
  · rw [recast.decodeRequiresNewBlock_eq]

theorem allocatePrefill (varied : Varied variation engine other) {cache cache' : KVCacheManager}
    (recast : Recast engine.config.prefixCacheConfig variation.prefixCacheConfig cache cache')
    {request : Request} (spares : variation.Spares engine.config request) (id : RequestId)
    (lookup lookup' : PrefixLookupResult) (evicted allocated : List Nat) :
    Twin (Recast engine.config.prefixCacheConfig variation.prefixCacheConfig)
      (engine.allocatePrefill cache request id lookup evicted allocated)
      (other.allocatePrefill cache' (variation.request request) id lookup' evicted allocated) := by
  unfold ContinuousBatchingEngine.allocatePrefill
  rw [cachedTokens?_eq spares, varied.cachedTokens?_varied spares, promptLength_request]
  exact recast.allocatePromptExact id request.promptLength evicted allocated

/-- Builders that differ in the configuration of their managers only. -/
structure Builders (variation : Variation) (engine : ContinuousBatchingEngine)
    (builder builder' : PlanBuilder) : Prop where
  cache : Recast engine.config.prefixCacheConfig variation.prefixCacheConfig builder.cache
    builder'.cache
  eq : builder' =
    { builder with cache := builder.cache.withPrefixConfig variation.prefixCacheConfig }

theorem deferralReason_eq (varied : Varied variation engine other) {builder builder' : PlanBuilder}
    (builders : Builders variation engine builder builder') (candidate : Candidate)
    (demand : Demand) :
    other.deferralReason builder' candidate demand =
      engine.deferralReason builder candidate demand := by
  rw [varied.eq, builders.eq]
  rfl

theorem prefillWorkOf_request (variation : Variation) (cache : KVCacheManager)
    (candidate : Candidate) (request : Request) (demand : Demand) :
    prefillWorkOf cache candidate (variation.request request) demand =
      prefillWorkOf cache candidate request demand := by
  rw [prefillWorkOf, promptLength_request, prefillWorkOf]

theorem schedule (varied : Varied variation engine other) {builder builder' : PlanBuilder}
    (builders : Builders variation engine builder builder') (candidate : Candidate)
    {request : Request} (spares : variation.Spares engine.config request) (demand : Demand) :
    Twin (Builders variation engine) (engine.schedule builder candidate request demand)
      (other.schedule builder' candidate (variation.request request) demand) := by
  obtain ⟨recast, rfl⟩ := builders
  unfold ContinuousBatchingEngine.schedule
  rw [prefillWorkOf_request]
  split
  · refine (varied.allocatePrefill recast spares ..).bind fun cache cache' recast => ?_
    obtain ⟨inert, own, rfl⟩ := recast
    exact .ok ⟨⟨inert, own, rfl⟩, rfl⟩
  · refine (recast.appendDecodeTokenExact ..).bind fun cache cache' recast => ?_
    obtain ⟨inert, own, rfl⟩ := recast
    exact .ok ⟨⟨inert, own, rfl⟩, rfl⟩

theorem planCandidate (varied : Varied variation engine other) {builder builder' : PlanBuilder}
    (builders : Builders variation engine builder builder') (candidate : Candidate) :
    Twin (Builders variation engine) (engine.planCandidate builder candidate)
      (other.planCandidate builder' candidate) := by
  unfold ContinuousBatchingEngine.planCandidate
  refine (varied.requestAt _).bind fun request request' alike => ?_
  obtain ⟨spares, fits, rfl⟩ := alike
  rw [varied.demandOf builders.cache candidate spares fits]
  refine Twin.bind_same fun demand => ?_
  rw [varied.deferralReason_eq builders]
  cases engine.deferralReason builder candidate demand with
  | none => exact varied.schedule builders candidate spares demand
  | some reason =>
      obtain ⟨recast, rfl⟩ := builders
      exact .ok ⟨recast, rfl⟩

theorem finish_eq {builder builder' : PlanBuilder}
    (builders : Builders variation engine builder builder') (iterationNumber : Nat) :
    builder'.finish (variation.config engine.config) iterationNumber =
      builder.finish engine.config iterationNumber := by
  rw [builders.eq]
  rfl

/-- Both engines make the same plan. -/
theorem buildPlan_eq (varied : Varied variation engine other) (iterationNumber : Nat)
    (arrived : OrdSet RequestId) :
    other.buildPlan iterationNumber arrived = engine.buildPlan iterationNumber arrived := by
  unfold buildPlan buildFromCandidates
  rw [varied.orderedCandidates_eq]
  have start : Builders variation engine { cache := engine.kvCache } { cache := other.kvCache } :=
    ⟨varied.cache, by rw [varied.eq]; rfl⟩
  have folded : Twin (Builders variation engine)
      ((engine.orderedCandidates arrived).foldlM engine.planCandidate { cache := engine.kvCache })
      ((engine.orderedCandidates arrived).foldlM other.planCandidate { cache := other.kvCache }) :=
    Twin.foldlM start fun _ _ candidate _ builders => varied.planCandidate builders candidate
  have config : other.config = variation.config engine.config := by
    rw [varied.eq]
    rfl
  refine (Twin.bind folded fun builder builder' builders => ?_).eq.symm
  rw [config, finish_eq builders]
  exact Twin.same _

/-! ## Preparing an iteration -/

/-- Work is replayed alike. -/
theorem replayItem (varied : Varied variation engine other) {cache cache' : KVCacheManager}
    (recast : Recast engine.config.prefixCacheConfig variation.prefixCacheConfig cache cache')
    (plan : BatchPlan) (item : PlannedWorkItem) :
    Twin (Recast engine.config.prefixCacheConfig variation.prefixCacheConfig)
      (engine.replayItem plan cache item) (other.replayItem plan cache' item) := by
  unfold ContinuousBatchingEngine.replayItem
  split
  · split
    · exact .error _
    · next work found =>
        refine (varied.requestAt _).bind fun request request' alike => ?_
        obtain ⟨spares, fits, rfl⟩ := alike
        exact varied.allocatePrefill recast spares ..
  · split
    · exact .error _
    · exact recast.appendDecodeTokenExact ..

/-- Neither side publishes anything. -/
theorem publishWork (varied : Varied variation engine other) {cache cache' : KVCacheManager}
    (recast : Recast engine.config.prefixCacheConfig variation.prefixCacheConfig cache cache')
    (work : PrefillWork) :
    Twin (Recast engine.config.prefixCacheConfig variation.prefixCacheConfig)
      (engine.publishWork cache work) (other.publishWork cache' work) := by
  unfold ContinuousBatchingEngine.publishWork
  refine (varied.requestAt _).bind fun request request' alike => ?_
  obtain ⟨spares, fits, rfl⟩ := alike
  have own : ¬ (cache.prefixConfig.enabled = true ∧ request.promptTokens?.isSome = true) := by
    rw [recast.own]
    rcases spares.own with off | countOnly
    · simp [off]
    · simp [countOnly]
  have other : ¬ (cache'.prefixConfig.enabled = true ∧
      (variation.request request).promptTokens?.isSome = true) := by
    rw [recast.eq]
    rcases spares.varied with off | countOnly
    · simp [withPrefixConfig, off]
    · simp [countOnly]
  rw [if_neg fun all => own ⟨all.1, all.2.1⟩, if_neg fun all => other ⟨all.1, all.2.1⟩]
  exact .ok recast

/-- Two prepared updates of one request, and whether they complete it. -/
structure Prepared (variation : Variation) (config : ContinuousBatchingConfig)
    (update update' : Request × Bool) : Prop where
  relates : variation.Relates config update.1 update'.1
  completes : update'.2 = update.2

/-- The update of a prefill is prepared alike. -/
theorem preparePrefillUpdate (varied : Varied variation engine other) (endTimestampUs : Int)
    (arrived : OrdSet RequestId) (id : RequestId) :
    Twin (Prepared variation engine.config) (engine.preparePrefillUpdate endTimestampUs arrived id)
      (other.preparePrefillUpdate endTimestampUs arrived id) := by
  have now : other.nowUs = engine.nowUs := by
    rw [varied.eq]
    rfl
  unfold ContinuousBatchingEngine.preparePrefillUpdate
  rw [now]
  refine (varied.requestAt id).bind fun request request' relates => ?_
  refine Twin.throwIf_bind (by rw [relates.eq]; rfl) fun _ => ?_
  refine (relates.transitionTo .prefilling).bind fun prefilling prefilling' relates => ?_
  obtain ⟨spares, fits, rfl⟩ := relates
  have prepared : variation.Relates engine.config
      { prefilling with
        admittedTimeUs := some engine.nowUs, firstScheduledTimeUs := some engine.nowUs }
      { variation.request prefilling with
        admittedTimeUs := some engine.nowUs, firstScheduledTimeUs := some engine.nowUs } :=
    ⟨⟨spares.own, spares.varied⟩, fits, rfl⟩
  refine Twin.ite Iff.rfl (fun _ => ?_) fun _ => ?_
  · refine (prepared.transitionTo .finished).bind fun finished finished' relates => ?_
    obtain ⟨spares, fits, rfl⟩ := relates
    exact .ok ⟨⟨⟨spares.own, spares.varied⟩, fits, rfl⟩, rfl⟩
  · exact (prepared.transitionTo .decoding).bind fun decoding decoding' relates =>
      .ok ⟨relates, rfl⟩

/-- The update of a decode step is prepared alike. -/
theorem prepareDecodeUpdate (varied : Varied variation engine other) (endTimestampUs : Int)
    (id : RequestId) :
    Twin (Prepared variation engine.config) (engine.prepareDecodeUpdate endTimestampUs id)
      (other.prepareDecodeUpdate endTimestampUs id) := by
  unfold ContinuousBatchingEngine.prepareDecodeUpdate
  refine (varied.requestAt id).bind fun request request' relates => ?_
  obtain ⟨spares, fits, rfl⟩ := relates
  refine Twin.throwIf_bind Iff.rfl fun _ => ?_
  have prepared : variation.Relates engine.config
      { request with
        generatedTokenCount := request.generatedTokenCount + 1
        firstTokenTimeUs := request.firstTokenTimeUs.or (some endTimestampUs) }
      { variation.request request with
        generatedTokenCount := request.generatedTokenCount + 1
        firstTokenTimeUs := request.firstTokenTimeUs.or (some endTimestampUs) } :=
    ⟨⟨spares.own, spares.varied⟩, fits, rfl⟩
  refine Twin.ite Iff.rfl (fun _ => ?_) fun _ => ?_
  · refine (prepared.transitionTo .finished).bind fun finished finished' relates => ?_
    obtain ⟨spares, fits, rfl⟩ := relates
    exact .ok ⟨⟨⟨spares.own, spares.varied⟩, fits, rfl⟩, rfl⟩
  · exact .ok ⟨prepared, rfl⟩

/-- The updates collected so far, and the same updates varied. -/
structure Updates (variation : Variation) (config : ContinuousBatchingConfig)
    (state state' : List (RequestId × Request) × Nat) : Prop where
  relates : ∀ update ∈ state.1, variation.Relates config update.2 (variation.request update.2)
  eq : state' = (state.1.map fun update => (update.1, variation.request update.2), state.2)

/-- Updates that are prepared alike are collected alike. -/
theorem collectUpdate {config : ContinuousBatchingConfig}
    {prepare prepare' : RequestId → Except Exn (Request × Bool)}
    (prepared : ∀ id, Twin (Prepared variation config) (prepare id) (prepare' id))
    {state state' : List (RequestId × Request) × Nat} (updates : Updates variation config state state')
    (id : RequestId) :
    Twin (Updates variation config) (ContinuousBatchingEngine.collectUpdate prepare state id)
      (ContinuousBatchingEngine.collectUpdate prepare' state' id) := by
  obtain ⟨relates, rfl⟩ := updates
  unfold ContinuousBatchingEngine.collectUpdate
  refine (prepared id).bind fun update update' alike => ?_
  obtain ⟨request, completes⟩ := update
  obtain ⟨request', completes'⟩ := update'
  have related : variation.Relates config request request' := alike.relates
  obtain rfl : completes' = completes := alike.completes
  obtain rfl := related.eq
  have collected (count : Nat) : Updates variation config (state.1 ++ [(id, request)], count)
      ((state.1.map fun update => (update.1, variation.request update.2)) ++
        [(id, variation.request request)], count) := by
    refine ⟨fun update member => ?_, by rw [List.map_append]; rfl⟩
    rcases List.mem_append.mp member with before | last
    · exact relates update before
    · rw [List.mem_singleton.mp last]
      exact related
  exact Twin.ite Iff.rfl (fun _ => Twin.bind_same fun count => .ok (collected count))
    fun _ => .ok (collected state.2)

theorem requestUpdates (varied : Varied variation engine other) (plan : BatchPlan)
    (endTimestampUs : Int) (arrived : OrdSet RequestId) :
    Twin (Updates variation engine.config) (engine.requestUpdates plan endTimestampUs arrived)
      (other.requestUpdates plan endTimestampUs arrived) := by
  have start : Updates variation engine.config ([], 0) ([], 0) :=
    ⟨fun _ member => (List.not_mem_nil member).elim, rfl⟩
  unfold ContinuousBatchingEngine.requestUpdates
  split
  · exact .ok start
  · refine Twin.bind (Twin.foldlM start fun _ _ id _ updates =>
      collectUpdate (varied.preparePrefillUpdate endTimestampUs arrived) updates id)
      fun _ _ updates => Twin.foldlM updates fun _ _ id _ updates =>
        collectUpdate (varied.prepareDecodeUpdate endTimestampUs) updates id

/-- The finished requests are released alike. -/
theorem releaseFinished (varied : Varied variation engine other) {cache cache' : KVCacheManager}
    (recast : Recast engine.config.prefixCacheConfig variation.prefixCacheConfig cache cache')
    (plan : BatchPlan) :
    Twin (Recast engine.config.prefixCacheConfig variation.prefixCacheConfig)
      (engine.releaseFinished plan cache) (other.releaseFinished plan cache') := by
  have step (finishes : Request → Bool)
      (alike : ∀ request, finishes (variation.request request) = finishes request) (id : RequestId)
      {cache cache' : KVCacheManager}
      (recast : Recast engine.config.prefixCacheConfig variation.prefixCacheConfig cache cache') :
      Twin (Recast engine.config.prefixCacheConfig variation.prefixCacheConfig)
        (engine.releaseIf finishes cache id) (other.releaseIf finishes cache' id) := by
    unfold releaseIf
    refine (varied.requestAt id).bind fun request request' relates => ?_
    rw [relates.eq, alike]
    split
    · exact recast.releaseRequest id
    · exact .ok recast
  unfold ContinuousBatchingEngine.releaseFinished
  exact Twin.bind (Twin.foldlM recast fun _ _ id _ recast => step _ (fun _ => rfl) id recast)
    fun _ _ recast => Twin.foldlM recast fun _ _ id _ recast => step _ (fun _ => rfl) id recast

theorem prepareStatistics_eq (varied : Varied variation engine other)
    {cache cache' : KVCacheManager}
    (recast : Recast engine.config.prefixCacheConfig variation.prefixCacheConfig cache cache')
    (plan : BatchPlan) (completed : Nat) :
    other.prepareStatistics plan completed cache' =
      engine.prepareStatistics plan completed cache := by
  rw [varied.eq, recast.eq]
  rfl

/-- What is prepared differs in the form of the prompts and in the configuration. -/
structure Iterations (variation : Variation) (config : ContinuousBatchingConfig)
    (prepared prepared' : PreparedIteration) : Prop where
  cache : Recast config.prefixCacheConfig variation.prefixCacheConfig prepared.kvCache
    prepared'.kvCache
  relates : ∀ update ∈ prepared.requestUpdates,
    variation.Relates config update.2 (variation.request update.2)
  eq : prepared' = { prepared with
    requestUpdates :=
      prepared.requestUpdates.map fun update => (update.1, variation.request update.2)
    kvCache := prepared.kvCache.withPrefixConfig variation.prefixCacheConfig }

/-- A plan is prepared alike. -/
theorem prepareIteration (varied : Varied variation engine other) (plan : BatchPlan)
    (arrived : OrdSet RequestId) (timeValueUs : Int) (timeValueIsDuration : Bool) :
    Twin (Iterations variation engine.config)
      (engine.prepareIteration plan arrived timeValueUs timeValueIsDuration)
      (other.prepareIteration plan arrived timeValueUs timeValueIsDuration) := by
  have replayed : Twin (Recast engine.config.prefixCacheConfig variation.prefixCacheConfig)
      (plan.workOrder.foldlM (engine.replayItem plan) engine.kvCache)
      (plan.workOrder.foldlM (other.replayItem plan) other.kvCache) :=
    Twin.foldlM varied.cache fun _ _ item _ recast => varied.replayItem recast plan item
  unfold ContinuousBatchingEngine.prepareIteration
  refine replayed.bind fun replayed replayed' recast => ?_
  have published : Twin (Recast engine.config.prefixCacheConfig variation.prefixCacheConfig)
      (plan.prefillWork.foldlM engine.publishWork replayed)
      (plan.prefillWork.foldlM other.publishWork replayed') :=
    Twin.foldlM recast fun _ _ work _ recast => varied.publishWork recast work
  refine published.bind fun published published' recast => ?_
  have times : other.nowUs = engine.nowUs := by
    rw [varied.eq]
    rfl
  have ends : other.endTimestamp timeValueUs timeValueIsDuration =
      engine.endTimestamp timeValueUs timeValueIsDuration := by
    rw [endTimestamp, times, endTimestamp]
  rw [ends, times]
  refine Twin.bind_same fun endTimestampUs => Twin.throwIf_bind Iff.rfl fun _ => ?_
  refine (varied.requestUpdates plan endTimestampUs arrived).bind fun updates updates' alike => ?_
  obtain ⟨updates, completed⟩ := updates
  obtain ⟨relates, rfl⟩ := alike
  refine (varied.releaseFinished recast plan).bind fun cache cache' recast => ?_
  rw [varied.prepareStatistics_eq recast]
  refine Twin.bind_same fun statistics => ?_
  obtain ⟨inert, own, rfl⟩ := recast
  obtain ⟨before, requests, rfl⟩ := varied
  exact Twin.bind_same fun nextIterationNumber => .ok ⟨⟨inert, own, rfl⟩, relates, rfl⟩

/-! ## Calls -/

/-- The varied updates, written into the varied requests. -/
theorem updates_requests {config : ContinuousBatchingConfig} {updates : List (RequestId × Request)}
    {requests : OrdMap RequestId Request}
    (relates : ∀ update ∈ updates, variation.Relates config update.2 (variation.request update.2))
    (before : ∀ id request, requests.find? id = some request →
      variation.Relates config request (variation.request request)) :
    (∀ id request, (updates.foldl (fun requests update => requests.insert update.1 update.2)
        requests).find? id = some request →
      variation.Relates config request (variation.request request)) ∧
    (updates.map fun update => (update.1, variation.request update.2)).foldl
        (fun requests update => requests.insert update.1 update.2)
        (requests.mapValues variation.request) =
      (updates.foldl (fun requests update => requests.insert update.1 update.2)
        requests).mapValues variation.request := by
  induction updates generalizing requests with
  | nil => exact ⟨before, rfl⟩
  | cons update rest ih =>
      rw [List.map_cons, List.foldl_cons, List.foldl_cons, ← OrdMap.mapValues_insert]
      refine ih (fun other member => relates other (List.mem_cons_of_mem update member))
        fun id request found => ?_
      rw [OrdMap.find?_insert] at found
      split at found
      · rw [← Option.some.inj found]
        exact relates update List.mem_cons_self
      · exact before id request found

theorem commitIteration (varied : Varied variation engine other)
    {prepared prepared' : PreparedIteration}
    (iterations : Iterations variation engine.config prepared prepared') :
    Varied variation (engine.commitIteration prepared) (other.commitIteration prepared') := by
  obtain ⟨kept, requests⟩ := updates_requests iterations.relates varied.requests
  obtain ⟨recast, relates, rfl⟩ := iterations
  obtain ⟨before, known, rfl⟩ := varied
  refine ⟨recast, kept, ?_⟩
  unfold ContinuousBatchingEngine.commitIteration Variation.engine
  dsimp only
  rw [requests]

/-- Equal answers, and engines that stay the same engine varied. -/
structure Answers {α : Type} (variation : Variation) (result result' : α × ContinuousBatchingEngine) :
    Prop where
  answer : result'.1 = result.1
  varied : Varied variation result.2 result'.2

/-- An iteration has the same outcome. -/
theorem iterate (varied : Varied variation engine other) :
    Twin (Answers variation) engine.iterate other.iterate := by
  have now : other.nowUs = engine.nowUs := by
    rw [varied.eq]
    rfl
  have number : other.nextIterationNumber = engine.nextIterationNumber := by
    rw [varied.eq]
    rfl
  have backend : other.backend = engine.backend := by
    rw [varied.eq]
    rfl
  unfold ContinuousBatchingEngine.iterate
  dsimp only
  rw [varied.arrivals_eq, varied.hasRunnableWork_eq, varied.nextFutureArrival_eq,
    varied.buildPlan_eq, now, number, backend]
  split
  · split
    · exact .ok ⟨rfl, varied⟩
    · exact (varied.prepareIteration ..).bind fun prepared prepared' iterations =>
        .ok ⟨rfl, varied.commitIteration iterations⟩
  · refine Twin.bind_same fun plan => ?_
    split
    · exact (varied.prepareIteration ..).bind fun prepared prepared' iterations =>
        .ok ⟨rfl, varied.commitIteration iterations⟩
    · exact Twin.bind_same fun durationUs => (varied.prepareIteration ..).bind
        fun prepared prepared' iterations => .ok ⟨rfl, varied.commitIteration iterations⟩

theorem failed_eq (varied : Varied variation engine other) : other.failed = engine.failed := by
  rw [varied.eq]
  rfl

/-- A failure is noted alike. -/
theorem fail (varied : Varied variation engine other) :
    Varied variation { engine with failed := true } { other with failed := true } := by
  obtain ⟨before, requests, rfl⟩ := varied
  exact ⟨before, requests, rfl⟩

theorem runNextIteration (varied : Varied variation engine other) :
    Answers variation engine.runNextIteration other.runNextIteration := by
  unfold ContinuousBatchingEngine.runNextIteration
  rw [varied.failed_eq]
  split
  · exact ⟨rfl, varied⟩
  · rcases varied.iterate.outcomes with ⟨error, left, right⟩ | ⟨result, result', left, right, alike⟩
    · rw [left, right]
      exact ⟨rfl, varied.fail⟩
    · rw [left, right]
      exact ⟨congrArg Except.ok alike.answer, alike.varied⟩

/-- A submission in another form is answered alike. -/
theorem submitRequest (varied : Varied variation engine other) {request : Request}
    (spares : variation.Spares engine.config request) :
    Answers variation (engine.submitRequest request)
      (other.submitRequest (variation.request request)) := by
  have own : (engine.config.prefixCacheConfig.enabled = false ∨ request.promptTokens? = none) :=
    spares.own
  have other' : (other.config.prefixCacheConfig.enabled = false ∨
      (variation.request request).promptTokens? = none) := by
    rw [varied.eq]
    exact spares.varied
  have tokens : other.config.maxBatchedTokens = engine.config.maxBatchedTokens := by
    rw [varied.eq]
    rfl
  have now : other.nowUs = engine.nowUs := by
    rw [varied.eq]
    rfl
  have known : other.requests.contains (variation.request request).requestId =
      engine.requests.contains request.requestId := by
    rw [varied.eq]
    exact OrdMap.contains_mapValues ..
  have pristine : (variation.request request).Pristine ↔ request.Pristine := Iff.rfl
  have arrival : (variation.request request).arrivalTimeUs = request.arrivalTimeUs := rfl
  unfold ContinuousBatchingEngine.submitRequest
  simp only [varied.failed_eq, pristine, arrival, now, other', own, true_and, known, tokens,
    Variation.promptLength_request]
  split
  · exact ⟨rfl, varied⟩
  split
  · exact ⟨rfl, varied⟩
  split
  · exact ⟨rfl, varied⟩
  split
  · exact ⟨rfl, varied⟩
  next within =>
  split
  · exact ⟨rfl, varied⟩
  obtain ⟨recast, requests, rfl⟩ := varied
  refine ⟨rfl, recast, fun id found stored => ?_, ?_⟩
  · rw [OrdMap.find?_insert] at stored
    split at stored
    · rw [← Option.some.inj stored]
      exact ⟨spares, not_lt.mp within, rfl⟩
    · exact requests id found stored
  · unfold Variation.engine
    dsimp only
    rw [OrdMap.mapValues_insert]
    rfl

/-- A cancellation is prepared alike. -/
theorem prepareCancel (varied : Varied variation engine other) (id : RequestId) {request : Request}
    (relates : variation.Relates engine.config request (variation.request request)) :
    Twin (Varied variation) (engine.prepareCancel id request)
      (other.prepareCancel id (variation.request request)) := by
  have released := varied.cache.releaseRequest id
  obtain ⟨before, requests, rfl⟩ := varied
  unfold ContinuousBatchingEngine.prepareCancel
  refine Twin.bind_same fun count => (relates.transitionTo .cancelled).bind
    fun cancelled cancelled' relates => ?_
  obtain ⟨spares, fits, rfl⟩ := relates
  refine Twin.ite Iff.rfl (fun _ => released.bind ?_) fun _ => (Twin.ok before).bind ?_
  -- Whether or not the cache releases the request, the same record is written.
  all_goals
    intro cache cache' recast
    obtain ⟨inert, own, rfl⟩ := recast
    refine .ok ⟨⟨inert, own, rfl⟩, fun other found stored => ?_, ?_⟩
    · rw [OrdMap.find?_insert] at stored
      split at stored
      · rw [← Option.some.inj stored]
        exact ⟨⟨spares.own, spares.varied⟩, fits, rfl⟩
      · exact requests other found stored
    · unfold Variation.engine
      dsimp only
      rw [OrdMap.mapValues_insert]
      rfl

/-- A cancellation is answered alike. -/
theorem cancelRequest (varied : Varied variation engine other) (id : RequestId) :
    Answers variation (engine.cancelRequest id) (other.cancelRequest id) := by
  have find : other.requests.find? id = (engine.requests.find? id).map variation.request := by
    rw [varied.eq]
    exact OrdMap.find?_mapValues ..
  unfold ContinuousBatchingEngine.cancelRequest
  rw [varied.failed_eq, find]
  split
  · exact ⟨rfl, varied⟩
  cases found : engine.requests.find? id with
  | none => exact ⟨rfl, varied⟩
  | some request =>
      have state : (variation.request request).state = request.state := rfl
      simp only [Option.map_some, state]
      split
      · exact ⟨rfl, varied⟩
      split
      · exact ⟨rfl, varied⟩
      rcases (varied.prepareCancel id (varied.requests id request found)).outcomes with
        ⟨error, left, right⟩ | ⟨next, next', left, right, varied⟩
      · rw [left, right]
        exact ⟨rfl, ‹_›⟩
      · rw [left, right]
        exact ⟨rfl, varied⟩

/-- Iterations up to any fuel are answered alike. -/
theorem runIterations (varied : Varied variation engine other) (fuel : Nat) :
    Answers variation (ContinuousBatchingEngine.runIterations fuel engine)
      (ContinuousBatchingEngine.runIterations fuel other) := by
  induction fuel generalizing engine other with
  | zero => exact ⟨rfl, varied⟩
  | succ fuel ih =>
      obtain ⟨answer, after⟩ := varied.runNextIteration
      unfold ContinuousBatchingEngine.runIterations
      rcases left : engine.runNextIteration with ⟨outcome, next⟩
      rcases right : other.runNextIteration with ⟨outcome', next'⟩
      rw [left, right] at answer after
      obtain rfl : outcome' = outcome := answer
      cases outcome' with
      | error error => exact ⟨rfl, after⟩
      | ok outcome =>
          cases outcome with
          | progressed => exact ih after
          | stalled => exact ⟨rfl, after⟩
          | complete => exact ⟨rfl, after⟩

theorem work_eq (varied : Varied variation engine other) : other.work = engine.work := by
  rw [varied.eq]
  unfold work Variation.engine
  rw [OrdMap.total_mapValues, OrdMap.total_mapValues]
  rfl

/-- The end of a run is answered alike. -/
theorem finishRun {last last' : Except Exn IterationOutcome × ContinuousBatchingEngine}
    (alike : Answers variation last last') :
    Answers variation (ContinuousBatchingEngine.finishRun last)
      (ContinuousBatchingEngine.finishRun last') := by
  obtain ⟨outcome, engine⟩ := last
  obtain ⟨outcome', other⟩ := last'
  obtain rfl : outcome' = outcome := alike.answer
  have varied : Varied variation engine other := alike.varied
  have arrived : other.arrivedRequests = engine.arrivedRequests := by
    rw [varied.eq]
    rfl
  have failed := varied.fail
  rw [arrived] at failed
  have ended : Answers variation
      (ContinuousBatchingEngine.finishRun (.ok .complete, engine))
      (ContinuousBatchingEngine.finishRun (.ok .complete, other)) := by
    unfold ContinuousBatchingEngine.finishRun
    dsimp only
    rw [arrived, varied.hasRunnableWork_eq, varied.nextFutureArrival_eq]
    split
    · exact ⟨rfl, failed⟩
    · exact ⟨rfl, varied⟩
  cases outcome' with
  | error error => exact ⟨rfl, varied⟩
  | ok outcome =>
      cases outcome with
      | progressed => exact ended
      | stalled => exact ⟨rfl, varied⟩
      | complete => exact ended

/-- Every call is answered alike. -/
theorem apply (varied : Varied variation engine other) {call : EngineCall}
    (spares : ∀ request, call = .submitRequest request →
      variation.Spares engine.config request) :
    Answers variation (engine.apply call) (other.apply (variation.call call)) := by
  cases call with
  | submitRequest request =>
      obtain ⟨answer, varied⟩ := varied.submitRequest (spares request rfl)
      exact ⟨congrArg (Except.map fun _ => EngineAnswer.done) answer, varied⟩
  | cancelRequest id =>
      obtain ⟨answer, varied⟩ := varied.cancelRequest id
      exact ⟨congrArg (Except.map fun _ => EngineAnswer.done) answer, varied⟩
  | runNextIteration =>
      obtain ⟨answer, varied⟩ := varied.runNextIteration
      exact ⟨congrArg (Except.map EngineAnswer.iteration) answer, varied⟩
  | run =>
      have ran := finishRun (varied.runIterations (engine.work + 1))
      have both : Answers variation engine.run other.run := by
        rw [run, run, varied.work_eq]
        exact ran
      exact ⟨congrArg (Except.map EngineAnswer.ran) both.answer, both.varied⟩

end Varied

/-! ## Runs -/

/-- Along calls whose prompts spare the cache on both sides the two engines answer alike and stay
one engine, varied. -/
theorem Varied.runs (variation : Variation) (backend : SimulatedBackend)
    (config : ContinuousBatchingConfig) {calls : List EngineCall}
    (spares : ∀ call ∈ calls, ∀ request, call = .submitRequest request →
      variation.Spares config request) :
    machine.outputs (create backend (variation.config config)) (calls.map variation.call) =
        machine.outputs (create backend config) calls ∧
      Varied variation (reach backend config calls)
        (reach backend (variation.config config) (calls.map variation.call)) := by
  have start : Varied variation (create backend config)
      (create backend (variation.config config)) ∧
      ∃ before, create backend config = reach backend config before :=
    ⟨create_varied variation backend config, [], rfl⟩
  obtain ⟨answers, varied, -⟩ := @Machine.simulation _ _ _ machine _ _
    (machine.translated variation.call)
    (fun _ call => ∀ request, call = .submitRequest request → variation.Spares config request)
    (fun engine other => Varied variation engine other ∧
      ∃ before, engine = reach backend config before) Eq
    (fun engine other call related spares => by
      obtain ⟨varied, before, rfl⟩ := related
      have setup := (reach_setup backend config before).1
      obtain ⟨answer, after⟩ := varied.apply fun request submitted =>
        setup.symm ▸ spares request submitted
      exact ⟨answer.symm, after, before ++ [call], (Machine.run_concat machine _ _ _).symm⟩)
    _ _ calls start (Machine.along_of_forall spares)
  rw [Machine.outputs_translated] at answers
  rw [Machine.run_translated] at varied
  exact ⟨(List.forall₂_eq_eq_eq ▸ answers).symm, varied⟩

/-- Two runs whose prompts spare the cache on both sides are one run, varied. -/
theorem reach_varied (variation : Variation) (backend : SimulatedBackend)
    (config : ContinuousBatchingConfig) {calls : List EngineCall}
    (spares : ∀ call ∈ calls, ∀ request, call = .submitRequest request →
      variation.Spares config request) :
    machine.outputs (create backend (variation.config config)) (calls.map variation.call) =
        machine.outputs (create backend config) calls ∧
      reach backend (variation.config config) (calls.map variation.call) =
        variation.engine (reach backend config calls) := by
  obtain ⟨answers, varied⟩ := Varied.runs variation backend config spares
  exact ⟨answers, varied.eq⟩

/-- Every prompt is given by its length, and the cache is on. -/
def countOnlyVariation : Variation where
  prompt := fun prompt => .countOnly (Request.promptLength { tinyRequest 0 [] 0 with prompt })
  prefixCacheConfig := { enabled := true, cacheSalt := [1] }
  length := fun _ => rfl

/-- An exact prompt without the cache runs like its length with the cache. -/
theorem reach_varied_tiny :
    let config := { tinyConfig with prefixCacheConfig := {} }
    let calls := [EngineCall.submitRequest (tinyRequest 1 [7, 8] 1), .run]
    machine.outputs (create tinyBackend (countOnlyVariation.config config))
        (calls.map countOnlyVariation.call) =
      machine.outputs (create tinyBackend config) calls ∧
    reach tinyBackend (countOnlyVariation.config config) (calls.map countOnlyVariation.call) =
      countOnlyVariation.engine (reach tinyBackend config calls) :=
  reach_varied countOnlyVariation tinyBackend _ fun _ _ _ _ => ⟨.inl rfl, .inr rfl⟩

/-- Every exact prompt is replaced by its length, under the prefix configuration. -/
def countedVariation (prefixCacheConfig : PrefixCacheConfig) : Variation where
  prompt
    | .countOnly length => .countOnly length
    | .exactTokens tokens => .countOnly tokens.length
  prefixCacheConfig := prefixCacheConfig
  length := fun request => by
    unfold Request.promptLength
    cases request.prompt <;> rfl

/-- The prompts stay, and the prefix configuration changes. -/
def cachingVariation (prefixCacheConfig : PrefixCacheConfig) : Variation where
  prompt := fun prompt => prompt
  prefixCacheConfig := prefixCacheConfig
  length := fun _ => rfl

theorem cachingVariation_calls {prefixCacheConfig : PrefixCacheConfig} {calls : List EngineCall} :
    calls.map (cachingVariation prefixCacheConfig).call = calls := by
  refine (List.map_congr_left fun call _ => ?_).trans (List.map_id' calls)
  cases call <;> rfl

/-- Without the cache, an exact prompt runs like its length, and nothing but the form of the
prompts in the records differs; with prompts that are only counted, the cache may be configured in
any way, and nothing but the configuration differs. -/
theorem reach_neutral (backend : SimulatedBackend) (config : ContinuousBatchingConfig)
    (calls : List EngineCall) :
    (config.prefixCacheConfig.enabled = false →
      let counted := calls.map (countedVariation config.prefixCacheConfig).call
      machine.outputs (create backend config) counted =
          machine.outputs (create backend config) calls ∧
        reach backend config counted =
          { reach backend config calls with
            requests := (reach backend config calls).requests.mapValues
              (countedVariation config.prefixCacheConfig).request }) ∧
    ((∀ call ∈ calls, ∀ request, call = .submitRequest request → request.promptTokens? = none) →
      ∀ prefixCacheConfig : PrefixCacheConfig,
      let caching := { config with prefixCacheConfig }
      machine.outputs (create backend caching) calls =
          machine.outputs (create backend config) calls ∧
        reach backend caching calls =
          { reach backend config calls with
            config := caching
            kvCache := (reach backend config calls).kvCache.withPrefixConfig
              prefixCacheConfig }) := by
  constructor
  · intro disabled counted
    obtain ⟨answers, varied⟩ := @Varied.runs (countedVariation config.prefixCacheConfig) backend
      config calls fun _ _ _ _ => ⟨.inl disabled, .inl disabled⟩
    refine ⟨answers, varied.eq.trans ?_⟩
    have sameConfig := (reach_setup backend config calls).1
    have sameCache := withPrefixConfig_self _ _ (varied.cache.own.trans
      (congrArg ContinuousBatchingConfig.prefixCacheConfig sameConfig))
    exact Variation.engine_of_same (congrArg _ sameConfig |>.trans sameConfig.symm) sameCache
  · intro countOnly prefixCacheConfig caching
    obtain ⟨answers, varied⟩ := @Varied.runs (cachingVariation prefixCacheConfig) backend config
      calls fun call listed request submits =>
        ⟨.inr (countOnly call listed request submits), .inr (countOnly call listed request submits)⟩
    rw [cachingVariation_calls] at answers varied
    refine ⟨answers, varied.eq.trans ?_⟩
    have sameRequests : (reach backend config calls).requests.mapValues
        (cachingVariation prefixCacheConfig).request = (reach backend config calls).requests :=
      OrdMap.ext_entries (List.map_id' _)
    rw [Variation.engine, Variation.config, sameRequests, (reach_setup backend config calls).1]
    rfl

def uncachedConfig : ContinuousBatchingConfig := { tinyConfig with prefixCacheConfig := {} }

/-- Two requests with one prompt, the second of which is cancelled. -/
def twoPrompts (prompt : Prompt) : List EngineCall :=
  [.submitRequest { tinyRequest 1 [] 1 with prompt }, .submitRequest { tinyRequest 2 [] 2 with prompt },
    .runNextIteration, .cancelRequest 2, .run]

/-- Two equal exact prompts without the cache, their lengths without it, and with it. -/
theorem reach_neutral_twoPrompts :
    (machine.outputs (create tinyBackend uncachedConfig) (twoPrompts (.countOnly 2)) =
        machine.outputs (create tinyBackend uncachedConfig) (twoPrompts (.exactTokens [7, 8])) ∧
      (reach tinyBackend uncachedConfig (twoPrompts (.countOnly 2))).kvCache =
        (reach tinyBackend uncachedConfig (twoPrompts (.exactTokens [7, 8]))).kvCache) ∧
    machine.outputs (create tinyBackend tinyConfig) (twoPrompts (.countOnly 2)) =
        machine.outputs (create tinyBackend uncachedConfig) (twoPrompts (.countOnly 2)) ∧
      (reach tinyBackend tinyConfig (twoPrompts (.countOnly 2))).planTrace =
        (reach tinyBackend uncachedConfig (twoPrompts (.countOnly 2))).planTrace := by
  obtain ⟨counted, same⟩ := (reach_neutral tinyBackend uncachedConfig
    (twoPrompts (.exactTokens [7, 8]))).1 rfl
  obtain ⟨cached, caching⟩ := (reach_neutral tinyBackend uncachedConfig
    (twoPrompts (.countOnly 2))).2 (by simp [twoPrompts, Request.promptTokens?])
    tinyConfig.prefixCacheConfig
  have kvCache := congrArg ContinuousBatchingEngine.kvCache same
  have planTrace := congrArg ContinuousBatchingEngine.planTrace caching
  exact ⟨⟨counted, kvCache⟩, cached, planTrace⟩

end ContinuousBatchingEngine

end LlmLab.Serving
