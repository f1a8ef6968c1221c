import LlmLab.Serving.ContinuousBatching.Updates

/-!
# Preparing an iteration

After the replay, `prepare_iteration` publishes the computed prompts, advances the requests and
releases the finished ones.  On a plan that the planner built, none of this fails but for an
overflow.
-/

namespace LlmLab.Serving

open KVCacheManager

namespace ContinuousBatchingEngine

variable {engine : ContinuousBatchingEngine} {arrived : OrdSet RequestId}
  {consumed : List Candidate} {builder : PlanBuilder} {id : RequestId} {request : Request}
  {plan : BatchPlan} {cache : KVCacheManager} {number : Nat}

theorem Trail.not_release (builder : PlanBuilder) (id : RequestId) :
    .release id ∉ builder.workOrder.map engine.workEvent := fun member => by
  obtain ⟨item, -, same⟩ := List.mem_map.mp member
  unfold workEvent promptEvent at same
  split at same
  · cases same
  · split at same
    · split at same <;> cases same
    · cases same

/-! ## Publication -/

/-- The prefills whose computed blocks are published. -/
def publishes (engine : ContinuousBatchingEngine) (work : PrefillWork) : Bool :=
  match (engine.requests.find? work.requestId).bind engine.cachedTokens? with
  | none => false
  | some tokens => work.matchedPhysicalBlockIds.length <
      tokens.length / engine.config.kvCacheConfig.blockSizeTokens

/-- The requests whose prompts a plan publishes. -/
def publications (engine : ContinuousBatchingEngine) (works : List PrefillWork) :
    List RequestId :=
  (works.filter engine.publishes).map (·.requestId)

/-- A scheduled prefill over the cache leaves its prompt on record. -/
theorem Trail.recorded (trail : engine.Trail arrived consumed builder)
    (coherent : engine.Coherent) {work : PrefillWork} (member : work ∈ builder.prefills)
    {tokens : List Token} (found : engine.requests.find? work.requestId = some request)
    (exact : engine.cachedTokens? request = some tokens) :
    (∃ table, builder.cache.blockTables.find? work.requestId = some table) ∧
      builder.cache.requestProvenance.find? work.requestId =
        some (exactProvenance engine.kvCache.config engine.kvCache.prefixConfig.enabled
          work.requestId tokens work.matchedPhysicalBlockIds.length false) := by
  induction trail with
  | start => cases member
  | @step consumed builder next candidate described trail describes fresh decided ih =>
      have sound := trail.sound coherent
      -- A record of an earlier candidate is not touched by the work of this one.
      have frame : ∀ {cache : KVCacheManager} {event : KVEvent}, Effect builder.cache cache event →
          event.subject = some candidate.requestId → work ∈ builder.prefills →
          (∃ table, cache.blockTables.find? work.requestId = some table) ∧
            cache.requestProvenance.find? work.requestId =
              some (exactProvenance engine.kvCache.config engine.kvCache.prefixConfig.enabled
                work.requestId tokens work.matchedPhysicalBlockIds.length false) :=
        fun effect subject old => by
          have apart : work.requestId ≠ candidate.requestId := fun same => by
            have listed : work.requestId ∈ builder.prefills.map (·.requestId) :=
              List.mem_map_of_mem old
            rw [trail.planned.prefills] at listed
            obtain ⟨item, member, id⟩ := List.mem_map.mp listed
            obtain ⟨other, known, same', -⟩ := trail.items item (List.mem_of_mem_filter member)
            exact fresh (List.mem_map.mpr ⟨other, known, by rw [same', id, same]⟩)
          have other : _ ≠ some work.requestId := fun same =>
            apart (Option.some.inj (same.symm.trans subject))
          obtain ⟨present, record⟩ := ih old
          rw [effect.table_eq sound other, effect.record_eq other]
          exact ⟨present, record⟩
      cases decided with
      | deferred => exact ih member
      | @prefill demand cache isPrefill demands _ _ effect _ =>
          rcases List.mem_append.mp member with old | new
          · exact frame effect (promptEvent_subject _) old
          · obtain rfl := List.mem_singleton.mp new
            obtain rfl : described = request := Option.some.inj (describes.found.symm.trans found)
            unfold promptEvent at effect
            rw [exact] at effect
            obtain ⟨actual, current, record⟩ := effect.exact_record
            refine ⟨effect.table_subject rfl (by simp), ?_⟩
            rw [trail.setup.config, trail.setup.prefixConfig] at record
            cases demands with
            | exact _ exact' current' =>
                rw [exact', Option.some.injEq] at exact
                subst exact
                rw [current', Except.ok.injEq] at current
                rw [current]
                exact record
            | count _ none' =>
                rw [exact] at none'
                cases none'
            | decode isDecode =>
                rw [isPrefill] at isDecode
                cases isDecode
      | decode _ _ _ _ effect _ => exact frame effect rfl member

theorem publishes_iff {work : PrefillWork} (found : engine.requests.find? work.requestId = some request) :
    engine.publishes work = true ↔ ∃ tokens, engine.cachedTokens? request = some tokens ∧
      work.matchedPhysicalBlockIds.length <
        tokens.length / engine.config.kvCacheConfig.blockSizeTokens := by
  unfold publishes
  rw [found, Option.bind_some]
  cases engine.cachedTokens? request <;> simp

/-- The publications of a plan: each prompt that computed a full block. -/
theorem Trail.publish_ensures (trail : engine.Trail arrived consumed builder)
    (coherent : engine.Coherent) (distinct : (consumed.map (·.requestId)).Nodup) :
    Ensures Exn.IsOverflow (Passes builder.cache
        ((engine.publications builder.prefills).map .publish))
      (builder.prefills.foldlM engine.publishWork builder.cache) := by
  have nodup : (builder.prefills.map (·.requestId)).Nodup :=
    (List.nodup_append.mp (List.nodup_append.mp (trail.planned.mentions_nodup distinct)).1).1
  refine Ensures.foldlM (fun (published : List PrefillWork) (cache : KVCacheManager) =>
    Passes builder.cache ((engine.publications published).map .publish) cache) (.nil _)
    fun published work rest cache split passes => ?_
  have member : work ∈ builder.prefills := by simp [split]
  obtain ⟨request, found, -, -⟩ := trail.planned.prompts work member
  have start := trail.sound coherent
  have sound := passes.sound start
  have setup := trail.setup.trans passes.setup
  have others : ∀ event ∈ (engine.publications published).map KVEvent.publish,
      event.subject ≠ some work.requestId := fun event listed same => by
    obtain ⟨id, known, rfl⟩ := List.mem_map.mp listed
    obtain ⟨other, earlier, rfl⟩ := List.mem_map.mp known
    rw [split, List.map_append, List.nodup_append] at nodup
    exact nodup.2.2 other.requestId (List.mem_map_of_mem (List.mem_of_mem_filter earlier))
      work.requestId (by simp) (Option.some.inj same)
  have listed : (engine.publications (published ++ [work])).map KVEvent.publish =
      (engine.publications published).map KVEvent.publish ++
        if engine.publishes work then [.publish work.requestId] else [] := by
    unfold publications
    rw [List.filter_append, List.map_append, List.map_append]
    by_cases yes : engine.publishes work <;> simp [yes]
  rw [listed]
  unfold publishWork
  rw [requestAt_eq_ok.mpr found, except_ok_bind]
  have tested : (cache.prefixConfig.enabled = true ∧ request.promptTokens?.isSome ∧
      work.matchedPhysicalBlockIds.length <
        (request.promptTokens?.map List.length).getD 0 / cache.config.blockSizeTokens) ↔
      engine.publishes work = true := by
    rw [publishes_iff found, cachedTokens?, setup.prefixConfig, coherent.prefixConfig_eq,
      setup.config, coherent.setup.config]
    change _ ∧ _ ∧ _ < _ / engine.config.kvCacheConfig.blockSizeTokens ↔ _
    cases request.promptTokens? with
    | none => simp
    | some tokens => simp
  by_cases publishing : engine.publishes work = true
  · simp only
    rw [if_pos (tested.mpr publishing), if_pos publishing]
    obtain ⟨tokens, exact, short⟩ := (publishes_iff found).mp publishing
    obtain ⟨⟨table, present⟩, record⟩ := trail.recorded coherent member found exact
    refine ((insertCompletedPromptBlocks_ensures sound).mono_allowed fun error refused => ?_).mono
      fun next spec => passes.concat spec.1 spec.2
    have table_eq := passes.table_eq start others
    have record_eq := passes.record_eq start others
    rw [present] at table_eq
    rw [record] at record_eq
    have enabled : cache.prefixConfig.enabled = true := by
      rw [setup.prefixConfig, coherent.prefixConfig_eq]
      exact (cachedTokens?_eq_some exact).1
    have material : OfMaterial cache.hashFunction := by
      rw [setup.hashFunction, coherent.setup.hashFunction]
      exact fun _ => rfl
    have computed : work.matchedPhysicalBlockIds.length ≠
        tokens.length / engine.kvCache.config.blockSizeTokens := by
      rw [coherent.setup.config]
      exact short.ne
    exact refused.resolve_right (not_not.mpr
      ⟨material, table, _, tokens, table_eq, record_eq, rfl, enabled, computed⟩)
  · simp only
    rw [if_neg (mt tested.mp publishing), if_neg publishing, List.append_nil]
    exact passes

/-! ## Release -/

/-- The finished requests of a list are released in its order. -/
theorem foldlM_releaseIf {finishes : Request → Bool} {ids : List RequestId} (sound : cache.Sound)
    (nodup : ids.Nodup) (known : ∀ id ∈ ids, ∃ request, engine.requests.find? id = some request)
    (held : ∀ id ∈ ids, ∃ table, cache.blockTables.find? id = some table) :
    Ensures Exn.IsOverflow (Passes cache ((ids.filter fun id =>
        (engine.requests.find? id).any finishes).map .release))
      (ids.foldlM (engine.releaseIf finishes) cache) := by
  refine Ensures.foldlM (fun (released : List RequestId) (state : KVCacheManager) =>
    Passes cache ((released.filter fun id =>
      (engine.requests.find? id).any finishes).map .release) state) (.nil _)
    fun released id rest state split passes => ?_
  have member : id ∈ ids := by simp [split]
  obtain ⟨request, found⟩ := known id member
  have fresh : .release id ∉ (released.filter fun id =>
      (engine.requests.find? id).any finishes).map KVEvent.release := fun listed => by
    obtain ⟨other, earlier, same⟩ := List.mem_map.mp listed
    rw [split] at nodup
    exact (List.nodup_append.mp nodup).2.2 other (List.mem_of_mem_filter earlier) id (by simp)
      (KVEvent.release.inj same)
  unfold releaseIf
  rw [requestAt_eq_ok.mpr found, except_ok_bind, List.filter_append, List.map_append,
    List.filter_cons, found, Option.any_some]
  by_cases finishing : finishes request = true
  · rw [if_pos finishing, if_pos finishing]
    refine ((releaseRequest_ensures (passes.sound sound)).mono_allowed fun error refused => ?_).mono
      fun next spec => passes.concat spec.1 spec.2
    exact refused.resolve_right (not_not.mpr (passes.table_kept sound fresh (held id member)))
  · rw [if_neg finishing, if_neg finishing, List.filter_nil, List.map_nil, List.append_nil]
    exact passes

/-- The terminal releases of a plan. -/
theorem releaseFinished_ensures (runs : engine.Runs arrived plan) (sound : cache.Sound)
    (held : ∀ id ∈ plan.prefillRequestIds ++ plan.decodeRequestIds,
      ∃ table, cache.blockTables.find? id = some table) :
    Ensures Exn.IsOverflow (Passes cache ((engine.finishing plan).map .release))
      (engine.releaseFinished plan cache) := by
  obtain ⟨prefills, decodes, apart⟩ :=
    List.nodup_append.mp (List.nodup_append.mp runs.nodup).1
  unfold releaseFinished finishing
  refine (foldlM_releaseIf sound prefills (fun id member => ?_) fun id member =>
    held id (List.mem_append_left _ member)).bind fun released first => ?_
  · obtain ⟨request, found, -⟩ := runs.prefill id member
    exact ⟨request, found⟩
  refine (foldlM_releaseIf (first.sound sound) decodes (fun id member => ?_)
    fun id member => ?_).mono fun state second => ?_
  · obtain ⟨request, found, -⟩ := runs.decode id member
    exact ⟨request, found⟩
  · refine first.table_kept sound (fun listed => ?_) (held id (List.mem_append_right _ member))
    obtain ⟨other, earlier, same⟩ := List.mem_map.mp listed
    exact apart other (List.mem_of_mem_filter earlier) id member (KVEvent.release.inj same)
  · rw [List.map_append]
    exact first.append second

/-! ## Statistics -/

/-- The count of the KV-capacity deferrals of a plan. -/
def kvDeferrals (deferred : List DeferredRequest) : Nat :=
  deferred.countP (·.reason = .kvCapacity)

/-- What `prepare_statistics` computes. -/
def statisticsAfter (statistics : ContinuousBatchingStatistics) (plan : BatchPlan)
    (completed : Nat) (cache : KVCacheManager) : ContinuousBatchingStatistics :=
  ContinuousBatchingStatistics.copyCache { statistics with
    schedulingIterationCount := statistics.schedulingIterationCount + 1
    stalledIterationCount := statistics.stalledIterationCount + if plan.deferredOnly then 1 else 0
    idleIterationCount := statistics.idleIterationCount +
      if plan.deferredOnly = false ∧ plan.isEmpty then 1 else 0
    nonemptyBatchCount := statistics.nonemptyBatchCount +
      if plan.deferredOnly = false ∧ plan.isEmpty = false then 1 else 0
    totalPrefillTokensScheduled := statistics.totalPrefillTokensScheduled + plan.totalPrefillTokens
    totalDecodeTokensScheduled := statistics.totalDecodeTokensScheduled + plan.totalDecodeTokens
    totalScheduledSequences := statistics.totalScheduledSequences + plan.scheduledSequenceCount
    deferredRequestCount := statistics.deferredRequestCount + plan.deferredRequests.length
    kvCapacityDeferralCount := statistics.kvCapacityDeferralCount +
      kvDeferrals plan.deferredRequests
    completedRequestCount := statistics.completedRequestCount + completed
    maximumBatchSize := max statistics.maximumBatchSize plan.scheduledSequenceCount
    maximumScheduledTokens := max statistics.maximumScheduledTokens plan.totalScheduledTokens
    peakAllocatedKvBlocks := cache.peakAllocatedBlockCount
    totalOriginalPromptTokens := statistics.totalOriginalPromptTokens +
      (plan.prefillWork.map (·.originalPromptTokenCount)).sum
    totalMatchedPrefixTokens := statistics.totalMatchedPrefixTokens +
      (plan.prefillWork.map (·.matchedPrefixTokenCount)).sum } cache

/-- An iteration counts as stalled, idle or nonempty. -/
theorem countIteration_ensures (statistics : ContinuousBatchingStatistics) (plan : BatchPlan) :
    Ensures Exn.IsOverflow (fun result => result = { statistics with
        schedulingIterationCount := statistics.schedulingIterationCount + 1
        stalledIterationCount := statistics.stalledIterationCount +
          if plan.deferredOnly then 1 else 0
        idleIterationCount := statistics.idleIterationCount +
          if plan.deferredOnly = false ∧ plan.isEmpty then 1 else 0
        nonemptyBatchCount := statistics.nonemptyBatchCount +
          if plan.deferredOnly = false ∧ plan.isEmpty = false then 1 else 0 })
      (countIteration statistics plan) := by
  unfold countIteration
  refine (inc_ensures _ _).bind fun iterations counted => ?_
  subst counted
  cases stalls : plan.deferredOnly with
  | true =>
      refine (inc_ensures _ _).bind fun count counted => ?_
      subst counted
      simp
  | false =>
      cases idles : plan.isEmpty with
      | true =>
          refine (inc_ensures _ _).bind fun count counted => ?_
          subst counted
          simp
      | false =>
          refine (inc_ensures _ _).bind fun count counted => ?_
          subst counted
          simp

theorem foldlM_countKvDeferrals (deferred : List DeferredRequest) :
    Ensures Exn.IsOverflow (fun count => count = kvDeferrals deferred)
      (deferred.foldlM countKvDeferrals 0) := by
  refine Ensures.foldlM (fun (consumed : List DeferredRequest) (count : Nat) =>
    count = kvDeferrals consumed) rfl fun consumed item rest count _ counted => ?_
  unfold countKvDeferrals kvDeferrals
  rw [List.countP_append]
  by_cases capacity : item.reason = .kvCapacity
  · rw [if_pos capacity]
    refine (inc_ensures _ _).mono fun total incremented => ?_
    rw [incremented, counted, kvDeferrals, List.countP_singleton, if_pos (by simpa using capacity)]
  · rw [if_neg capacity]
    change count = _
    rw [counted, kvDeferrals, List.countP_singleton, if_neg (by simpa using capacity), Nat.add_zero]

/-- The prompt totals grow by the tokens of the prefills. -/
theorem foldlM_addPromptTotals (statistics : ContinuousBatchingStatistics)
    (works : List PrefillWork) :
    Ensures Exn.IsOverflow (fun result => result = { statistics with
        totalOriginalPromptTokens := statistics.totalOriginalPromptTokens +
          (works.map (·.originalPromptTokenCount)).sum
        totalMatchedPrefixTokens := statistics.totalMatchedPrefixTokens +
          (works.map (·.matchedPrefixTokenCount)).sum })
      (works.foldlM addPromptTotals statistics) := by
  refine Ensures.foldlM (fun (consumed : List PrefillWork)
    (result : ContinuousBatchingStatistics) => result = { statistics with
      totalOriginalPromptTokens := statistics.totalOriginalPromptTokens +
        (consumed.map (·.originalPromptTokenCount)).sum
      totalMatchedPrefixTokens := statistics.totalMatchedPrefixTokens +
        (consumed.map (·.matchedPrefixTokenCount)).sum }) rfl
    fun consumed work rest result _ summed => ?_
  subst summed
  unfold addPromptTotals
  refine (add_ensures _ _ _).bind fun original first => ?_
  refine (add_ensures _ _ _).bind fun matched second => ?_
  obtain ⟨rfl, -⟩ := first
  obtain ⟨rfl, -⟩ := second
  simp [Nat.add_assoc]

/-- The prepared statistics are those after the plan, unless one overflows. -/
theorem prepareStatistics_ensures (plan : BatchPlan) (completed : Nat) (cache : KVCacheManager) :
    Ensures Exn.IsOverflow (fun result =>
        result = statisticsAfter engine.statistics plan completed cache)
      (engine.prepareStatistics plan completed cache) := by
  unfold prepareStatistics
  refine (countIteration_ensures _ _).bind fun prepared counted => ?_
  subst counted
  refine (add_ensures _ _ _).bind fun prefillTokens first => ?_
  refine (add_ensures _ _ _).bind fun decodeTokens second => ?_
  refine (add_ensures _ _ _).bind fun sequences third => ?_
  refine (add_ensures _ _ _).bind fun deferrals fourth => ?_
  refine (foldlM_countKvDeferrals _).bind fun capacity counted => ?_
  refine (add_ensures _ _ _).bind fun kvTotal fifth => ?_
  refine (add_ensures _ _ _).bind fun completedTotal sixth => ?_
  obtain ⟨rfl, -⟩ := first
  obtain ⟨rfl, -⟩ := second
  obtain ⟨rfl, -⟩ := third
  obtain ⟨rfl, -⟩ := fourth
  subst counted
  obtain ⟨rfl, -⟩ := fifth
  obtain ⟨rfl, -⟩ := sixth
  refine (foldlM_addPromptTotals _ _).bind fun totals summed => ?_
  subst summed
  rfl

end ContinuousBatchingEngine

end LlmLab.Serving
