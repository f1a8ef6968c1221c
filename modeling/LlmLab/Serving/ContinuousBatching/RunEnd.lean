import LlmLab.Serving.ContinuousBatching.Foresight
import LlmLab.Serving.ContinuousBatching.RunReport

/-!
# The end of a run

Requests that are submitted to a new engine and then run: what the engine from which `run` returns
has kept of them.
-/

namespace LlmLab.Serving

namespace ContinuousBatchingEngine

variable {engine next : ContinuousBatchingEngine} {backend : SimulatedBackend}
  {config : ContinuousBatchingConfig} {requests done : List Request} {request : Request}
  {id : RequestId} {outcome : IterationOutcome} {result : RunResult}

theorem advance_maxNewTokens (plan : BatchPlan) (nowUs endTimestampUs : Int) (id : RequestId)
    (request : Request) : (advance plan nowUs endTimestampUs id request).maxNewTokens =
      request.maxNewTokens := by
  unfold advance
  split
  · exact request.admitted_maxNewTokens ..
  split
  · exact request.decoded_maxNewTokens ..
  · rfl

theorem advance_submission (plan : BatchPlan) (nowUs endTimestampUs : Int) (id : RequestId)
    (request : Request) : (advance plan nowUs endTimestampUs id request).submission =
      request.submission := by
  unfold Request.submission
  rw [advance_requestId, advance_arrivalTimeUs, advance_prompt, advance_maxNewTokens]

/-! ## Submissions -/

/-- A new engine to which some requests have been submitted. -/
structure Submitted (backend : SimulatedBackend) (config : ContinuousBatchingConfig)
    (done : List Request) (engine : ContinuousBatchingEngine) : Prop where
  fresh : engine = { create backend config with requests := engine.requests }
  holds : ∀ id, engine.requests.find? id = done.find? fun request => request.requestId = id
  pristine : ∀ request ∈ done, request.Pristine
  calls : engine = reach backend config (done.map .submitRequest)

theorem submitted_create : Submitted backend config [] (create backend config) :=
  ⟨rfl, fun _ => rfl, nofun, rfl⟩

/-- An accepted submission adds its request and changes nothing else. -/
theorem Submitted.submit (submitted : Submitted backend config done engine)
    (accepted : (engine.submitRequest request).1 = .ok ()) :
    Submitted backend config (done ++ [request]) (engine.submitRequest request).2 := by
  have admits := admits_of_submitRequest accepted
  rw [admits.submitRequest]
  refine ⟨?_, fun id => ?_, fun other member => ?_, ?_⟩
  · conv_lhs => rw [submitted.fresh]
    rfl
  · change (engine.requests.insert request.requestId request).find? id = _
    rw [OrdMap.find?_insert, List.find?_append, ← submitted.holds]
    by_cases same : id = request.requestId
    · have unknown : engine.requests.find? id = none := same ▸ admits.unknown
      rw [if_pos same, unknown, Option.none_or, List.find?_cons_of_pos (by simp [same])]
    · rw [if_neg same, List.find?_cons_of_neg (by simpa using Ne.symm same), List.find?_nil,
        Option.or_none]
  · rcases List.mem_append.mp member with old | new
    · exact submitted.pristine other old
    · rw [List.mem_singleton.mp new]
      exact admits.pristine
  · rw [List.map_append, List.map_singleton, reach_concat, ← submitted.calls]
    exact congrArg Prod.snd admits.submitRequest.symm

/-! ## The run -/

/-- What the iterations of a run keep of the submitted requests. -/
structure Carries (requests : List Request) (engine : ContinuousBatchingEngine) : Prop where
  bounded : engine.Bounded
  kept : ∀ id, (engine.requests.find? id).map Request.submission =
    requests.find? fun request => request.requestId = id
  uncancelled : engine.statistics.cancelledRequestCount = 0

/-- An engine that has only taken submissions carries them. -/
theorem Submitted.carries (submitted : Submitted backend config requests engine)
    (arrivals : ∀ request ∈ requests, request.arrivalTimeUs ≤ int64Max) :
    engine.Carries requests := by
  refine ⟨?_, fun id => ?_, ?_⟩
  · refine ⟨?_, ?_, ?_, fun id request found => ?_, ?_⟩
    · rw [submitted.fresh]
      exact Nat.zero_le _
    · rw [submitted.fresh]
      exact Nat.zero_le _
    · rw [submitted.fresh]
      exact Nat.zero_le _
    · rw [submitted.holds] at found
      exact arrivals request (List.mem_of_find?_eq_some found)
    · rw [submitted.fresh]
      exact (by decide : (0 : Int) ≤ int64Max)
  · rw [submitted.holds]
    cases found : requests.find? fun request => request.requestId = id with
    | none => rfl
    | some request =>
        have pristine := submitted.pristine request (List.mem_of_find?_eq_some found)
        exact congrArg some pristine.submission_eq
  · rw [submitted.fresh]
    rfl

/-- An iteration keeps the submitted requests. -/
theorem iterate_carries (coherent : engine.Coherent) (carries : engine.Carries requests)
    (ran : engine.iterate = .ok (outcome, next)) : next.Carries requests := by
  refine ⟨iterate_bounded coherent carries.bounded ran, fun id => ?_, ?_⟩
  · rw [← carries.kept]
    rcases ((iterate_ensures coherent).of_eq_ok ran).committed coherent with
      same | ⟨_, builder, endUs, _, _, committed⟩
    · exact congrArg (fun state => (state.requests.find? id).map Request.submission) same
    · rw [committed.requests, Option.map_map]
      congr 1
      exact funext fun request => advance_submission ..
  · rw [← carries.uncancelled]
    rcases ((iterate_ensures coherent).of_eq_ok ran).committed coherent with
      same | ⟨_, builder, endUs, _, _, committed⟩
    · exact congrArg (fun state => state.statistics.cancelledRequestCount) same
    · rw [committed.statistics_eq]
      rfl

/-- An iteration counts as stalled when it schedules nothing that it could run. -/
theorem Iterated.stalledIterationCount (coherent : engine.Coherent)
    (iterated : engine.Iterated outcome next) : next.statistics.stalledIterationCount =
      engine.statistics.stalledIterationCount + if outcome = .stalled then 1 else 0 := by
  cases iterated with
  | complete => rfl
  | idle _ _ committed =>
      rw [committed.statistics_eq]
      rfl
  | stalled runs _ trail idle committed =>
      have some' := orderedCandidates_ne_nil coherent runs
      have only := (plan_deferredOnly trail.planned some' engine.nextIterationNumber).mpr idle
      rw [committed.statistics_eq]
      change _ + (if _ then 1 else 0) = _
      rw [if_pos only, if_pos rfl]
  | progressed runs _ trail work _ committed =>
      have some' := orderedCandidates_ne_nil coherent runs
      have other := mt (plan_deferredOnly trail.planned some' engine.nextIterationNumber).mp work
      rw [committed.statistics_eq]
      change _ + (if _ then 1 else 0) = _
      rw [if_neg other, if_neg (by decide)]

/-- An engine from which a run of some requests has returned. -/
structure Reports (backend : SimulatedBackend) (config : ContinuousBatchingConfig)
    (requests : List Request) (result : RunResult) (engine : ContinuousBatchingEngine) :
    Prop where
  calls : ∃ calls, engine = reach backend config calls
  carries : engine.Carries requests
  completed : result = .completed → engine.statistics.stalledIterationCount = 0 ∧
    ∀ id request, engine.requests.find? id = some request →
      request.state = .finished ∨ request.state = .cancelled
  stalled : result = .stalled → 0 < engine.statistics.stalledIterationCount ∧
    ∃ id request, engine.requests.find? id = some request ∧ request.state ≠ .finished ∧
      request.state ≠ .cancelled

/-- A run that returns has kept its requests, and has stalled exactly if it says so. -/
theorem Submitted.reports (submitted : Submitted backend config requests engine)
    (arrivals : ∀ request ∈ requests, request.arrivalTimeUs ≤ int64Max)
    (returned : engine.run.1 = .ok result) :
    Reports backend config requests result engine.run.2 := by
  have coherent : engine.Coherent := submitted.calls ▸ reach_coherent backend config _
  have unstalled : engine.statistics.stalledIterationCount = 0 := by
    rw [submitted.fresh]
    rfl
  obtain ⟨before, settled, ⟨carries, still⟩, outcome, iterated, ends⟩ :=
    @run_returns _ (fun engine => engine.Carries requests ∧
      engine.statistics.stalledIterationCount = 0)
      (fun {engine next} coherent holds ran => by
        have counted := ((iterate_ensures coherent).of_eq_ok ran).stalledIterationCount coherent
        exact ⟨iterate_carries coherent holds.1 ran, counted.trans (by simp [holds.2])⟩)
      coherent ⟨submitted.carries arrivals, unstalled⟩ _ returned
  have last := (iterate_ensures settled).of_eq_ok iterated
  have counted := last.stalledIterationCount settled
  refine ⟨⟨requests.map .submitRequest ++ [.run], ?_⟩, iterate_carries settled carries iterated,
    fun completed => ?_, fun stalled => ?_⟩
  · rw [reach_concat, ← submitted.calls]
    rfl
  · rcases ends with ⟨-, rfl⟩ | ⟨rfl, -⟩
    · exact ⟨counted.trans (by simp [still]), (last.drained settled).requests⟩
    · cases completed
  · rcases ends with ⟨rfl, -⟩ | ⟨-, rfl⟩
    · cases stalled
    · exact ⟨by rw [counted]; simp, (last.stranded settled).unfinished⟩

/-! ## The trace of a run -/

/-- The intervals of a timeline follow one another. -/
theorem sorted_of_contiguous {trace : List BatchTraceEntry}
    (contiguous : ∀ before entry after, trace = before ++ entry :: after →
      entry.startTimestampUs = boundary before)
    (forward : ∀ entry ∈ trace, entry.startTimestampUs ≤ entry.endTimestampUs) :
    (trace.Pairwise fun first second => first.endTimestampUs ≤ second.startTimestampUs) ∧
      ∀ entry ∈ trace, entry.endTimestampUs ≤ boundary trace := by
  induction trace using List.reverseRecOn with
  | nil => exact ⟨.nil, nofun⟩
  | append_singleton trace last ih =>
      obtain ⟨sorted, bound⟩ := ih
        (fun before entry after split => contiguous before entry (after ++ [last])
          (by rw [split, List.append_assoc, List.cons_append]))
        fun entry member => forward entry (List.mem_append_left _ member)
      have starts := contiguous trace last [] rfl
      have ends := forward last (List.mem_append_right _ (List.mem_singleton_self last))
      rw [List.pairwise_append, boundary_concat]
      refine ⟨⟨sorted, List.pairwise_singleton _ _, fun entry member other single => ?_⟩,
        fun entry member => ?_⟩
      · rw [List.mem_singleton.mp single, starts]
        exact bound entry member
      · rcases List.mem_append.mp member with old | new
        · exact (bound entry old).trans (starts ▸ ends)
        · rw [List.mem_singleton.mp new]

/-- The iterations of each kind and the prompts are those of the trace. -/
structure Totals (engine : ContinuousBatchingEngine) : Prop where
  stalled : engine.statistics.stalledIterationCount =
    engine.planTrace.countP fun entry => entry.plan.deferredOnly
  idle : engine.statistics.idleIterationCount = engine.planTrace.countP fun entry =>
    entry.plan.scheduledSequenceCount = 0 ∧ entry.plan.deferredOnly = false
  nonempty : engine.statistics.nonemptyBatchCount =
    engine.planTrace.countP fun entry => 0 < entry.plan.scheduledSequenceCount
  originals : engine.statistics.totalOriginalPromptTokens = originalTokens engine.prefills

/-- In every state reached, the counters of the iterations are sums over the trace. -/
theorem reach_totals (backend : SimulatedBackend) (config : ContinuousBatchingConfig)
    (calls : List EngineCall) : (reach backend config calls).Totals := by
  obtain ⟨stalled, idle, nonempty⟩ := reach_kinds backend config calls
  have kinds : ∀ plan : BatchPlan,
      (plan.deferredOnly = false ∧ plan.isEmpty = true ↔
        plan.scheduledSequenceCount = 0 ∧ plan.deferredOnly = false) ∧
      (plan.deferredOnly = false ∧ plan.isEmpty = false ↔ 0 < plan.scheduledSequenceCount) :=
    fun plan => by
      unfold BatchPlan.deferredOnly BatchPlan.isEmpty
      rcases Nat.eq_zero_or_pos plan.scheduledSequenceCount with none | some'
      · cases plan.deferredRequests <;> simp [none]
      · simp [some'.ne', some']
  constructor
  · refine stalled.trans ((sum_map_ite ..).trans (List.countP_congr fun entry _ => ?_))
    rw [decide_eq_true_iff]
  · refine idle.trans ((sum_map_ite ..).trans (List.countP_congr fun entry _ => ?_))
    rw [decide_eq_true_iff, decide_eq_true_iff]
    exact (kinds entry.plan).1
  · refine nonempty.trans ((sum_map_ite ..).trans (List.countP_congr fun entry _ => ?_))
    rw [decide_eq_true_iff, decide_eq_true_iff]
    exact (kinds entry.plan).2
  · exact (@reach_summed (·.totalOriginalPromptTokens)
      (fun plan => originalTokens plan.prefillWork) rfl (fun _ _ => rfl) (fun _ _ _ _ => rfl)
      backend config calls).trans (sum_map_flatMap ..).symm

/-- What an engine from which a run has returned shows of its requests and of its trace. -/
structure Accounted (requests : List Request) (engine : ContinuousBatchingEngine) : Prop where
  coherent : engine.Coherent
  balanced : engine.Balanced
  conserved : engine.Conserved
  totals : engine.Totals
  timeline : engine.Timeline
  recorded : engine.Recorded
  carries : engine.Carries requests

theorem Reports.accounted (reports : Reports backend config requests result engine) :
    engine.Accounted requests := by
  obtain ⟨calls, rfl⟩ := reports.calls
  exact ⟨reach_coherent .., reach_balanced .., reach_statistics .., reach_totals ..,
    reach_told .., reach_recorded .., reports.carries⟩

namespace Accounted

theorem sorted (accounted : engine.Accounted requests) :
    (engine.planTrace.Pairwise fun first second =>
      first.endTimestampUs ≤ second.startTimestampUs) ∧
      ∀ entry ∈ engine.planTrace, entry.endTimestampUs ≤ engine.nowUs := by
  rw [accounted.timeline.now]
  exact sorted_of_contiguous accounted.timeline.contiguous fun entry member =>
    (accounted.recorded.shown.entries entry member).forward

/-- No request is cancelled in a run. -/
theorem settled (accounted : engine.Accounted requests)
    (found : engine.requests.find? id = some request) : request.state ≠ .cancelled := by
  intro cancelled
  have none := accounted.conserved.cancelled.symm.trans accounted.carries.uncancelled
  have counted := OrdMap.le_total (fun request : Request =>
    if request.state = .cancelled then 1 else 0) found
  rw [if_pos cancelled] at counted
  unfold requestsIn at none
  omega

/-- The entries of a decoded request come after its prefill. -/
theorem prefilled (accounted : engine.Accounted requests)
    (found : engine.requests.find? id = some request) {entry : BatchTraceEntry}
    (member : entry ∈ decodeEntries engine.planTrace id) :
    ∃ first ∈ prefillEntries engine.planTrace id,
      first.endTimestampUs ≤ entry.startTimestampUs := by
  obtain ⟨inside, decodes⟩ := List.mem_filter.mp member
  obtain ⟨before, after, split⟩ := List.append_of_mem inside
  obtain ⟨first, earlier, prefills⟩ := (accounted.timeline.told id request found).prefilled before
    entry after split (of_decide_eq_true decodes)
  have sorted := accounted.sorted.1
  rw [split, List.pairwise_append] at sorted
  refine ⟨first, List.mem_filter.mpr ⟨?_, decide_eq_true prefills⟩,
    sorted.2.2 first earlier entry List.mem_cons_self⟩
  rw [split]
  exact List.mem_append_left _ earlier

/-- A request either waits and has no entry, or it has one prefill, from which its admission is
taken, and its decodes come later. -/
theorem admission (accounted : engine.Accounted requests)
    (found : engine.requests.find? id = some request) :
    (prefillEntries engine.planTrace id = [] ∧ decodeEntries engine.planTrace id = [] ∧
        request.admittedTimeUs = none ∧ request.state = .waiting) ∨
      ∃ first, prefillEntries engine.planTrace id = [first] ∧
        request.admittedTimeUs = some first.startTimestampUs ∧
        request.arrivalTimeUs ≤ first.startTimestampUs ∧ request.state ≠ .waiting ∧
        first.startTimestampUs ≤ first.endTimestampUs ∧
        ∀ entry ∈ decodeEntries engine.planTrace id,
          first.endTimestampUs ≤ entry.startTimestampUs := by
  have told := accounted.timeline.told id request found
  rcases told.admitted with ⟨none, unadmitted⟩ | ⟨first, only, admitted, arrives⟩
  · have undecoded : decodeEntries engine.planTrace id = [] := by
      refine List.eq_nil_iff_forall_not_mem.mpr fun entry member => ?_
      obtain ⟨first, earlier, -⟩ := accounted.prefilled found member
      rw [none] at earlier
      cases earlier
    refine Or.inl ⟨none, undecoded, unadmitted, ?_⟩
    cases accounted.coherent.resting id request found with
    | waiting pristine => exact pristine.1
    | decoding decoding => exact absurd none (told.started decoding)
    | finished finished =>
        obtain ⟨-, before, entry, after, split, -, listed, -⟩ := told.finished finished
        have inside : entry ∈ engine.planTrace := by
          rw [split]
          exact List.mem_append_right _ List.mem_cons_self
        split_ifs at listed
        · have member : entry ∈ prefillEntries engine.planTrace id :=
            List.mem_filter.mpr ⟨inside, decide_eq_true listed⟩
          rw [none] at member
          cases member
        · have member : entry ∈ decodeEntries engine.planTrace id :=
            List.mem_filter.mpr ⟨inside, decide_eq_true listed⟩
          rw [undecoded] at member
          cases member
    | cancelled cancelled => exact absurd cancelled (accounted.settled found)
  · have inside : first ∈ prefillEntries engine.planTrace id := by
      rw [only]
      exact List.mem_singleton_self first
    refine Or.inr ⟨first, only, admitted, arrives, fun waiting => ?_, ?_, fun entry member => ?_⟩
    · have pristine := (accounted.coherent.resting id request found).pristine waiting
      rw [pristine.2.2.1] at admitted
      cases admitted
    · exact (accounted.recorded.shown.entries first (List.mem_filter.mp inside).1).forward
    · obtain ⟨other, earlier, before⟩ := accounted.prefilled found member
      rw [only] at earlier
      rwa [List.mem_singleton.mp earlier] at before

/-- A finished request ends with its last decode, or with its prefill if it has no output. -/
theorem ending (accounted : engine.Accounted requests)
    (found : engine.requests.find? id = some request) (finished : request.state = .finished) :
    request.generatedTokenCount = request.maxNewTokens ∧
      ∃ last, request.finishTimeUs = some last.endTimestampUs ∧
        if request.maxNewTokens = 0 then prefillEntries engine.planTrace id = [last]
        else (decodeEntries engine.planTrace id).getLast? = some last := by
  have told := accounted.timeline.told id request found
  obtain ⟨all, before, last, after, split, time, listed, quiet⟩ := told.finished finished
  have inside : last ∈ engine.planTrace := by
    rw [split]
    exact List.mem_append_right _ List.mem_cons_self
  refine ⟨all, last, time, ?_⟩
  split_ifs at listed ⊢ with zero
  · have member : last ∈ prefillEntries engine.planTrace id :=
      List.mem_filter.mpr ⟨inside, decide_eq_true listed⟩
    rcases told.admitted with ⟨none, -⟩ | ⟨first, only, -⟩
    · rw [none] at member
      cases member
    · rw [only] at member ⊢
      rw [List.mem_singleton.mp member]
  · have none : after.filter (fun entry => id ∈ entry.plan.decodeRequestIds) = [] := by
      refine List.filter_eq_nil_iff.mpr fun later member decodes => quiet later member ?_
      exact List.mem_append_left _ (List.mem_append_right _ (of_decide_eq_true decodes))
    unfold decodeEntries
    rw [split, List.filter_append, List.filter_cons_of_pos (by simpa using listed), none,
      List.getLast?_concat]

/-- Every batch that is not empty has a sequence. -/
theorem batches_le (accounted : engine.Accounted requests) :
    engine.statistics.nonemptyBatchCount ≤ engine.statistics.totalScheduledSequences := by
  rw [accounted.totals.nonempty, accounted.conserved.sequences, ← sum_map_ite]
  refine List.sum_le_sum fun entry _ => ?_
  dsimp only
  split
  · next some' => exact some'
  · exact Nat.zero_le _

/-- The eligible tokens are among the prompt tokens, whose counter has not overflowed. -/
theorem eligible_le (accounted : engine.Accounted requests) :
    engine.statistics.totalMatchedPrefixTokens ≤
        engine.statistics.totalCacheEligiblePromptTokensLookedUp ∧
      engine.statistics.totalCacheEligiblePromptTokensLookedUp ≤ uint64Max := by
  refine ⟨accounted.conserved.saved.trans_le accounted.conserved.eligible, ?_⟩
  have looked := accounted.recorded.looked.eligible
  have bounded := accounted.carries.bounded.prompts
  rw [accounted.totals.originals] at bounded
  rw [← accounted.balanced.copied]
  change engine.kvCache.prefixMetrics.totalCacheEligiblePromptTokensLookedUp ≤ uint64Max
  refine (looked.trans ?_).trans bounded
  exact (Nat.zero_add _).le

/-- The blocks in use are at most those at the peak, and these at most all blocks. -/
theorem peak_le (accounted : engine.Accounted requests) :
    engine.statistics.currentAllocatedKvBlocks ≤ engine.statistics.peakAllocatedKvBlocks ∧
      engine.statistics.peakAllocatedKvBlocks ≤ engine.config.kvCacheConfig.totalNumBlocks := by
  have valid := accounted.coherent.sound.valid
  have same : engine.kvCache.config = engine.config.kvCacheConfig :=
    accounted.coherent.setup.config
  constructor
  · rw [← accounted.balanced.copied]
    exact accounted.balanced.metered.peak.trans accounted.balanced.peak.ge
  · rw [accounted.balanced.peak, ← same, ← valid.blocks.length]
    exact valid.peak

/-- The gauges of the statistics fit together. -/
theorem capacity (accounted : engine.Accounted requests) :
    engine.statistics.currentAllocatedKvBlocks + engine.kvCache.freeBlocks.size =
        engine.config.kvCacheConfig.totalNumBlocks ∧
      engine.statistics.representedKvTokens + engine.statistics.internalFragmentationTokens =
        engine.statistics.currentAllocatedKvBlocks *
          engine.config.kvCacheConfig.blockSizeTokens ∧
      engine.statistics.cachedKvBlocks ≤ engine.statistics.currentAllocatedKvBlocks ∧
      engine.statistics.referencedSharedKvBlocks ≤
        engine.statistics.currentAllocatedKvBlocks := by
  have sound := accounted.coherent.sound
  have same : engine.kvCache.config = engine.config.kvCacheConfig :=
    accounted.coherent.setup.config
  rw [← accounted.balanced.copied, ← same]
  exact ⟨sound.allocated_add_free, sound.represented_add_fragmentation, sound.cachedBlockCount_le,
    sound.referencedSharedBlockCount_le⟩

/-- The last entry of the trace shows the gauges of the statistics. -/
theorem last (accounted : engine.Accounted requests) {entry : BatchTraceEntry}
    (last : engine.planTrace.getLast? = some entry) :
    engine.statistics.currentAllocatedKvBlocks = entry.allocatedKvBlocks ∧
      engine.kvCache.freeBlocks.size = entry.freeKvBlocks ∧
      engine.statistics.representedKvTokens = entry.representedKvTokens ∧
      engine.statistics.internalFragmentationTokens = entry.internalFragmentationTokens ∧
      engine.statistics.cachedKvBlocks = entry.cachedKvBlocks ∧
      engine.statistics.referencedSharedKvBlocks = entry.referencedSharedKvBlocks := by
  have gauges := accounted.recorded.shown.last accounted.carries.uncancelled entry last
  rw [← accounted.balanced.copied]
  exact ⟨gauges.allocated.symm, gauges.free.symm, gauges.represented.symm,
    gauges.fragmentation.symm, gauges.cached.symm, gauges.shared.symm⟩

/-- Without a trace all gauges are those of a new engine. -/
theorem untouched (accounted : engine.Accounted requests) (none : engine.planTrace = []) :
    engine.statistics.currentAllocatedKvBlocks = 0 ∧
      engine.statistics.representedKvTokens = 0 ∧
      engine.statistics.internalFragmentationTokens = 0 ∧
      engine.statistics.cachedKvBlocks = 0 ∧
      engine.statistics.referencedSharedKvBlocks = 0 := by
  have fresh := accounted.recorded.shown.empty accounted.carries.uncancelled none
  have copied := (create_balanced engine.backend engine.config).copied
  rw [← accounted.balanced.copied, fresh]
  exact ⟨congrArg (·.currentAllocatedKvBlocks) copied, congrArg (·.representedKvTokens) copied,
    congrArg (·.internalFragmentationTokens) copied, congrArg (·.cachedKvBlocks) copied,
    congrArg (·.referencedSharedKvBlocks) copied⟩

end Accounted

end ContinuousBatchingEngine

end LlmLab.Serving
