import LlmLab.Serving.ContinuousBatching.Roles

/-!
# The finished plan

The checks that close `build_from_candidates` and `BatchPlan::create_with_deferred` pass on what
the loop leaves, and replaying the plan on a second copy of the manager ends in the planner's
local manager.
-/

namespace LlmLab.Serving

open KVCacheManager

/-! ## The checks of a plan -/

namespace BatchPlan

/-- Distinct ids that are new are all seen. -/
theorem foldlM_see (message : String) {ids : List RequestId} {seen : OrdSet RequestId}
    (nodup : ids.Nodup) (unseen : ∀ id ∈ ids, id ∉ seen) :
    Ensures (fun _ => False) (fun result => ∀ id, id ∈ result ↔ id ∈ seen ∨ id ∈ ids)
      (ids.foldlM (see message) seen) := by
  refine Ensures.foldlM (fun consumed (result : OrdSet RequestId) =>
    ∀ id, id ∈ result ↔ id ∈ seen ∨ id ∈ consumed) (fun id => by simp)
    fun consumed id rest result split holds => ?_
  unfold see
  have member : id ∈ ids := by simp [split]
  refine .throwIf_bind (fun known => ?_) fun _ other => ?_
  · rcases (holds id).mp known with old | earlier
    · exact unseen id member old
    · rw [split] at nodup
      exact (List.nodup_append.mp nodup).2.2 id earlier id (by simp) rfl
  · rw [OrdSet.mem_insert, holds, List.mem_append, List.mem_singleton]
    tauto

/-- Distinct prefills are all seen, and their tokens are added up. -/
theorem foldlM_seePrefill {prefills : List PrefillWork}
    (nodup : (prefills.map (·.requestId)).Nodup) :
    Ensures Exn.IsOverflow (fun result => (∀ id, id ∈ result.1 ↔ id ∈ prefills.map (·.requestId)) ∧
        result.2 = (prefills.map (·.promptTokenCount)).sum)
      (prefills.foldlM seePrefill (OrdSet.empty, 0)) := by
  refine Ensures.foldlM (fun (consumed : List PrefillWork) (result : OrdSet RequestId × Nat) =>
    (∀ id, id ∈ result.1 ↔ id ∈ consumed.map (·.requestId)) ∧
      result.2 = (consumed.map (·.promptTokenCount)).sum) ?_
    fun consumed work rest result split holds => ?_
  · exact ⟨fun id => by simp, rfl⟩
  unfold seePrefill see
  simp only [bind_assoc, pure_bind]
  refine .throwIf_bind (fun known => ?_) fun _ => ?_
  · rw [split, List.map_append] at nodup
    exact absurd rfl ((List.nodup_append.mp nodup).2.2 _ ((holds.1 _).mp known) work.requestId
      (by simp))
  · refine (add_ensures _ _ _).bind fun total summed => ⟨fun id => ?_, ?_⟩
    · rw [OrdSet.mem_insert, holds.1, List.map_append, List.mem_append, List.map_singleton,
        List.mem_singleton, or_comm]
    · rw [summed.1, holds.2, List.map_append, List.sum_append]
      simp

/-- A plan within its budgets that mentions no request twice is accepted. -/
theorem createWithDeferred_ensures {number maxSequences maxTokens : Nat}
    {prefills : List PrefillWork} {decodes : List RequestId} {deferred : List DeferredRequest}
    (sequences_pos : 0 < maxSequences) (tokens_pos : 0 < maxTokens)
    (some' : ¬ (prefills = [] ∧ decodes = [] ∧ deferred = []))
    (sequences : prefills.length + decodes.length ≤ maxSequences)
    (tokens : (prefills.map (·.promptTokenCount)).sum + decodes.length ≤ maxTokens)
    (nodup : (prefills.map (·.requestId) ++ decodes ++ deferred.map (·.requestId)).Nodup)
    (stalls : prefills = [] → decodes = [] → ∀ item ∈ deferred, item.reason = .kvCapacity) :
    Ensures Exn.IsOverflow (fun plan => plan = {
        iterationNumber := number
        prefillRequestIds := prefills.map (·.requestId)
        prefillWork := prefills
        decodeRequestIds := decodes
        deferredRequests := deferred
        totalPrefillTokens := (prefills.map (·.promptTokenCount)).sum
        totalDecodeTokens := decodes.length
        totalScheduledTokens := (prefills.map (·.promptTokenCount)).sum + decodes.length })
      (createWithDeferred number prefills decodes deferred maxSequences maxTokens) := by
  obtain ⟨front, deferredNodup, apart⟩ := List.nodup_append.mp nodup
  obtain ⟨prefillNodup, decodeNodup, split⟩ := List.nodup_append.mp front
  unfold createWithDeferred
  refine .throwIf_bind (fun zero => ?_) fun _ => .throwIf_bind (fun none => absurd none some')
    fun _ => .throwIf_bind (fun many => ?_) fun _ => ?_
  · omega
  · omega
  refine (foldlM_seePrefill prefillNodup).bind fun result spec => ?_
  obtain ⟨seen, total⟩ := result
  obtain ⟨known, rfl⟩ := spec
  dsimp only at known ⊢
  refine ((foldlM_see _ decodeNodup fun id member old => split _ ((known id).mp old) id member
    rfl).mono_allowed fun _ => False.elim).bind fun seen' known' => ?_
  refine ((foldlM_see _ deferredNodup fun id member old => ?_).mono_allowed
    fun _ => False.elim).bind fun _ _ => ?_
  · rw [known', known] at old
    exact apart id (List.mem_append.mpr old) id member rfl
  refine .throwIf_bind (fun bad => ?_) fun _ => ?_
  · obtain ⟨⟨noPrefills, noDecodes⟩, item, member, other⟩ := bad
    exact absurd (stalls noPrefills noDecodes item member) other
  refine (add_ensures _ _ _).bind fun scheduled summed => ?_
  obtain ⟨rfl, -⟩ := summed
  exact .throwIf_bind (fun many => absurd tokens (not_le.mpr many)) fun _ => rfl

end BatchPlan

namespace ContinuousBatchingEngine

variable {engine : ContinuousBatchingEngine} {arrived : OrdSet RequestId}
  {consumed : List Candidate} {builder : PlanBuilder} {candidate : Candidate}

/-- The plan that the local variables describe. -/
def PlanBuilder.plan (builder : PlanBuilder) (iterationNumber : Nat) : BatchPlan where
  iterationNumber := iterationNumber
  prefillRequestIds := builder.prefills.map (·.requestId)
  prefillWork := builder.prefills
  decodeRequestIds := builder.decodes
  decodeWork := builder.decodeWork
  workOrder := builder.workOrder
  plannedEvictionIds := builder.allEvictions
  plannedAllocationIds := builder.allAllocations
  deferredRequests := builder.deferred
  totalPrefillTokens := (builder.prefills.map (·.promptTokenCount)).sum
  totalDecodeTokens := builder.decodes.length
  totalScheduledTokens := (builder.prefills.map (·.promptTokenCount)).sum + builder.decodes.length

/-- Without scheduled work no block changes hands. -/
theorem Trail.untouched (trail : engine.Trail arrived consumed builder)
    (unscheduled : builder.workOrder = []) :
    builder.cache = engine.kvCache ∧ builder.allEvictions = [] ∧ builder.allAllocations = [] ∧
      builder.decodeWork = [] := by
  induction trail with
  | start => exact ⟨rfl, rfl, rfl, rfl⟩
  | step _ _ _ decided ih =>
      cases decided with
      | deferred => exact ih unscheduled
      | prefill | decode => exact absurd unscheduled (by simp [PlanBuilder.scheduled])

theorem Planned.mentions_nodup (planned : engine.Planned consumed builder)
    (distinct : (consumed.map (·.requestId)).Nodup) :
    (builder.prefills.map (·.requestId) ++ builder.decodes ++
      builder.deferred.map (·.requestId)).Nodup :=
  ((planned.scheduled.append_right _).nodup_iff).mpr (planned.nodup distinct)

/-- The end of `build_from_candidates` accepts what the loop leaves. -/
theorem Trail.finish_ensures (trail : engine.Trail arrived consumed builder)
    (coherent : engine.Coherent) (distinct : (consumed.map (·.requestId)).Nodup)
    (some' : consumed ≠ []) (number : Nat) :
    Ensures Exn.IsOverflow (fun plan => plan = builder.plan number)
      (builder.finish engine.config number) := by
  have planned := trail.planned
  have roles := trail.roles coherent
  have mentioned : ¬ (builder.prefills = [] ∧ builder.decodes = [] ∧ builder.deferred = []) := by
    rintro ⟨noPrefills, noDecodes, noDeferred⟩
    have length := planned.ids.length_eq
    rw [planned.workOrder_eq_nil.mpr ⟨noPrefills, noDecodes⟩, noDeferred] at length
    exact some' (List.length_eq_zero_iff.mp (by simpa using length.symm))
  have accepted := @BatchPlan.createWithDeferred_ensures number _ _ builder.prefills
    builder.decodes builder.deferred engine.config.sequences_pos engine.config.tokens_pos mentioned
    planned.sequences (planned.used ▸ planned.tokens) (planned.mentions_nodup distinct)
    fun noPrefills noDecodes => planned.stalls (planned.workOrder_eq_nil.mpr ⟨noPrefills, noDecodes⟩)
  unfold PlanBuilder.finish
  split
  · next idle =>
      obtain ⟨noPrefills, noDecodes, -⟩ := idle
      have unscheduled := planned.workOrder_eq_nil.mpr ⟨noPrefills, noDecodes⟩
      obtain ⟨-, noEvictions, noAllocations, noWork⟩ := trail.untouched unscheduled
      refine .throwIf_bind (fun bad => ?_) fun _ => ?_
      · obtain ⟨item, member, other⟩ := bad
        exact absurd (planned.stalls unscheduled item member) other
      · rw [noPrefills, noDecodes] at accepted
        refine accepted.mono fun plan same => ?_
        rw [same, PlanBuilder.plan, noPrefills, noDecodes, unscheduled, noEvictions, noAllocations,
          noWork]
  · refine .throwIf_bind (fun bad => absurd roles.evictions_nodup bad) fun _ =>
      .throwIf_bind (fun bad => absurd roles.allocations_nodup bad) fun _ =>
      .throwIf_bind (fun bad => ?_) fun _ => ?_
    · obtain ⟨x, matched, conflict⟩ := bad
      have carries := (roles.matched x matched).2.2
      rcases conflict with evicted | allocated
      · exact absurd (roles.evicted x evicted).2.2 carries
      · exact absurd (roles.allocated x allocated).2.2 carries
    · exact accepted.bind fun plan same => by rw [same]; rfl

theorem orderedCandidates_ne_nil (coherent : engine.Coherent)
    (runs : engine.hasRunnableWork arrived = true) : engine.orderedCandidates arrived ≠ [] := by
  obtain ⟨id, request, found, runs⟩ := hasRunnableWork_iff.mp runs
  have member : (⟨id, request.arrivalTimeUs, decide (request.state = .waiting)⟩ : Candidate) ∈
      engine.orderedCandidates arrived :=
    (mem_orderedCandidates coherent).mpr ⟨request, found, runs, rfl, by simp⟩
  exact List.ne_nil_of_mem member

/-- `build_plan`, where there is something to plan. -/
theorem buildPlan_ensures (coherent : engine.Coherent)
    (runs : engine.hasRunnableWork arrived = true) (number : Nat) :
    Ensures (Refuses (engine.Clear arrived))
      (fun plan => ∃ builder, engine.Trail arrived (engine.orderedCandidates arrived) builder ∧
        plan = builder.plan number)
      (engine.buildPlan number arrived) := by
  have distinct := orderedCandidates_nodup coherent arrived
  unfold buildPlan buildFromCandidates
  refine ((plan_ensures coherent (fun candidate member =>
    (mem_orderedCandidates coherent).mp member) distinct).mono_allowed fun error refused =>
      refused.imp_right fun unplanned clear => unplanned ⟨clear, clear.spares⟩).bind
        fun builder trail => ?_
  exact ((trail.finish_ensures coherent distinct (orderedCandidates_ne_nil coherent runs)
    number).mono_allowed fun _ => Or.inl).mono fun plan same => ⟨builder, trail, same⟩

theorem buildPlan_nil (engine : ContinuousBatchingEngine) {number : Nat} {plan : BatchPlan}
    (none : engine.orderedCandidates arrived = []) : engine.buildPlan number arrived ≠ .ok plan := by
  have refused : Ensures (fun _ => True) (fun _ => False) (engine.buildPlan number arrived) := by
    unfold buildPlan buildFromCandidates
    rw [none, List.foldlM_nil, pure_bind]
    unfold PlanBuilder.finish
    rw [if_neg (by simp)]
    have empty : Ensures (fun _ => True) (fun _ => False) (BatchPlan.createWithDeferred number []
        [] [] engine.config.maxNumSequences engine.config.maxBatchedTokens) := by
      unfold BatchPlan.createWithDeferred
      exact .throwIf_bind (fun _ => trivial) fun _ =>
        .throwIf_bind (fun _ => trivial) fun some' => absurd ⟨rfl, rfl, rfl⟩ some'
    exact .throwIf_bind (fun _ => trivial) fun _ => .throwIf_bind (fun _ => trivial) fun _ =>
      .throwIf_bind (fun _ => trivial) fun _ => empty.bind fun _ => False.elim
  exact fun built => refused.of_eq_ok built

/-- A returned plan is what the loop left. -/
theorem buildPlan_eq_ok (coherent : engine.Coherent)
    {number : Nat} {plan : BatchPlan}
    (built : engine.buildPlan number arrived = .ok plan) :
    ∃ builder, (engine.orderedCandidates arrived).foldlM engine.planCandidate
        { cache := engine.kvCache } = .ok builder ∧
      engine.Trail arrived (engine.orderedCandidates arrived) builder ∧
        plan = builder.plan number := by
  have distinct := orderedCandidates_nodup coherent arrived
  obtain ⟨builder, looped, finished⟩ := except_bind_eq_ok.mp built
  have trail := (plan_ensures coherent (fun candidate member =>
    (mem_orderedCandidates coherent).mp member) distinct).of_eq_ok looped
  have some' : engine.orderedCandidates arrived ≠ [] := fun none => buildPlan_nil engine none built
  exact ⟨builder, looped, trail, (trail.finish_ensures coherent distinct some' number).of_eq_ok
    finished⟩

/-! ## Replay -/

/-- The plan finds its work by request id. -/
structure Finds (plan : BatchPlan) (builder : PlanBuilder) : Prop where
  prefills : ∀ work ∈ builder.prefills,
    plan.prefillWork.find? (·.requestId = work.requestId) = some work
  decodes : ∀ work ∈ builder.decodeWork,
    plan.decodeWork.find? (·.requestId = work.requestId) = some work

/-- Work items with distinct ids are found by their ids. -/
theorem find?_of_nodup {α : Type} {id : α → RequestId} {works : List α}
    (nodup : (works.map id).Nodup) {work : α} (member : work ∈ works) :
    works.find? (fun other => id other = id work) = some work := by
  induction works with
  | nil => cases member
  | cons first rest ih =>
      rw [List.map_cons, List.nodup_cons] at nodup
      rcases List.mem_cons.mp member with rfl | later
      · simp
      · have apart : id first ≠ id work := fun same =>
          nodup.1 (same ▸ List.mem_map_of_mem later)
        rw [List.find?_cons_of_neg (by simpa using apart)]
        exact ih nodup.2 later

theorem Planned.finds (planned : engine.Planned consumed builder)
    (distinct : (consumed.map (·.requestId)).Nodup) (number : Nat) :
    Finds (builder.plan number) builder := by
  have front := (List.nodup_append.mp (planned.mentions_nodup distinct)).1
  obtain ⟨prefills, decodes, -⟩ := List.nodup_append.mp front
  rw [← planned.decodeWork] at decodes
  exact ⟨fun work member => find?_of_nodup prefills member,
    fun work member => find?_of_nodup decodes member⟩

/-- Replaying the work items on a second copy of the manager ends in the local manager. -/
theorem Trail.replays (trail : engine.Trail arrived consumed builder) {plan : BatchPlan}
    (finds : Finds plan builder) :
    builder.workOrder.foldlM (engine.replayItem plan) engine.kvCache = .ok builder.cache := by
  induction trail with
  | start => rfl
  | @step consumed builder next candidate request trail describes _ decided ih =>
      cases decided with
      | deferred => exact ih ⟨finds.prefills, finds.decodes⟩
      | @prefill demand cache isPrefill _ _ allocated =>
          have before := ih ⟨fun work member => finds.prefills work (List.mem_append_left _ member),
            finds.decodes⟩
          have here := finds.prefills (prefillWorkOf builder.cache candidate request demand)
            (by simp)
          rw [PlanBuilder.scheduled, foldlM_concat, before, except_ok_bind]
          rw [replayItem, isPrefill, if_pos rfl]
          simp only
          rw [show plan.prefillWork.find? (fun work => work.requestId = candidate.requestId) = _
            from here]
          simp only [prefillWorkOf]
          rw [requestAt_eq_ok.mpr describes.found, except_ok_bind, ← allocated]
          unfold allocatePrefill
          cases engine.cachedTokens? request with
          | none => rfl
          | some tokens => exact allocatePromptWithPrefixExact_congr rfl rfl rfl
      | @decode demand cache isDecode _ _ appended =>
          have before := ih ⟨finds.prefills,
            fun work member => finds.decodes work (List.mem_append_left _ member)⟩
          have here := finds.decodes (decodeWorkOf builder.cache candidate demand) (by simp)
          rw [PlanBuilder.scheduled, foldlM_concat, before, except_ok_bind]
          rw [replayItem, isDecode, if_neg (by simp)]
          simp only
          rw [show plan.decodeWork.find? (fun work => work.requestId = candidate.requestId) = _
            from here]
          exact appended

end ContinuousBatchingEngine

end LlmLab.Serving
