import LlmLab.Serving.ContinuousBatching.Safety

/-!
# The plan and its replay

`prepare_iteration` re-derives on a second copy of the manager what the planner did on the first.
Both copies agree, the ids recorded per work item are the planned ids in order, and the
publications and releases that follow are accepted.
-/

namespace LlmLab.Serving

open KVCacheManager

namespace BatchPlan

/-- The blocks that the record of a work item evicts. -/
def evictedBy (plan : BatchPlan) (item : PlannedWorkItem) : List Nat :=
  if item.isPrefill then
    ((plan.prefillWork.find? (·.requestId = item.requestId)).map (·.evictedBlockIds)).getD []
  else ((plan.decodeWork.find? (·.requestId = item.requestId)).map (·.evictedBlockIds)).getD []

/-- The blocks that the record of a work item allocates. -/
def allocatedBy (plan : BatchPlan) (item : PlannedWorkItem) : List Nat :=
  if item.isPrefill then
    ((plan.prefillWork.find? (·.requestId = item.requestId)).map (·.newlyAllocatedBlockIds)).getD []
  else ((plan.decodeWork.find? (·.requestId = item.requestId)).bind
    (·.newlyAllocatedBlockId)).toList

end BatchPlan

namespace ContinuousBatchingEngine

variable {engine : ContinuousBatchingEngine} {arrived : OrdSet RequestId}
  {consumed : List Candidate} {builder : PlanBuilder} {plan : BatchPlan} {number : Nat}

/-- The ids recorded per work item are the planned ids in order. -/
theorem Trail.recordedIds (trail : engine.Trail arrived consumed builder)
    (finds : Finds plan builder) :
    builder.workOrder.flatMap plan.evictedBy = builder.allEvictions ∧
      builder.workOrder.flatMap plan.allocatedBy = builder.allAllocations := by
  induction trail with
  | start => exact ⟨rfl, rfl⟩
  | @step consumed builder next candidate request trail _ _ decided ih =>
      obtain ⟨evictions, allocations⟩ := ih (finds.mono ((Extends.refl builder []).decided decided))
      -- One more item at the end of the work order, with the ids that its record holds.
      have placed : ∀ {demand : Demand},
          plan.evictedBy ⟨candidate.requestId, candidate.isPrefill⟩ =
            evictedFor builder.cache candidate demand →
          plan.allocatedBy ⟨candidate.requestId, candidate.isPrefill⟩ =
            allocatedFor builder.cache candidate demand →
          (builder.scheduled candidate demand).workOrder.flatMap plan.evictedBy =
              (builder.scheduled candidate demand).allEvictions ∧
            (builder.scheduled candidate demand).workOrder.flatMap plan.allocatedBy =
              (builder.scheduled candidate demand).allAllocations := fun evicted allocated => by
        unfold PlanBuilder.scheduled
        rw [List.flatMap_append, List.flatMap_append, evictions, allocations, List.flatMap_singleton,
          List.flatMap_singleton, evicted, allocated]
        exact ⟨rfl, rfl⟩
      cases decided with
      | deferred => exact ⟨evictions, allocations⟩
      | @prefill demand cache isPrefill _ _ _ _ _ =>
          have here := finds.prefills (prefillWorkOf builder.cache candidate request demand)
            (by simp)
          change plan.prefillWork.find? (fun work => work.requestId = candidate.requestId) = _ at here
          refine @placed demand ?_ ?_
          · rw [BatchPlan.evictedBy, if_pos isPrefill, here]
            rfl
          · rw [BatchPlan.allocatedBy, if_pos isPrefill, here]
            rfl
      | @decode demand cache isDecode demands _ _ effect _ =>
          have here := finds.decodes (decodeWorkOf builder.cache candidate demand) (by simp)
          change plan.decodeWork.find? (fun work => work.requestId = candidate.requestId) = _ at here
          obtain ⟨-, -, -, -, -, few⟩ := decode_appended isDecode demands effect
          have notPrefill : ¬ candidate.isPrefill = true := by simp [isDecode]
          refine @placed demand ?_ ?_
          · rw [BatchPlan.evictedBy, if_neg notPrefill, here]
            rfl
          · rw [BatchPlan.allocatedBy, if_neg notPrefill, here]
            change (allocatedFor builder.cache candidate demand).head?.toList = _
            generalize allocatedFor builder.cache candidate demand = fresh at few
            match fresh, few with
            | [], _ => rfl
            | [_], _ => rfl

/-- After a replay the publications and releases fail by an overflow only. -/
theorem Trail.settles (trail : engine.Trail arrived consumed builder) (coherent : engine.Coherent)
    (distinct : (consumed.map (·.requestId)).Nodup) (number : Nat) :
    Ensures Exn.IsOverflow (fun published => Ensures Exn.IsOverflow (fun _ => True)
        (engine.releaseFinished (builder.plan number) published))
      (builder.prefills.foldlM engine.publishWork builder.cache) := by
  have sound := trail.sound coherent
  have runs := trail.runs coherent distinct number
  refine (trail.publish_ensures coherent distinct).mono fun published publish => ?_
  refine (releaseFinished_ensures runs (publish.sound sound) fun id member => ?_).mono
    fun _ _ => trivial
  exact publish.table_kept sound (by simp) (trail.listed coherent number id member)

/-- The replay of a plan agrees with the planner: it never throws, it ends in the planner's local
manager, each work item records exactly its share of the planned ids, and what follows it fails by
an overflow only. -/
theorem reach_buildPlan_replays (backend : SimulatedBackend) (config : ContinuousBatchingConfig)
    (calls : List EngineCall) (number : Nat) (arrived : OrdSet RequestId) (plan : BatchPlan)
    (built : (reach backend config calls).buildPlan number arrived = .ok plan) :
    let engine := reach backend config calls
    ∃ builder, (engine.orderedCandidates arrived).foldlM engine.planCandidate
        { cache := engine.kvCache } = .ok builder ∧
      plan.workOrder.foldlM (engine.replayItem plan) engine.kvCache = .ok builder.cache ∧
      plan.workOrder.flatMap plan.evictedBy = plan.plannedEvictionIds ∧
      plan.workOrder.flatMap plan.allocatedBy = plan.plannedAllocationIds ∧
      Ensures Exn.IsOverflow (fun published => Ensures Exn.IsOverflow (fun _ => True)
          (engine.releaseFinished plan published))
        (plan.prefillWork.foldlM engine.publishWork builder.cache) := by
  have coherent := reach_coherent backend config calls
  intro engine
  have distinct := orderedCandidates_nodup coherent arrived
  obtain ⟨builder, looped, trail, rfl⟩ := buildPlan_eq_ok coherent built
  have finds := trail.planned.finds distinct number
  obtain ⟨evictions, allocations⟩ := trail.recordedIds finds
  exact ⟨builder, looped, trail.replays finds, evictions, allocations,
    trail.settles coherent distinct number⟩

/-- The replay of a decode that takes a block and a prompt over its cached prefix. -/
theorem reach_buildPlan_replays_tiny :
    let engine := reach tinyBackend tinyConfig [.submitRequest (tinyRequest 1 [7] 2),
      .runNextIteration, .submitRequest { tinyRequest 2 [7, 8] 1 with arrivalTimeUs := 10 }]
    ∃ (plan : BatchPlan) (builder : PlanBuilder),
      engine.buildPlan 2 engine.arrivalsAtCurrentTimestamp = .ok plan ∧
      plan.workOrder = [⟨1, false⟩, ⟨2, true⟩] ∧
      plan.workOrder.foldlM (engine.replayItem plan) engine.kvCache = .ok builder.cache := by
  intro engine
  have planned : (engine.buildPlan 2 engine.arrivalsAtCurrentTimestamp).toOption.map
      (·.workOrder) = some [⟨1, false⟩, ⟨2, true⟩] := by
    decide +kernel
  cases built : engine.buildPlan 2 engine.arrivalsAtCurrentTimestamp with
  | error error =>
      rw [built] at planned
      cases planned
  | ok plan =>
      rw [built] at planned
      obtain ⟨builder, -, replayed, -⟩ :=
        reach_buildPlan_replays tinyBackend tinyConfig _ 2 _ plan built
      exact ⟨plan, builder, rfl, Option.some.inj planned, replayed⟩

end ContinuousBatchingEngine

end LlmLab.Serving
