import LlmLab.Serving.ContinuousBatching.Planner

/-!
# Building a plan

`Trail` is the loop of `build_from_candidates` as a derivation: the candidates consumed so far and
what was decided about each.  What a plan guarantees goes by induction on it.
-/

namespace LlmLab.Serving

open KVCacheManager

namespace ContinuousBatchingEngine

variable {engine : ContinuousBatchingEngine} {arrived : OrdSet RequestId}
  {consumed : List Candidate} {builder next : PlanBuilder} {candidate : Candidate}
  {request : Request}

/-! ## The loop -/

/-- The candidates consumed so far, each decided on the local manager the ones before it left. -/
inductive Trail (engine : ContinuousBatchingEngine) (arrived : OrdSet RequestId) :
    List Candidate → PlanBuilder → Prop
  | start : Trail engine arrived [] { cache := engine.kvCache }
  | step {consumed : List Candidate} {builder next : PlanBuilder} {candidate : Candidate}
      {request : Request} : Trail engine arrived consumed builder →
      engine.Describes arrived candidate request →
      candidate.requestId ∉ consumed.map (·.requestId) →
      engine.Decided builder candidate request next →
      Trail engine arrived (consumed ++ [candidate]) next

/-- No candidate from here on makes room with a pinned block. -/
def SparesFrom (engine : ContinuousBatchingEngine) : PlanBuilder → List Candidate → Prop
  | _, [] => True
  | builder, candidate :: rest => builder.cache.Unpinned (engine.victimsOf builder candidate) ∧
      ∀ next, engine.planCandidate builder candidate = .ok next → SparesFrom engine next rest

/-- The plan of the next iteration makes room with no pinned block. -/
def Spares (engine : ContinuousBatchingEngine) (arrived : OrdSet RequestId) : Prop :=
  engine.SparesFrom { cache := engine.kvCache } (engine.orderedCandidates arrived)

/-- What planning needs, but for the checked counters. -/
structure Clear (engine : ContinuousBatchingEngine) (arrived : OrdSet RequestId) : Prop where
  fits : ∀ id request, engine.requests.find? id = some request →
    request.promptLength ≤ engine.config.maxBatchedTokens
  fresh : ∀ id request, engine.requests.find? id = some request →
    engine.Fresh engine.kvCache request
  spares : engine.Spares arrived

/-- The event of a work item. -/
def workEvent (engine : ContinuousBatchingEngine) (item : PlannedWorkItem) : KVEvent :=
  match engine.requests.find? item.requestId with
  | none => .append item.requestId
  | some request =>
      if item.isPrefill then engine.promptEvent item.requestId request
      else .append item.requestId

theorem workEvent_subject (item : PlannedWorkItem) :
    (engine.workEvent item).subject = some item.requestId := by
  unfold workEvent
  split
  · rfl
  · split
    · exact promptEvent_subject _
    · rfl

namespace Trail

/-- Only consumed candidates are scheduled, each as what it is. -/
theorem items (trail : engine.Trail arrived consumed builder) :
    ∀ item ∈ builder.workOrder, ∃ candidate ∈ consumed,
      candidate.requestId = item.requestId ∧ candidate.isPrefill = item.isPrefill := by
  induction trail with
  | start => exact fun _ member => by cases member
  | @step consumed builder next candidate request _ _ _ decided ih =>
      have old : ∀ item ∈ builder.workOrder, ∃ other ∈ consumed ++ [candidate],
          other.requestId = item.requestId ∧ other.isPrefill = item.isPrefill := fun item member => by
        obtain ⟨other, known, same⟩ := ih item member
        exact ⟨other, List.mem_append_left _ known, same⟩
      have placed : ∀ item ∈ builder.workOrder ++
          [(⟨candidate.requestId, candidate.isPrefill⟩ : PlannedWorkItem)],
          ∃ other ∈ consumed ++ [candidate],
            other.requestId = item.requestId ∧ other.isPrefill = item.isPrefill :=
        fun item member => by
          rcases List.mem_append.mp member with before | here
          · exact old item before
          · rw [List.mem_singleton.mp here]
            exact ⟨candidate, by simp, rfl, rfl⟩
      cases decided with
      | deferred => exact old
      | prefill => exact placed
      | decode => exact placed

/-- The local manager after the candidates so far. -/
theorem passes (trail : engine.Trail arrived consumed builder) :
    Passes engine.kvCache (builder.workOrder.map engine.workEvent) builder.cache := by
  induction trail with
  | start => exact .nil _
  | @step consumed builder next candidate request trail describes _ decided ih =>
      cases decided with
      | deferred => exact ih
      | prefill isPrefill _ _ _ effect sound =>
          rw [PlanBuilder.scheduled, List.map_append, List.map_singleton, workEvent]
          rw [describes.found, isPrefill]
          exact ih.concat effect sound
      | decode isDecode _ _ _ effect sound =>
          rw [PlanBuilder.scheduled, List.map_append, List.map_singleton, workEvent]
          rw [describes.found, isDecode]
          exact ih.concat effect sound

/-- A candidate that is not consumed yet finds its table as the iteration started. -/
theorem table_eq (trail : engine.Trail arrived consumed builder) (sound : engine.kvCache.Sound)
    (fresh : candidate.requestId ∉ consumed.map (·.requestId)) :
    builder.cache.blockTables.find? candidate.requestId =
      engine.kvCache.blockTables.find? candidate.requestId := by
  refine trail.passes.table_eq sound fun event member same => fresh ?_
  obtain ⟨item, listed, rfl⟩ := List.mem_map.mp member
  rw [workEvent_subject, Option.some.injEq] at same
  obtain ⟨other, known, id, -⟩ := trail.items item listed
  exact List.mem_map.mpr ⟨other, known, id.trans same⟩

theorem sound (trail : engine.Trail arrived consumed builder) (coherent : engine.Coherent) :
    builder.cache.Sound :=
  trail.passes.sound coherent.sound

theorem setup (trail : engine.Trail arrived consumed builder) :
    engine.kvCache.SameSetup builder.cache :=
  trail.passes.setup

end Trail

/-- A decoding request holds a table, any other none. -/
theorem Coherent.table_iff (coherent : engine.Coherent) {id : RequestId}
    (found : engine.requests.find? id = some request) :
    (∃ table, engine.kvCache.blockTables.find? id = some table) ↔ request.state = .decoding := by
  have ledger : ledgerOf engine.requests id = request.usage? := by
    rw [ledgerOf, found]
    rfl
  constructor
  · rintro ⟨table, present⟩
    obtain ⟨usage, listed, -⟩ := coherent.tallied.accounted id table present
    rw [ledger, Request.usage?] at listed
    by_contra idle
    rw [if_neg idle] at listed
    cases listed
  · intro decoding
    exact coherent.tallied.listed id _ (by rw [ledger, Request.usage?, if_pos decoding])

theorem Describes.decoding_iff (describes : engine.Describes arrived candidate request) :
    candidate.isPrefill = false ↔ request.state = .decoding := by
  rw [← Bool.not_eq_true, describes.isPrefill]
  rcases runnable_iff.mp describes.runnable with decoding | ⟨waiting, -⟩
  · simp [decoding]
  · simp [waiting]

theorem Coherent.prefixConfig_eq (coherent : engine.Coherent) :
    engine.kvCache.prefixConfig = engine.config.prefixCacheConfig :=
  coherent.setup.prefixConfig

namespace Trail

theorem ready (trail : engine.Trail arrived consumed builder) (coherent : engine.Coherent)
    (describes : engine.Describes arrived candidate request)
    (fresh : candidate.requestId ∉ consumed.map (·.requestId)) :
    engine.Ready builder.cache candidate where
  sound := trail.sound coherent
  prefixConfig := trail.setup.prefixConfig.trans coherent.prefixConfig_eq
  unknown isPrefill := by
    rw [trail.table_eq coherent.sound fresh]
    by_contra some'
    have decoding := (coherent.table_iff describes.found).mp (Option.ne_none_iff_exists'.mp some')
    rw [describes.isPrefill.mp isPrefill] at decoding
    cases decoding
  listed isDecode := by
    rw [trail.table_eq coherent.sound fresh]
    exact (coherent.table_iff describes.found).mpr (describes.decoding_iff.mp isDecode)

end Trail

theorem Fresh.of_setup {cache : KVCacheManager} (fresh : engine.Fresh engine.kvCache request)
    (setup : engine.kvCache.SameSetup cache) : engine.Fresh cache request := fun tokens exact => by
  rw [setup.collisionFree]
  refine (fresh tokens exact).mono fun prompt member => ?_
  rw [inScope, setup.prefixConfig] at member
  exact member

/-- The loop: on candidates that are each described by a request, it leaves a trail. -/
theorem plan_ensures (coherent : engine.Coherent) {candidates : List Candidate}
    (described : ∀ candidate ∈ candidates, ∃ request, engine.Describes arrived candidate request)
    (nodup : (candidates.map (·.requestId)).Nodup) :
    Ensures (Refuses (engine.Clear arrived ∧
        engine.SparesFrom { cache := engine.kvCache } candidates))
      (engine.Trail arrived candidates)
      (candidates.foldlM engine.planCandidate { cache := engine.kvCache }) := by
  refine (Ensures.foldlM (fun consumed builder => engine.Trail arrived consumed builder ∧
    ∀ rest, candidates = consumed ++ rest →
      engine.SparesFrom { cache := engine.kvCache } candidates → engine.SparesFrom builder rest)
    ⟨.start, fun rest same spares => by rw [← List.nil_append rest, ← same]; exact spares⟩
    fun consumed candidate rest builder split ⟨trail, spared⟩ => ?_).mono fun _ holds => holds.1
  have member : candidate ∈ candidates := by simp [split]
  obtain ⟨request, describes⟩ := described candidate member
  have fresh : candidate.requestId ∉ consumed.map (·.requestId) := by
    rw [split, List.map_append, List.nodup_append] at nodup
    exact fun old => nodup.2.2 _ old candidate.requestId (by simp) rfl
  have ready := trail.ready coherent describes fresh
  have spare : engine.SparesFrom { cache := engine.kvCache } candidates →
      engine.SparesFrom builder (candidate :: rest) := spared _ split
  have step : Ensures (Refuses (engine.Clear arrived ∧
      engine.SparesFrom { cache := engine.kvCache } candidates))
      (engine.Decided builder candidate request) (engine.planCandidate builder candidate) :=
    (planCandidate_ensures ready describes.found).mono_allowed fun error refused =>
      refused.imp_right fun unplanned clear => unplanned ⟨clear.1.fits _ _ describes.found,
        (clear.1.fresh _ _ describes.found).of_setup trail.setup, (spare clear.2).1⟩
  cases result : engine.planCandidate builder candidate with
  | error error => exact step.of_eq_error result
  | ok next =>
      refine ⟨trail.step describes fresh (step.of_eq_ok result), fun later same spares => ?_⟩
      have tail : later = rest := by
        rw [split, List.append_assoc, List.append_right_inj, List.singleton_append,
          List.cons_inj_right] at same
        exact same.symm
      subst tail
      exact (spare spares).2 next result

/-! ## What a trail leaves -/

/-- The bookkeeping of the loop. -/
structure Planned (engine : ContinuousBatchingEngine) (consumed : List Candidate)
    (builder : PlanBuilder) : Prop where
  ids : (builder.workOrder.map (·.requestId) ++ builder.deferred.map (·.requestId)).Perm
    (consumed.map (·.requestId))
  prefills : builder.prefills.map (·.requestId) =
    (builder.workOrder.filter (·.isPrefill)).map (·.requestId)
  decodes : builder.decodes = (builder.workOrder.filter (!·.isPrefill)).map (·.requestId)
  decodeWork : builder.decodeWork.map (·.requestId) = builder.decodes
  prompts : ∀ work ∈ builder.prefills, ∃ request,
    engine.requests.find? work.requestId = some request ∧
      work.originalPromptTokenCount = request.promptLength ∧
      work.matchedPrefixTokenCount + work.promptTokenCount = request.promptLength
  used : builder.usedTokens =
    (builder.prefills.map (·.promptTokenCount)).sum + builder.decodes.length
  tokens : builder.usedTokens ≤ engine.config.maxBatchedTokens
  sequences : builder.prefills.length + builder.decodes.length ≤ engine.config.maxNumSequences
  stalls : builder.workOrder = [] → ∀ item ∈ builder.deferred, item.reason = .kvCapacity

/-- With the whole budgets there, only the capacity defers a candidate. -/
theorem deferralReason_idle {demand : Demand} {reason : DeferralReason}
    (demands : engine.Demands builder.cache candidate request demand)
    (unused : builder.usedTokens = 0) (noPrefills : builder.prefills = [])
    (noDecodes : builder.decodes = [])
    (deferred : engine.deferralReason builder candidate demand = some reason) :
    reason = .kvCapacity := by
  unfold deferralReason at deferred
  rw [unused, Nat.sub_zero, if_neg (not_lt.mpr demands.cost_le), noPrefills, noDecodes,
    if_neg (by simpa using engine.config.sequences_pos.ne')] at deferred
  split at deferred
  · exact (Option.some.inj deferred).symm
  · cases deferred

/-- The fields of a builder follow from the work on its trail. -/
theorem Trail.planned (trail : engine.Trail arrived consumed builder) :
    engine.Planned consumed builder := by
  induction trail with
  | start => exact ⟨.refl _, rfl, rfl, rfl, fun _ member => (by cases member), rfl, Nat.zero_le _,
      Nat.zero_le _, fun _ _ member => (by cases member)⟩
  | @step consumed builder next candidate request _ describes _ decided ih =>
      have placed : ∀ kind : Bool, ((builder.workOrder ++
          [(⟨candidate.requestId, kind⟩ : PlannedWorkItem)]).map (·.requestId) ++
            builder.deferred.map (·.requestId)).Perm
          ((consumed ++ [candidate]).map (·.requestId)) := fun kind => by
        rw [List.map_append, List.map_append, List.map_singleton, List.map_singleton,
          List.append_assoc]
        refine (List.Perm.append_left _ List.perm_append_comm).trans ?_
        rw [← List.append_assoc]
        exact ih.ids.append_right _
      cases decided with
      | @deferred demand reason demands deferral =>
          refine ⟨?_, ih.prefills, ih.decodes, ih.decodeWork, ih.prompts, ih.used, ih.tokens,
            ih.sequences, fun unscheduled item member => ?_⟩
          · rw [List.map_append, ← List.append_assoc, List.map_append]
            exact ih.ids.append_right _
          · rcases List.mem_append.mp member with old | new
            · exact ih.stalls unscheduled item old
            · have noPrefills : builder.prefills = [] := by
                have := ih.prefills
                rw [unscheduled] at this
                exact List.map_eq_nil_iff.mp this
              have noDecodes : builder.decodes = [] := by
                rw [ih.decodes, unscheduled]
                rfl
              rw [List.mem_singleton.mp new]
              refine deferralReason_idle demands ?_ noPrefills noDecodes deferral
              rw [ih.used, noPrefills, noDecodes]
              rfl
      | @prefill demand cache isPrefill demands served =>
          obtain ⟨tokens, sequences, -⟩ := deferralReason_eq_none.mp served
          have room := ih.tokens
          refine ⟨placed _, ?_, ?_, ih.decodeWork, fun work member => ?_, ?_, ?_, ?_,
            fun unscheduled => ?_⟩
          · change (builder.prefills ++ [_]).map _ = ((builder.workOrder ++ [_]).filter _).map _
            rw [List.map_append, ih.prefills, List.filter_append, List.map_append, isPrefill]
            rfl
          · change builder.decodes = ((builder.workOrder ++ [_]).filter _).map _
            rw [ih.decodes, List.filter_append, List.map_append, isPrefill]
            simp
          · rcases List.mem_append.mp member with old | new
            · exact ih.prompts work old
            · rw [List.mem_singleton.mp new]
              exact ⟨request, describes.found, rfl, demands.prompt isPrefill⟩
          · change builder.usedTokens + demand.tokenCost = _
            rw [ih.used, List.map_append, List.sum_append, List.map_singleton, List.sum_singleton]
            exact Nat.add_right_comm _ _ _
          · change builder.usedTokens + demand.tokenCost ≤ _
            omega
          · change (builder.prefills ++ [_]).length + builder.decodes.length ≤ _
            rw [List.length_append, List.length_singleton]
            omega
          · exact absurd unscheduled (by simp [PlanBuilder.scheduled])
      | @decode demand cache isDecode demands served =>
          obtain ⟨tokens, sequences, -⟩ := deferralReason_eq_none.mp served
          have room := ih.tokens
          refine ⟨placed _, ?_, ?_, ?_, ih.prompts, ?_, ?_, ?_, fun unscheduled => ?_⟩
          · change builder.prefills.map _ = ((builder.workOrder ++ [_]).filter _).map _
            rw [ih.prefills, List.filter_append, List.map_append, isDecode]
            simp
          · change builder.decodes ++ [_] = ((builder.workOrder ++ [_]).filter _).map _
            rw [List.filter_append, List.map_append, ← ih.decodes, isDecode]
            rfl
          · change (builder.decodeWork ++ [_]).map _ = builder.decodes ++ [_]
            rw [List.map_append, ih.decodeWork]
            rfl
          · change builder.usedTokens + demand.tokenCost = _
            rw [ih.used, demands.decode_cost isDecode, List.length_append]
            rfl
          · change builder.usedTokens + demand.tokenCost ≤ _
            omega
          · change builder.prefills.length + (builder.decodes ++ [_]).length ≤ _
            rw [List.length_append, List.length_singleton]
            omega
          · exact absurd unscheduled (by simp [PlanBuilder.scheduled])

namespace Planned

/-- No request is mentioned twice. -/
theorem nodup (planned : engine.Planned consumed builder)
    (distinct : (consumed.map (·.requestId)).Nodup) :
    (builder.workOrder.map (·.requestId) ++ builder.deferred.map (·.requestId)).Nodup :=
  planned.ids.nodup_iff.mpr distinct

/-- The scheduled requests are the prefills and the decodes. -/
theorem scheduled (planned : engine.Planned consumed builder) :
    (builder.prefills.map (·.requestId) ++ builder.decodes).Perm
      (builder.workOrder.map (·.requestId)) := by
  rw [planned.prefills, planned.decodes, ← List.map_append]
  exact (List.filter_append_perm (·.isPrefill) builder.workOrder).map _

theorem workOrder_eq_nil (planned : engine.Planned consumed builder) :
    builder.workOrder = [] ↔ builder.prefills = [] ∧ builder.decodes = [] := by
  have length := planned.scheduled.length_eq
  rw [List.length_append, List.length_map, List.length_map] at length
  rw [← List.length_eq_zero_iff, ← List.length_eq_zero_iff, ← List.length_eq_zero_iff]
  omega

end Planned

end ContinuousBatchingEngine

end LlmLab.Serving
