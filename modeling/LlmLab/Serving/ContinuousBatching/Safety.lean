import LlmLab.Serving.ContinuousBatching.Calls

/-!
# Safety of plans

Every plan mentions each runnable request once, in the order of the policy, stays within the
budgets, defers a request for the first resource that the work before it left too little of, and
gives no block two conflicting roles.
-/

namespace LlmLab.Serving

open KVCacheManager

/-- The tokens that a work item costs: one for a decode, the unmatched prompt for a prefill. -/
def BatchPlan.tokenCost (plan : BatchPlan) (item : PlannedWorkItem) : Nat :=
  if item.isPrefill then
    match plan.prefillWork.find? (·.requestId = item.requestId) with
    | none => 0
    | some work => work.originalPromptTokenCount - work.matchedPrefixTokenCount
  else 1

/-- The first of the three resources that a demand exceeds. -/
inductive Shortage (tokens sequences blocks : Nat) (demand : ContinuousBatchingEngine.Demand) :
    DeferralReason → Prop
  | tokenBudget : tokens < demand.tokenCost → Shortage tokens sequences blocks demand .tokenBudget
  | sequenceBudget : demand.tokenCost ≤ tokens → sequences = 0 →
      Shortage tokens sequences blocks demand .sequenceBudget
  | kvCapacity : demand.tokenCost ≤ tokens → 0 < sequences → blocks < demand.blocksRequired →
      Shortage tokens sequences blocks demand .kvCapacity

/-- The place of a request under a policy: the decodes first where it says so, then by arrival
and id. -/
def policyKey (policy : SchedulingPolicy) (request : Request) : Bool ×ₗ Int ×ₗ Nat :=
  toLex (policy = .decodeFirst && request.state ≠ .decoding,
    toLex (request.arrivalTimeUs, request.requestId))

namespace ContinuousBatchingEngine

variable {engine : ContinuousBatchingEngine} {arrived : OrdSet RequestId}
  {consumed rest : List Candidate} {builder next : PlanBuilder} {candidate : Candidate}
  {request : Request} {demand : Demand}

/-! ## The order of the policy -/

/-- One request comes before another under the policy. -/
def Before (engine : ContinuousBatchingEngine) (first second : RequestId) : Prop :=
  ∃ a b, engine.requests.find? first = some a ∧ engine.requests.find? second = some b ∧
    policyKey engine.config.schedulingPolicy a < policyKey engine.config.schedulingPolicy b

/-- Within one kind of candidate their keys order them as the policy does. -/
theorem Describes.before {first second : Candidate} {a b : Request}
    (coherent : engine.Coherent) (left : engine.Describes arrived first a)
    (right : engine.Describes arrived second b) (apart : first.requestId ≠ second.requestId)
    (kind : engine.config.schedulingPolicy = .decodeFirst → first.isPrefill = second.isPrefill)
    (sorted : candidateKey first ≤ candidateKey second) :
    engine.Before first.requestId second.requestId := by
  refine ⟨a, b, left.found, right.found, ?_⟩
  have idA := coherent.keyed _ a left.found
  have idB := coherent.keyed _ b right.found
  have same : (engine.config.schedulingPolicy = .decodeFirst && a.state ≠ .decoding : Bool) =
      (engine.config.schedulingPolicy = .decodeFirst && b.state ≠ .decoding : Bool) := by
    by_cases decodeFirst : engine.config.schedulingPolicy = .decodeFirst
    · have kinds := kind decodeFirst
      have iff : a.state = .decoding ↔ b.state = .decoding := by
        rw [← left.decoding_iff, ← right.decoding_iff, kinds]
      simp [iff]
    · simp [decodeFirst]
  unfold candidateKey at sorted
  unfold policyKey
  rw [same, Prod.Lex.toLex_lt_toLex]
  refine Or.inr ⟨rfl, ?_⟩
  rw [Prod.Lex.toLex_le_toLex, left.arrival, right.arrival] at sorted
  rw [Prod.Lex.toLex_lt_toLex, idA, idB]
  rcases sorted with earlier | ⟨sameTime, ids⟩
  · exact Or.inl earlier
  · rw [Prod.Lex.toLex_le_toLex] at ids
    rcases ids with lower | ⟨equal, -⟩
    · exact Or.inr ⟨sameTime, lower⟩
    · exact absurd equal apart

/-- A decode comes before a prefill where decodes go first. -/
theorem Describes.before_of_kinds {first second : Candidate} {a b : Request}
    (left : engine.Describes arrived first a) (right : engine.Describes arrived second b)
    (decodeFirst : engine.config.schedulingPolicy = .decodeFirst)
    (decode : first.isPrefill = false) (prefill : second.isPrefill = true) :
    engine.Before first.requestId second.requestId := by
  refine ⟨a, b, left.found, right.found, ?_⟩
  have decoding := left.decoding_iff.mp decode
  have waiting := right.isPrefill.mp prefill
  unfold policyKey
  rw [Prod.Lex.toLex_lt_toLex]
  exact Or.inl (by simp [decodeFirst, decoding, waiting])

/-- Candidates are sorted in the order of the policy; under `decodeFirst` they are of one kind. -/
theorem sortBy_before (coherent : engine.Coherent) {candidates : List Candidate}
    (described : ∀ candidate ∈ candidates, ∃ request, engine.Describes arrived candidate request)
    (nodup : (candidates.map (·.requestId)).Nodup)
    (kind : engine.config.schedulingPolicy = .decodeFirst →
      ∀ first ∈ candidates, ∀ second ∈ candidates, first.isPrefill = second.isPrefill) :
    (sortBy candidateKey candidates).Pairwise fun first second =>
      engine.Before first.requestId second.requestId := by
  have distinct : (sortBy candidateKey candidates).Pairwise fun first second =>
      first.requestId ≠ second.requestId := by
    have ids := ((sortBy_perm candidateKey candidates).map (·.requestId)).nodup_iff.mpr nodup
    exact List.pairwise_map.mp ids
  refine ((sortBy_sorted candidateKey candidates).and distinct).imp_of_mem
    fun first second holds => ?_
  have left := mem_sortBy.mp first
  have right := mem_sortBy.mp second
  obtain ⟨a, describesA⟩ := described _ left
  obtain ⟨b, describesB⟩ := described _ right
  exact describesA.before coherent describesB holds.2
    (fun decodeFirst => kind decodeFirst _ left _ right) holds.1

/-- The planner goes through the candidates in the order of the policy. -/
theorem orderedCandidates_before (coherent : engine.Coherent) (arrived : OrdSet RequestId) :
    (engine.orderedCandidates arrived).Pairwise fun first second =>
      engine.Before first.requestId second.requestId := by
  have described : ∀ candidate ∈ engine.runnableCandidates arrived,
      ∃ request, engine.Describes arrived candidate request :=
    fun candidate member => (mem_runnableCandidates coherent).mp member
  have nodup := runnableCandidates_nodup coherent arrived
  have some' : ∀ keep : Candidate → Bool,
      (((engine.runnableCandidates arrived).filter keep).map (·.requestId)).Nodup := fun keep =>
    nodup.sublist (List.filter_sublist.map _)
  unfold orderedCandidates
  cases policy : engine.config.schedulingPolicy with
  | fcfsMixed =>
      exact sortBy_before coherent described nodup fun decodeFirst => by
        rw [policy] at decodeFirst
        cases decodeFirst
  | decodeFirst =>
      refine List.pairwise_append.mpr ⟨?_, ?_, fun first left second right => ?_⟩
      · refine sortBy_before coherent (fun candidate member =>
          described candidate (List.mem_of_mem_filter member)) (some' _)
          fun _ first left second right => ?_
        have kindA := (List.mem_filter.mp left).2
        have kindB := (List.mem_filter.mp right).2
        simp only [Bool.not_eq_true'] at kindA kindB
        rw [kindA, kindB]
      · refine sortBy_before coherent (fun candidate member =>
          described candidate (List.mem_of_mem_filter member)) (some' _)
          fun _ first left second right => ?_
        rw [(List.mem_filter.mp left).2, (List.mem_filter.mp right).2]
      · obtain ⟨left, kindA⟩ := List.mem_filter.mp (mem_sortBy.mp left)
        obtain ⟨right, kindB⟩ := List.mem_filter.mp (mem_sortBy.mp right)
        obtain ⟨a, describesA⟩ := described _ left
        obtain ⟨b, describesB⟩ := described _ right
        exact describesA.before_of_kinds describesB policy (by simpa using kindA) kindB

/-- Work and deferrals keep the order of the candidates. -/
theorem Trail.sublists (trail : engine.Trail arrived consumed builder) :
    (builder.workOrder.map (·.requestId)).Sublist (consumed.map (·.requestId)) ∧
      (builder.deferred.map (·.requestId)).Sublist (consumed.map (·.requestId)) := by
  induction trail with
  | start => exact ⟨.slnil, .slnil⟩
  | @step consumed builder next candidate request _ _ _ decided ih =>
      obtain ⟨work, deferred⟩ := ih
      have kept : ∀ {ids : List RequestId}, ids.Sublist (consumed.map (·.requestId)) →
          ids.Sublist ((consumed ++ [candidate]).map (·.requestId)) := fun sub => by
        rw [List.map_append]
        exact sub.trans (List.sublist_append_left _ _)
      have added : ∀ {ids : List RequestId}, ids.Sublist (consumed.map (·.requestId)) →
          (ids ++ [candidate.requestId]).Sublist
            ((consumed ++ [candidate]).map (·.requestId)) := fun sub => by
        rw [List.map_append]
        exact sub.append (.refl _)
      cases decided with
      | deferred =>
          refine ⟨kept work, ?_⟩
          rw [List.map_append]
          exact added deferred
      | prefill | decode =>
          refine ⟨?_, kept deferred⟩
          rw [PlanBuilder.scheduled, List.map_append]
          exact added work

/-! ## What is left for a candidate -/

/-- The local variables after some more candidates. -/
structure Extends (builder : PlanBuilder) (rest : List Candidate) (next : PlanBuilder) : Prop where
  work : ∃ after, next.workOrder = builder.workOrder ++ after ∧
    ∀ item ∈ after, item.requestId ∈ rest.map (·.requestId)
  prefills : ∀ work ∈ builder.prefills, work ∈ next.prefills
  decodes : ∀ work ∈ builder.decodeWork, work ∈ next.decodeWork

theorem Extends.refl (builder : PlanBuilder) (rest : List Candidate) :
    Extends builder rest builder :=
  ⟨⟨[], by simp, nofun⟩, fun _ => id, fun _ => id⟩

/-- A decision extends the builder by its candidate. -/
theorem Extends.decided {start : PlanBuilder} (extends' : Extends start rest builder)
    (decided : engine.Decided builder candidate request next) :
    Extends start (rest ++ [candidate]) next := by
  obtain ⟨⟨after, work, known⟩, prefills, decodes⟩ := extends'
  have kept : ∀ item ∈ after, item.requestId ∈ (rest ++ [candidate]).map (·.requestId) :=
    fun item member => by
      rw [List.map_append]
      exact List.mem_append_left _ (known item member)
  have placed : ∃ more, builder.workOrder ++
      [(⟨candidate.requestId, candidate.isPrefill⟩ : PlannedWorkItem)] =
        start.workOrder ++ more ∧
      ∀ item ∈ more, item.requestId ∈ (rest ++ [candidate]).map (·.requestId) := by
    refine ⟨after ++ [⟨candidate.requestId, candidate.isPrefill⟩], by
      rw [work, List.append_assoc], fun item member => ?_⟩
    rcases List.mem_append.mp member with old | new
    · exact kept item old
    · rw [List.mem_singleton.mp new]
      simp
  cases decided with
  | deferred => exact ⟨⟨after, work, kept⟩, prefills, decodes⟩
  | prefill => exact ⟨placed, fun work member => List.mem_append_left _ (prefills work member),
      decodes⟩
  | decode => exact ⟨placed, prefills, fun work member =>
      List.mem_append_left _ (decodes work member)⟩

/-- A deferred candidate, with the local variables at its turn. -/
structure Deferral (engine : ContinuousBatchingEngine) (arrived : OrdSet RequestId)
    (consumed : List Candidate) (builder : PlanBuilder) (item : DeferredRequest) : Prop where
  turn : ∃ front candidate rest request demand before,
    consumed = front ++ candidate :: rest ∧ engine.Trail arrived front before ∧
      Extends before rest builder ∧ engine.Describes arrived candidate request ∧
      candidate.requestId = item.requestId ∧
      engine.Demands before.cache candidate request demand ∧
      engine.deferralReason before candidate demand = some item.reason

/-- Every deferral was made at its turn, with the builder of that turn. -/
theorem Trail.deferral (trail : engine.Trail arrived consumed builder) :
    ∀ item ∈ builder.deferred, engine.Deferral arrived consumed builder item := by
  induction trail with
  | start => exact fun _ member => by cases member
  | @step consumed builder next candidate request trail describes _ decided ih =>
      have old : ∀ item ∈ builder.deferred,
          engine.Deferral arrived (consumed ++ [candidate]) next item := fun item member => by
        obtain ⟨front, other, rest, record, demand, before, split, begun, extends', facts⟩ :=
          (ih item member).turn
        exact ⟨front, other, rest ++ [candidate], record, demand, before, by simp [split], begun,
          extends'.decided decided, facts⟩
      cases decided with
      | @deferred demand reason demands deferral =>
          intro item member
          rcases List.mem_append.mp member with earlier | here
          · exact old item earlier
          · rw [List.mem_singleton.mp here]
            exact ⟨consumed, candidate, [], request, demand, builder, rfl, trail,
              ⟨⟨[], by simp, nofun⟩, fun _ => id, fun _ => id⟩, describes, rfl, demands, deferral⟩
      | prefill | decode => exact old

/-- A deferral names a resource that is short. -/
theorem shortage {reason : DeferralReason}
    (deferred : engine.deferralReason builder candidate demand = some reason) :
    Shortage (engine.config.maxBatchedTokens - builder.usedTokens)
      (engine.config.maxNumSequences - (builder.prefills.length + builder.decodes.length))
      (builder.cache.freeBlocks.size + (evictableFor builder.cache candidate demand.lookup).length)
      demand reason := by
  unfold deferralReason at deferred
  split at deferred
  · next long =>
      cases deferred
      exact .tokenBudget long
  next fits =>
  split at deferred
  · next many =>
      cases deferred
      exact .sequenceBudget (not_lt.mp fits) (by omega)
  next few =>
  split at deferred
  · next full =>
      cases deferred
      exact .kvCapacity (not_lt.mp fits) (by omega) full
  · cases deferred

theorem Finds.mono {plan : BatchPlan} (finds : Finds plan next)
    (extends' : Extends builder rest next) : Finds plan builder :=
  ⟨fun work member => finds.prefills work (extends'.prefills work member),
    fun work member => finds.decodes work (extends'.decodes work member)⟩

/-- The tokens used so far are the costs of the work so far. -/
theorem Trail.used (trail : engine.Trail arrived consumed builder) {plan : BatchPlan}
    (finds : Finds plan builder) :
    builder.usedTokens = (builder.workOrder.map plan.tokenCost).sum := by
  induction trail with
  | start => rfl
  | @step consumed builder next candidate request _ _ _ decided ih =>
      have before := ih (finds.mono ((Extends.refl builder []).decided decided))
      cases decided with
      | deferred => exact before
      | @prefill demand cache isPrefill demands _ _ =>
          have here := finds.prefills (prefillWorkOf builder.cache candidate request demand)
            (by simp)
          have cost : plan.tokenCost ⟨candidate.requestId, candidate.isPrefill⟩ =
              demand.tokenCost := by
            have pays := demands.prompt isPrefill
            unfold BatchPlan.tokenCost
            rw [if_pos isPrefill]
            simp only
            rw [show plan.prefillWork.find? (fun work => work.requestId = candidate.requestId) = _
              from here]
            change request.promptLength - demand.lookup.matchedTokenCount = _
            omega
          change builder.usedTokens + demand.tokenCost = _
          rw [PlanBuilder.scheduled, List.map_append, List.sum_append, before, List.map_singleton,
            List.sum_singleton, cost]
      | @decode demand cache isDecode demands _ _ =>
          change builder.usedTokens + demand.tokenCost = _
          rw [PlanBuilder.scheduled, List.map_append, List.sum_append, before, List.map_singleton,
            List.sum_singleton, demands.decode_cost isDecode, BatchPlan.tokenCost, isDecode]
          rfl

/-! ## Safe plans -/

/-- The candidate that a request is. -/
def candidateOf (request : Request) : Candidate :=
  ⟨request.requestId, request.arrivalTimeUs, request.state ≠ .decoding⟩

theorem Describes.eq_candidateOf (coherent : engine.Coherent)
    (describes : engine.Describes arrived candidate request) : candidate = candidateOf request := by
  obtain ⟨id, time, kind⟩ := candidate
  have key := coherent.keyed _ _ describes.found
  have arrival := describes.arrival
  have prefill := describes.isPrefill
  have decode := describes.decoding_iff
  simp only at key arrival prefill decode
  subst key arrival
  unfold candidateOf
  congr 1
  cases kind with
  | false => simp [decode.mp rfl]
  | true => simp [prefill.mp rfl]

/-- Why a request is deferred: with the manager, the tokens, the sequences and the blocks that
the work before it left, its demand is short of the resource that the plan names. -/
structure DeferredFor (engine : ContinuousBatchingEngine) (plan : BatchPlan)
    (item : DeferredRequest) : Prop where
  shortage : ∃ before after cache request demand, plan.workOrder = before ++ after ∧
    (∀ earlier ∈ before, engine.Before earlier.requestId item.requestId) ∧
    (∀ later ∈ after, engine.Before item.requestId later.requestId) ∧
    before.foldlM (engine.replayItem plan) engine.kvCache = .ok cache ∧
    engine.requests.find? item.requestId = some request ∧
    engine.Demands cache (candidateOf request) request demand ∧
    Shortage (engine.config.maxBatchedTokens - (before.map plan.tokenCost).sum)
      (engine.config.maxNumSequences - before.length)
      (cache.freeBlocks.size + (evictableFor cache (candidateOf request) demand.lookup).length)
      demand item.reason

/-- What a plan guarantees against the state it was made for. -/
structure SafePlan (engine : ContinuousBatchingEngine) (arrived : OrdSet RequestId)
    (plan : BatchPlan) : Prop where
  once : (plan.prefillRequestIds ++ plan.decodeRequestIds ++
    plan.deferredRequests.map (·.requestId)).Nodup
  runnable : ∀ id, id ∈ plan.prefillRequestIds ++ plan.decodeRequestIds ++
      plan.deferredRequests.map (·.requestId) ↔
    ∃ request, engine.requests.find? id = some request ∧
      (request.state = .decoding ∨ (request.state = .waiting ∧ id ∈ arrived))
  prefills : plan.prefillRequestIds = (plan.workOrder.filter (·.isPrefill)).map (·.requestId) ∧
    ∀ id ∈ plan.prefillRequestIds, ∃ request, engine.requests.find? id = some request ∧
      request.state = .waiting
  decodes : plan.decodeRequestIds = (plan.workOrder.filter (!·.isPrefill)).map (·.requestId) ∧
    ∀ id ∈ plan.decodeRequestIds, ∃ request, engine.requests.find? id = some request ∧
      request.state = .decoding
  workOrder : (plan.workOrder.map (·.requestId)).Pairwise engine.Before
  deferrals : (plan.deferredRequests.map (·.requestId)).Pairwise engine.Before
  prompts : plan.prefillWork.map (·.requestId) = plan.prefillRequestIds ∧
    ∀ work ∈ plan.prefillWork, ∃ request, engine.requests.find? work.requestId = some request ∧
      work.originalPromptTokenCount = request.promptLength ∧
      work.matchedPrefixTokenCount + work.promptTokenCount = request.promptLength
  tokens : (plan.workOrder.map plan.tokenCost).sum ≤ engine.config.maxBatchedTokens
  sequences : plan.workOrder.length ≤ engine.config.maxNumSequences
  reasons : ∀ item ∈ plan.deferredRequests, engine.DeferredFor plan item
  evictions : plan.plannedEvictionIds.Nodup ∧
    ∀ x ∈ plan.plannedEvictionIds, (engine.kvCache.block x).state = .cached
  allocations : plan.plannedAllocationIds.Nodup ∧
    ∀ x ∈ plan.plannedAllocationIds, (engine.kvCache.block x).state = .free ∨
      (engine.kvCache.block x).state = .cached
  matched : ∀ work ∈ plan.prefillWork, ∀ x ∈ work.matchedPhysicalBlockIds,
    (∃ hash ids, engine.kvCache.prefixIndex.find? hash = some ids ∧ x ∈ ids) ∧
      x ∉ plan.plannedEvictionIds ∧ x ∉ plan.plannedAllocationIds

/-- Every deferral names a resource that the work before it has left short. -/
theorem Trail.reasons (trail : engine.Trail arrived consumed builder) (coherent : engine.Coherent)
    (sorted : consumed.Pairwise fun first second =>
      engine.Before first.requestId second.requestId)
    (distinct : (consumed.map (·.requestId)).Nodup) (number : Nat) :
    ∀ item ∈ builder.deferred, engine.DeferredFor (builder.plan number) item := fun item member => by
  obtain ⟨front, candidate, rest, request, demand, before, split, begun, extends', describes, id,
    demands, reason⟩ := (trail.deferral item member).turn
  have finds := (trail.planned.finds distinct number).mono extends'
  obtain ⟨after, work, later⟩ := extends'.work
  rw [split] at sorted
  obtain ⟨-, tail, apart⟩ := List.pairwise_append.mp sorted
  have short := shortage reason
  have count := begun.planned.scheduled.length_eq
  rw [List.length_append, List.length_map, List.length_map] at count
  rw [begun.used finds, count] at short
  have same := describes.eq_candidateOf coherent
  refine ⟨before.workOrder, after, before.cache, request, demand, work, fun item' listed => ?_,
    fun item' listed => ?_, begun.replays finds, by rw [← id]; exact describes.found,
    by rw [← same]; exact demands, by rw [← same]; exact short⟩
  · obtain ⟨other, known, ids, -⟩ := begun.items item' listed
    rw [← ids, ← id]
    exact apart other known candidate List.mem_cons_self
  · obtain ⟨other, known, ids⟩ := List.mem_map.mp (later item' listed)
    rw [← ids, ← id]
    exact (List.pairwise_cons.mp tail).1 other known

/-- The plan of a whole trail is safe. -/
theorem Trail.safe (trail : engine.Trail arrived (engine.orderedCandidates arrived) builder)
    (coherent : engine.Coherent) (number : Nat) : engine.SafePlan arrived (builder.plan number) := by
  have planned := trail.planned
  have distinct := orderedCandidates_nodup coherent arrived
  have sorted := orderedCandidates_before coherent arrived
  have ordered : ((engine.orderedCandidates arrived).map (·.requestId)).Pairwise engine.Before :=
    List.pairwise_map.mpr sorted
  have runs := trail.runs coherent distinct number
  have roles := trail.roles coherent
  have finds := planned.finds distinct number
  have count := planned.scheduled.length_eq
  rw [List.length_append, List.length_map, List.length_map] at count
  refine ⟨planned.mentions_nodup distinct, fun id => ?_, ⟨planned.prefills, fun id member => ?_⟩,
    ⟨planned.decodes, fun id member => ?_⟩, ordered.sublist trail.sublists.1,
    ordered.sublist trail.sublists.2, ⟨rfl, planned.prompts⟩, ?_, ?_,
    trail.reasons coherent sorted distinct number,
    ⟨roles.evictions_nodup, fun x member => (roles.evicted x member).1⟩,
    ⟨roles.allocations_nodup, fun x member => ?_⟩, fun work member x shared => ?_⟩
  · change id ∈ builder.prefills.map (·.requestId) ++ builder.decodes ++
      builder.deferred.map (·.requestId) ↔ _
    rw [((planned.scheduled.append_right _).trans planned.ids).mem_iff, List.mem_map]
    constructor
    · rintro ⟨candidate, listed, rfl⟩
      obtain ⟨request, describes⟩ := (mem_orderedCandidates coherent).mp listed
      refine ⟨request, describes.found, ?_⟩
      rw [← coherent.keyed _ request describes.found]
      exact runnable_iff.mp describes.runnable
    · rintro ⟨request, found, runs⟩
      have key := coherent.keyed id request found
      refine ⟨⟨id, request.arrivalTimeUs, request.state = .waiting⟩,
        (mem_orderedCandidates coherent).mpr ⟨request, found, ?_, rfl, by simp⟩, rfl⟩
      exact runnable_iff.mpr (by rwa [key])
  · obtain ⟨request, found, waiting, -⟩ := runs.prefill id member
    exact ⟨request, found, waiting⟩
  · obtain ⟨request, found, decoding, -⟩ := runs.decode id member
    exact ⟨request, found, decoding⟩
  · exact trail.used finds ▸ planned.tokens
  · exact count ▸ planned.sequences
  · have unused := (roles.allocated x member).1
    cases state : (engine.kvCache.block x).state with
    | free => exact Or.inl rfl
    | cached => exact Or.inr rfl
    | inUse => exact absurd state unused
  · have listed : x ∈ matchedIds builder.prefills := List.mem_flatMap.mpr ⟨work, member, shared⟩
    obtain ⟨before, -, after⟩ := roles.matched x listed
    obtain ⟨key, carries⟩ := Option.ne_none_iff_exists'.mp before
    obtain ⟨ids, found, inside⟩ := coherent.sound.valid.index.keyed x key carries
    exact ⟨⟨key.blockHash, ids, found, inside⟩, fun evicted => after (roles.evicted x evicted).2.2,
      fun allocated => after (roles.allocated x allocated).2.2⟩

/-- Every plan that `build_plan` returns in a reachable state is safe. -/
theorem reach_buildPlan_safe (backend : SimulatedBackend) (config : ContinuousBatchingConfig)
    (calls : List EngineCall) (number : Nat) (arrived : OrdSet RequestId) (plan : BatchPlan)
    (built : (reach backend config calls).buildPlan number arrived = .ok plan) :
    (reach backend config calls).SafePlan arrived plan := by
  have coherent := reach_coherent backend config calls
  by_cases runs : (reach backend config calls).hasRunnableWork arrived = true
  · obtain ⟨builder, trail, rfl⟩ := (buildPlan_ensures coherent runs number).of_eq_ok built
    exact trail.safe coherent number
  · refine absurd built (buildPlan_nil _ ?_)
    refine List.eq_nil_iff_forall_not_mem.mpr fun candidate member => ?_
    obtain ⟨request, describes⟩ := (mem_orderedCandidates coherent).mp member
    exact runs (hasRunnableWork_iff.mpr ⟨_, request, describes.found, describes.runnable⟩)

/-! ## A small engine -/

/-- Three blocks of one token with the prefix cache, two sequences and four tokens a batch. -/
def tinyConfig : ContinuousBatchingConfig where
  maxNumSequences := 2
  maxBatchedTokens := 4
  schedulingPolicy := .decodeFirst
  kvCacheConfig := .small 3 1
  prefixCacheConfig := { enabled := true }
  sequences_pos := by decide
  tokens_pos := by decide

/-- Every batch takes ten microseconds. -/
def tinyBackend : SimulatedBackend := ⟨{ batchBaseUs := 10 }, by decide⟩

/-- A request that is there from the start. -/
def tinyRequest (id : RequestId) (tokens : List Token) (maxNewTokens : Nat) : Request where
  requestId := id
  arrivalTimeUs := 0
  maxNewTokens := maxNewTokens
  generatedTokenCount := 0
  state := .waiting
  admittedTimeUs := none
  firstScheduledTimeUs := none
  firstTokenTimeUs := none
  finishTimeUs := none
  prompt := .exactTokens tokens

/-- A decode takes a block, a prompt finds its cached prefix, and a third request is deferred. -/
theorem reach_buildPlan_safe_tiny :
    let engine := reach tinyBackend tinyConfig [.submitRequest (tinyRequest 1 [7] 2),
      .runNextIteration, .submitRequest { tinyRequest 2 [7, 8] 1 with arrivalTimeUs := 10 },
      .submitRequest { tinyRequest 3 [9] 0 with arrivalTimeUs := 10 }]
    ∃ plan, engine.buildPlan 2 engine.arrivalsAtCurrentTimestamp = .ok plan ∧
      engine.SafePlan engine.arrivalsAtCurrentTimestamp plan ∧
      plan.workOrder = [⟨1, false⟩, ⟨2, true⟩] ∧
      plan.deferredRequests = [⟨3, .sequenceBudget⟩] := by
  intro engine
  have planned : (engine.buildPlan 2 engine.arrivalsAtCurrentTimestamp).toOption.map (fun plan =>
      (plan.workOrder, plan.deferredRequests)) =
        some ([⟨1, false⟩, ⟨2, true⟩], [⟨3, .sequenceBudget⟩]) := by
    decide +kernel
  cases built : engine.buildPlan 2 engine.arrivalsAtCurrentTimestamp with
  | error error =>
      rw [built] at planned
      cases planned
  | ok plan =>
      rw [built] at planned
      obtain ⟨work, deferred⟩ := Prod.mk.inj (Option.some.inj planned)
      exact ⟨plan, rfl, reach_buildPlan_safe tinyBackend tinyConfig _ 2 _ plan built, work, deferred⟩

end ContinuousBatchingEngine

end LlmLab.Serving
