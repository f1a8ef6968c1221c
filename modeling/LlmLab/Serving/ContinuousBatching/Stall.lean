import LlmLab.Serving.ContinuousBatching.Agreement

/-!
# Stalled iterations

An iteration stalls exactly when every runnable request needs more blocks than the manager can
give it.  A stall changes neither the requests nor the manager nor the clock, so it repeats.
-/

namespace LlmLab.Serving

open KVCacheManager

/-- Protecting blocks costs the eviction order at most that many. -/
theorem KVCacheManager.Sound.length_le_outside {manager : KVCacheManager} (sound : manager.Sound)
    (kept : List Nat) : manager.eligibleEvictionOrder.length ≤
      (manager.evictableOutside kept).length + kept.length := by
  have nodup := eligibleEvictionOrder_nodup sound.blockIds
  have split := (List.filter_append_perm (fun x => decide (x ∉ kept))
    manager.eligibleEvictionOrder).length_eq
  have inside : (manager.eligibleEvictionOrder.filter fun x => !decide (x ∉ kept)).length ≤
      kept.length := by
    refine ((nodup.filter _).subperm fun x member => ?_).length_le
    simpa using (List.mem_filter.mp member).2
  rw [List.length_append] at split
  change _ ≤ (manager.eligibleEvictionOrder.filter fun x => decide (x ∉ kept)).length + _
  omega

namespace ContinuousBatchingEngine

variable {engine next other : ContinuousBatchingEngine} {arrived : OrdSet RequestId}
  {consumed : List Candidate} {builder : PlanBuilder} {candidate : Candidate}
  {request : Request} {cache : KVCacheManager} {demand demand' : Demand} {id : RequestId}

/-! ## Requests that do not fit -/

/-- The manager and the request determine the demand. -/
theorem Demands.unique (first : engine.Demands cache candidate request demand)
    (second : engine.Demands cache candidate request demand') : demand = demand' := by
  cases first with
  | exact isPrefill exact lookup =>
      cases second with
      | exact _ exact' lookup' =>
          cases exact.symm.trans exact'
          cases lookup.symm.trans lookup'
          rfl
      | count _ plain =>
          rw [exact] at plain
          cases plain
      | decode isDecode =>
          rw [isPrefill] at isDecode
          cases isDecode
  | count isPrefill plain =>
      cases second with
      | exact _ exact =>
          rw [exact] at plain
          cases plain
      | count => rfl
      | decode isDecode =>
          rw [isPrefill] at isDecode
          cases isDecode
  | decode isDecode _ newBlock =>
      cases second with
      | exact isPrefill | count isPrefill =>
          rw [isPrefill] at isDecode
          cases isDecode
      | decode _ _ newBlock' =>
          cases newBlock.symm.trans newBlock'
          rfl

/-- A request whose block demand exceeds the free blocks and the cached ones outside its match. -/
def Starved (engine : ContinuousBatchingEngine) (request : Request) : Prop :=
  ∃ demand, engine.Demands engine.kvCache (candidateOf request) request demand ∧
    engine.kvCache.freeBlocks.size +
      (evictableFor engine.kvCache (candidateOf request) demand.lookup).length <
        demand.blocksRequired

/-- Where nothing is scheduled every candidate is starved. -/
theorem Trail.starved (trail : engine.Trail arrived consumed builder) (coherent : engine.Coherent)
    (unscheduled : builder.workOrder = []) (member : candidate ∈ consumed)
    (describes : engine.Describes arrived candidate request) : engine.Starved request := by
  have listed : candidate.requestId ∈ builder.deferred.map (·.requestId) := by
    have ids := trail.planned.ids
    rw [unscheduled, List.map_nil, List.nil_append] at ids
    exact ids.mem_iff.mpr (List.mem_map_of_mem member)
  obtain ⟨item, deferred, same⟩ := List.mem_map.mp listed
  obtain ⟨front, turn, rest, record, demand, before, -, begun, extends', describes', id, demands,
    reason⟩ := (trail.deferral item deferred).turn
  obtain ⟨after, work, -⟩ := extends'.work
  rw [unscheduled] at work
  have idle : before.workOrder = [] := (List.append_eq_nil_iff.mp work.symm).1
  obtain ⟨noPrefills, noDecodes⟩ := begun.planned.workOrder_eq_nil.mp idle
  have unused : before.usedTokens = 0 := by
    rw [begun.planned.used, noPrefills, noDecodes]
    rfl
  have found := describes'.found
  rw [id, same] at found
  cases found.symm.trans describes.found
  have capacity := deferralReason_idle demands unused noPrefills noDecodes reason
  rw [capacity] at reason
  rw [(begun.untouched idle).1, describes'.eq_candidateOf coherent] at demands
  refine ⟨demand, demands, ?_⟩
  have short := shortage reason
  rw [(begun.untouched idle).1, describes'.eq_candidateOf coherent] at short
  cases short with
  | kvCapacity _ _ full => exact full

/-- Where every candidate is starved nothing is scheduled. -/
theorem Trail.unscheduled (trail : engine.Trail arrived consumed builder)
    (coherent : engine.Coherent) (starved : ∀ candidate ∈ consumed, ∀ request,
      engine.Describes arrived candidate request → engine.Starved request) :
    builder.workOrder = [] := by
  induction trail with
  | start => rfl
  | @step consumed builder next candidate request trail describes _ decided ih =>
      have idle := ih fun other member => starved other (List.mem_append_left _ member)
      have untouched := (trail.untouched idle).1
      obtain ⟨demand, demands, full⟩ := starved candidate (by simp) request describes
      rw [← describes.eq_candidateOf coherent, ← untouched] at demands full
      -- A scheduled candidate would have the room that a starved one lacks.
      have refuted : ∀ {demand' : Demand},
          engine.Demands builder.cache candidate request demand' →
          engine.deferralReason builder candidate demand' = none → False :=
        fun demands' served => by
          obtain rfl := demands.unique demands'
          exact absurd (deferralReason_eq_none.mp served).2.2 (not_le.mpr full)
      cases decided with
      | deferred => exact idle
      | prefill _ demands' served => exact (refuted demands' served).elim
      | decode _ demands' served => exact (refuted demands' served).elim

/-- A runnable request. -/
def Runnable (engine : ContinuousBatchingEngine) (id : RequestId) (request : Request) : Prop :=
  engine.requests.find? id = some request ∧ (request.state = .decoding ∨
    (request.state = .waiting ∧ id ∈ engine.arrivalsAtCurrentTimestamp))

theorem runnable_iff_describes (coherent : engine.Coherent) : engine.Runnable id request ↔
    engine.requests.find? id = some request ∧
      runnable engine.arrivalsAtCurrentTimestamp request = true := by
  unfold Runnable
  refine and_congr_right fun found => ?_
  rw [runnable_iff, coherent.keyed id request found]

theorem hasRunnableWork_iff_runnable (coherent : engine.Coherent) :
    engine.hasRunnableWork engine.arrivalsAtCurrentTimestamp = true ↔
      ∃ id request, engine.Runnable id request := by
  rw [hasRunnableWork_iff]
  simp only [runnable_iff_describes coherent]

/-- Nothing is scheduled exactly when every runnable request is starved. -/
theorem Trail.unscheduled_iff
    (trail : engine.Trail engine.arrivalsAtCurrentTimestamp
      (engine.orderedCandidates engine.arrivalsAtCurrentTimestamp) builder)
    (coherent : engine.Coherent) : builder.workOrder = [] ↔
      ∀ id request, engine.Runnable id request → engine.Starved request := by
  constructor
  · intro unscheduled id request runs
    obtain ⟨found, runs⟩ := (runnable_iff_describes coherent).mp runs
    have describes : engine.Describes engine.arrivalsAtCurrentTimestamp
        ⟨id, request.arrivalTimeUs, request.state = .waiting⟩ request :=
      ⟨found, runs, rfl, by simp⟩
    exact trail.starved coherent unscheduled
      ((mem_orderedCandidates coherent).mpr ⟨request, describes⟩) describes
  · intro starved
    refine trail.unscheduled coherent fun candidate member request describes => ?_
    exact starved candidate.requestId request
      ((runnable_iff_describes coherent).mpr ⟨describes.found, describes.runnable⟩)

/-! ## Idle engines -/

/-- With no decoding request nothing holds a table. -/
theorem Coherent.idle (coherent : engine.Coherent)
    (none : ∀ id request, engine.requests.find? id = some request → request.state ≠ .decoding) :
    ∀ id, engine.kvCache.blockTables.find? id = .none := fun id => by
  by_contra some'
  obtain ⟨table, present⟩ := Option.ne_none_iff_exists'.mp some'
  obtain ⟨usage, listed, -⟩ := coherent.tallied.accounted id table present
  unfold ledgerOf at listed
  cases found : engine.requests.find? id with
  | none =>
      rw [found] at listed
      cases listed
  | some request =>
      exact none id request found ((coherent.table_iff found).mp ⟨table, present⟩)

/-- In an idle engine only a prompt larger than the whole cache is starved. -/
theorem Starved.oversized (coherent : engine.Coherent) (starved : engine.Starved request)
    (waiting : request.state = .waiting)
    (none : ∀ id request, engine.requests.find? id = some request → request.state ≠ .decoding) :
    engine.config.kvCacheConfig.totalNumBlocks <
      engine.config.kvCacheConfig.demand request.promptLength := by
  have sound := coherent.sound
  have config : engine.kvCache.config = engine.config.kvCacheConfig := coherent.setup.config
  have capacity := sound.idle_capacity (coherent.idle none)
  have size := config ▸ engine.kvCache.config.blockSize_pos
  have isPrefill : (candidateOf request).isPrefill = true := by simp [candidateOf, waiting]
  obtain ⟨demand, demands, full⟩ := starved
  rw [config] at capacity
  rw [evictableFor_prefill isPrefill] at full
  have cached : engine.kvCache.eligibleEvictionOrder.length = engine.kvCache.cachedBlockCount :=
    length_eligibleEvictionOrder sound.blockIds
  cases demands with
  | decode isDecode =>
      rw [isPrefill] at isDecode
      cases isDecode
  | count _ _ _ =>
      change engine.kvCache.freeBlocks.size + (engine.kvCache.evictableOutside []).length <
        engine.kvCache.config.demand request.promptLength at full
      rw [evictableOutside_nil, cached, config] at full
      omega
  | @exact tokens lookup _ exact _ spec _ =>
      change engine.kvCache.freeBlocks.size +
        (engine.kvCache.evictableOutside lookup.physicalBlockIds).length <
          engine.kvCache.config.demand (request.promptLength - lookup.matchedTokenCount) at full
      -- A match takes at most its length out of the eviction order, and saves that many blocks.
      have outside := sound.length_le_outside lookup.physicalBlockIds
      have saved := engine.kvCache.config.demand_sub spec.inside
      rw [← spec.matchedTokens, ← Request.promptLength_eq_length (cachedTokens?_eq_some exact).2]
        at saved
      rw [config] at saved full
      omega

/-! ## Stalls repeat -/

theorem planCandidate_congr (config : other.config = engine.config)
    (requests : other.requests = engine.requests) :
    other.planCandidate = engine.planCandidate := by
  cases other
  cases engine
  cases config
  cases requests
  rfl

theorem orderedCandidates_congr (config : other.config = engine.config)
    (requests : other.requests = engine.requests) (arrived : OrdSet RequestId) :
    other.orderedCandidates arrived = engine.orderedCandidates arrived := by
  unfold orderedCandidates runnableCandidates
  rw [config, requests]

/-- An engine whose next iteration stalls, with what the planner finds out. -/
structure Stuck (engine : ContinuousBatchingEngine) (builder : PlanBuilder) : Prop where
  runs : engine.hasRunnableWork engine.arrivalsAtCurrentTimestamp = true
  loop : (engine.orderedCandidates engine.arrivalsAtCurrentTimestamp).foldlM
    engine.planCandidate { cache := engine.kvCache } = .ok builder
  idle : builder.workOrder = []

/-- The parts of an engine that a stall keeps. -/
structure Unmoved (engine next : ContinuousBatchingEngine) : Prop where
  config : next.config = engine.config
  requests : next.requests = engine.requests
  kvCache : next.kvCache = engine.kvCache
  nowUs : next.nowUs = engine.nowUs

/-- Committing a plan without scheduled work changes none of them. -/
theorem Committed.unmoved
    (trail : engine.Trail engine.arrivalsAtCurrentTimestamp consumed builder)
    (coherent : engine.Coherent) (after : next.Coherent) (unscheduled : builder.workOrder = [])
    (committed : engine.Committed engine.arrivalsAtCurrentTimestamp builder engine.nowUs next) :
    engine.Unmoved next ∧ next.arrivalsAtCurrentTimestamp = engine.arrivalsAtCurrentTimestamp := by
  obtain ⟨noPrefills, noDecodes⟩ := trail.planned.workOrder_eq_nil.mp unscheduled
  have noIds : (builder.plan engine.nextIterationNumber).prefillRequestIds = [] := by
    rw [PlanBuilder.plan, noPrefills]
    rfl
  have requests : next.requests = engine.requests := OrdMap.ext_find? fun id => by
    rw [committed.requests]
    cases engine.requests.find? id with
    | none => rfl
    | some request =>
        rw [Option.map_some, advance, noIds, if_neg (by simp),
          if_neg (by change id ∉ builder.decodes; simp [noDecodes])]
  have kvCache : next.kvCache = engine.kvCache := by
    have passes := committed.passes
    have noPublications : engine.publications builder.prefills = [] := by
      rw [noPrefills]
      rfl
    have noneFinish : engine.finishing (builder.plan engine.nextIterationNumber) = [] := by
      rw [finishing, noIds]
      change [] ++ builder.decodes.filter _ = []
      rw [noDecodes]
      rfl
    rw [noPublications, noneFinish] at passes
    exact passes.eq_of_nil.trans (trail.untouched unscheduled).1
  have nowUs := committed.nowUs_eq
  refine ⟨⟨committed.config_eq, requests, kvCache, nowUs⟩, OrdSet.ext fun id => ?_⟩
  rw [mem_arrivals after, committed.arrivedRequests_eq, requests, nowUs]
  exact ⟨fun member => member.elim (fun known => known) fun late => (mem_arrivals coherent).mpr (Or.inr late), Or.inl⟩

/-- A stuck engine stalls, and is stuck again. -/
theorem Stuck.iterate_ensures (stuck : engine.Stuck builder) (coherent : engine.Coherent) :
    Ensures Exn.IsOverflow (fun result => result.1 = .stalled ∧ engine.Unmoved result.2 ∧
      result.2.Stuck builder) engine.iterate := by
  set arrived := engine.arrivalsAtCurrentTimestamp with arrivals
  have distinct := orderedCandidates_nodup coherent arrived
  have trail : engine.Trail arrived (engine.orderedCandidates arrived) builder :=
    (plan_ensures coherent (fun candidate member =>
      (mem_orderedCandidates coherent).mp member) distinct).of_eq_ok stuck.loop
  have some' := orderedCandidates_ne_nil coherent stuck.runs
  have built : Ensures Exn.IsOverflow (fun plan => plan = builder.plan engine.nextIterationNumber)
      (engine.buildPlan engine.nextIterationNumber arrived) := by
    unfold buildPlan buildFromCandidates
    rw [stuck.loop, except_ok_bind]
    exact trail.finish_ensures coherent distinct some' _
  unfold iterate
  simp only
  rw [← arrivals, if_neg (by simp [stuck.runs, arrivals])]
  refine built.bind fun plan same => ?_
  subst same
  rw [if_pos ((plan_deferredOnly trail.planned some' _).mpr stuck.idle)]
  refine (trail.commit_ensures coherent distinct engine.nowUs false (le_refl _)).bind
    fun prepared committed => ?_
  have after := committed.coherent trail coherent distinct (arrivals_arrived coherent)
  obtain ⟨unmoved, sameArrivals⟩ := committed.unmoved trail coherent after stuck.idle
  refine ⟨rfl, unmoved, ?_, ?_, stuck.idle⟩
  · change hasRunnableWork (engine.commitIteration prepared) _ = true
    rw [sameArrivals]
    unfold hasRunnableWork
    rw [unmoved.requests]
    exact stuck.runs
  · change ((engine.commitIteration prepared).orderedCandidates _).foldlM _ _ = _
    rw [sameArrivals, orderedCandidates_congr unmoved.config unmoved.requests,
      planCandidate_congr unmoved.config unmoved.requests, unmoved.kvCache]
    exact stuck.loop

/-- An engine that stays where it is: it has halted, or it is stuck. -/
structure Stays (engine : ContinuousBatchingEngine) (builder : PlanBuilder)
    (later : ContinuousBatchingEngine) : Prop where
  coherent : later.Coherent
  unmoved : engine.Unmoved later
  stuck : later.Stuck builder

theorem Unmoved.trans {last : ContinuousBatchingEngine} (first : engine.Unmoved next)
    (second : next.Unmoved last) : engine.Unmoved last :=
  ⟨second.config.trans first.config, second.requests.trans first.requests,
    second.kvCache.trans first.kvCache, second.nowUs.trans first.nowUs⟩

/-- An engine that stays stalled does so after another iteration, unless a counter overflows. -/
theorem Stays.again {later : ContinuousBatchingEngine} (stays : engine.Stays builder later) :
    engine.Stays builder later.runNextIteration.2 ∧ (later.failed = false →
      later.runNextIteration.1 = .ok .stalled ∨
        ∃ error, later.runNextIteration.1 = .error error ∧ error.IsOverflow) := by
  have moved := Moves.of_moved (runNextIteration_moved stays.coherent)
  have coherent := moved.coherent stays.coherent
  have step := stays.stuck.iterate_ensures stays.coherent
  unfold runNextIteration at coherent ⊢
  by_cases failed : later.failed = true
  · rw [if_pos failed]
    exact ⟨stays, fun running => by rw [failed] at running; cases running⟩
  · rw [if_neg failed] at coherent ⊢
    cases result : later.iterate with
    | error error =>
        rw [result] at coherent
        exact ⟨⟨coherent, ⟨stays.unmoved.config, stays.unmoved.requests, stays.unmoved.kvCache,
          stays.unmoved.nowUs⟩, ⟨stays.stuck.runs, stays.stuck.loop, stays.stuck.idle⟩⟩,
          fun _ => Or.inr ⟨error, rfl, step.of_eq_error result⟩⟩
    | ok answer =>
        obtain ⟨outcome, next⟩ := answer
        rw [result] at coherent
        obtain ⟨rfl, unmoved, stuck⟩ := step.of_eq_ok result
        exact ⟨⟨coherent, stays.unmoved.trans unmoved, stuck⟩, fun _ => Or.inl rfl⟩

/-- A call that stalls repeats: with the same requests, manager and clock until a submission or
a cancellation. -/
theorem Stays.run {later : ContinuousBatchingEngine} (stays : engine.Stays builder later)
    (count : Nat) :
    engine.Stays builder (machine.run later (List.replicate count .runNextIteration)) := by
  induction count generalizing later with
  | zero => exact stays
  | succ count ih => exact ih stays.again.1

/-- An iteration stalls exactly when some request is runnable and every runnable one is starved.
It then changes neither the requests nor the manager nor the clock, every further iteration stalls
with them until a counter overflows, and unless a request is decoding only prompts larger than the
whole cache stall. -/
theorem reach_stalls (backend : SimulatedBackend) (config : ContinuousBatchingConfig)
    (calls : List EngineCall) (outcome : IterationOutcome) (next : ContinuousBatchingEngine)
    (ran : (reach backend config calls).runNextIteration = (.ok outcome, next)) :
    let engine := reach backend config calls
    (outcome = .stalled ↔ (∃ id request, engine.Runnable id request) ∧
      ∀ id request, engine.Runnable id request → engine.Starved request) ∧
    (outcome = .stalled →
      next.requests = engine.requests ∧ next.kvCache = engine.kvCache ∧
        next.nowUs = engine.nowUs ∧
      ∀ count, let later := machine.run next (List.replicate count .runNextIteration)
        later.requests = engine.requests ∧ later.kvCache = engine.kvCache ∧
          later.nowUs = engine.nowUs ∧ (later.failed = false →
            later.runNextIteration.1 = .ok .stalled ∨
              ∃ error, later.runNextIteration.1 = .error error ∧ error.IsOverflow)) ∧
    (outcome = .stalled → (∀ id request, engine.requests.find? id = some request →
      request.state ≠ .decoding) → ∀ id request, engine.Runnable id request →
        config.kvCacheConfig.totalNumBlocks <
          config.kvCacheConfig.demand request.promptLength) := by
  have coherent := reach_coherent backend config calls
  have setup := (reach_setup backend config calls).1
  intro engine
  obtain ⟨-, iterated⟩ := runNextIteration_eq_ok ran
  have stalls : outcome = .stalled → ∃ builder, engine.Stuck builder := fun stalled => by
    subst stalled
    cases (iterate_ensures coherent).of_eq_ok iterated with
    | stalled runs loop _ idle _ => exact ⟨_, runs, loop, idle⟩
  have starved : outcome = .stalled →
      ∀ id request, engine.Runnable id request → engine.Starved request := fun stalled => by
    subst stalled
    cases (iterate_ensures coherent).of_eq_ok iterated with
    | stalled _ _ trail idle _ => exact (trail.unscheduled_iff coherent).mp idle
  refine ⟨⟨fun stalled => ⟨?_, starved stalled⟩, fun stuck => ?_⟩, fun stalled => ?_,
    fun stalled none id request runs => ?_⟩
  · obtain ⟨builder, stuck⟩ := stalls stalled
    exact (hasRunnableWork_iff_runnable coherent).mp stuck.runs
  · have runs := (hasRunnableWork_iff_runnable coherent).mpr stuck.1
    cases (iterate_ensures coherent).of_eq_ok iterated with
    | complete idle | idle idle =>
        rw [idle] at runs
        cases runs
    | stalled => rfl
    | progressed _ _ trail scheduled =>
        exact absurd ((trail.unscheduled_iff coherent).mpr stuck.2) scheduled
  · obtain ⟨builder, stuck⟩ := stalls stalled
    obtain ⟨-, unmoved, again⟩ := (stuck.iterate_ensures coherent).of_eq_ok iterated
    have after := ((iterate_ensures coherent).of_eq_ok iterated).coherent coherent
    have stays : engine.Stays builder next := ⟨after, unmoved, again⟩
    refine ⟨unmoved.requests, unmoved.kvCache, unmoved.nowUs, fun count => ?_⟩
    have later := stays.run count
    exact ⟨later.unmoved.requests, later.unmoved.kvCache, later.unmoved.nowUs, later.again.2⟩
  · have waiting : request.state = .waiting :=
      (runs.2.resolve_left (none id request runs.1)).1
    rw [← setup]
    exact (starved stalled id request runs).oversized coherent waiting none

/-- A prompt of four tokens never fits three blocks of one, and a later arrival stays pending. -/
theorem reach_stalls_tiny :
    let calls : List EngineCall := [.submitRequest (tinyRequest 1 [1, 2, 3, 4] 1),
      .submitRequest { tinyRequest 2 [5] 1 with arrivalTimeUs := 10 }]
    let engine := reach tinyBackend tinyConfig calls
    engine.runNextIteration.1 = .ok .stalled ∧
      ∀ count, (machine.run engine.runNextIteration.2
        (List.replicate count .runNextIteration)).requests = engine.requests := by
  intro calls engine
  have stalled : engine.runNextIteration.1 = .ok .stalled := by decide +kernel
  refine ⟨stalled, fun count => ?_⟩
  exact ((reach_stalls tinyBackend tinyConfig calls .stalled engine.runNextIteration.2
    (Prod.ext stalled rfl)).2.1 rfl).2.2.2 count |>.1

end ContinuousBatchingEngine

end LlmLab.Serving
