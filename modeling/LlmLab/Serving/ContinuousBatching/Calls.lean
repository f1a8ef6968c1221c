import Mathlib.Logic.Relation
import LlmLab.Serving.ContinuousBatching.Commit

/-!
# The calls of the engine

Every call is a row of moves: a submission, a cancellation, a committed iteration, or the halt
after a failure.  Each move keeps `Coherent`, so every engine that calls can reach satisfies it.
-/

namespace LlmLab.Serving

open KVCacheManager

/-! ## Ledgers over the events of an iteration -/

namespace Ledger

variable {ledger : Ledger}

/-- Publications are not on the ledger. -/
theorem foldl_publish (ids : List RequestId) :
    (ids.map KVEvent.publish).foldl record ledger = ledger := by
  induction ids with
  | nil => rfl
  | cons id rest ih => exact ih

/-- Releases take their requests off the ledger, and no others. -/
theorem foldl_release (ids : List RequestId) (id : RequestId) :
    (ids.map KVEvent.release).foldl record ledger id = if id ∈ ids then none else ledger id := by
  induction ids generalizing ledger with
  | nil => rfl
  | cons first rest ih =>
      rw [List.map_cons, List.foldl_cons, ih, record_apply]
      by_cases later : id ∈ rest
      · rw [if_pos later, if_pos (List.mem_cons_of_mem _ later)]
      · rw [if_neg later]
        by_cases here : first = id
        · rw [if_pos (show (KVEvent.release first).subject = some id from congrArg some here),
            if_pos (List.mem_cons.mpr (Or.inl here.symm))]
          rfl
        · rw [if_neg (show ¬ (KVEvent.release first).subject = some id from
              fun same => here (Option.some.inj same)),
            if_neg (by simpa [later] using Ne.symm here)]

end Ledger

namespace ContinuousBatchingEngine

variable {engine next : ContinuousBatchingEngine} {arrived : OrdSet RequestId}
  {consumed : List Candidate} {builder : PlanBuilder} {id : RequestId} {request : Request}
  {endTimestampUs : Int}

/-- What a prompt event leaves on the ledger. -/
theorem after_promptEvent (usage : Option Usage) (id : RequestId) (request : Request) :
    Usage.after usage (engine.promptEvent id request) = some ⟨request.promptLength, 0⟩ := by
  unfold promptEvent
  cases exact : engine.cachedTokens? request with
  | none => rfl
  | some tokens =>
      rw [Request.promptLength_eq_length (cachedTokens?_eq_some exact).2]
      rfl

/-- The ledger after the scheduled work: one event for each work item. -/
theorem foldl_workEvents {items : List PlannedWorkItem} (nodup : (items.map (·.requestId)).Nodup)
    (ledger : Ledger) (id : RequestId) :
    ((items.map engine.workEvent).foldl Ledger.record ledger) id =
      match items.find? (·.requestId = id) with
      | none => ledger id
      | some item => Usage.after (ledger id) (engine.workEvent item) := by
  rw [Ledger.foldl_record_apply, List.filter_map]
  have same : ((fun event : KVEvent => decide (event.subject = some id)) ∘ engine.workEvent) =
      fun item => decide (item.requestId = id) := by
    funext item
    simp only [Function.comp_apply, workEvent_subject, Option.some.injEq]
  rw [same]
  split
  · next none' =>
      rw [List.filter_eq_nil_iff.mpr fun item member => List.find?_eq_none.mp none' item member]
      rfl
  · next item found =>
      have member := List.mem_of_find?_eq_some found
      have key : item.requestId = id := by simpa using List.find?_some found
      subst key
      rw [filter_eq_singleton nodup member]
      rfl

/-! ## A committed iteration keeps the invariant -/

/-- A request that is scheduled as a prefill, or as a decode, or not at all. -/
inductive Scheduled (engine : ContinuousBatchingEngine) (arrived : OrdSet RequestId)
    (plan : BatchPlan) (id : RequestId) (request : Request) : Prop
  | prefill : id ∈ plan.prefillRequestIds → id ∉ plan.decodeRequestIds →
      request.state = .waiting → id ∈ arrived → Scheduled engine arrived plan id request
  | decode : id ∉ plan.prefillRequestIds → id ∈ plan.decodeRequestIds →
      request.state = .decoding → request.generatedTokenCount < request.maxNewTokens →
      Scheduled engine arrived plan id request
  | idle : id ∉ plan.prefillRequestIds → id ∉ plan.decodeRequestIds →
      Scheduled engine arrived plan id request

theorem Runs.scheduled {plan : BatchPlan} (runs : engine.Runs arrived plan)
    (found : engine.requests.find? id = some request) :
    engine.Scheduled arrived plan id request := by
  have apart := (List.nodup_append.mp (List.nodup_append.mp runs.nodup).1).2.2
  by_cases prefill : id ∈ plan.prefillRequestIds
  · obtain ⟨other, same, waiting, known⟩ := runs.prefill id prefill
    cases found.symm.trans same
    exact .prefill prefill (fun decode => apart id prefill id decode rfl) waiting known
  · by_cases decode : id ∈ plan.decodeRequestIds
    · obtain ⟨other, same, decoding, room⟩ := runs.decode id decode
      cases found.symm.trans same
      exact .decode prefill decode decoding room
    · exact .idle prefill decode

theorem mem_finishing {plan : BatchPlan} (found : engine.requests.find? id = some request) :
    id ∈ engine.finishing plan ↔ (id ∈ plan.prefillRequestIds ∧ request.maxNewTokens = 0) ∨
      (id ∈ plan.decodeRequestIds ∧ request.generatedTokenCount + 1 = request.maxNewTokens) := by
  unfold finishing
  rw [List.mem_append, List.mem_filter, List.mem_filter, found, Option.any_some, Option.any_some,
    decide_eq_true_eq, decide_eq_true_eq]

theorem advance_requestId (plan : BatchPlan) (nowUs endTimestampUs : Int) (id : RequestId)
    (request : Request) : (advance plan nowUs endTimestampUs id request).requestId =
      request.requestId := by
  unfold advance
  split
  · exact request.admitted_requestId ..
  split
  · exact request.decoded_requestId ..
  · rfl

theorem advance_arrivalTimeUs (plan : BatchPlan) (nowUs endTimestampUs : Int) (id : RequestId)
    (request : Request) : (advance plan nowUs endTimestampUs id request).arrivalTimeUs =
      request.arrivalTimeUs := by
  unfold advance
  split
  · exact request.admitted_arrivalTimeUs ..
  split
  · exact request.decoded_arrivalTimeUs ..
  · rfl

theorem advance_prompt (plan : BatchPlan) (nowUs endTimestampUs : Int) (id : RequestId)
    (request : Request) :
    (advance plan nowUs endTimestampUs id request).prompt = request.prompt := by
  unfold advance
  split
  · exact request.admitted_prompt ..
  split
  · exact request.decoded_prompt ..
  · rfl

/-- The planned transition of a request leaves it in a resting state. -/
theorem advance_resting {plan : BatchPlan} (scheduled : engine.Scheduled arrived plan id request)
    (resting : request.Resting) (nowUs endTimestampUs : Int) :
    (advance plan nowUs endTimestampUs id request).Resting := by
  unfold advance
  cases scheduled with
  | prefill prefill _ waiting _ =>
      rw [if_pos prefill]
      have unused := (resting.pristine waiting).2.1
      have state := request.admitted_state nowUs endTimestampUs
      by_cases zero : request.maxNewTokens = 0
      · rw [if_pos zero] at state
        exact .finished state (by simp [unused, zero])
      · rw [if_neg zero] at state
        exact .decoding state (by simp [unused, Nat.pos_of_ne_zero zero])
  | decode prefill decode decoding room =>
      rw [if_neg prefill, if_pos decode]
      have state := request.decoded_state endTimestampUs
      by_cases last : request.generatedTokenCount + 1 = request.maxNewTokens
      · rw [if_pos last] at state
        exact .finished state (by simp [last])
      · rw [if_neg last] at state
        refine .decoding (state.trans decoding) ?_
        rw [Request.decoded_generatedTokenCount, Request.decoded_maxNewTokens]
        omega
  | idle prefill decode =>
      rw [if_neg prefill, if_neg decode]
      exact resting

/-- The ledger follows the request records. -/
theorem Trail.ledger (trail : engine.Trail arrived consumed builder) (coherent : engine.Coherent)
    (distinct : (consumed.map (·.requestId)).Nodup) {requests : OrdMap RequestId Request}
    (advanced : ∀ id, requests.find? id = (engine.requests.find? id).map
      (advance (builder.plan engine.nextIterationNumber) engine.nowUs endTimestampUs id)) :
    (builder.workOrder.map engine.workEvent ++
      ((engine.publications builder.prefills).map KVEvent.publish ++
        (engine.finishing (builder.plan engine.nextIterationNumber)).map KVEvent.release)).foldl
      Ledger.record (ledgerOf engine.requests) = ledgerOf requests := by
  set plan := builder.plan engine.nextIterationNumber with planned
  have runs := trail.runs coherent distinct engine.nextIterationNumber
  have items : (builder.workOrder.map (·.requestId)).Nodup :=
    (List.nodup_append.mp (trail.planned.nodup distinct)).1
  have listed : ∀ id, id ∈ builder.prefills.map (·.requestId) ++ builder.decodes ↔
      id ∈ builder.workOrder.map (·.requestId) := fun id => trail.planned.scheduled.mem_iff
  funext id
  rw [List.foldl_append, List.foldl_append, Ledger.foldl_publish, Ledger.foldl_release,
    foldl_workEvents items]
  have unfolded : ledgerOf requests id = ((engine.requests.find? id).map
      (advance plan engine.nowUs endTimestampUs id)).bind Request.usage? := by
    rw [ledgerOf, advanced]
  -- The work item of the request, if it has one, is of the kind that the plan lists it as.
  have item_of : ∀ item, builder.workOrder.find? (·.requestId = id) = some item →
      item.requestId = id ∧ item ∈ builder.workOrder := fun item found =>
    ⟨by simpa using List.find?_some found, List.mem_of_find?_eq_some found⟩
  have no_item : builder.workOrder.find? (·.requestId = id) = none ↔
      id ∉ plan.prefillRequestIds ∧ id ∉ plan.decodeRequestIds := by
    rw [List.find?_eq_none, ← not_or, ← List.mem_append]
    change _ ↔ ¬ id ∈ builder.prefills.map (·.requestId) ++ builder.decodes
    rw [listed, List.mem_map]
    simp
  have prefills : plan.prefillRequestIds =
      (builder.workOrder.filter (·.isPrefill)).map (·.requestId) := trail.planned.prefills
  have decodes : plan.decodeRequestIds =
      (builder.workOrder.filter (!·.isPrefill)).map (·.requestId) := trail.planned.decodes
  cases found : engine.requests.find? id with
  | none =>
      have unlisted : id ∉ plan.prefillRequestIds ∧ id ∉ plan.decodeRequestIds := by
        refine ⟨fun member => ?_, fun member => ?_⟩
        · obtain ⟨_, present, -⟩ := runs.prefill id member
          rw [found] at present
          cases present
        · obtain ⟨_, present, -⟩ := runs.decode id member
          rw [found] at present
          cases present
      rw [unfolded, found, no_item.mpr unlisted, ledgerOf, found]
      exact ite_self _
  | some request =>
      have scheduled : engine.Scheduled arrived plan id request := runs.scheduled found
      have before : ledgerOf engine.requests id = request.usage? := by
        rw [ledgerOf, found]
        rfl
      have resting := coherent.resting id request found
      rw [unfolded, found, before, Option.map_some, Option.bind_some]
      cases scheduled with
      | prefill prefill decode waiting _ =>
          have finishes : id ∈ engine.finishing plan ↔ request.maxNewTokens = 0 := by
            rw [mem_finishing found]
            simp [prefill, decode]
          obtain ⟨item, find⟩ := Option.ne_none_iff_exists'.mp
            fun none' => (no_item.mp none').1 prefill
          obtain ⟨same, member⟩ := item_of item find
          have isPrefill : item.isPrefill = true := by
            rw [decodes] at decode
            by_contra isDecode
            exact decode (List.mem_map.mpr ⟨item, List.mem_filter.mpr
              ⟨member, by simpa using isDecode⟩, same⟩)
          rw [find, advance, if_pos prefill]
          change (if _ then _ else Usage.after _ (engine.workEvent item)) = _
          rw [workEvent, same, found]
          change (if _ then _ else Usage.after _ (if _ then _ else _)) = _
          rw [if_pos isPrefill, after_promptEvent, Request.usage?, Request.admitted_state]
          by_cases zero : request.maxNewTokens = 0
          · rw [if_pos (finishes.mpr zero), if_pos zero, if_neg (by simp)]
          · rw [if_neg (mt finishes.mp zero), if_neg zero, if_pos rfl,
              Request.admitted_generatedTokenCount, (resting.pristine waiting).2.1,
              request.promptLength_congr (request.admitted_prompt ..)]
      | decode prefill decode decoding room =>
          have finishes : id ∈ engine.finishing plan ↔
              request.generatedTokenCount + 1 = request.maxNewTokens := by
            rw [mem_finishing found]
            simp [prefill, decode]
          obtain ⟨item, find⟩ := Option.ne_none_iff_exists'.mp
            fun none' => (no_item.mp none').2 decode
          obtain ⟨same, member⟩ := item_of item find
          have isDecode : ¬ item.isPrefill = true := fun isPrefill => by
            rw [prefills] at prefill
            exact prefill (List.mem_map.mpr ⟨item, List.mem_filter.mpr ⟨member, isPrefill⟩, same⟩)
          rw [find, advance, if_neg prefill, if_pos decode]
          change (if _ then _ else Usage.after _ (engine.workEvent item)) = _
          rw [workEvent, same, found]
          change (if _ then _ else Usage.after _ (if _ then _ else _)) = _
          rw [if_neg isDecode, Request.usage?, if_pos decoding, Request.usage?,
            Request.decoded_state]
          by_cases last : request.generatedTokenCount + 1 = request.maxNewTokens
          · rw [if_pos (finishes.mpr last), if_pos last, if_neg (by simp)]
          · rw [if_neg (mt finishes.mp last), if_neg last, if_pos decoding,
              Request.decoded_generatedTokenCount,
              request.promptLength_congr (request.decoded_prompt ..)]
            rfl
      | idle prefill decode =>
          have unfinished : id ∉ engine.finishing plan := by
            rw [mem_finishing found]
            simp [prefill, decode]
          rw [if_neg unfinished, no_item.mpr ⟨prefill, decode⟩, advance, if_neg prefill,
            if_neg decode]

/-- The whole iteration as a pass over the cache. -/
theorem Committed.allPasses (trail : engine.Trail arrived consumed builder)
    (committed : engine.Committed arrived builder endTimestampUs next) :
    Passes engine.kvCache (builder.workOrder.map engine.workEvent ++
      ((engine.publications builder.prefills).map .publish ++
        (engine.finishing (builder.plan engine.nextIterationNumber)).map .release)) next.kvCache :=
  trail.passes.append committed.passes

theorem Committed.config_eq (committed : engine.Committed arrived builder endTimestampUs next) :
    next.config = engine.config := by
  rw [committed.rest]

theorem Committed.nowUs_eq (committed : engine.Committed arrived builder endTimestampUs next) :
    next.nowUs = endTimestampUs := by
  rw [committed.rest]

theorem Committed.arrivedRequests_eq
    (committed : engine.Committed arrived builder endTimestampUs next) :
    next.arrivedRequests = arrived := by
  rw [committed.rest]

/-- An iteration keeps the invariant. -/
theorem Committed.coherent (trail : engine.Trail arrived consumed builder)
    (coherent : engine.Coherent) (distinct : (consumed.map (·.requestId)).Nodup)
    (arrivals : ∀ id ∈ arrived, ∃ request, engine.requests.find? id = some request ∧
      request.arrivalTimeUs ≤ engine.nowUs)
    (committed : engine.Committed arrived builder endTimestampUs next) : next.Coherent := by
  have whole := committed.allPasses trail
  have runs := trail.runs coherent distinct engine.nextIterationNumber
  have before : ∀ {id request}, next.requests.find? id = some request →
      ∃ old, engine.requests.find? id = some old ∧ request =
        advance (builder.plan engine.nextIterationNumber) engine.nowUs endTimestampUs id old :=
    fun {id request} found => by
      rw [committed.requests] at found
      obtain ⟨old, present, same⟩ := Option.map_eq_some_iff.mp found
      exact ⟨old, present, same.symm⟩
  refine ⟨whole.sound coherent.sound, ?_, fun id request found => ?_, fun id request found => ?_,
    fun id member => ?_, ?_⟩
  · rw [committed.config_eq]
    exact coherent.setup.trans whole.setup
  · obtain ⟨old, present, rfl⟩ := before found
    rw [advance_requestId]
    exact coherent.keyed id old present
  · obtain ⟨old, present, rfl⟩ := before found
    exact advance_resting (runs.scheduled present) (coherent.resting id old present) _ _
  · rw [committed.arrivedRequests_eq] at member
    obtain ⟨old, present, arrives⟩ := arrivals id member
    refine ⟨_, (committed.requests id).trans (congrArg _ present), ?_⟩
    rw [advance_arrivalTimeUs, committed.nowUs_eq]
    exact arrives.trans committed.forward
  · rw [← trail.ledger coherent distinct committed.requests]
    exact whole.tallied coherent.sound coherent.tallied

theorem Iterated.coherent {outcome : IterationOutcome} (coherent : engine.Coherent)
    (iterated : engine.Iterated outcome next) : next.Coherent := by
  have arrivals := arrivals_arrived coherent
  cases iterated with
  | complete => exact coherent
  | idle _ _ committed => exact committed.coherent .start coherent List.nodup_nil arrivals
  | stalled _ _ trail _ committed | progressed _ _ trail _ _ committed =>
      exact committed.coherent trail coherent (orderedCandidates_nodup coherent _) arrivals

/-- An iteration that does anything commits what the planner built. -/
theorem Iterated.committed {outcome : IterationOutcome} (coherent : engine.Coherent)
    (iterated : engine.Iterated outcome next) :
    next = engine ∨ ∃ consumed builder endTimestampUs,
      engine.Trail engine.arrivalsAtCurrentTimestamp consumed builder ∧
        (consumed.map (·.requestId)).Nodup ∧
        engine.Committed engine.arrivalsAtCurrentTimestamp builder endTimestampUs next := by
  cases iterated with
  | complete => exact Or.inl rfl
  | idle _ _ committed => exact Or.inr ⟨_, _, _, .start, List.nodup_nil, committed⟩
  | stalled _ _ trail _ committed | progressed _ _ trail _ _ committed =>
      exact Or.inr ⟨_, _, _, trail, orderedCandidates_nodup coherent _, committed⟩

/-! ## Moves -/

/-- The engine after a cancellation that leaves the cache as given. -/
def cancelledWith (engine : ContinuousBatchingEngine) (id : RequestId) (request : Request)
    (cache : KVCacheManager) : ContinuousBatchingEngine :=
  { engine with
    requests := engine.requests.insert id
      { request with state := .cancelled, finishTimeUs := some engine.nowUs }
    arrivedRequests := engine.arrivedRequests.erase id
    kvCache := cache
    statistics := ContinuousBatchingStatistics.copyCache { engine.statistics with
      cancelledRequestCount := engine.statistics.cancelledRequestCount + 1 } cache }

/-- What one step of a call does to the engine. -/
inductive Moved (engine : ContinuousBatchingEngine) : ContinuousBatchingEngine → Prop
  | submitted {request : Request} : engine.failed = false → request.Pristine →
      engine.nowUs ≤ request.arrivalTimeUs →
      (engine.cachedTokens? request = none →
        request.promptLength ≤ engine.config.maxBatchedTokens) →
      engine.requests.find? request.requestId = none →
      Moved engine { engine with requests := engine.requests.insert request.requestId request }
  | cancelled {id : RequestId} {request : Request} {cache : KVCacheManager} :
      engine.failed = false → engine.requests.find? id = some request →
      request.state = .waiting ∨ request.state = .decoding →
      Passes engine.kvCache (if request.state = .decoding then [.release id] else []) cache →
      Moved engine (engine.cancelledWith id request cache)
  | iterated {outcome : IterationOutcome} {next : ContinuousBatchingEngine} :
      engine.failed = false → engine.Iterated outcome next → Moved engine next
  | halted : Moved engine { engine with failed := true }

/-- A submission is refused, or it adds the request. -/
theorem submitRequest_cases (engine : ContinuousBatchingEngine) (request : Request) :
    (engine.submitRequest request).2 = engine ∨
      (engine.failed = false ∧ request.Pristine ∧ engine.nowUs ≤ request.arrivalTimeUs ∧
        (engine.cachedTokens? request = none →
          request.promptLength ≤ engine.config.maxBatchedTokens) ∧
        engine.requests.find? request.requestId = none ∧
        engine.submitRequest request =
          (.ok (), { engine with requests := engine.requests.insert request.requestId request })) := by
  unfold submitRequest
  by_cases failed : engine.failed = true
  · exact Or.inl (by rw [if_pos failed])
  by_cases pristine : request.Pristine
  · by_cases late : request.arrivalTimeUs < engine.nowUs
    · exact Or.inl (by rw [if_neg failed, if_neg (not_not.mpr pristine), if_pos late])
    by_cases long : (engine.config.prefixCacheConfig.enabled = false ∨
        request.promptTokens? = none) ∧ request.promptLength > engine.config.maxBatchedTokens
    · exact Or.inl (by
        rw [if_neg failed, if_neg (not_not.mpr pristine), if_neg late, if_pos long])
    by_cases known : engine.requests.contains request.requestId = true
    · exact Or.inl (by rw [if_neg failed, if_neg (not_not.mpr pristine), if_neg late,
        if_neg long, if_pos known])
    rw [if_neg failed, if_neg (not_not.mpr pristine), if_neg late, if_neg long, if_neg known]
    refine Or.inr ⟨by simpa using failed, pristine, not_lt.mp late, fun plain => ?_,
      OrdMap.contains_eq_false_iff.mp (by simpa using known), rfl⟩
    by_contra over'
    refine long ⟨?_, not_le.mp over'⟩
    unfold cachedTokens? at plain
    by_cases enabled : engine.config.prefixCacheConfig.enabled = true
    · rw [if_pos enabled] at plain
      exact Or.inr plain
    · exact Or.inl (by simpa using enabled)
  · exact Or.inl (by rw [if_neg failed, if_pos pristine])

theorem submitRequest_moved (engine : ContinuousBatchingEngine) (request : Request) :
    (engine.submitRequest request).2 = engine ∨ engine.Moved (engine.submitRequest request).2 := by
  rcases submitRequest_cases engine request with same | ⟨running, pristine, arrives, fits, fresh, result⟩
  · exact Or.inl same
  · rw [result]
    exact Or.inr (.submitted running pristine arrives fits fresh)

/-- `cancel_request` on a request that it accepts fails by an overflow only. -/
theorem prepareCancel_ensures (coherent : engine.Coherent)
    (found : engine.requests.find? id = some request)
    (live : request.state = .waiting ∨ request.state = .decoding) :
    Ensures Exn.IsOverflow (fun next => ∃ cache,
        Passes engine.kvCache (if request.state = .decoding then [.release id] else []) cache ∧
        next = engine.cancelledWith id request cache) (engine.prepareCancel id request) := by
  have legal : isLegalTransition request.state .cancelled = true := by
    rcases live with state | state <;> rw [state] <;> rfl
  unfold prepareCancel
  refine (inc_ensures _ _).bind fun count counted => ?_
  subst counted
  rw [Request.transitionTo_eq_ok legal (fun _ => nofun), except_ok_bind]
  by_cases decoding : request.state = .decoding
  · rw [if_pos decoding, if_pos decoding]
    have held := (coherent.table_iff found).mpr decoding
    refine ((releaseRequest_ensures coherent.sound).mono_allowed fun error refused => ?_).bind
      fun cache released => ⟨cache, .single released.1 released.2, rfl⟩
    exact refused.resolve_right (not_not.mpr held)
  · rw [if_neg decoding, if_neg decoding]
    exact ⟨engine.kvCache, .nil _, rfl⟩

theorem Coherent.live (coherent : engine.Coherent)
    (found : engine.requests.find? id = some request)
    (open' : ¬ (request.state = .finished ∨ request.state = .cancelled)) :
    request.state = .waiting ∨ request.state = .decoding := by
  cases coherent.resting id request found with
  | waiting pristine => exact Or.inl pristine.1
  | decoding state _ => exact Or.inr state
  | finished state _ => exact absurd (Or.inl state) open'
  | cancelled state _ => exact absurd (Or.inr state) open'

/-- A cancellation is refused, or it cancels the request. -/
theorem cancelRequest_cases (coherent : engine.Coherent) (id : RequestId) :
    (engine.cancelRequest id).2 = engine ∨ (engine.failed = false ∧ ∃ request cache,
      engine.requests.find? id = some request ∧
        (request.state = .waiting ∨ request.state = .decoding) ∧
        Passes engine.kvCache (if request.state = .decoding then [.release id] else []) cache ∧
        engine.cancelRequest id = (.ok (), engine.cancelledWith id request cache)) := by
  unfold cancelRequest
  by_cases failed : engine.failed = true
  · exact Or.inl (by rw [if_pos failed])
  rw [if_neg failed]
  cases found : engine.requests.find? id with
  | none => exact Or.inl rfl
  | some request =>
      simp only
      by_cases terminal : request.state = .finished ∨ request.state = .cancelled
      · exact Or.inl (by rw [if_pos terminal])
      rw [if_neg terminal]
      have live := coherent.live found terminal
      rw [if_neg (by rcases live with state | state <;> simp [state])]
      have prepared := prepareCancel_ensures coherent found live
      cases result : engine.prepareCancel id request with
      | error error => exact Or.inl rfl
      | ok next =>
          obtain ⟨cache, passes, rfl⟩ := prepared.of_eq_ok result
          exact Or.inr ⟨by simpa using failed, request, cache, rfl, live, passes, rfl⟩

theorem cancelRequest_moved (coherent : engine.Coherent) (id : RequestId) :
    (engine.cancelRequest id).2 = engine ∨ engine.Moved (engine.cancelRequest id).2 := by
  rcases cancelRequest_cases coherent id with same | ⟨running, request, cache, found, live, passes, result⟩
  · exact Or.inl same
  · rw [result]
    exact Or.inr (.cancelled running found live passes)

theorem runNextIteration_moved (coherent : engine.Coherent) :
    engine.runNextIteration.2 = engine ∨ engine.Moved engine.runNextIteration.2 := by
  unfold runNextIteration
  by_cases failed : engine.failed = true
  · exact Or.inl (by rw [if_pos failed])
  rw [if_neg failed]
  have running : engine.failed = false := by simpa using failed
  cases result : engine.iterate with
  | error error => exact Or.inr .halted
  | ok answer => exact Or.inr (.iterated running ((iterate_ensures coherent).of_eq_ok result))

/-- A cancellation keeps the engine coherent. -/
theorem cancelledWith_coherent (coherent : engine.Coherent)
    (found : engine.requests.find? id = some request) {cache : KVCacheManager}
    (passes : Passes engine.kvCache (if request.state = .decoding then [.release id] else []) cache) :
    (engine.cancelledWith id request cache).Coherent := by
  have ledger : (if request.state = .decoding then [KVEvent.release id] else []).foldl
      Ledger.record (ledgerOf engine.requests) = ledgerOf (engine.requests.insert id
        { request with state := .cancelled, finishTimeUs := some engine.nowUs }) := by
    funext other
    rw [ledgerOf_insert]
    have gone : Request.usage? { request with
        state := .cancelled, finishTimeUs := some engine.nowUs } = none := rfl
    by_cases same : other = id
    · subst same
      rw [if_pos rfl, gone]
      by_cases decoding : request.state = .decoding
      · rw [if_pos decoding]
        exact Function.update_self ..
      · rw [if_neg decoding]
        change ledgerOf engine.requests other = none
        rw [ledgerOf, found, Option.bind_some, Request.usage?, if_neg decoding]
    · rw [if_neg same]
      split
      · exact Function.update_of_ne same ..
      · rfl
  have listed : ∀ other record, (engine.requests.insert id { request with
      state := .cancelled, finishTimeUs := some engine.nowUs }).find? other = some record →
      (other = id ∧ record = { request with
        state := .cancelled, finishTimeUs := some engine.nowUs }) ∨
      (other ≠ id ∧ engine.requests.find? other = some record) := fun other record present => by
    rw [OrdMap.find?_insert] at present
    split at present
    · next same => exact Or.inl ⟨same, (Option.some.inj present).symm⟩
    · next apart => exact Or.inr ⟨apart, present⟩
  refine ⟨passes.sound coherent.sound, coherent.setup.trans passes.setup,
    fun other record present => ?_, fun other record present => ?_, fun other member => ?_, ?_⟩
  · rcases listed other record present with ⟨rfl, rfl⟩ | ⟨-, old⟩
    · exact coherent.keyed other request found
    · exact coherent.keyed other record old
  · rcases listed other record present with ⟨rfl, rfl⟩ | ⟨-, old⟩
    · exact .cancelled rfl (coherent.resting other request found).generated_le
    · exact coherent.resting other record old
  · obtain ⟨apart, known⟩ := OrdSet.mem_erase.mp member
    obtain ⟨record, old, arrives⟩ := coherent.arrived other known
    refine ⟨record, ?_, arrives⟩
    change (engine.requests.insert id _).find? other = _
    rw [OrdMap.find?_insert, if_neg apart, old]
  · change Tallied (ledgerOf (engine.requests.insert id _)) cache
    rw [← ledger]
    exact passes.tallied coherent.sound coherent.tallied

/-- A submission keeps the engine coherent. -/
theorem submitted_coherent (coherent : engine.Coherent) (pristine : request.Pristine)
    (fresh : engine.requests.find? request.requestId = none) :
    ({ engine with requests := engine.requests.insert request.requestId request } :
      ContinuousBatchingEngine).Coherent := by
  have ledger : ledgerOf (engine.requests.insert request.requestId request) =
      ledgerOf engine.requests := by
    funext other
    rw [ledgerOf_insert]
    split
    · next same =>
        rw [Request.usage?, if_neg (by rw [pristine.1]; simp), same, ledgerOf, fresh]
        rfl
    · rfl
  have listed : ∀ other record, (engine.requests.insert request.requestId request).find? other =
      some record → (other = request.requestId ∧ record = request) ∨
        engine.requests.find? other = some record := fun other record present => by
    rw [OrdMap.find?_insert] at present
    split at present
    · next same => exact Or.inl ⟨same, (Option.some.inj present).symm⟩
    · exact Or.inr present
  refine ⟨coherent.sound, coherent.setup, fun other record present => ?_,
    fun other record present => ?_, fun other member => ?_, ?_⟩
  · rcases listed other record present with ⟨rfl, rfl⟩ | old
    · rfl
    · exact coherent.keyed other record old
  · rcases listed other record present with ⟨-, rfl⟩ | old
    · exact .waiting pristine
    · exact coherent.resting other record old
  · obtain ⟨record, old, arrives⟩ := coherent.arrived other member
    refine ⟨record, ?_, arrives⟩
    change (engine.requests.insert _ _).find? other = _
    rw [OrdMap.find?_insert, if_neg fun same => ?_, old]
    rw [← same, old] at fresh
    cases fresh
  · change Tallied (ledgerOf (engine.requests.insert _ _)) engine.kvCache
    rw [ledger]
    exact coherent.tallied

theorem Moved.coherent (moved : engine.Moved next) (coherent : engine.Coherent) :
    next.Coherent := by
  cases moved with
  | submitted _ pristine _ _ fresh => exact submitted_coherent coherent pristine fresh
  | cancelled _ found _ passes => exact cancelledWith_coherent coherent found passes
  | iterated _ iterated => exact iterated.coherent coherent
  | halted => exact ⟨coherent.sound, coherent.setup, coherent.keyed, coherent.resting,
      coherent.arrived, coherent.tallied⟩

/-! ## Calls as rows of moves -/

/-- The engines that moves lead to. -/
abbrev Moves : ContinuousBatchingEngine → ContinuousBatchingEngine → Prop :=
  Relation.ReflTransGen Moved

/-- What the moves from coherent engines preserve holds after any number of them. -/
theorem Moves.invariant {property : ContinuousBatchingEngine → Prop}
    (preserved : ∀ {engine next : ContinuousBatchingEngine}, engine.Coherent → property engine →
      engine.Moved next → property next)
    (moves : Moves engine next) (coherent : engine.Coherent) (holds : property engine) :
    next.Coherent ∧ property next := by
  induction moves with
  | refl => exact ⟨coherent, holds⟩
  | tail _ moved ih => exact ⟨moved.coherent ih.1, preserved ih.1 ih.2 moved⟩

theorem Moves.coherent (moves : Moves engine next) (coherent : engine.Coherent) :
    next.Coherent :=
  (@Moves.invariant engine next (fun _ => True) (fun _ _ _ => True.intro) moves coherent
    True.intro).1

/-- A call of `run_next_iteration` that returns made an iteration. -/
theorem runNextIteration_eq_ok {outcome : IterationOutcome}
    (ran : engine.runNextIteration = (.ok outcome, next)) :
    engine.failed = false ∧ engine.iterate = .ok (outcome, next) := by
  unfold runNextIteration at ran
  by_cases failed : engine.failed = true
  · rw [if_pos failed] at ran
    cases ran
  · rw [if_neg failed] at ran
    refine ⟨by simpa using failed, ?_⟩
    cases result : engine.iterate with
    | error error =>
        rw [result] at ran
        cases ran
    | ok answer =>
        rw [result] at ran
        cases ran
        rfl

theorem Moves.of_moved (moved : next = engine ∨ engine.Moved next) : Moves engine next := by
  rcases moved with rfl | moved
  · exact .refl
  · exact .single moved

theorem runIterations_moves (fuel : Nat) (coherent : engine.Coherent) :
    Moves engine (runIterations fuel engine).2 := by
  induction fuel generalizing engine with
  | zero => exact .refl
  | succ fuel ih =>
      have first := Moves.of_moved (runNextIteration_moved coherent)
      unfold runIterations
      split
      · next _ _ progressed =>
          rw [progressed] at first
          exact first.trans (ih (first.coherent coherent))
      · exact first

theorem finishRun_moves (last : Except Exn IterationOutcome × ContinuousBatchingEngine) :
    Moves last.2 (finishRun last).2 := by
  unfold finishRun
  split
  · exact .refl
  · exact .refl
  · next engine _ =>
      split
      · exact .single .halted
      · exact .refl

theorem run_moves (coherent : engine.Coherent) : Moves engine engine.run.2 :=
  (runIterations_moves _ coherent).trans (finishRun_moves _)

/-- Every call is a row of moves. -/
theorem apply_moves (coherent : engine.Coherent) (call : EngineCall) :
    Moves engine (machine.next engine call) := by
  cases call with
  | submitRequest request => exact .of_moved (submitRequest_moved engine request)
  | cancelRequest id => exact .of_moved (cancelRequest_moved coherent id)
  | runNextIteration => exact .of_moved (runNextIteration_moved coherent)
  | run => exact run_moves coherent

/-- The engine after a list of calls, from its construction. -/
def reach (backend : SimulatedBackend) (config : ContinuousBatchingConfig)
    (calls : List EngineCall) : ContinuousBatchingEngine :=
  machine.run (create backend config) calls

/-- What the moves preserve holds of every reachable engine. -/
theorem reach_invariant {property : ContinuousBatchingEngine → Prop} (backend : SimulatedBackend)
    (config : ContinuousBatchingConfig) (calls : List EngineCall)
    (start : property (create backend config))
    (preserved : ∀ {engine next : ContinuousBatchingEngine}, engine.Coherent → property engine →
      engine.Moved next → property next) :
    (reach backend config calls).Coherent ∧ property (reach backend config calls) :=
  @Machine.run_invariant _ _ _ machine (fun engine => engine.Coherent ∧ property engine)
    (fun _ call holds => Moves.invariant preserved (apply_moves holds.1 call) holds.1 holds.2) _
    calls ⟨create_coherent backend config, start⟩

theorem Iterated.setup {outcome : IterationOutcome} (iterated : engine.Iterated outcome next) :
    next.config = engine.config ∧ next.backend = engine.backend ∧ next.failed = engine.failed := by
  cases iterated with
  | complete => exact ⟨rfl, rfl, rfl⟩
  | idle _ _ committed | stalled _ _ _ _ committed | progressed _ _ _ _ _ committed =>
      rw [committed.rest]
      exact ⟨rfl, rfl, rfl⟩

/-- No call changes the configuration or the backend. -/
theorem reach_setup (backend : SimulatedBackend) (config : ContinuousBatchingConfig)
    (calls : List EngineCall) : (reach backend config calls).config = config ∧
      (reach backend config calls).backend = backend :=
  (@reach_invariant (fun engine => engine.config = config ∧ engine.backend = backend) backend
    config calls ⟨rfl, rfl⟩ fun _ holds moved => by
      cases moved with
      | submitted | cancelled | halted => exact holds
      | iterated _ iterated =>
          obtain ⟨sameConfig, sameBackend, -⟩ := iterated.setup
          exact ⟨sameConfig.trans holds.1, sameBackend.trans holds.2⟩).2

/-- Every reachable engine is coherent. -/
theorem reach_coherent (backend : SimulatedBackend) (config : ContinuousBatchingConfig)
    (calls : List EngineCall) : (reach backend config calls).Coherent :=
  (@reach_invariant (fun _ => True) backend config calls True.intro fun _ _ _ => True.intro).1

end ContinuousBatchingEngine

end LlmLab.Serving
