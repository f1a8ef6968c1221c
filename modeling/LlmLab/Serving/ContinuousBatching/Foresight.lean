import LlmLab.Serving.ContinuousBatching.Safety
import LlmLab.Serving.ContinuousBatching.Termination

/-!
# The engine does not look ahead

A request that has not arrived yet is waiting in `requests_` and nothing else depends on it: as
long as the clock stays before its arrival, every call answers as if it had not been submitted.
Submitting it early or at its arrival therefore ends in one state.
-/

namespace LlmLab.Serving

open KVCacheManager

namespace ContinuousBatchingEngine

variable {engine next : ContinuousBatchingEngine} {request other : Request}
  {arrived : OrdSet RequestId} {id : RequestId} {plan : BatchPlan} {endTimestampUs : Int}

/-- The engine with one more request submitted. -/
def foreseeing (engine : ContinuousBatchingEngine) (request : Request) : ContinuousBatchingEngine :=
  { engine with requests := engine.requests.insert request.requestId request }

/-- The engine does not know the request. -/
def Unknown (engine : ContinuousBatchingEngine) (request : Request) : Prop :=
  engine.requests.find? request.requestId = none

theorem requestAt_foreseeing (apart : id ≠ request.requestId) :
    (engine.foreseeing request).requestAt id = engine.requestAt id := by
  unfold requestAt foreseeing
  dsimp only
  rw [OrdMap.find?_insert, if_neg apart]

/-! ## Arrivals -/

theorem arrivals_foreseeing (unknown : engine.Unknown request)
    (later : engine.nowUs < request.arrivalTimeUs) :
    (engine.foreseeing request).arrivalsAtCurrentTimestamp = engine.arrivalsAtCurrentTimestamp := by
  obtain ⟨front, back, before, after⟩ := OrdMap.entries_insert_split unknown request
  unfold arrivalsAtCurrentTimestamp foreseeing
  dsimp only
  rw [after, before, List.filterMap_append, List.filterMap_append, List.filterMap_cons_none]
  exact if_neg fun present => absurd present.2.2 (not_le.mpr later)

theorem not_runnable (waiting : request.state = .waiting) (unseen : request.requestId ∉ arrived) :
    runnable arrived request = false := by
  unfold runnable
  simp [waiting, unseen]

theorem hasRunnableWork_foreseeing (unknown : engine.Unknown request)
    (rests : runnable arrived request = false) :
    (engine.foreseeing request).hasRunnableWork arrived = engine.hasRunnableWork arrived := by
  obtain ⟨front, back, before, after⟩ := OrdMap.entries_insert_split unknown request
  unfold hasRunnableWork foreseeing
  dsimp only
  rw [after, before, List.any_append, List.any_append, List.any_cons, rests, Bool.false_or]

theorem orderedCandidates_foreseeing (unknown : engine.Unknown request)
    (rests : runnable arrived request = false) :
    (engine.foreseeing request).orderedCandidates arrived = engine.orderedCandidates arrived := by
  have candidates : (engine.foreseeing request).runnableCandidates arrived =
      engine.runnableCandidates arrived := by
    obtain ⟨front, back, before, after⟩ := OrdMap.entries_insert_split unknown request
    unfold runnableCandidates foreseeing
    dsimp only
    rw [after, before, List.filter_append, List.filter_append, List.filter_cons_of_neg]
    simp [rests]
  unfold orderedCandidates
  rw [candidates]
  rfl

/-- The clock goes to the next arrival unless the request comes before it. -/
theorem nextFutureArrival_foreseeing (unknown : engine.Unknown request) {time : Int}
    (ahead : engine.nextFutureArrival arrived = some time)
    (first : time ≤ request.arrivalTimeUs) :
    (engine.foreseeing request).nextFutureArrival arrived = some time := by
  have spec := @nextFutureArrival_spec engine arrived
  have spec' := @nextFutureArrival_spec (engine.foreseeing request) arrived
  rw [ahead] at spec
  obtain ⟨⟨id, earliest, found, waits, rfl⟩, least⟩ := spec
  have apart : id ≠ request.requestId := by
    rintro rfl
    rw [unknown] at found
    cases found
  have found' : (engine.foreseeing request).requests.find? id = some earliest := by
    change (engine.requests.insert request.requestId request).find? id = _
    rw [OrdMap.find?_insert, if_neg apart, found]
  cases ahead' : (engine.foreseeing request).nextFutureArrival arrived with
  | none =>
      rw [ahead'] at spec'
      exact absurd waits (spec' id earliest found')
  | some time' =>
      rw [ahead'] at spec'
      obtain ⟨⟨id', earliest', known, waits', rfl⟩, least'⟩ := spec'
      refine congrArg some (le_antisymm (least' id earliest found' waits) ?_)
      change (engine.requests.insert request.requestId request).find? id' = _ at known
      rw [OrdMap.find?_insert] at known
      split at known
      · cases known
        exact first
      · exact least id' earliest' known waits'

/-! ## Planning -/

theorem planCandidate_foreseeing {candidate : Candidate}
    (apart : candidate.requestId ≠ request.requestId) (builder : PlanBuilder) :
    (engine.foreseeing request).planCandidate builder candidate =
      engine.planCandidate builder candidate := by
  unfold planCandidate
  rw [requestAt_foreseeing apart]
  rfl

theorem buildPlan_foreseeing (coherent : engine.Coherent) (unknown : engine.Unknown request)
    (rests : runnable arrived request = false) (iterationNumber : Nat) :
    (engine.foreseeing request).buildPlan iterationNumber arrived =
      engine.buildPlan iterationNumber arrived := by
  unfold buildPlan buildFromCandidates
  rw [orderedCandidates_foreseeing unknown rests]
  have same := @foldlM_congr _ _ _ (engine.foreseeing request).planCandidate engine.planCandidate
    (engine.orderedCandidates arrived) (fun candidate member builder => by
      obtain ⟨known, describes⟩ := (mem_orderedCandidates coherent).mp member
      refine planCandidate_foreseeing (fun same => ?_) builder
      have found := describes.found
      rw [same, unknown] at found
      cases found) { cache := engine.kvCache }
  exact congrArg (· >>= _) same

/-! ## Carrying out a plan -/

/-- The plan does not concern the request. -/
structure Omits (plan : BatchPlan) (id : RequestId) : Prop where
  work : ∀ item ∈ plan.workOrder, item.requestId ≠ id
  prefillWork : ∀ work ∈ plan.prefillWork, work.requestId ≠ id
  prefills : ∀ other ∈ plan.prefillRequestIds, other ≠ id
  decodes : ∀ other ∈ plan.decodeRequestIds, other ≠ id

theorem empty_omits (number : Nat) (id : RequestId) : Omits (.empty number) id :=
  ⟨by simp [BatchPlan.empty], by simp [BatchPlan.empty], by simp [BatchPlan.empty],
    by simp [BatchPlan.empty]⟩

/-- A safe plan does not mention a request that the engine does not know. -/
theorem SafePlan.omits (safe : engine.SafePlan arrived plan) (unknown : engine.Unknown request) :
    Omits plan request.requestId := by
  have known : ∀ {other found}, engine.requests.find? other = some found →
      other ≠ request.requestId := fun {other found} present same => by
    rw [same, unknown] at present
    cases present
  refine ⟨fun item member => ?_, fun work member => ?_, fun other member => ?_,
    fun other member => ?_⟩
  · by_cases isPrefill : item.isPrefill = true
    · have listed : item.requestId ∈ plan.prefillRequestIds := by
        rw [safe.prefills.1]
        exact List.mem_map.mpr ⟨item, List.mem_filter.mpr ⟨member, isPrefill⟩, rfl⟩
      obtain ⟨found, present, -⟩ := safe.prefills.2 _ listed
      exact known present
    · have listed : item.requestId ∈ plan.decodeRequestIds := by
        rw [safe.decodes.1]
        exact List.mem_map.mpr ⟨item, List.mem_filter.mpr ⟨member, by simpa using isPrefill⟩, rfl⟩
      obtain ⟨found, present, -⟩ := safe.decodes.2 _ listed
      exact known present
  · obtain ⟨found, present, -⟩ := safe.prompts.2 work member
    exact known present
  · obtain ⟨found, present, -⟩ := safe.prefills.2 other member
    exact known present
  · obtain ⟨found, present, -⟩ := safe.decodes.2 other member
    exact known present

theorem replayItem_foreseeing {item : PlannedWorkItem}
    (apart : item.requestId ≠ request.requestId) (cache : KVCacheManager) :
    (engine.foreseeing request).replayItem plan cache item =
      engine.replayItem plan cache item := by
  unfold replayItem
  split
  · cases found : plan.prefillWork.find? (·.requestId = item.requestId) with
    | none => rfl
    | some work =>
        have same : work.requestId = item.requestId := by simpa using List.find?_some found
        dsimp only
        rw [requestAt_foreseeing (same ▸ apart)]
        rfl
  · rfl

theorem publishWork_foreseeing {work : PrefillWork} (apart : work.requestId ≠ request.requestId)
    (cache : KVCacheManager) :
    (engine.foreseeing request).publishWork cache work = engine.publishWork cache work := by
  unfold publishWork
  rw [requestAt_foreseeing apart]

/-- The updates of a plan that omits a request are the same with it submitted. -/
theorem requestUpdates_foreseeing (omits : Omits plan request.requestId) :
    (engine.foreseeing request).requestUpdates plan endTimestampUs arrived =
      engine.requestUpdates plan endTimestampUs arrived := by
  have prefill : ∀ other ∈ plan.prefillRequestIds, ∀ state,
      collectUpdate ((engine.foreseeing request).preparePrefillUpdate endTimestampUs arrived) state
        other = collectUpdate (engine.preparePrefillUpdate endTimestampUs arrived) state other :=
    fun other member state => by
      unfold collectUpdate preparePrefillUpdate
      rw [requestAt_foreseeing (omits.prefills other member)]
      rfl
  have decode : ∀ other ∈ plan.decodeRequestIds, ∀ state,
      collectUpdate ((engine.foreseeing request).prepareDecodeUpdate endTimestampUs) state other =
        collectUpdate (engine.prepareDecodeUpdate endTimestampUs) state other :=
    fun other member state => by
      unfold collectUpdate prepareDecodeUpdate
      rw [requestAt_foreseeing (omits.decodes other member)]
  unfold requestUpdates prepareRequestUpdates
  rw [foldlM_congr prefill]
  refine congrArg (ite _ _) (congrArg _ (funext fun prefills => ?_))
  exact foldlM_congr decode prefills

theorem releaseFinished_foreseeing (omits : Omits plan request.requestId) (cache : KVCacheManager) :
    (engine.foreseeing request).releaseFinished plan cache = engine.releaseFinished plan cache := by
  have release : ∀ {finishes : Request → Bool} {ids : List RequestId},
      (∀ other ∈ ids, other ≠ request.requestId) → ∀ other ∈ ids, ∀ cache,
        (engine.foreseeing request).releaseIf finishes cache other =
          engine.releaseIf finishes cache other := fun apart other member cache => by
    unfold releaseIf
    rw [requestAt_foreseeing (apart other member)]
  unfold releaseFinished
  rw [foldlM_congr (release omits.prefills)]
  exact congrArg _ (funext fun released => foldlM_congr (release omits.decodes) released)

theorem prepareIteration_foreseeing (omits : Omits plan request.requestId) (timeValueUs : Int)
    (timeValueIsDuration : Bool) :
    (engine.foreseeing request).prepareIteration plan arrived timeValueUs timeValueIsDuration =
      engine.prepareIteration plan arrived timeValueUs timeValueIsDuration := by
  have replays := @foldlM_congr _ _ _ ((engine.foreseeing request).replayItem plan)
    (engine.replayItem plan) plan.workOrder
    (fun item member cache => replayItem_foreseeing (omits.work item member) cache) engine.kvCache
  have publishes := @foldlM_congr _ _ _ (engine.foreseeing request).publishWork
    engine.publishWork plan.prefillWork
    (fun work member cache => publishWork_foreseeing (omits.prefillWork work member) cache)
  unfold prepareIteration
  simp only [publishes, requestUpdates_foreseeing omits, releaseFinished_foreseeing omits]
  exact congrArg (· >>= _) replays

/-- Only requests of the plan are updated. -/
theorem requestUpdates_listed (engine : ContinuousBatchingEngine) (plan : BatchPlan) :
    Ensures (fun _ => True) (fun result => ∀ update ∈ result.1,
        update.1 ∈ plan.prefillRequestIds ∨ update.1 ∈ plan.decodeRequestIds)
      (engine.requestUpdates plan endTimestampUs arrived) := by
  have collects : ∀ (prepare : RequestId → Except Exn (Request × Bool)) (ids : List RequestId)
      (state : List (RequestId × Request) × Nat), Ensures (fun _ => True)
        (fun result => ∀ update ∈ result.1, update ∈ state.1 ∨ update.1 ∈ ids)
        (ids.foldlM (collectUpdate prepare) state) := fun prepare ids state => by
    refine Ensures.foldlM (fun done (result : List (RequestId × Request) × Nat) =>
      ∀ update ∈ result.1, update ∈ state.1 ∨ update.1 ∈ done)
      (fun update member => Or.inl member) fun done id rest current split holds => ?_
    unfold collectUpdate
    refine (Ensures.trivial (fun _ => trivial) _).bind fun prepared _ => ?_
    have appended : ∀ update ∈ current.1 ++ [(id, prepared.1)],
        update ∈ state.1 ∨ update.1 ∈ done ++ [id] := fun update member => by
      rcases List.mem_append.mp member with before | here
      · exact (holds update before).imp_right (List.mem_append_left _)
      · rw [List.mem_singleton.mp here]
        exact Or.inr (List.mem_append_right _ List.mem_cons_self)
    obtain ⟨updated, completes⟩ := prepared
    cases completes with
    | false => exact appended
    | true => exact (Ensures.trivial (fun _ => trivial) _).bind fun count _ => appended
  unfold requestUpdates
  split
  · exact fun update member => by cases member
  · refine (collects _ _ _).bind fun prefills first => (collects _ _ _).mono fun result then' => ?_
    intro update member
    rcases then' update member with before | decodes
    · exact Or.inl ((first update before).resolve_left (by simp))
    · exact Or.inr decodes

theorem prepareIteration_listed (engine : ContinuousBatchingEngine) (plan : BatchPlan)
    (timeValueUs : Int) (timeValueIsDuration : Bool) :
    Ensures (fun _ => True) (fun prepared => ∀ update ∈ prepared.requestUpdates,
        update.1 ∈ plan.prefillRequestIds ∨ update.1 ∈ plan.decodeRequestIds)
      (engine.prepareIteration plan arrived timeValueUs timeValueIsDuration) := by
  have any : ∀ {α : Type} (action : Except Exn α), Ensures (fun _ => True) (fun _ => True) action :=
    fun action => .trivial (fun _ => trivial) action
  unfold prepareIteration
  refine (any _).bind fun replayed _ => (any _).bind fun published _ => (any _).bind
    fun endTimestampUs _ => (any _).bind fun _ _ => (requestUpdates_listed engine plan).bind
      fun updates listed => (any _).bind fun cache _ => (any _).bind fun statistics _ =>
        (any _).bind fun number _ => ?_
  exact listed

/-- The updates of other requests leave the request where it is. -/
theorem commitIteration_foreseeing {prepared : PreparedIteration}
    (apart : ∀ update ∈ prepared.requestUpdates, update.1 ≠ request.requestId) :
    (engine.foreseeing request).commitIteration prepared =
      (engine.commitIteration prepared).foreseeing request := by
  have requests : ∀ (updates : List (RequestId × Request)) (map : OrdMap RequestId Request),
      (∀ update ∈ updates, update.1 ≠ request.requestId) →
      updates.foldl (fun requests update => requests.insert update.1 update.2)
          (map.insert request.requestId request) =
        (updates.foldl (fun requests update => requests.insert update.1 update.2) map).insert
          request.requestId request := fun updates => by
    induction updates with
    | nil => exact fun map _ => rfl
    | cons update rest ih =>
        intro map apart
        rw [List.foldl_cons, List.foldl_cons,
          OrdMap.insert_comm map (apart update List.mem_cons_self).symm]
        exact ih _ fun other member => apart other (List.mem_cons_of_mem update member)
  unfold commitIteration foreseeing
  dsimp only
  rw [requests _ _ apart]

/-! ## Iterations -/

/-- The results of the engine that knows the request. -/
def foresee (request : Request) (result : IterationOutcome × ContinuousBatchingEngine) :
    IterationOutcome × ContinuousBatchingEngine :=
  (result.1, result.2.foreseeing request)

/-- To carry out a plan that omits a request is the same with it submitted. -/
theorem commits_foreseeing (omits : Omits plan request.requestId) (outcome : IterationOutcome)
    (timeValueUs : Int) (timeValueIsDuration : Bool) :
    ((engine.foreseeing request).prepareIteration plan arrived timeValueUs timeValueIsDuration >>=
        fun prepared => .ok (outcome, (engine.foreseeing request).commitIteration prepared)) =
      (engine.prepareIteration plan arrived timeValueUs timeValueIsDuration >>=
        fun prepared => .ok (outcome, engine.commitIteration prepared)).map (foresee request) := by
  rw [prepareIteration_foreseeing omits]
  have listed := @prepareIteration_listed arrived engine plan timeValueUs timeValueIsDuration
  cases result : engine.prepareIteration plan arrived timeValueUs timeValueIsDuration with
  | error error => rfl
  | ok prepared =>
      have apart : ∀ update ∈ prepared.requestUpdates, update.1 ≠ request.requestId :=
        fun update member => (listed.of_eq_ok result update member).elim
          (omits.prefills update.1) (omits.decodes update.1)
      rw [except_ok_bind, except_ok_bind, commitIteration_foreseeing apart]
      rfl

/-- The next arrival, if the engine has to wait for one, is not after the request's. -/
def WaitsBefore (engine : ContinuousBatchingEngine) (request : Request) : Prop :=
  engine.hasRunnableWork engine.arrivalsAtCurrentTimestamp = false →
    ∃ time ≤ request.arrivalTimeUs,
      engine.nextFutureArrival engine.arrivalsAtCurrentTimestamp = some time

/-- An iteration before the arrival does not see the request. -/
theorem iterate_foreseeing (coherent : engine.Coherent) (unknown : engine.Unknown request)
    (waiting : request.state = .waiting) (later : engine.nowUs < request.arrivalTimeUs)
    (waits : engine.WaitsBefore request) :
    (engine.foreseeing request).iterate = engine.iterate.map (foresee request) := by
  have unseen : request.requestId ∉ engine.arrivalsAtCurrentTimestamp := fun member => by
    obtain ⟨found, present, -⟩ := arrivals_arrived coherent _ member
    rw [unknown] at present
    cases present
  have rests := not_runnable waiting unseen
  unfold iterate
  dsimp only
  rw [arrivals_foreseeing unknown later, hasRunnableWork_foreseeing unknown rests]
  by_cases idle : engine.hasRunnableWork engine.arrivalsAtCurrentTimestamp = false
  · obtain ⟨time, first, ahead⟩ := waits idle
    rw [if_pos idle, if_pos idle, ahead, nextFutureArrival_foreseeing unknown ahead first]
    exact commits_foreseeing (empty_omits ..) ..
  · rw [if_neg idle, if_neg idle, buildPlan_foreseeing coherent unknown rests]
    have planned := buildPlan_ensures coherent (by simpa using idle) engine.nextIterationNumber
    change (engine.buildPlan engine.nextIterationNumber _ >>= _) = _
    cases built : engine.buildPlan engine.nextIterationNumber engine.arrivalsAtCurrentTimestamp with
    | error error => rfl
    | ok plan =>
        obtain ⟨builder, trail, rfl⟩ := planned.of_eq_ok built
        have omits := (trail.safe coherent engine.nextIterationNumber).omits unknown
        rw [except_ok_bind, except_ok_bind]
        split
        · exact commits_foreseeing omits ..
        · change (engine.backend.estimateBatchTimeUs _ _ _ >>= _) = _
          cases engine.backend.estimateBatchTimeUs _ _ _ with
          | error error => rfl
          | ok durationUs => exact commits_foreseeing omits ..

/-! ## Calls -/

/-- The engine would accept the request. -/
structure Admits (engine : ContinuousBatchingEngine) (request : Request) : Prop where
  running : engine.failed = false
  pristine : request.Pristine
  arrives : engine.nowUs ≤ request.arrivalTimeUs
  fits : ¬ ((engine.config.prefixCacheConfig.enabled = false ∨ request.promptTokens? = none) ∧
    request.promptLength > engine.config.maxBatchedTokens)
  unknown : engine.Unknown request

theorem Admits.submitRequest (admits : engine.Admits request) :
    engine.submitRequest request = (.ok (), engine.foreseeing request) := by
  unfold ContinuousBatchingEngine.submitRequest
  rw [if_neg (by simp [admits.running]), if_neg (not_not.mpr admits.pristine),
    if_neg (not_lt.mpr admits.arrives), if_neg admits.fits,
    if_neg (by simp [OrdMap.contains_eq_false_iff.mpr admits.unknown])]
  rfl

/-- An engine that accepts a request admits it. -/
theorem admits_of_submitRequest (accepted : (engine.submitRequest request).1 = .ok ()) :
    engine.Admits request := by
  unfold submitRequest at accepted
  by_cases failed : engine.failed = true
  · rw [if_pos failed] at accepted
    cases accepted
  by_cases pristine : request.Pristine
  · rw [if_neg failed, if_neg (not_not.mpr pristine)] at accepted
    by_cases late : request.arrivalTimeUs < engine.nowUs
    · rw [if_pos late] at accepted
      cases accepted
    rw [if_neg late] at accepted
    by_cases long : (engine.config.prefixCacheConfig.enabled = false ∨
        request.promptTokens? = none) ∧ request.promptLength > engine.config.maxBatchedTokens
    · rw [if_pos long] at accepted
      cases accepted
    rw [if_neg long] at accepted
    by_cases known : engine.requests.contains request.requestId = true
    · rw [if_pos known] at accepted
      cases accepted
    exact ⟨by simpa using failed, pristine, not_lt.mp late, long,
      OrdMap.contains_eq_false_iff.mp (by simpa using known)⟩
  · rw [if_neg failed, if_pos pristine] at accepted
    cases accepted

/-- Another submission is answered alike. -/
theorem submitRequest_foreseeing (apart : other.requestId ≠ request.requestId) :
    (engine.foreseeing request).submitRequest other =
      ((engine.submitRequest other).1, (engine.submitRequest other).2.foreseeing request) := by
  have known : (engine.requests.insert request.requestId request).contains other.requestId =
      engine.requests.contains other.requestId := by
    unfold OrdMap.contains
    rw [OrdMap.find?_insert, if_neg apart]
  unfold submitRequest foreseeing
  dsimp only
  rw [known]
  split
  · rfl
  split
  · rfl
  split
  · rfl
  split
  · rfl
  split
  · rfl
  · rw [OrdMap.insert_comm engine.requests apart.symm]

/-- The cancellation of another request is prepared alike. -/
theorem prepareCancel_foreseeing (apart : id ≠ request.requestId) :
    (engine.foreseeing request).prepareCancel id other =
      (engine.prepareCancel id other).map (·.foreseeing request) := by
  unfold prepareCancel
  change (inc engine.statistics.cancelledRequestCount _ >>= _) = _
  cases inc engine.statistics.cancelledRequestCount "cancelled request count overflow" with
  | error error => rfl
  | ok cancelledRequestCount =>
      rw [except_ok_bind, except_ok_bind]
      cases other.transitionTo .cancelled with
      | error error => rfl
      | ok cancelled =>
          rw [except_ok_bind, except_ok_bind]
          have commutes := OrdMap.insert_comm engine.requests apart.symm request
            { cancelled with finishTimeUs := some engine.nowUs }
          unfold foreseeing
          dsimp only
          split
          · cases engine.kvCache.releaseRequest id with
            | error error => rfl
            | ok cache =>
                rw [except_ok_bind, except_ok_bind, commutes]
                rfl
          · rw [except_ok_bind, except_ok_bind, commutes]
            rfl

/-- The cancellation of another request is answered alike. -/
theorem cancelRequest_foreseeing (apart : id ≠ request.requestId) :
    (engine.foreseeing request).cancelRequest id =
      ((engine.cancelRequest id).1, (engine.cancelRequest id).2.foreseeing request) := by
  have found : (engine.foreseeing request).requests.find? id = engine.requests.find? id := by
    change (engine.requests.insert request.requestId request).find? id = _
    rw [OrdMap.find?_insert, if_neg apart]
  unfold cancelRequest
  rw [found]
  change (if engine.failed = true then _ else _) = _
  split
  · rfl
  cases engine.requests.find? id with
  | none => rfl
  | some known =>
      dsimp only
      split
      · rfl
      split
      · rfl
      rw [prepareCancel_foreseeing apart]
      cases engine.prepareCancel id known with
      | error error => rfl
      | ok next => rfl

/-- A call that does not meet the request: a client call about another one, or an iteration that
begins before the request arrives, finds something else to do and ends by then. -/
def Precedes (request : Request) (engine : ContinuousBatchingEngine) : EngineCall → Prop
  | .submitRequest other => other.requestId ≠ request.requestId
  | .cancelRequest id => id ≠ request.requestId
  | .runNextIteration => engine.nowUs < request.arrivalTimeUs ∧
      engine.runNextIteration.2.nowUs ≤ request.arrivalTimeUs ∧
      ∃ outcome, engine.runNextIteration.1 = .ok outcome ∧ outcome ≠ .complete
  | .run => False

/-- An iteration that ends by the arrival is answered alike, and leaves the request admissible. -/
theorem runNextIteration_foreseeing (coherent : engine.Coherent) (admits : engine.Admits request)
    (precedes : Precedes request engine .runNextIteration) :
    (engine.foreseeing request).runNextIteration =
        (engine.runNextIteration.1, engine.runNextIteration.2.foreseeing request) ∧
      engine.runNextIteration.2.Admits request := by
  obtain ⟨later, ends, outcome, returned, works⟩ := precedes
  have ran : engine.runNextIteration = (.ok outcome, engine.runNextIteration.2) :=
    Prod.ext returned rfl
  obtain ⟨-, iterated⟩ := runNextIteration_eq_ok ran
  have step : engine.Iterated outcome engine.runNextIteration.2 :=
    (iterate_ensures coherent).of_eq_ok iterated
  have waits : engine.WaitsBefore request := fun idle => by
    revert step ends
    generalize engine.runNextIteration.2 = after
    intro ends step
    cases step with
    | complete => exact absurd rfl works
    | idle _ ahead committed =>
        rw [committed.nowUs_eq] at ends
        exact ⟨_, ends, ahead⟩
    | stalled runs | progressed runs =>
        rw [idle] at runs
        cases runs
  have foreseen := iterate_foreseeing coherent admits.unknown admits.pristine.1 later waits
  constructor
  · unfold runNextIteration
    change (if engine.failed = true then _ else _) = _
    rw [if_neg (by simp [admits.running]), if_neg (by simp [admits.running]), foreseen, iterated]
    rfl
  · obtain ⟨sameConfig, -, sameFailed⟩ := step.setup
    refine ⟨sameFailed.trans admits.running, admits.pristine, ends, ?_, ?_⟩
    · rw [sameConfig]
      exact admits.fits
    · rcases step.committed coherent with same | ⟨consumed, builder, endTimestampUs, -, -, committed⟩
      · rw [same]
        exact admits.unknown
      · unfold Unknown
        rw [committed.requests, admits.unknown]
        rfl

/-- The engine that knows the request answers the call in the same way. -/
theorem Precedes.step {call : EngineCall} (coherent : engine.Coherent)
    (admits : engine.Admits request) (precedes : Precedes request engine call) :
    (engine.foreseeing request).apply call =
        ((engine.apply call).1, (engine.apply call).2.foreseeing request) ∧
      (engine.apply call).2.Admits request := by
  cases call with
  | submitRequest other =>
      refine ⟨?_, ?_⟩
      · unfold apply
        dsimp only
        rw [submitRequest_foreseeing precedes]
      · change (engine.submitRequest other).2.Admits request
        rcases submitRequest_cases engine other with same | ⟨-, -, -, -, -, result⟩
        · rw [same]
          exact admits
        · rw [result]
          refine ⟨admits.running, admits.pristine, admits.arrives, admits.fits, ?_⟩
          exact (OrdMap.find?_insert ..).trans ((if_neg fun same => precedes same.symm).trans
            admits.unknown)
  | cancelRequest id =>
      refine ⟨?_, ?_⟩
      · unfold apply
        dsimp only
        rw [cancelRequest_foreseeing precedes]
      · change (engine.cancelRequest id).2.Admits request
        rcases cancelRequest_cases coherent id with same | ⟨-, found, cache, -, -, -, result⟩
        · rw [same]
          exact admits
        · rw [result]
          refine ⟨admits.running, admits.pristine, admits.arrives, admits.fits, ?_⟩
          exact (OrdMap.find?_insert ..).trans ((if_neg fun same => precedes same.symm).trans
            admits.unknown)
  | runNextIteration =>
      obtain ⟨same, after⟩ := runNextIteration_foreseeing coherent admits precedes
      refine ⟨?_, after⟩
      unfold apply
      dsimp only
      rw [same]
  | run => exact precedes.elim

/-! ## Runs -/

/-- Calls that precede a request are answered alike with it submitted. -/
theorem Precedes.run {calls : List EngineCall} (coherent : engine.Coherent)
    (admits : engine.Admits request) (precedes : machine.Along (Precedes request) engine calls) :
    machine.run (engine.foreseeing request) calls = (machine.run engine calls).foreseeing request ∧
      machine.outputs (engine.foreseeing request) calls = machine.outputs engine calls ∧
      (machine.run engine calls).Coherent ∧ (machine.run engine calls).Admits request := by
  induction calls generalizing engine with
  | nil => exact ⟨rfl, rfl, coherent, admits⟩
  | cons call rest ih =>
      obtain ⟨here, along⟩ := precedes
      obtain ⟨same, after⟩ := here.step coherent admits
      have next : machine.next (engine.foreseeing request) call =
        (machine.next engine call).foreseeing request := by
        change ((engine.foreseeing request).apply call).2 = (engine.apply call).2.foreseeing request
        rw [same]
      have output : machine.output (engine.foreseeing request) call =
        machine.output engine call := by
        change ((engine.foreseeing request).apply call).1 = (engine.apply call).1
        rw [same]
      obtain ⟨states, outputs, holds⟩ := ih ((apply_moves coherent call).coherent coherent) after along
      refine ⟨?_, ?_, holds⟩
      · rw [Machine.run_cons, Machine.run_cons, next, states]
      · rw [Machine.outputs, Machine.outputs, next, output, outputs]

/-- A request may be submitted early.  If a reachable engine accepts a request and makes any calls
about other requests, and iterations that begin before the request arrives, end by its arrival and
find something to do, then it answers as if the request had not been submitted, and submitting it
only then is accepted and ends in the same state. -/
theorem reach_submitAhead (backend : SimulatedBackend) (config : ContinuousBatchingConfig)
    (before calls : List EngineCall) (request : Request)
    (accepted : ((reach backend config before).submitRequest request).1 = .ok ())
    (precedes : machine.Along (Precedes request) (reach backend config before) calls) :
    let engine := reach backend config before
    machine.run engine (.submitRequest request :: calls) =
        machine.run engine (calls ++ [.submitRequest request]) ∧
      machine.outputs engine (.submitRequest request :: calls) =
        .ok .done :: machine.outputs engine calls ∧
      machine.outputs engine (calls ++ [.submitRequest request]) =
        machine.outputs engine calls ++ [.ok .done] := by
  have coherent := reach_coherent backend config before
  have admits := admits_of_submitRequest accepted
  generalize reach backend config before = engine at *
  obtain ⟨states, outputs, -, after⟩ := Precedes.run coherent admits precedes
  have early : machine.step engine (.submitRequest request) =
      (.ok .done, engine.foreseeing request) := by
    change (((engine.submitRequest request).1.map fun _ => EngineAnswer.done),
      (engine.submitRequest request).2) = _
    rw [admits.submitRequest]
    rfl
  have late : machine.step (machine.run engine calls) (.submitRequest request) =
      (.ok .done, (machine.run engine calls).foreseeing request) := by
    change ((((machine.run engine calls).submitRequest request).1.map fun _ => EngineAnswer.done),
      ((machine.run engine calls).submitRequest request).2) = _
    rw [after.submitRequest]
    rfl
  refine ⟨?_, ?_, ?_⟩
  · rw [Machine.run_cons, Machine.run_concat, Machine.next, Machine.next, early, late, states]
  · rw [Machine.outputs, Machine.output, Machine.next, early, outputs]
  · rw [Machine.outputs_append, Machine.outputs, Machine.outputs, Machine.output, late]

/-- The second request arrives while the first one is prefilled. -/
theorem reach_submitAhead_tiny :
    let late := { tinyRequest 2 [7, 8] 1 with arrivalTimeUs := 10 }
    machine.run (reach tinyBackend tinyConfig [.submitRequest (tinyRequest 1 [7] 2)])
        [.submitRequest late, .runNextIteration] =
      machine.run (reach tinyBackend tinyConfig [.submitRequest (tinyRequest 1 [7] 2)])
        ([.runNextIteration] ++ [.submitRequest late]) :=
  (reach_submitAhead tinyBackend tinyConfig [.submitRequest (tinyRequest 1 [7] 2)]
    [.runNextIteration] { tinyRequest 2 [7, 8] 1 with arrivalTimeUs := 10 } (by decide +kernel)
    ⟨⟨by decide +kernel, by decide +kernel, .progressed, by decide +kernel, by decide⟩,
      trivial⟩).1

theorem Loops.unique {count count' : Nat}
    {last last' : Except Exn IterationOutcome × ContinuousBatchingEngine}
    (loops : Loops engine count last) (loops' : Loops engine count' last') : last = last' := by
  induction loops generalizing count' last' with
  | last stops =>
      cases loops' with
      | last => rfl
      | more progressed => exact absurd (congrArg Prod.fst progressed) stops
  | more progressed _ ih =>
      cases loops' with
      | last stops => exact absurd (congrArg Prod.fst progressed) stops
      | more progressed' rest =>
          obtain rfl := congrArg Prod.snd (progressed.symm.trans progressed')
          exact ih rest

/-- An iteration that makes progress may be taken out of `run`. -/
theorem run_eq_of_progressed (coherent : engine.Coherent)
    (progressed : engine.runNextIteration = (.ok .progressed, next)) : next.run = engine.run := by
  obtain ⟨-, iterated⟩ := runNextIteration_eq_ok progressed
  have after := ((iterate_ensures coherent).of_eq_ok iterated).coherent coherent
  obtain ⟨_, -, loops⟩ := runIterations_loops coherent coherent.outstanding_le_work
  obtain ⟨_, -, loops'⟩ := runIterations_loops after after.outstanding_le_work
  exact congrArg finishRun ((Loops.more progressed loops').unique loops)

/-- Iterations that make progress. -/
def Progresses (engine : ContinuousBatchingEngine) (count : Nat) : Prop :=
  ∀ answer ∈ machine.outputs engine (List.replicate count .runNextIteration),
    answer = .ok (.iteration .progressed)

/-- `run` after some iterations that progress ends where `run` at once ends. -/
theorem Progresses.run_eq {count : Nat} (coherent : engine.Coherent)
    (progresses : engine.Progresses count) :
    (machine.run engine (List.replicate count .runNextIteration)).run = engine.run := by
  induction count generalizing engine with
  | zero => rfl
  | succ count ih =>
      have first : engine.runNextIteration.1.map EngineAnswer.iteration =
          .ok (.iteration .progressed) := progresses _ List.mem_cons_self
      have progressed : engine.runNextIteration = (.ok .progressed, engine.runNextIteration.2) := by
        refine Prod.ext ?_ rfl
        cases outcome : engine.runNextIteration.1 with
        | error error =>
            rw [outcome] at first
            cases first
        | ok answer =>
            rw [outcome] at first
            cases first
            rfl
      have after := (apply_moves coherent .runNextIteration).coherent coherent
      rw [List.replicate_succ, Machine.run_cons]
      exact (ih after fun answer member => progresses answer (List.mem_cons_of_mem _ member)).trans
        (run_eq_of_progressed coherent progressed)

/-- `run` needs no foresight.  With a request submitted ahead of time it returns what it returns
when the iterations before the arrival are made first and the request is submitted after them. -/
theorem reach_run_submitAhead (backend : SimulatedBackend) (config : ContinuousBatchingConfig)
    (before : List EngineCall) (count : Nat) (request : Request)
    (accepted : ((reach backend config before).submitRequest request).1 = .ok ())
    (precedes : machine.Along (Precedes request) (reach backend config before)
      (List.replicate count .runNextIteration))
    (progresses : (reach backend config before).Progresses count) :
    (machine.run (reach backend config before) [.submitRequest request]).run =
      (machine.run (reach backend config before)
        (List.replicate count .runNextIteration ++ [.submitRequest request])).run := by
  have coherent := reach_coherent backend config before
  have admits := admits_of_submitRequest accepted
  generalize reach backend config before = engine at *
  obtain ⟨states, outputs, -, after⟩ := Precedes.run coherent admits precedes
  have early : machine.run engine [.submitRequest request] = engine.foreseeing request := by
    change (engine.submitRequest request).2 = _
    rw [admits.submitRequest]
  have late : machine.run engine (List.replicate count .runNextIteration ++
      [.submitRequest request]) = (machine.run engine
        (List.replicate count .runNextIteration)).foreseeing request := by
    rw [Machine.run_concat]
    change ((machine.run engine _).submitRequest request).2 = _
    rw [after.submitRequest]
  have foreseen : (engine.foreseeing request).Progresses count := by
    unfold Progresses
    rw [outputs]
    exact progresses
  have settled : (engine.foreseeing request).Coherent :=
    submitted_coherent coherent admits.pristine admits.unknown
  rw [early, late, ← states]
  exact (foreseen.run_eq settled).symm

/-- The second request arrives while the first one is prefilled. -/
theorem reach_run_submitAhead_tiny :
    let late := { tinyRequest 2 [7, 8] 1 with arrivalTimeUs := 10 }
    let engine := reach tinyBackend tinyConfig [.submitRequest (tinyRequest 1 [7] 2)]
    (machine.run engine [.submitRequest late]).run =
      (machine.run engine ([.runNextIteration] ++ [.submitRequest late])).run :=
  reach_run_submitAhead tinyBackend tinyConfig [.submitRequest (tinyRequest 1 [7] 2)] 1
    { tinyRequest 2 [7, 8] 1 with arrivalTimeUs := 10 } (by decide +kernel)
    ⟨⟨by decide +kernel, by decide +kernel, .progressed, by decide +kernel, by decide⟩, trivial⟩
    (by unfold Progresses; decide +kernel)

end ContinuousBatchingEngine

end LlmLab.Serving
