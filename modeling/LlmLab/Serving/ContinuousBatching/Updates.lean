import LlmLab.Serving.ContinuousBatching.Building

/-!
# The request records after an iteration

`prepare_request_updates` on a plan whose work is runnable: every scheduled request is advanced by
its own step, every other record stays.
-/

namespace LlmLab.Serving

/-! ## The step of one request -/

namespace Request

/-- A waiting request after its prefill. -/
def admitted (request : Request) (nowUs endTimestampUs : Int) : Request :=
  if request.maxNewTokens = 0 then
    { request with
      state := .finished, admittedTimeUs := some nowUs, firstScheduledTimeUs := some nowUs
      finishTimeUs := some endTimestampUs }
  else
    { request with
      state := .decoding, admittedTimeUs := some nowUs, firstScheduledTimeUs := some nowUs }

/-- A decoding request after one more token. -/
def decoded (request : Request) (endTimestampUs : Int) : Request :=
  if request.generatedTokenCount + 1 = request.maxNewTokens then
    { request with
      generatedTokenCount := request.generatedTokenCount + 1
      firstTokenTimeUs := request.firstTokenTimeUs.or (some endTimestampUs)
      state := .finished, finishTimeUs := some endTimestampUs }
  else
    { request with
      generatedTokenCount := request.generatedTokenCount + 1
      firstTokenTimeUs := request.firstTokenTimeUs.or (some endTimestampUs) }

variable (request : Request) (nowUs endTimestampUs : Int)

@[simp] theorem admitted_requestId : (request.admitted nowUs endTimestampUs).requestId =
    request.requestId := by
  unfold admitted
  split <;> rfl

@[simp] theorem decoded_requestId : (request.decoded endTimestampUs).requestId =
    request.requestId := by
  unfold decoded
  split <;> rfl

@[simp] theorem admitted_prompt : (request.admitted nowUs endTimestampUs).prompt =
    request.prompt := by
  unfold admitted
  split <;> rfl

@[simp] theorem decoded_prompt : (request.decoded endTimestampUs).prompt = request.prompt := by
  unfold decoded
  split <;> rfl

@[simp] theorem admitted_arrivalTimeUs : (request.admitted nowUs endTimestampUs).arrivalTimeUs =
    request.arrivalTimeUs := by
  unfold admitted
  split <;> rfl

@[simp] theorem decoded_arrivalTimeUs : (request.decoded endTimestampUs).arrivalTimeUs =
    request.arrivalTimeUs := by
  unfold decoded
  split <;> rfl

@[simp] theorem admitted_maxNewTokens : (request.admitted nowUs endTimestampUs).maxNewTokens =
    request.maxNewTokens := by
  unfold admitted
  split <;> rfl

@[simp] theorem decoded_maxNewTokens : (request.decoded endTimestampUs).maxNewTokens =
    request.maxNewTokens := by
  unfold decoded
  split <;> rfl

@[simp] theorem admitted_generatedTokenCount :
    (request.admitted nowUs endTimestampUs).generatedTokenCount =
      request.generatedTokenCount := by
  unfold admitted
  split <;> rfl

@[simp] theorem decoded_generatedTokenCount : (request.decoded endTimestampUs).generatedTokenCount =
    request.generatedTokenCount + 1 := by
  unfold decoded
  split <;> rfl

theorem admitted_state : (request.admitted nowUs endTimestampUs).state =
    if request.maxNewTokens = 0 then .finished else .decoding := by
  unfold admitted
  split <;> rfl

theorem decoded_state : (request.decoded endTimestampUs).state =
    if request.generatedTokenCount + 1 = request.maxNewTokens then .finished
    else request.state := by
  unfold decoded
  split <;> rfl

theorem promptLength_congr {other : Request} (same : other.prompt = request.prompt) :
    other.promptLength = request.promptLength := by
  rw [promptLength, promptLength, same]

end Request

namespace ContinuousBatchingEngine

variable {engine : ContinuousBatchingEngine} {arrived : OrdSet RequestId} {id : RequestId}
  {request : Request} {plan : BatchPlan} {endTimestampUs : Int}

/-- The prefill of a waiting request that has arrived admits it. -/
theorem preparePrefillUpdate_eq (found : engine.requests.find? id = some request)
    (waiting : request.state = .waiting) (known : id ∈ arrived) :
    engine.preparePrefillUpdate endTimestampUs arrived id =
      .ok (request.admitted engine.nowUs endTimestampUs, decide (request.maxNewTokens = 0)) := by
  unfold preparePrefillUpdate Request.admitted
  rw [requestAt_eq_ok.mpr found, except_ok_bind, throwIf_of_not (by simp [waiting, known]),
    except_ok_bind, Request.transitionTo_eq_ok (by simp [waiting, isLegalTransition])
      (by simp [waiting]), except_ok_bind]
  by_cases zero : request.maxNewTokens = 0
  · simp only
    rw [if_pos zero, Request.transitionTo_eq_ok (by simp [isLegalTransition]) (by simp [zero]),
      except_ok_bind, if_pos zero, decide_eq_true zero]
    rfl
  · simp only
    rw [if_neg zero, Request.transitionTo_eq_ok (by simp [isLegalTransition]) (by simp),
      except_ok_bind, if_neg zero, decide_eq_false zero]
    rfl

/-- The decode step of a request with tokens left adds one. -/
theorem prepareDecodeUpdate_eq (found : engine.requests.find? id = some request)
    (decoding : request.state = .decoding)
    (room : request.generatedTokenCount < request.maxNewTokens) :
    engine.prepareDecodeUpdate endTimestampUs id =
      .ok (request.decoded endTimestampUs,
        decide (request.generatedTokenCount + 1 = request.maxNewTokens)) := by
  unfold prepareDecodeUpdate Request.decoded
  rw [requestAt_eq_ok.mpr found, except_ok_bind,
    throwIf_of_not (by simp [decoding, not_le.mpr room]), except_ok_bind]
  by_cases last : request.generatedTokenCount + 1 = request.maxNewTokens
  · simp only
    rw [if_pos last, Request.transitionTo_eq_ok (by simp [decoding, isLegalTransition])
      (by simp [decoding]), except_ok_bind, if_pos last, decide_eq_true last]
    rfl
  · simp only
    rw [if_neg last, if_neg last, decide_eq_false last]
    rfl

/-! ## All requests -/

/-- What an iteration makes of the record of a request. -/
def advance (plan : BatchPlan) (nowUs endTimestampUs : Int) (id : RequestId) (request : Request) :
    Request :=
  if id ∈ plan.prefillRequestIds then request.admitted nowUs endTimestampUs
  else if id ∈ plan.decodeRequestIds then request.decoded endTimestampUs
  else request

/-- The requests that an iteration finishes, as `prepare_iteration` releases them. -/
def finishing (engine : ContinuousBatchingEngine) (plan : BatchPlan) : List RequestId :=
  (plan.prefillRequestIds.filter fun id =>
      (engine.requests.find? id).any fun request => request.maxNewTokens = 0) ++
    plan.decodeRequestIds.filter fun id => (engine.requests.find? id).any fun request =>
      request.generatedTokenCount + 1 = request.maxNewTokens

/-- What the request records say about a plan that may be carried out. -/
structure Runs (engine : ContinuousBatchingEngine) (arrived : OrdSet RequestId) (plan : BatchPlan) :
    Prop where
  nodup : (plan.prefillRequestIds ++ plan.decodeRequestIds ++
    plan.deferredRequests.map (·.requestId)).Nodup
  prefill : ∀ id ∈ plan.prefillRequestIds, ∃ request, engine.requests.find? id = some request ∧
    request.state = .waiting ∧ id ∈ arrived
  decode : ∀ id ∈ plan.decodeRequestIds, ∃ request, engine.requests.find? id = some request ∧
    request.state = .decoding ∧ request.generatedTokenCount < request.maxNewTokens

/-- The loop of `prepare_request_updates` over requests that all have a step. -/
theorem foldlM_collectUpdate (after : RequestId → Option Request) (completes : RequestId → Bool)
    {prepare : RequestId → Except Exn (Request × Bool)} {ids : List RequestId}
    {updates : List (RequestId × Request)} {count : Nat}
    (steps : ∀ id ∈ ids, ∃ request, after id = some request ∧
      prepare id = .ok (request, completes id))
    (before : ∀ update ∈ updates, after update.1 = some update.2) :
    Ensures Exn.IsOverflow (fun result =>
        result.1.map Prod.fst = updates.map Prod.fst ++ ids ∧
        (∀ update ∈ result.1, after update.1 = some update.2) ∧
        result.2 = count + (ids.filter completes).length)
      (ids.foldlM (collectUpdate prepare) (updates, count)) := by
  refine Ensures.foldlM (fun consumed (result : List (RequestId × Request) × Nat) =>
    result.1.map Prod.fst = updates.map Prod.fst ++ consumed ∧
      (∀ update ∈ result.1, after update.1 = some update.2) ∧
      result.2 = count + (consumed.filter completes).length) ?_
    fun consumed id rest result split holds => ?_
  · exact ⟨by simp, before, by simp⟩
  obtain ⟨listed, values, counted⟩ := holds
  obtain ⟨request, value, step⟩ := steps id (by simp [split])
  unfold collectUpdate
  rw [step, except_ok_bind]
  have known : ∀ update ∈ result.1 ++ [(id, request)], after update.1 = some update.2 :=
    fun update member => by
      rcases List.mem_append.mp member with old | new
      · exact values update old
      · rw [List.mem_singleton.mp new]
        exact value
  by_cases last : completes id = true
  · simp only
    rw [if_pos last]
    refine (inc_ensures _ _).bind fun total incremented => ⟨?_, known, ?_⟩
    · rw [List.map_append, listed, List.append_assoc]
      rfl
    · change total = _
      rw [incremented, counted, List.filter_append, List.length_append, List.filter_cons_of_pos last]
      rfl
  · simp only
    rw [if_neg last, except_ok_bind]
    refine ⟨?_, known, ?_⟩
    · rw [List.map_append, listed, List.append_assoc]
      rfl
    · change result.2 = _
      rw [counted, List.filter_append, List.length_append, List.filter_cons_of_neg last]
      rfl

/-- A fold of insertions is read off the last value under each key. -/
theorem find?_foldl_insert {after : RequestId → Option Request}
    (updates : List (RequestId × Request)) (requests : OrdMap RequestId Request)
    (values : ∀ update ∈ updates, after update.1 = some update.2) (id : RequestId) :
    (updates.foldl (fun requests update => requests.insert update.1 update.2) requests).find? id =
      if id ∈ updates.map Prod.fst then after id else requests.find? id := by
  induction updates generalizing requests with
  | nil => simp
  | cons update rest ih =>
      rw [List.foldl_cons, ih _ fun update member => values update (List.mem_cons_of_mem _ member),
        OrdMap.find?_insert, List.map_cons]
      by_cases later : id ∈ rest.map Prod.fst
      · rw [if_pos later, if_pos (List.mem_cons_of_mem _ later)]
      · rw [if_neg later]
        by_cases here : id = update.1
        · rw [if_pos here, if_pos (List.mem_cons.mpr (Or.inl here)), here,
            values update List.mem_cons_self]
        · rw [if_neg here, if_neg (by simpa [here] using later)]

/-- The updates of a plan whose work is runnable, and the records they lead to. -/
theorem prepareRequestUpdates_ensures (runs : engine.Runs arrived plan) :
    Ensures Exn.IsOverflow (fun result =>
        (∀ id, (result.1.foldl (fun requests update => requests.insert update.1 update.2)
            engine.requests).find? id =
          (engine.requests.find? id).map (advance plan engine.nowUs endTimestampUs id)) ∧
        result.2 = (engine.finishing plan).length)
      (engine.prepareRequestUpdates plan endTimestampUs arrived) := by
  set after : RequestId → Option Request := fun id =>
    (engine.requests.find? id).map (advance plan engine.nowUs endTimestampUs id) with afterDef
  have apart : ∀ id ∈ plan.decodeRequestIds, id ∉ plan.prefillRequestIds := fun id decode prefill =>
    (List.nodup_append.mp (List.nodup_append.mp runs.nodup).1).2.2 id prefill id decode rfl
  unfold prepareRequestUpdates
  refine ((foldlM_collectUpdate after (fun id =>
    (engine.requests.find? id).any fun request => request.maxNewTokens = 0)
    (fun id member => ?_) (by simp))).bind fun prefills spec => ?_
  · obtain ⟨request, found, waiting, known⟩ := runs.prefill id member
    refine ⟨request.admitted engine.nowUs endTimestampUs, ?_, ?_⟩
    · rw [afterDef]
      simp only [found, Option.map_some, advance, if_pos member]
    · rw [preparePrefillUpdate_eq found waiting known, found]
      rfl
  obtain ⟨listed, values, counted⟩ := spec
  refine (foldlM_collectUpdate after (fun id =>
    (engine.requests.find? id).any fun request =>
      request.generatedTokenCount + 1 = request.maxNewTokens)
    (fun id member => ?_) values).mono fun result spec' => ?_
  · obtain ⟨request, found, decoding, room⟩ := runs.decode id member
    refine ⟨request.decoded endTimestampUs, ?_, ?_⟩
    · rw [afterDef]
      simp only [found, Option.map_some, advance, if_neg (apart id member), if_pos member]
    · rw [prepareDecodeUpdate_eq found decoding room, found]
      rfl
  obtain ⟨listed', values', counted'⟩ := spec'
  refine ⟨fun id => ?_, ?_⟩
  · rw [find?_foldl_insert _ _ values' id, listed', listed, List.map_nil, List.nil_append]
    split
    · rfl
    · next unscheduled =>
        rw [List.mem_append, not_or] at unscheduled
        cases engine.requests.find? id with
        | none => rfl
        | some request =>
            simp [advance, unscheduled.1, unscheduled.2]
  · rw [counted', counted, finishing, List.length_append, Nat.zero_add]

end ContinuousBatchingEngine

end LlmLab.Serving
