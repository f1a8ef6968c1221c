import LlmLab.Serving.ContinuousBatching.Calls

/-!
# The timeline of a request

The times in a request record are those of the trace entries that mention it: its prefill, its
first and its last decode.  Nothing mentions a request that is over.
-/

namespace LlmLab.Serving

open KVCacheManager

/-- The requests that a plan mentions, deferrals included. -/
def BatchPlan.mentioned (plan : BatchPlan) : List RequestId :=
  plan.prefillRequestIds ++ plan.decodeRequestIds ++ plan.deferredRequests.map (·.requestId)

/-- The entries that prefill a request. -/
def prefillEntries (trace : List BatchTraceEntry) (id : RequestId) : List BatchTraceEntry :=
  trace.filter fun entry => id ∈ entry.plan.prefillRequestIds

/-- The entries that decode a request. -/
def decodeEntries (trace : List BatchTraceEntry) (id : RequestId) : List BatchTraceEntry :=
  trace.filter fun entry => id ∈ entry.plan.decodeRequestIds

/-- The time at which a trace ends. -/
def boundary (trace : List BatchTraceEntry) : Int :=
  (trace.getLast?.map (·.endTimestampUs)).getD 0

/-- What the trace says about one request. -/
structure Told (trace : List BatchTraceEntry) (id : RequestId) (request : Request) : Prop where
  admitted : (prefillEntries trace id = [] ∧ request.admittedTimeUs = none) ∨
    ∃ entry, prefillEntries trace id = [entry] ∧
      request.admittedTimeUs = some entry.startTimestampUs ∧
      request.arrivalTimeUs ≤ entry.startTimestampUs
  decodes : (decodeEntries trace id).length = request.generatedTokenCount
  generated : request.generatedTokenCount ≤ request.maxNewTokens
  prefilled : ∀ before entry after, trace = before ++ entry :: after →
    id ∈ entry.plan.decodeRequestIds → ∃ other ∈ before, id ∈ other.plan.prefillRequestIds
  firstToken : request.firstTokenTimeUs =
    (decodeEntries trace id).head?.map (·.endTimestampUs)
  started : request.state = .decoding → prefillEntries trace id ≠ []
  finished : request.state = .finished → request.generatedTokenCount = request.maxNewTokens ∧
    ∃ before entry after, trace = before ++ entry :: after ∧
      request.finishTimeUs = some entry.endTimestampUs ∧
      id ∈ (if request.maxNewTokens = 0 then entry.plan.prefillRequestIds
        else entry.plan.decodeRequestIds) ∧
      ∀ later ∈ after, id ∉ later.plan.mentioned
  unfinished : request.state ≠ .finished → request.state ≠ .cancelled →
    request.finishTimeUs = none

/-! ## One more entry -/

section Concat

variable {trace : List BatchTraceEntry} {entry : BatchTraceEntry} {id : RequestId}
  {request : Request}

theorem boundary_concat : boundary (trace ++ [entry]) = entry.endTimestampUs := by
  rw [boundary, List.getLast?_append]
  rfl

theorem prefillEntries_concat : prefillEntries (trace ++ [entry]) id =
    prefillEntries trace id ++ if id ∈ entry.plan.prefillRequestIds then [entry] else [] := by
  rw [prefillEntries, List.filter_append]
  by_cases member : id ∈ entry.plan.prefillRequestIds
  · rw [if_pos member, List.filter_cons_of_pos (by simpa using member), List.filter_nil]
    rfl
  · rw [if_neg member, List.filter_cons_of_neg (by simpa using member), List.filter_nil]
    rfl

theorem decodeEntries_concat : decodeEntries (trace ++ [entry]) id =
    decodeEntries trace id ++ if id ∈ entry.plan.decodeRequestIds then [entry] else [] := by
  rw [decodeEntries, List.filter_append]
  by_cases member : id ∈ entry.plan.decodeRequestIds
  · rw [if_pos member, List.filter_cons_of_pos (by simpa using member), List.filter_nil]
    rfl
  · rw [if_neg member, List.filter_cons_of_neg (by simpa using member), List.filter_nil]
    rfl

/-- An entry that neither prefills nor decodes a request, and does not mention it once it has
finished, adds nothing to what the trace says about it. -/
theorem Told.skip (told : Told trace id request)
    (noPrefill : id ∉ entry.plan.prefillRequestIds) (noDecode : id ∉ entry.plan.decodeRequestIds)
    (silent : request.state = .finished → id ∉ entry.plan.mentioned) :
    Told (trace ++ [entry]) id request := by
  have prefills : prefillEntries (trace ++ [entry]) id = prefillEntries trace id := by
    rw [prefillEntries_concat, if_neg noPrefill, List.append_nil]
  have decodes : decodeEntries (trace ++ [entry]) id = decodeEntries trace id := by
    rw [decodeEntries_concat, if_neg noDecode, List.append_nil]
  refine ⟨prefills ▸ told.admitted, decodes ▸ told.decodes, told.generated,
    fun before other after split member => ?_, decodes ▸ told.firstToken,
    prefills ▸ told.started, fun finished => ?_, told.unfinished⟩
  · rcases concat_eq_append_cons_iff.mp split with ⟨rfl, rfl, rfl⟩ | ⟨front, rfl, old⟩
    · exact absurd member noDecode
    · exact told.prefilled before other front old member
  · obtain ⟨all, before, other, after, split, time, listed, later⟩ := told.finished finished
    refine ⟨all, before, other, after ++ [entry], by rw [split]; simp, time, listed,
      fun last member => ?_⟩
    rcases List.mem_append.mp member with old | new
    · exact later last old
    · rw [List.mem_singleton.mp new]
      exact silent finished

/-- A prefill at the end of the trace. -/
theorem Told.admit (told : Told trace id request) (pristine : request.Pristine)
    (prefill : id ∈ entry.plan.prefillRequestIds) (noDecode : id ∉ entry.plan.decodeRequestIds)
    (arrives : request.arrivalTimeUs ≤ entry.startTimestampUs) :
    Told (trace ++ [entry]) id
      (request.admitted entry.startTimestampUs entry.endTimestampUs) := by
  obtain ⟨waiting, unused, unadmitted, -, noToken, unfinished⟩ := pristine
  have prefills : prefillEntries (trace ++ [entry]) id = [entry] := by
    rw [prefillEntries_concat, if_pos prefill]
    rcases told.admitted with ⟨none, -⟩ | ⟨other, -, some', -⟩
    · rw [none, List.nil_append]
    · rw [unadmitted] at some'
      cases some'
  have decodes : decodeEntries (trace ++ [entry]) id = decodeEntries trace id := by
    rw [decodeEntries_concat, if_neg noDecode, List.append_nil]
  refine ⟨Or.inr ⟨entry, prefills, ?_, ?_⟩, ?_, ?_, fun before other after split member => ?_,
    ?_, fun _ => ?_, fun finished => ?_, fun open' _ => ?_⟩
  · unfold Request.admitted
    split <;> rfl
  · rw [Request.admitted_arrivalTimeUs]
    exact arrives
  · rw [decodes, Request.admitted_generatedTokenCount]
    exact told.decodes
  · rw [Request.admitted_generatedTokenCount, Request.admitted_maxNewTokens]
    exact told.generated
  · rcases concat_eq_append_cons_iff.mp split with ⟨rfl, rfl, rfl⟩ | ⟨front, rfl, old⟩
    · exact absurd member noDecode
    · exact told.prefilled before other front old member
  · rw [decodes, ← told.firstToken]
    unfold Request.admitted
    split <;> rfl
  · rw [prefills]
    exact List.cons_ne_nil _ _
  · rw [Request.admitted_state] at finished
    split at finished
    · next zero =>
        refine ⟨by simp [unused, zero], trace, entry, [], rfl, ?_, ?_, nofun⟩
        · rw [Request.admitted, if_pos zero]
        · rw [Request.admitted_maxNewTokens, if_pos zero]
          exact prefill
    · cases finished
  · unfold Request.admitted at open' ⊢
    split
    · next zero => exact absurd (by rw [if_pos zero]) open'
    · exact unfinished

/-- A decode at the end of the trace. -/
theorem Told.decode (told : Told trace id request) (decoding : request.state = .decoding)
    (room : request.generatedTokenCount < request.maxNewTokens)
    (noPrefill : id ∉ entry.plan.prefillRequestIds) (decode : id ∈ entry.plan.decodeRequestIds) :
    Told (trace ++ [entry]) id (request.decoded entry.endTimestampUs) := by
  have prefills : prefillEntries (trace ++ [entry]) id = prefillEntries trace id := by
    rw [prefillEntries_concat, if_neg noPrefill, List.append_nil]
  have decodes : decodeEntries (trace ++ [entry]) id = decodeEntries trace id ++ [entry] := by
    rw [decodeEntries_concat, if_pos decode]
  have admittedTime : (request.decoded entry.endTimestampUs).admittedTimeUs =
      request.admittedTimeUs := by
    unfold Request.decoded
    split <;> rfl
  have firstToken : (request.decoded entry.endTimestampUs).firstTokenTimeUs =
      request.firstTokenTimeUs.or (some entry.endTimestampUs) := by
    unfold Request.decoded
    split <;> rfl
  refine ⟨?_, ?_, ?_, fun before other after split member => ?_, ?_, fun _ => ?_,
    fun finished => ?_, fun open' _ => ?_⟩
  · rw [prefills, admittedTime, Request.decoded_arrivalTimeUs]
    exact told.admitted
  · rw [decodes, List.length_append, told.decodes, Request.decoded_generatedTokenCount]
    rfl
  · rw [Request.decoded_generatedTokenCount, Request.decoded_maxNewTokens]
    exact room
  · rcases concat_eq_append_cons_iff.mp split with ⟨rfl, rfl, rfl⟩ | ⟨front, rfl, old⟩
    · obtain ⟨first, listed⟩ := List.exists_mem_of_ne_nil _ (told.started decoding)
      obtain ⟨inside, prefill⟩ := List.mem_filter.mp listed
      exact ⟨first, inside, of_decide_eq_true prefill⟩
    · exact told.prefilled before other front old member
  · rw [decodes, firstToken, told.firstToken]
    cases decodeEntries trace id <;> rfl
  · rw [prefills]
    exact told.started decoding
  · rw [Request.decoded_state] at finished
    split at finished
    · next last =>
        have some' : request.maxNewTokens ≠ 0 := by omega
        refine ⟨by simpa using last, trace, entry, [], rfl, ?_, ?_, nofun⟩
        · rw [Request.decoded, if_pos last]
        · rw [Request.decoded_maxNewTokens, if_neg some']
          exact decode
    · rw [decoding] at finished
      cases finished
  · unfold Request.decoded at open' ⊢
    split
    · next last => exact absurd (by rw [if_pos last]) open'
    · exact told.unfinished (by simp [decoding]) (by simp [decoding])

/-- Of a new request the trace says nothing. -/
theorem Told.submit (pristine : request.Pristine)
    (unmentioned : ∀ entry ∈ trace, id ∉ entry.plan.mentioned) : Told trace id request := by
  obtain ⟨waiting, unused, unadmitted, -, noToken, unfinished⟩ := pristine
  have prefills : prefillEntries trace id = [] := by
    refine List.filter_eq_nil_iff.mpr fun entry member prefill => unmentioned entry member ?_
    exact List.mem_append_left _ (List.mem_append_left _ (of_decide_eq_true prefill))
  have decodes : decodeEntries trace id = [] := by
    refine List.filter_eq_nil_iff.mpr fun entry member decode => unmentioned entry member ?_
    exact List.mem_append_left _ (List.mem_append_right _ (of_decide_eq_true decode))
  refine ⟨Or.inl ⟨prefills, unadmitted⟩, by rw [decodes, unused]; rfl, by omega,
    fun before entry after split decode => ?_, by rw [decodes, noToken]; rfl,
    fun decoding => ?_, fun finished => ?_, fun _ _ => unfinished⟩
  · have member : entry ∈ trace := by simp [split]
    exact absurd (List.mem_append_left _ (List.mem_append_right _ decode))
      (unmentioned entry member)
  · rw [waiting] at decoding
    cases decoding
  · rw [waiting] at finished
    cases finished

/-- A cancellation leaves what the trace says as it is. -/
theorem Told.cancel (told : Told trace id request) (nowUs : Int) :
    Told trace id { request with state := .cancelled, finishTimeUs := some nowUs } :=
  ⟨told.admitted, told.decodes, told.generated, told.prefilled, told.firstToken, nofun, nofun,
    fun _ open' => absurd rfl open'⟩

end Concat

namespace ContinuousBatchingEngine

variable {engine next : ContinuousBatchingEngine} {arrived : OrdSet RequestId}
  {consumed : List Candidate} {builder : PlanBuilder} {id : RequestId} {request : Request}
  {endTimestampUs : Int}

/-! ## The trace of an engine -/

/-- The trace is one row of intervals up to now, and the request records agree with it. -/
structure Timeline (engine : ContinuousBatchingEngine) : Prop where
  contiguous : ∀ before entry after, engine.planTrace = before ++ entry :: after →
    entry.startTimestampUs = boundary before
  now : engine.nowUs = boundary engine.planTrace
  once : ∀ entry ∈ engine.planTrace, entry.plan.mentioned.Nodup
  known : ∀ entry ∈ engine.planTrace, ∀ id ∈ entry.plan.mentioned,
    ∃ request, engine.requests.find? id = some request
  told : ∀ id request, engine.requests.find? id = some request →
    Told engine.planTrace id request

theorem find?_insert_cases {requests : OrdMap RequestId Request} {other : RequestId}
    {record : Request} (found : (requests.insert id request).find? other = some record) :
    (other = id ∧ record = request) ∨ (other ≠ id ∧ requests.find? other = some record) := by
  rw [OrdMap.find?_insert] at found
  split at found
  · next same => exact Or.inl ⟨same, (Option.some.inj found).symm⟩
  · next apart => exact Or.inr ⟨apart, found⟩

/-- A plan mentions only requests that are not over. -/
theorem Trail.mentioned (trail : engine.Trail arrived consumed builder) {number : Nat}
    (member : id ∈ (builder.plan number).mentioned) :
    ∃ request, engine.requests.find? id = some request ∧
      (request.state = .decoding ∨ request.state = .waiting) := by
  have listed : id ∈ consumed.map (·.requestId) :=
    ((trail.planned.scheduled.append_right _).trans trail.planned.ids).mem_iff.mp member
  obtain ⟨candidate, among, rfl⟩ := List.mem_map.mp listed
  obtain ⟨request, describes⟩ := trail.described candidate among
  exact ⟨request, describes.found,
    (runnable_iff.mp describes.runnable).imp id And.left⟩

/-- An iteration adds the next interval to the trace. -/
theorem Committed.timeline (trail : engine.Trail arrived consumed builder)
    (coherent : engine.Coherent) (distinct : (consumed.map (·.requestId)).Nodup)
    (arrivals : ∀ id ∈ arrived, ∃ request, engine.requests.find? id = some request ∧
      request.arrivalTimeUs ≤ engine.nowUs)
    (committed : engine.Committed arrived builder endTimestampUs next)
    (timeline : engine.Timeline) : next.Timeline := by
  set plan := builder.plan engine.nextIterationNumber with planned
  set entry := engine.entryOf plan endTimestampUs next.kvCache with entryDef
  have trace : next.planTrace = engine.planTrace ++ [entry] := by
    rw [committed.rest]
  have runs : engine.Runs arrived plan := trail.runs coherent distinct engine.nextIterationNumber
  refine ⟨fun before other after split => ?_, ?_, fun other member => ?_,
    fun other member id listed => ?_, fun id request found => ?_⟩
  · rw [trace] at split
    rcases concat_eq_append_cons_iff.mp split with ⟨rfl, rfl, -⟩ | ⟨front, -, old⟩
    · exact timeline.now
    · exact timeline.contiguous before other front old
  · rw [trace, boundary_concat, committed.nowUs_eq]
    rfl
  · rw [trace] at member
    rcases List.mem_append.mp member with old | new
    · exact timeline.once other old
    · rw [List.mem_singleton.mp new]
      exact runs.nodup
  · rw [trace] at member
    have before : ∃ request, engine.requests.find? id = some request := by
      rcases List.mem_append.mp member with old | new
      · exact timeline.known other old id listed
      · rw [List.mem_singleton.mp new] at listed
        obtain ⟨request, found, -⟩ := trail.mentioned listed
        exact ⟨request, found⟩
    obtain ⟨request, found⟩ := before
    exact ⟨_, (committed.requests id).trans (congrArg _ found)⟩
  · rw [committed.requests] at found
    obtain ⟨old, present, rfl⟩ := Option.map_eq_some_iff.mp found
    have told := timeline.told id old present
    have resting := coherent.resting id old present
    rw [trace]
    unfold advance
    cases runs.scheduled present with
    | prefill prefill decode waiting known =>
        rw [if_pos prefill]
        obtain ⟨other, same, arrives⟩ := arrivals id known
        cases present.symm.trans same
        exact told.admit (resting.pristine waiting) prefill decode arrives
    | decode prefill decode decoding room =>
        rw [if_neg prefill, if_pos decode]
        exact told.decode decoding room prefill decode
    | idle prefill decode =>
        rw [if_neg prefill, if_neg decode]
        refine told.skip prefill decode fun finished member => ?_
        obtain ⟨other, same, state⟩ := trail.mentioned member
        cases present.symm.trans same
        rw [finished] at state
        rcases state with decoding | waiting
        · cases decoding
        · cases waiting

/-- A call keeps the timeline. -/
theorem Moved.timeline (coherent : engine.Coherent) (timeline : engine.Timeline)
    (moved : engine.Moved next) : next.Timeline := by
  have arrivals := arrivals_arrived coherent
  cases moved with
  | @submitted request _ pristine _ _ fresh =>
      refine ⟨timeline.contiguous, timeline.now, timeline.once, fun entry member id listed => ?_,
        fun id record found => ?_⟩
      · obtain ⟨old, found⟩ := timeline.known entry member id listed
        refine ⟨old, (OrdMap.find?_insert ..).trans ?_⟩
        rw [if_neg fun same => ?_, found]
        rw [← same, found] at fresh
        cases fresh
      · rcases find?_insert_cases found with ⟨rfl, rfl⟩ | ⟨-, old⟩
        · refine .submit pristine fun entry member listed => ?_
          obtain ⟨other, present⟩ := timeline.known entry member _ listed
          rw [fresh] at present
          cases present
        · exact timeline.told id record old
  | @cancelled id request cache _ found live _ =>
      refine ⟨timeline.contiguous, timeline.now, timeline.once,
        fun entry member other listed => ?_, fun other record present => ?_⟩
      · obtain ⟨old, present⟩ := timeline.known entry member other listed
        by_cases same : other = id
        · exact ⟨_, (OrdMap.find?_insert ..).trans (if_pos same)⟩
        · exact ⟨old, (OrdMap.find?_insert ..).trans ((if_neg same).trans present)⟩
      · rcases find?_insert_cases present with ⟨rfl, rfl⟩ | ⟨-, old⟩
        · exact (timeline.told other request found).cancel engine.nowUs
        · exact timeline.told other record old
  | iterated _ iterated =>
      cases iterated with
      | complete => exact timeline
      | idle _ _ committed =>
          exact committed.timeline .start coherent List.nodup_nil arrivals timeline
      | stalled _ _ trail _ committed | progressed _ _ trail _ _ committed =>
          exact committed.timeline trail coherent (orderedCandidates_nodup coherent _) arrivals
            timeline
  | halted => exact ⟨timeline.contiguous, timeline.now, timeline.once, timeline.known,
      timeline.told⟩

/-! ## Requests that are over -/

/-- From one engine to a later one a request keeps its record, and no new entry mentions it. -/
structure Silent (engine : ContinuousBatchingEngine) (id : RequestId) (request : Request)
    (next : ContinuousBatchingEngine) : Prop where
  found : next.requests.find? id = some request
  trace : ∃ after, next.planTrace = engine.planTrace ++ after ∧
    ∀ entry ∈ after, id ∉ entry.plan.mentioned

theorem Silent.refl (found : engine.requests.find? id = some request) :
    engine.Silent id request engine :=
  ⟨found, [], (List.append_nil _).symm, nofun⟩

theorem Silent.trans {last : ContinuousBatchingEngine} (first : engine.Silent id request next)
    (second : next.Silent id request last) : engine.Silent id request last := by
  obtain ⟨front, split, before⟩ := first.trace
  obtain ⟨back, split', after⟩ := second.trace
  refine ⟨second.found, front ++ back, by rw [split', split, List.append_assoc],
    fun entry member => ?_⟩
  rcases List.mem_append.mp member with early | late
  · exact before entry early
  · exact after entry late

/-- An iteration leaves a request that is over alone. -/
theorem Committed.silent (trail : engine.Trail arrived consumed builder)
    (committed : engine.Committed arrived builder endTimestampUs next)
    (found : engine.requests.find? id = some request)
    (over' : request.state = .finished ∨ request.state = .cancelled) :
    engine.Silent id request next := by
  have unmentioned : id ∉ (builder.plan engine.nextIterationNumber).mentioned := fun member => by
    obtain ⟨other, same, open'⟩ := trail.mentioned member
    cases found.symm.trans same
    rcases over' with state | state <;> rw [state] at open' <;> simp at open'
  unfold BatchPlan.mentioned at unmentioned
  rw [List.mem_append, List.mem_append, not_or, not_or] at unmentioned
  refine ⟨?_, [engine.entryOf (builder.plan engine.nextIterationNumber) endTimestampUs
    next.kvCache], by rw [committed.rest], fun entry member => ?_⟩
  · rw [committed.requests, found, Option.map_some, advance, if_neg unmentioned.1.1,
      if_neg unmentioned.1.2]
  · rw [List.mem_singleton.mp member]
    change id ∉ _ ++ _ ++ _
    rw [List.mem_append, List.mem_append, not_or, not_or]
    exact unmentioned

/-- Of a request that is over, no call says anything more. -/
theorem Moved.silent (moved : engine.Moved next)
    (found : engine.requests.find? id = some request)
    (over' : request.state = .finished ∨ request.state = .cancelled) :
    engine.Silent id request next := by
  cases moved with
  | @submitted other _ _ _ _ fresh =>
      refine ⟨(OrdMap.find?_insert ..).trans ((if_neg fun same => ?_).trans found), [],
        (List.append_nil _).symm, nofun⟩
      rw [← same, found] at fresh
      cases fresh
  | @cancelled other record _ _ present live _ =>
      refine ⟨(OrdMap.find?_insert ..).trans ((if_neg fun same => ?_).trans found), [],
        (List.append_nil _).symm, nofun⟩
      rw [← same, found] at present
      cases present
      rcases over' with state | state <;> rw [state] at live <;> simp at live
  | iterated _ iterated =>
      cases iterated with
      | complete => exact .refl found
      | idle _ _ committed => exact committed.silent .start found over'
      | stalled _ _ trail _ committed | progressed _ _ trail _ _ committed =>
          exact committed.silent trail found over'
  | halted => exact ⟨found, [], (List.append_nil _).symm, nofun⟩

theorem Moves.silent (moves : Moves engine next) (coherent : engine.Coherent)
    (found : engine.requests.find? id = some request)
    (over' : request.state = .finished ∨ request.state = .cancelled) :
    engine.Silent id request next :=
  (@Moves.invariant engine next (engine.Silent id request) (fun _ silent moved =>
    silent.trans (moved.silent silent.found over')) moves coherent (.refl found)).2

/-! ## Cancelled requests -/

/-- Every request that is cancelled in a later engine was so before. -/
def Uncancelled (engine next : ContinuousBatchingEngine) : Prop :=
  ∀ id request, next.requests.find? id = some request → request.state = .cancelled →
    engine.requests.find? id = some request

/-- A committed iteration cancels nothing. -/
theorem Committed.uncancelled (trail : engine.Trail arrived consumed builder)
    (coherent : engine.Coherent) (distinct : (consumed.map (·.requestId)).Nodup)
    (committed : engine.Committed arrived builder endTimestampUs next) :
    engine.Uncancelled next := by
  have runs := trail.runs coherent distinct engine.nextIterationNumber
  intro id request found state
  rw [committed.requests] at found
  obtain ⟨old, present, rfl⟩ := Option.map_eq_some_iff.mp found
  unfold advance at state ⊢
  cases runs.scheduled present with
  | prefill prefill _ _ _ =>
      rw [if_pos prefill, Request.admitted_state] at state
      split at state <;> cases state
  | decode prefill decode decoding _ =>
      rw [if_neg prefill, if_pos decode, Request.decoded_state, decoding] at state
      split at state <;> cases state
  | idle prefill decode =>
      rw [if_neg prefill, if_neg decode]
      exact present

/-- An iteration cancels nothing. -/
theorem runNextIteration_uncancelled (coherent : engine.Coherent) :
    engine.Uncancelled engine.runNextIteration.2 := by
  unfold runNextIteration
  by_cases failed : engine.failed = true
  · rw [if_pos failed]
    exact fun _ _ found _ => found
  rw [if_neg failed]
  cases result : engine.iterate with
  | error error => exact fun _ _ found _ => found
  | ok answer =>
      obtain ⟨outcome, next⟩ := answer
      cases (iterate_ensures coherent).of_eq_ok result with
      | complete => exact fun _ _ found _ => found
      | idle _ _ committed => exact committed.uncancelled .start coherent List.nodup_nil
      | stalled _ _ trail _ committed | progressed _ _ trail _ _ committed =>
          exact committed.uncancelled trail coherent (orderedCandidates_nodup coherent _)

theorem runIterations_uncancelled (fuel : Nat) (coherent : engine.Coherent) :
    engine.Uncancelled (runIterations fuel engine).2 := by
  induction fuel generalizing engine with
  | zero => exact fun _ _ found _ => found
  | succ fuel ih =>
      have first := runNextIteration_uncancelled coherent
      have moved := Moves.of_moved (runNextIteration_moved coherent)
      unfold runIterations
      split
      · next next progressed =>
          rw [progressed] at first moved
          exact fun id request found state =>
            first id request (ih (moved.coherent coherent) id request found state) state
      · exact first

theorem finishRun_requests (last : Except Exn IterationOutcome × ContinuousBatchingEngine) :
    (finishRun last).2.requests = last.2.requests := by
  unfold finishRun
  split
  · rfl
  · rfl
  · split <;> rfl

/-- Only a cancellation cancels a request. -/
theorem apply_uncancelled (coherent : engine.Coherent) {call : EngineCall}
    (other : call ≠ .cancelRequest id)
    (found : (machine.next engine call).requests.find? id = some request)
    (state : request.state = .cancelled) : engine.requests.find? id = some request := by
  cases call with
  | submitRequest submitted =>
      change (engine.submitRequest submitted).2.requests.find? id = _ at found
      rcases submitRequest_cases engine submitted with same | ⟨-, pristine, -, -, -, result⟩
      · rwa [same] at found
      · rw [result] at found
        rcases find?_insert_cases found with ⟨-, rfl⟩ | ⟨-, old⟩
        · rw [pristine.1] at state
          cases state
        · exact old
  | cancelRequest cancelled =>
      change (engine.cancelRequest cancelled).2.requests.find? id = _ at found
      rcases cancelRequest_cases coherent cancelled with same | ⟨-, _, _, -, -, -, result⟩
      · rwa [same] at found
      · rw [result] at found
        rcases find?_insert_cases found with ⟨rfl, -⟩ | ⟨-, old⟩
        · exact absurd rfl other
        · exact old
  | runNextIteration => exact runNextIteration_uncancelled coherent id request found state
  | run =>
      refine runIterations_uncancelled (engine.work + 1) coherent id request ?_ state
      rw [← finishRun_requests]
      exact found

/-- A cancellation in a run: the calls before it, and what the trace says after it. -/
structure CancelledAt (backend : SimulatedBackend) (config : ContinuousBatchingConfig)
    (calls : List EngineCall) (id : RequestId) (request : Request) (front : List EngineCall) :
    Prop where
  made : ∃ rest, calls = front ++ .cancelRequest id :: rest
  accepted : ((reach backend config front).cancelRequest id).1 = .ok ()
  time : request.finishTimeUs = some (reach backend config front).nowUs
  silent : ∃ after, (reach backend config calls).planTrace =
    (reach backend config front).planTrace ++ after ∧ ∀ entry ∈ after, id ∉ entry.plan.mentioned

theorem reach_concat (backend : SimulatedBackend) (config : ContinuousBatchingConfig)
    (calls : List EngineCall) (call : EngineCall) :
    reach backend config (calls ++ [call]) = machine.next (reach backend config calls) call :=
  machine.run_concat _ calls call

/-- Every cancelled request was cancelled by a call of the run. -/
theorem reach_cancelled (backend : SimulatedBackend) (config : ContinuousBatchingConfig)
    (calls : List EngineCall) (id : RequestId) (request : Request)
    (found : (reach backend config calls).requests.find? id = some request)
    (state : request.state = .cancelled) :
    ∃ front, CancelledAt backend config calls id request front := by
  induction calls using List.reverseRecOn with
  | nil => cases found
  | append_singleton calls call ih =>
      have coherent := reach_coherent backend config calls
      rw [reach_concat] at found
      by_cases before : (reach backend config calls).requests.find? id = some request
      · obtain ⟨front, ⟨rest, split⟩, accepted, time, middle, kept, silent⟩ := ih before
        obtain ⟨after, trace, quiet⟩ :=
          ((apply_moves coherent call).silent coherent before (Or.inr state)).trace
        refine ⟨front, ⟨rest ++ [call], by rw [split]; simp⟩, accepted, time, middle ++ after, ?_,
          fun entry member => ?_⟩
        · rw [reach_concat, trace, kept, List.append_assoc]
        · rcases List.mem_append.mp member with early | late
          · exact silent entry early
          · exact quiet entry late
      · by_cases other : call = .cancelRequest id
        · subst other
          change ((reach backend config calls).cancelRequest id).2.requests.find? id = _ at found
          rcases cancelRequest_cases coherent id with same |
            ⟨-, old, cache, present, live, -, result⟩
          · rw [same] at found
            exact absurd found before
          · have trace : (reach backend config (calls ++ [.cancelRequest id])).planTrace =
                (reach backend config calls).planTrace := by
              rw [reach_concat]
              change ((reach backend config calls).cancelRequest id).2.planTrace = _
              rw [result]
              rfl
            rw [result] at found
            refine ⟨calls, ⟨[], rfl⟩, by rw [result], ?_, [], ?_, nofun⟩
            · rcases find?_insert_cases found with ⟨-, rfl⟩ | ⟨apart, -⟩
              · rfl
              · exact absurd rfl apart
            · rw [trace, List.append_nil]
        · exact absurd (apply_uncancelled coherent other found state) before

/-- Every reachable state has a timeline. -/
theorem reach_told (backend : SimulatedBackend) (config : ContinuousBatchingConfig)
    (calls : List EngineCall) : (reach backend config calls).Timeline :=
  (reach_invariant backend config calls
    ⟨fun before _ after split => absurd split (by simp [create]), rfl, nofun, nofun,
      fun _ _ found => by cases found⟩
    fun coherent timeline moved => moved.timeline coherent timeline).2

/-- The request records agree with the batch trace in every reachable state, and a request that is
cancelled ended when it was. -/
theorem reach_timeline (backend : SimulatedBackend) (config : ContinuousBatchingConfig)
    (calls : List EngineCall) : (reach backend config calls).Timeline ∧
      ∀ id request, (reach backend config calls).requests.find? id = some request →
        request.state = .cancelled → ∃ front, CancelledAt backend config calls id request front :=
  ⟨reach_told backend config calls, reach_cancelled backend config calls⟩

end ContinuousBatchingEngine

end LlmLab.Serving
