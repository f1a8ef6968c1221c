import LlmLab.Serving.Simulation.Tracked

/-!
# The steps of the engine

What processing the next event does to the jobs: it moves the job that the event is due for.
-/

namespace LlmLab.Serving

namespace SimulationEngine

variable {engine next : SimulationEngine} {jobs : OrdMap RequestId Job} {job : Job}
  {id : RequestId} {request : Request} {atUs : Int} {steps : Nat}

/-- The engine follows the jobs: its records do, and its queue holds what is due. -/
structure Followed (engine : SimulationEngine) (jobs : OrdMap RequestId Job) : Prop where
  tracked : engine.Tracked jobs
  holds : engine.Holds (agendaOf engine.backend jobs)

/-- Nothing but the records and the queue changed, and the queue only got later events. -/
structure Grown (engine next : SimulationEngine) : Prop where
  backend : next.backend = engine.backend
  now : next.nowUs = engine.nowUs
  log : next.eventLog = engine.eventLog
  sequence : engine.events.nextSequence ≤ next.events.nextSequence
  queued : ∀ key found, next.events.events.find? key = some found →
    engine.events.events.find? key = some found ∨
      (engine.nowUs ≤ (ofLex key).1 ∧ engine.events.nextSequence ≤ (ofLex key).2 ∧
        (ofLex key).2 < next.events.nextSequence)

/-- One job became another. -/
structure Stepped (engine : SimulationEngine) (jobs : OrdMap RequestId Job) (id : RequestId)
    (job : Job) (next : SimulationEngine) : Prop where
  tracked : next.Tracked (jobs.insert id job)
  holds : next.Holds (Function.update (agendaOf engine.backend jobs) id (job.due? engine.backend))
  grown : Grown engine next
  ignored : next.ignoredCancelledEventCount = engine.ignoredCancelledEventCount

theorem Stepped.followed (stepped : Stepped engine jobs id job next) :
    next.Followed (jobs.insert id job) := by
  refine ⟨stepped.tracked, ?_⟩
  rw [agendaOf_insert, stepped.grown.backend]
  exact stepped.holds

/-- Nothing but the records and the queue changed when the queue stayed the same. -/
theorem Grown.of_events (backend : next.backend = engine.backend)
    (now : next.nowUs = engine.nowUs) (log : next.eventLog = engine.eventLog)
    (events : next.events = engine.events) : Grown engine next :=
  ⟨backend, now, log, events ▸ le_rfl, fun _ _ queued => .inl (events ▸ queued)⟩

theorem Grown.of_scheduled {type : EventType} {timestampUs : Int}
    (ahead : engine.nowUs ≤ timestampUs) (backend : next.backend = engine.backend)
    (now : next.nowUs = engine.nowUs) (log : next.eventLog = engine.eventLog)
    (events : next.events = (Holds.scheduled engine timestampUs id type).events) :
    Grown engine next := by
  refine ⟨backend, now, log, events ▸ Nat.le_succ _, fun key found queued => ?_⟩
  rw [events] at queued
  dsimp only [Holds.scheduled] at queued
  rw [OrdMap.find?_insert] at queued
  split at queued
  · next same =>
      rw [events, same]
      exact .inr ⟨ahead, le_rfl, Nat.lt_succ_self _⟩
  · exact .inl queued

/-! ## The scheduler -/

theorem callScheduler_ensures (consistent : engine.scheduler.Consistent) {call : SchedulerCall}
    (accepts : engine.scheduler.Accepts call) (other : call ≠ .chooseNextRequest) :
    Ensures Exn.IsOverflow (fun next => ∃ scheduler, next = { engine with scheduler } ∧
        FcfsScheduler.Change engine.scheduler call scheduler ∧ scheduler.Consistent)
      (engine.callScheduler call) := by
  have outcome := FcfsScheduler.apply_outcome engine.scheduler call
  unfold callScheduler
  generalize engine.scheduler.apply call = result at outcome
  cases outcome with
  | threw overflow => exact overflow consistent accepts
  | chose same => exact absurd same other
  | changed change => exact ⟨_, rfl, change, change.consistent consistent⟩

/-! ## Moving one job -/

/-- A job keeps apart from others while it is admitted and until it finishes. -/
theorem Apart.of_same {backend : Backend} {job' other : Job} (apart : Apart backend job other)
    (admitted : job'.admittedUs? = job.admittedUs?)
    (finish : job.finishUs? backend = none ∨ job'.finishUs? backend = job.finishUs? backend) :
    Apart backend job' other := by
  intro atUs otherUs here there
  rw [admitted] at here
  rcases apart atUs otherUs here there with ⟨finishUs, finished, before⟩ | after
  · rcases finish with running | same
    · rw [running] at finished
      cases finished
    · exact .inl ⟨finishUs, same.trans finished, before⟩
  · exact .inr after

theorem Apart.of_unadmitted {backend : Backend} {other : Job} (waits : job.admittedUs? = none) :
    Apart backend job other := by
  intro atUs otherUs here
  rw [waits] at here
  cases here

/-- The active job takes one of its steps but the last. -/
theorem Tracked.advanced (tracked : engine.Tracked jobs)
    (found : jobs.find? id = some ⟨request, .admitted atUs steps, none⟩)
    (more : steps ≤ request.maxNewTokens)
    (now : engine.nowUs = engine.backend.stepUs request atUs steps)
    (decode : 0 < request.maxNewTokens →
      engine.backend.estimateDecodeStepUs 1 = .ok engine.backend.decodeUs)
    (backend : next.backend = engine.backend) (alive : next.failed = engine.failed)
    (now' : next.nowUs = engine.nowUs) (scheduler : next.scheduler = engine.scheduler)
    (active : next.activeRequestId = engine.activeRequestId)
    (requests : next.requests = engine.requests.insert id
      (Job.record engine.backend ⟨request, .admitted atUs (steps + 1), none⟩)) :
    next.Tracked (jobs.insert id ⟨request, .admitted atUs (steps + 1), none⟩) := by
  have valid := tracked.valid id _ found
  obtain ⟨arrived, started, -, -, prefill, -⟩ := valid.admitted atUs steps rfl
  have within : steps ≤ request.maxNewTokens + 1 := by omega
  have within' : steps + 1 ≤ request.maxNewTokens + 1 := by omega
  have running : (⟨request, .admitted atUs steps, none⟩ : Job).Active :=
    ⟨rfl, atUs, steps, rfl, within⟩
  refine tracked.put backend (alive.trans tracked.alive) now' requests
    (tracked.ids id ⟨request, .admitted atUs steps, none⟩ found) ⟨valid.pristine, valid.arrival, nofun, ?_, nofun⟩
    (scheduler ▸ tracked.scheduler) (scheduler ▸ tracked.capacity) (fun other => ?_)
    (fun other => ?_) fun other job' different found' => ?_
  · intro atUs' steps' same
    cases same
    refine ⟨arrived, started, by dsimp only; omega, fun k before => ?_, prefill, fun _ => decode⟩
    rw [now]
    exact tracked.lawful.stepUs_mono (Nat.le_of_lt_succ before)
  · rw [scheduler]
    split
    · next same =>
        subst same
        rw [tracked.entry found]
        unfold Job.entry?
        dsimp only
        rw [if_pos within, if_pos within']
    · rfl
  · rw [active]
    split
    · next same =>
        subst same
        rw [tracked.active]
        exact ⟨fun _ => ⟨rfl, atUs, steps + 1, rfl, within'⟩, fun _ => ⟨_, found, running⟩⟩
    · rfl
  · refine (tracked.apart id other _ _ different.symm found found').of_same rfl (.inl ?_)
    exact if_pos within

/-! ## The event branches -/

/-- The engine after an event of `id` left the queue. -/
structure Popped (engine : SimulationEngine) (jobs : OrdMap RequestId Job) (id : RequestId) :
    Prop where
  tracked : engine.Tracked jobs
  holds : engine.Holds (Function.update (agendaOf engine.backend jobs) id none)

/-- An event that is due after a popped one becomes the due event of the job. -/
theorem Popped.schedule (popped : engine.Popped jobs id) {type : EventType} {costUs : Int}
    (cost : 0 ≤ costUs)
    (due : job.due? engine.backend = some ⟨type, engine.nowUs + costUs, false⟩) :
    Ensures Exn.IsOverflow (fun next =>
        next = Holds.scheduled engine (engine.nowUs + costUs) id type ∧
        next.Holds (Function.update (agendaOf engine.backend jobs) id
          (job.due? engine.backend)))
      (engine.scheduleAfter costUs id type) := by
  refine (popped.holds.scheduleAfter (Function.update_self ..) cost popped.tracked.now).mono ?_
  rintro next ⟨rfl, holds⟩
  rw [Function.update_idem] at holds
  exact ⟨rfl, due ▸ holds⟩

/-- The arrival puts a submitted job in line. -/
theorem processArrival_ensures (popped : engine.Popped jobs id)
    (found : jobs.find? id = some ⟨request, .submitted, none⟩)
    (now : engine.nowUs = request.arrivalTimeUs) :
    Ensures Exn.IsOverflow (Stepped engine jobs id ⟨request, .waiting, none⟩)
      (engine.processArrival id (Job.record engine.backend ⟨request, .submitted, none⟩)) := by
  have tracked := popped.tracked
  have valid := tracked.valid id _ found
  have named : request.requestId = id := tracked.ids id _ found
  have unknown := tracked.entry found
  have record : engine.requests.find? id =
      some (Job.record engine.backend ⟨request, .waiting, none⟩) := by
    rw [tracked.requests, found]
    rfl
  have idle : ¬ (⟨request, .submitted, none⟩ : Job).Active := fun ⟨_, _, _, same, _⟩ => by cases same
  unfold processArrival
  rw [throwIf_of_not (by simp [Job.state, Job.admittedUs?]), except_ok_bind]
  have accepts : engine.scheduler.Accepts (.notifyArrival id request.arrivalTimeUs) :=
    ⟨valid.arrival, unknown⟩
  refine (callScheduler_ensures tracked.scheduler accepts nofun).mono ?_
  rintro _ ⟨scheduler, rfl, change, consistent⟩
  cases change
  refine ⟨tracked.put rfl tracked.alive rfl (OrdMap.insert_of_find? record).symm named
    ⟨valid.pristine, valid.arrival, fun _ => now.ge, nofun, nofun⟩ consistent tracked.capacity
    (fun other => OrdMap.find?_insert ..) (fun other => ?_)
    (fun _ _ _ _ => Apart.of_unadmitted rfl), ?_, Grown.of_events rfl rfl rfl rfl, rfl⟩
  · split
    · next same =>
        rw [same, tracked.active]
        refine ⟨fun ⟨job, found', active⟩ => ?_, fun ⟨_, _, _, same, _⟩ => by cases same⟩
        rw [found, Option.some.injEq] at found'
        exact absurd (found' ▸ active) idle
    · rfl
  · exact popped.holds.congr rfl rfl rfl

/-- The event of a cancelled job is dropped. -/
theorem Popped.dropped (popped : engine.Popped jobs id) {position : Position}
    (found : jobs.find? id = some ⟨request, position, some ⟨atUs, false⟩⟩)
    (pending : (Job.next? engine.backend ⟨request, position, some ⟨atUs, false⟩⟩).isSome = true)
    (count : Nat) : Followed { engine with ignoredCancelledEventCount := count }
      (jobs.insert id ⟨request, position, some ⟨atUs, true⟩⟩) := by
  have tracked := popped.tracked
  have valid := tracked.valid id _ found
  have record : engine.requests.find? id =
      some (Job.record engine.backend ⟨request, position, some ⟨atUs, true⟩⟩) := by
    rw [tracked.requests, found]
    rfl
  obtain ⟨nonneg, past, running, -⟩ := valid.cancelled _ rfl
  constructor
  · refine tracked.put rfl tracked.alive rfl (OrdMap.insert_of_find? record).symm
      (tracked.ids id ⟨request, position, some ⟨atUs, false⟩⟩ found)
      ⟨valid.pristine, valid.arrival, valid.waiting, valid.admitted, ?_⟩ tracked.scheduler
      tracked.capacity (fun other => ?_) (fun other => ?_) fun other job' different found' => ?_
    · intro cancellation same
      cases same
      exact ⟨nonneg, past, running, fun _ => pending⟩
    · split
      · next same =>
          rw [same, tracked.entry found]
          cases position <;> rfl
      · rfl
    · split
      · next same =>
          rw [same, tracked.active]
          refine ⟨fun ⟨job, found', active⟩ => ?_, fun ⟨live, _⟩ => by cases live⟩
          rw [found, Option.some.injEq] at found'
          subst found'
          cases active.1
      · rfl
    · exact (tracked.apart id other _ _ different.symm found found').of_same rfl (.inr rfl)
  · rw [agendaOf_insert]
    exact popped.holds.congr rfl rfl rfl

/-- The next event of an admitted job that is not at its end. -/
theorem due?_advanced {backend : Backend} (more : steps ≤ request.maxNewTokens) :
    Job.due? backend ⟨request, .admitted atUs (steps + 1), none⟩ =
      some ⟨if steps < request.maxNewTokens then .decodeStepComplete else .requestComplete,
        backend.stepUs request atUs steps +
          if steps < request.maxNewTokens then backend.decodeUs else 0, false⟩ := by
  unfold Job.due? Job.next?
  dsimp only
  rw [if_pos (Nat.succ_le_succ more), stepType_succ]
  split
  · next before =>
      rw [Backend.stepUs_succ before]
      rfl
  · next last =>
      rw [Backend.stepUs_last (not_lt.mp last), add_zero]
      rfl

/-- The prefill leads to the first decode step, or to the end. -/
theorem processPrefillComplete_ensures (popped : engine.Popped jobs id)
    (found : jobs.find? id = some ⟨request, .admitted atUs 0, none⟩)
    (now : engine.nowUs = engine.backend.stepUs request atUs 0) :
    Ensures Exn.IsOverflow (Stepped engine jobs id ⟨request, .admitted atUs 1, none⟩)
      (engine.processPrefillComplete id
        (Job.record engine.backend ⟨request, .admitted atUs 0, none⟩)) := by
  have tracked := popped.tracked
  have running : engine.activeRequestId = some id :=
    (tracked.active id).mpr ⟨_, found, rfl, atUs, 0, rfl, Nat.zero_le _⟩
  have due := @due?_advanced request atUs 0 engine.backend (Nat.zero_le _)
  rw [← now] at due
  unfold processPrefillComplete
  rw [throwIf_of_not (by rw [running]; simp [Job.state]), except_ok_bind, Job.record_maxNewTokens]
  by_cases zero : request.maxNewTokens = 0
  · rw [if_neg (by omega), if_neg (by omega)] at due
    rw [if_pos zero]
    refine (popped.schedule le_rfl due).mono ?_
    rintro next ⟨rfl, holds⟩
    refine ⟨tracked.advanced found (Nat.zero_le _) now (fun some' => absurd zero some'.ne') rfl rfl
      rfl rfl rfl ?_, holds, Grown.of_scheduled (by omega) rfl rfl rfl rfl, rfl⟩
    -- Without outputs the record of the job stays as it is.
    refine (OrdMap.insert_of_find? ?_).symm
    refine (tracked.requests id).trans ?_
    rw [found]
    simp [Job.record, Job.state, Job.generated, Job.firstTokenUs?, Job.finishUs?,
      Job.admittedUs?, zero]
  · rw [if_pos (Nat.pos_of_ne_zero zero), if_pos (Nat.pos_of_ne_zero zero)] at due
    rw [if_neg zero]
    refine tracked.lawful.decode_ensures.bind fun cost ⟨cost_eq, decode⟩ => ?_
    subst cost_eq
    refine (popped.schedule tracked.lawful.decodeUs_nonneg due).bind ?_
    rintro next ⟨rfl, holds⟩
    rw [Request.transitionTo_eq_ok rfl (by simp), except_ok_bind]
    refine ⟨tracked.advanced found (Nat.zero_le _) now (fun _ => decode) rfl rfl rfl rfl rfl ?_,
      holds.congr rfl rfl rfl, Grown.of_scheduled (by have := tracked.lawful.decodeUs_nonneg; omega)
        rfl rfl rfl rfl, rfl⟩
    dsimp only [writeRequest, Holds.scheduled]
    simp [Job.record, Job.state, Job.generated, Job.firstTokenUs?, Job.finishUs?,
      Job.admittedUs?, zero]

/-- The record of a job that is decoding. -/
theorem record_decoding {backend : Backend} (within : steps ≤ request.maxNewTokens)
    (outputs : request.maxNewTokens ≠ 0) :
    Job.record backend ⟨request, .admitted atUs (steps + 1), none⟩ = { request with
      state := .decoding
      generatedTokenCount := steps
      admittedTimeUs := some atUs
      firstScheduledTimeUs := some atUs
      firstTokenTimeUs := if steps = 0 then none else some (backend.stepUs request atUs 1)
      finishTimeUs := none } := by
  have notOver : ¬ steps = request.maxNewTokens + 1 := by omega
  simp [Job.record, Job.state, Job.generated, Job.firstTokenUs?, Job.finishUs?, Job.admittedUs?,
    notOver, outputs, within]

/-- A decode step leads to the next one, or to the end. -/
theorem processDecodeStepComplete_ensures (popped : engine.Popped jobs id)
    (found : jobs.find? id = some ⟨request, .admitted atUs (steps + 1), none⟩)
    (more : steps < request.maxNewTokens)
    (now : engine.nowUs = engine.backend.stepUs request atUs (steps + 1)) :
    Ensures Exn.IsOverflow (Stepped engine jobs id ⟨request, .admitted atUs (steps + 2), none⟩)
      (engine.processDecodeStepComplete id
        (Job.record engine.backend ⟨request, .admitted atUs (steps + 1), none⟩)) := by
  have tracked := popped.tracked
  have running : engine.activeRequestId = some id :=
    (tracked.active id).mpr ⟨_, found, rfl, atUs, steps + 1, rfl, by dsimp only; omega⟩
  have nonneg := tracked.lawful.decodeUs_nonneg
  have decode := ((tracked.valid id _ found).admitted atUs (steps + 1) rfl).2.2.2.2.2
    (Nat.succ_pos _)
  have outputs : request.maxNewTokens ≠ 0 := by omega
  have due := @due?_advanced request atUs (steps + 1) engine.backend more
  rw [← now] at due
  rw [record_decoding more.le outputs]
  -- Both schedulings lead to the next step of the job.
  have written : ∀ type costUs, 0 ≤ costUs → ∀ next : SimulationEngine,
      next = Holds.scheduled engine (engine.nowUs + costUs) id type ∧
        next.Holds (Function.update (agendaOf engine.backend jobs) id
          (Job.due? engine.backend ⟨request, .admitted atUs (steps + 2), none⟩)) →
      Stepped engine jobs id ⟨request, .admitted atUs (steps + 2), none⟩
        (next.writeRequest id { request with
          state := .decoding
          generatedTokenCount := steps + 1
          admittedTimeUs := some atUs
          firstScheduledTimeUs := some atUs
          firstTokenTimeUs := (if steps = 0 then none
            else some (engine.backend.stepUs request atUs 1)).or (some next.nowUs)
          finishTimeUs := none }) := by
    rintro type costUs cost next ⟨rfl, holds⟩
    refine ⟨tracked.advanced found more now decode rfl rfl rfl rfl rfl ?_,
      holds.congr rfl rfl rfl, Grown.of_scheduled (by omega) rfl rfl rfl rfl, rfl⟩
    refine congrArg (engine.requests.insert id) ?_
    rw [record_decoding more outputs, if_neg (Nat.succ_ne_zero steps)]
    dsimp only [Holds.scheduled]
    split
    · next first =>
        rw [now, first]
        rfl
    · rfl
  unfold processDecodeStepComplete
  rw [throwIf_of_not (by rw [running]; simp [more]), except_ok_bind]
  dsimp only
  by_cases last : steps + 1 = request.maxNewTokens
  · rw [if_neg (by omega), if_neg (by omega)] at due
    rw [if_pos last]
    exact (popped.schedule le_rfl due).bind (written _ 0 le_rfl)
  · rw [if_pos (by omega), if_pos (by omega)] at due
    rw [if_neg last]
    refine tracked.lawful.decode_ensures.bind fun cost ⟨cost_eq, _⟩ => ?_
    rw [cost_eq]
    exact (popped.schedule nonneg due).bind (written _ _ nonneg)

/-- The record of a job that comes to its end. -/
theorem record_completed {backend : Backend} :
    Job.record backend ⟨request, .admitted atUs (request.maxNewTokens + 2), none⟩ =
      { Job.record backend ⟨request, .admitted atUs (request.maxNewTokens + 1), none⟩ with
        state := .finished
        finishTimeUs := some (backend.stepUs request atUs (request.maxNewTokens + 1)) } := by
  have last := @Backend.stepUs_last backend request atUs _ le_rfl
  simp [Job.record, Job.state, Job.generated, Job.firstTokenUs?, Job.finishUs?, Job.admittedUs?,
    last]

/-- The completion ends a job and frees the slot. -/
theorem processRequestComplete_ensures (popped : engine.Popped jobs id)
    (found : jobs.find? id = some ⟨request, .admitted atUs (request.maxNewTokens + 1), none⟩)
    (now : engine.nowUs =
      engine.backend.stepUs request atUs (request.maxNewTokens + 1)) :
    Ensures Exn.IsOverflow (Stepped engine jobs id
        ⟨request, .admitted atUs (request.maxNewTokens + 2), none⟩)
      (engine.processRequestComplete id (Job.record engine.backend
        ⟨request, .admitted atUs (request.maxNewTokens + 1), none⟩)) := by
  have tracked := popped.tracked
  have valid := tracked.valid id _ found
  have named : request.requestId = id := tracked.ids id _ found
  obtain ⟨arrived, started, -, past, prefill, decode⟩ := valid.admitted _ _ rfl
  have active : (⟨request, .admitted atUs (request.maxNewTokens + 1), none⟩ : Job).Active :=
    ⟨rfl, atUs, _, rfl, le_rfl⟩
  have running : engine.activeRequestId = some id := (tracked.active id).mpr ⟨_, found, active⟩
  have entry := tracked.entry found
  unfold Job.entry? at entry
  dsimp only at entry
  rw [if_pos le_rfl] at entry
  have state : Job.state ⟨request, .admitted atUs (request.maxNewTokens + 1), none⟩ =
      if request.maxNewTokens = 0 then .prefilling else .decoding := by
    simp [Job.state]
  have generated : Job.generated ⟨request, .admitted atUs (request.maxNewTokens + 1), none⟩ =
      request.maxNewTokens := Nat.min_self _
  have finishes : ¬ request.maxNewTokens + 2 ≤ request.maxNewTokens + 1 := by omega
  unfold processRequestComplete
  rw [throwIf_of_not, except_ok_bind, Request.transitionTo_eq_ok, except_ok_bind]
  · have accepts : engine.scheduler.Accepts (.notifyCompleted id engine.nowUs) := by
      refine ⟨_, entry, rfl, fun admitted same => ?_⟩
      cases same
      exact started
    change Ensures _ _ ((engine.writeRequest id _).callScheduler
      (.notifyCompleted id engine.nowUs) >>= _)
    refine (@callScheduler_ensures (engine.writeRequest id _) tracked.scheduler _ accepts
      nofun).bind ?_
    rintro _ ⟨scheduler, rfl, change, consistent⟩
    cases change with
    | @completed _ entry' _ found' _ _ =>
    rw [writeRequest, entry, Option.some.injEq] at found'
    subst found'
    refine ⟨tracked.put rfl tracked.alive rfl ?_ named ⟨valid.pristine, valid.arrival, nofun, ?_,
      nofun⟩ consistent tracked.capacity (fun other => ?_) (fun other => ?_)
      fun other job' different found' => ?_, ?_, Grown.of_events rfl rfl rfl rfl, rfl⟩
    · refine congrArg (engine.requests.insert id) ?_
      rw [record_completed, now]
    · intro atUs' steps same
      cases same
      refine ⟨arrived, started, le_rfl, fun k before => ?_, prefill, fun _ => decode (by omega)⟩
      rw [now]
      exact tracked.lawful.stepUs_mono (by omega)
    · dsimp only [writeRequest]
      rw [OrdMap.find?_insert]
      unfold Job.entry?
      dsimp only
      rw [if_neg finishes]
    · split
      · exact ⟨nofun, fun ⟨_, _, _, same, within⟩ => by cases same; exact absurd within finishes⟩
      · next different =>
          rw [running, Option.some.injEq]
          exact ⟨nofun, fun same => absurd same.symm different⟩
    · refine (tracked.apart id other _ _ different.symm found found').of_same rfl (.inl ?_)
      exact if_pos le_rfl
    · have beyond : Job.due? engine.backend ⟨request, .admitted atUs (request.maxNewTokens + 2), none⟩
          = none := Job.due?_eq_none (if_neg finishes)
      rw [beyond]
      exact popped.holds.congr rfl rfl rfl
  · rw [Job.record_state, state]
    split <;> rfl
  · rw [Job.record_state, state, Job.record_maxNewTokens]
    intro prefilling _
    by_contra outputs
    rw [if_neg outputs] at prefilling
    cases prefilling
  · rw [running, Job.record_state, Job.record_generated, state, generated]
    by_cases zero : request.maxNewTokens = 0 <;> simp [zero]

/-! ## What is due next -/

/-- Nothing is due at the current time. -/
def Quiet (engine : SimulationEngine) (jobs : OrdMap RequestId Job) : Prop :=
  ∀ id due, agendaOf engine.backend jobs id = some due → engine.nowUs < due.timestampUs

theorem Followed.due_of_top (followed : engine.Followed jobs) {top : Event}
    (first : engine.events.top? = some top) :
    ∃ due, agendaOf engine.backend jobs top.requestId = some due ∧
      due.timestampUs = top.timestampUs := by
  obtain ⟨due, something, -, time, -⟩ := followed.holds.due_of_queued (isNext_of_top first).queued
  exact ⟨due, something, time⟩

/-- The test of the loops: whether the queue starts at the current time. -/
theorem Followed.quiet_iff (followed : engine.Followed jobs) :
    (engine.events.top?.any fun top => top.timestampUs = engine.nowUs) = false ↔
      Quiet engine jobs := by
  cases first : engine.events.top? with
  | none =>
      refine ⟨fun _ id due something => ?_, fun _ => rfl⟩
      rw [followed.holds.top_none_iff.mp first id] at something
      cases something
  | some top =>
      obtain ⟨due, something, time⟩ := followed.due_of_top first
      have ahead := followed.holds.ahead _ _ something
      simp only [Option.any_some, decide_eq_false_iff_not]
      constructor
      · intro later id due' something'
        have before := followed.holds.first (isNext_of_top first) something'
        omega
      · intro quiet
        have after := quiet _ _ something
        omega

/-! ## The next event -/

/-- What processing the next event does. -/
structure Processed (engine : SimulationEngine) (jobs : OrdMap RequestId Job) (event : Event)
    (job : Job) (logged : Bool) (next : SimulationEngine) : Prop where
  isNext : engine.IsNext event
  now : event.timestampUs = engine.nowUs
  found : jobs.find? event.requestId = some job
  due : job.due? engine.backend = some ⟨event.type, event.timestampUs, !logged⟩
  followed : next.Followed (jobs.insert event.requestId job.moved)
  grown : Grown (Holds.popped engine event) next
  ignored : next.ignoredCancelledEventCount =
    engine.ignoredCancelledEventCount + (!logged).toNat

/-- The event of an uncancelled job is logged, that of a cancelled one is dropped. -/
theorem Processed.logged_cases {event : Event} {logged : Bool}
    (processed : Processed engine jobs event job logged next) :
    (job.cancellation = none ∧ logged = true) ∨
      ∃ atUs, job.cancellation = some ⟨atUs, false⟩ ∧ logged = false := by
  obtain ⟨-, ⟨alive, live⟩ | ⟨atUs, cancelled, dead⟩⟩ := Job.due?_eq_some processed.due
  · exact .inl ⟨alive, by simpa using live⟩
  · exact .inr ⟨atUs, cancelled, by simpa using dead⟩

/-- The branch that the event of an uncancelled job takes. -/
theorem processType_ensures (popped : engine.Popped jobs id) {position : Position} {type : EventType}
    (found : jobs.find? id = some ⟨request, position, none⟩)
    (due : Job.next? engine.backend ⟨request, position, none⟩ = some (type, engine.nowUs)) :
    Ensures Exn.IsOverflow (Stepped engine jobs id (Job.moved ⟨request, position, none⟩))
      (engine.processType type id (Job.record engine.backend ⟨request, position, none⟩)) := by
  cases position with
  | submitted =>
      simp only [Job.next?, Option.some.injEq, Prod.mk.injEq] at due
      obtain ⟨rfl, now⟩ := due
      exact processArrival_ensures popped found now.symm
  | waiting => cases due
  | admitted atUs steps =>
      unfold Job.next? at due
      dsimp only at due
      split at due
      · next within =>
          simp only [Option.some.injEq, Prod.mk.injEq] at due
          obtain ⟨rfl, now⟩ := due
          cases steps with
          | zero => exact processPrefillComplete_ensures popped found now.symm
          | succ steps =>
              rw [stepType_succ]
              by_cases more : steps < request.maxNewTokens
              · rw [if_pos more]
                exact processDecodeStepComplete_ensures popped found more now.symm
              · rw [if_neg more]
                obtain rfl : steps = request.maxNewTokens := by omega
                exact processRequestComplete_ensures popped found now.symm
      · cases due

/-- The next event of the queue moves its job. -/
theorem processEvent_ensures (followed : engine.Followed jobs) {event : Event}
    (isNext : engine.IsNext event) (now : event.timestampUs = engine.nowUs) :
    Ensures Exn.IsOverflow
      (fun (logged, next) => ∃ job, Processed engine jobs event job logged next)
      (processEvent { engine with
        events := { engine.events with events := engine.events.events.erase event.key } }
        event) := by
  have tracked := followed.tracked
  obtain ⟨due, something, type, time, pending⟩ := followed.holds.due_of_queued isNext.queued
  obtain ⟨job, found, due_eq⟩ := Option.bind_eq_some_iff.mp something
  have popped : (Holds.popped engine event).Popped jobs event.requestId :=
    ⟨{ tracked with }, followed.holds.popped_holds isNext⟩
  have time' : due.timestampUs = event.timestampUs := time
  obtain ⟨next?, cancellation⟩ := Job.due?_eq_some due_eq
  obtain ⟨request, position, cancelled⟩ := job
  have record := tracked.request found
  unfold processEvent
  change Ensures _ _ (engine.findRequest event.requestId >>= _)
  rw [record, except_ok_bind]
  dsimp only
  rw [pending]
  dsimp only [Event.key]
  rw [throwIf_of_not (by simp), except_ok_bind]
  rcases cancellation with ⟨alive, live⟩ | ⟨cancelledAt, dead, ignored⟩
  · cases alive
    rw [live, if_neg Bool.false_ne_true]
    have due : Job.next? engine.backend ⟨request, position, none⟩ =
        some (event.type, (Holds.popped engine event).nowUs) := by
      rw [next?, type, time', now]
      rfl
    refine (processType_ensures popped found due).bind fun next stepped => ?_
    refine ⟨_, isNext, now, found, ?_, stepped.followed, stepped.grown, stepped.ignored⟩
    rw [due_eq, ← time', ← type, Bool.not_true, ← live]
  · cases dead
    rw [ignored, if_pos rfl, throwIf_of_not (by simp [Job.state]), except_ok_bind]
    refine (inc_ensures _ _).bind fun count count_eq => ?_
    have pending' : (Job.next? (Holds.popped engine event).backend
        ⟨request, position, some ⟨cancelledAt, false⟩⟩).isSome = true :=
      (congrArg Option.isSome next?).trans rfl
    refine ⟨_, isNext, now, found, ?_, popped.dropped found pending' count,
      Grown.of_events rfl rfl rfl rfl, count_eq⟩
    rw [due_eq, ← time', ← type, Bool.not_false, ← ignored]

end SimulationEngine

end LlmLab.Serving
