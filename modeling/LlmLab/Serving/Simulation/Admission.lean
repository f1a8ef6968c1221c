import LlmLab.Serving.Simulation.Steps

/-!
# Admissions, cancellations and submissions

An idle engine admits the first waiting job; a cancellation takes a live job off its timeline; a
submission starts a new one.
-/

namespace LlmLab.Serving

namespace SimulationEngine

variable {engine next : SimulationEngine} {jobs : OrdMap RequestId Job} {job : Job}
  {id : RequestId} {request : Request}

/-! ## Starting the next request -/

/-- Nobody waits for a free slot. -/
def Busy (engine : SimulationEngine) (jobs : OrdMap RequestId Job) : Prop :=
  engine.activeRequestId = none → ∀ id job, jobs.find? id = some job → ¬ job.Waits

/-- What starting the next request does. -/
inductive Started (engine : SimulationEngine) (jobs : OrdMap RequestId Job) :
    SimulationEngine → OrdMap RequestId Job → Prop
  | kept : Busy engine jobs → Started engine jobs engine jobs
  /-- The first waiting job is admitted. -/
  | admitted {id : RequestId} {job : Job} {next : SimulationEngine} :
      engine.activeRequestId = none → jobs.find? id = some job → job.Waits →
      (∀ other job', jobs.find? other = some job' → job'.Waits → job.key ≤ job'.key) →
      Stepped engine jobs id (job.admittedAt engine.nowUs) next →
      Started engine jobs next (jobs.insert id (job.admittedAt engine.nowUs))

/-- The waiting set of the scheduler holds exactly the jobs that wait. -/
theorem Followed.waits_iff (followed : engine.Followed jobs) {key : WaitingKey} :
    key ∈ engine.scheduler.waiting ↔
      ∃ job, jobs.find? (ofLex key).2 = some job ∧ job.Waits ∧ job.key = key := by
  have tracked := followed.tracked
  have listed := tracked.scheduler.waiting (ofLex key).1 (ofLex key).2
  refine Iff.trans listed ?_
  constructor
  · rintro ⟨entry, found, waiting, arrival⟩
    rw [tracked.entries, Option.bind_eq_some_iff] at found
    obtain ⟨job, found, same⟩ := found
    have waits := (Job.entry?_waiting same).mp waiting
    have named := tracked.ids _ _ found
    refine ⟨job, found, waits, ?_⟩
    obtain ⟨request, position, cancellation⟩ := job
    obtain ⟨rfl, rfl⟩ := waits
    cases same
    exact Prod.ext arrival named
  · rintro ⟨job, found, ⟨position, alive⟩, same⟩
    obtain ⟨request, _, _⟩ := job
    cases position
    cases alive
    refine ⟨_, tracked.entry found, rfl, ?_⟩
    exact congrArg (fun key => (ofLex key).1) same

theorem Followed.waits_mem (followed : engine.Followed jobs) (found : jobs.find? id = some job)
    (waits : job.Waits) : job.key ∈ engine.scheduler.waiting := by
  have named := followed.tracked.ids id job found
  refine followed.waits_iff.mpr ⟨job, ?_, waits, rfl⟩
  subst named
  exact found

/-- An admission starts the job that the scheduler has chosen. -/
theorem admitRequest_ensures (followed : engine.Followed jobs)
    (idle : engine.activeRequestId = none)
    (admits : engine.scheduler.chooseNextRequest.kind = .admitRequest)
    (named : engine.scheduler.chooseNextRequest.requestId = some id)
    (found : jobs.find? id = some job) (waits : job.Waits) :
    Ensures Exn.IsOverflow (Stepped engine jobs id (job.admittedAt engine.nowUs))
      (engine.admitRequest engine.scheduler.chooseNextRequest id) := by
  have tracked := followed.tracked
  have valid := tracked.valid id job found
  obtain ⟨request, _, _⟩ := job
  obtain ⟨rfl, rfl⟩ := waits
  have nothing : agendaOf engine.backend jobs id = none := by
    unfold agendaOf
    rw [found]
    rfl
  have arrived := valid.waiting rfl
  have nonneg := tracked.lawful.prefillUs_nonneg request
  have entry := tracked.entry found
  unfold admitRequest
  rw [tracked.request found, except_ok_bind, throwIf_of_not (by simp [Job.state, arrived]),
    except_ok_bind]
  refine (tracked.lawful.prefill_ensures request).bind fun cost bounded => ?_
  obtain ⟨rfl, prefill⟩ := bounded
  refine (followed.holds.scheduleAfter nothing nonneg tracked.now).bind ?_
  rintro _ ⟨rfl, holds⟩
  have accepts : engine.scheduler.Accepts
      (.notifyAdmitted engine.scheduler.chooseNextRequest engine.nowUs) := by
    refine ⟨rfl, admits, fun other entry' named' found' => ?_⟩
    rw [named, Option.some.injEq] at named'
    rw [← named', entry] at found'
    cases found'
    exact arrived
  refine (@callScheduler_ensures (Holds.scheduled engine _ id .prefillComplete) tracked.scheduler _
    accepts fun same => by cases same).bind ?_
  rintro _ ⟨scheduler, rfl, change, consistent⟩
  change FcfsScheduler.Change engine.scheduler
    (.notifyAdmitted engine.scheduler.chooseNextRequest engine.nowUs) scheduler at change
  cases change with
  | @admitted other entry' _ named' found' _ _ _ room =>
  rw [named, Option.some.injEq] at named'
  subst named'
  rw [entry] at found'
  cases found'
  have within : 0 ≤ request.maxNewTokens + 1 := Nat.zero_le _
  rw [Request.transitionTo_eq_ok rfl (by simp [Job.state]), except_ok_bind]
  refine ⟨tracked.put rfl tracked.alive rfl ?_
    (tracked.ids id ⟨request, .waiting, none⟩ found) ⟨valid.pristine, valid.arrival,
    (fun waits => by cases waits), ?_, fun _ ended => by cases ended⟩ consistent tracked.capacity (fun other => ?_) (fun other => ?_)
    fun other job' different found' => ?_, ?_, Grown.of_scheduled (by omega) rfl rfl rfl rfl, rfl⟩
  · rfl
  · intro atUs steps same
    cases same
    exact ⟨arrived, le_rfl, Nat.zero_le _, (fun _ positive => absurd positive (Nat.not_lt_zero _)),
      prefill, fun same => by cases same⟩
  · exact OrdMap.find?_insert ..
  · split
    · next same =>
        rw [same]
        exact ⟨fun _ => ⟨rfl, _, 0, rfl, within⟩, fun _ => rfl⟩
    · next different =>
        rw [idle]
        exact ⟨fun same => absurd (Option.some.inj same).symm different,
          fun active => by cases active⟩
  · intro atUs otherUs here there
    cases here
    refine .inr (tracked.ended found' (fun active => ?_) there)
    rw [(tracked.active other).mpr ⟨job', found', active⟩] at idle
    cases idle
  · have due : Job.due? engine.backend (Job.admittedAt ⟨request, .waiting, none⟩ engine.nowUs) =
        some ⟨.prefillComplete, engine.nowUs + engine.backend.prefillUs request, false⟩ := by
      unfold Job.due? Job.next? Job.admittedAt
      dsimp only
      rw [if_pos within, Backend.stepUs_zero]
      rfl
    rw [due]
    exact holds.congr rfl rfl rfl

/-- An idle engine admits the first waiting job, and any other none. -/
theorem startNextIfIdle_ensures (followed : engine.Followed jobs) :
    Ensures Exn.IsOverflow (fun next => ∃ jobs', Started engine jobs next jobs')
      engine.startNextIfIdle := by
  have tracked := followed.tracked
  have running := tracked.runningCount
  unfold startNextIfIdle
  cases slot : engine.activeRequestId with
  | some id =>
      rw [if_pos Option.isSome_some]
      exact ⟨jobs, .kept fun free => by rw [slot] at free; cases free⟩
  | none =>
      rw [slot] at running
      rw [if_neg nofun]
      dsimp only
      cases first : engine.scheduler.head? with
      | none =>
          have choice : engine.scheduler.chooseNextRequest =
              ⟨.noWork, none, engine.scheduler.epoch⟩ := by
            unfold FcfsScheduler.chooseNextRequest
            rw [first]
          rw [choice]
          dsimp only
          rw [throwIf_of_not (by simp), except_ok_bind]
          refine ⟨jobs, .kept fun _ id job found waits => ?_⟩
          have listed := followed.waits_mem found waits
          rw [FcfsScheduler.head?, List.head?_eq_none_iff] at first
          rw [OrdSet.mem_def, first] at listed
          cases listed
      | some key =>
          obtain ⟨member, least⟩ := OrdSet.head?_eq_some first
          obtain ⟨job, found, waits, same⟩ := followed.waits_iff.mp member
          have choice : engine.scheduler.chooseNextRequest =
              ⟨.admitRequest, some (ofLex key).2, engine.scheduler.epoch⟩ := by
            unfold FcfsScheduler.chooseNextRequest
            rw [first, running, tracked.capacity]
            rfl
          have admits := admitRequest_ensures followed slot (by rw [choice]) (by rw [choice]) found
            waits
          rw [choice] at admits ⊢
          refine admits.mono fun next stepped => ⟨_, .admitted slot found waits ?_ stepped⟩
          intro other job' found' waits'
          rw [same]
          exact least _ (followed.waits_mem found' waits')

/-! ## Cancelling -/

/-- What a cancellation writes to the scheduler's entries. -/
theorem cancelled_entries {scheduler scheduler' : FcfsScheduler} {timestampUs : Int}
    (change : FcfsScheduler.Change scheduler (.notifyCancelled id timestampUs) scheduler') :
    scheduler'.maxActiveRequests = scheduler.maxActiveRequests ∧
      scheduler'.entries = scheduler.entries.insert id
        { (scheduler.entries.find? id).getD ⟨timestampUs, .cancelled, false, none⟩ with
          state := .cancelled } := by
  cases change with
  | cancelledUnknown fresh =>
      rw [fresh]
      exact ⟨rfl, rfl⟩
  | cancelledWaiting found waits =>
      rw [found]
      exact ⟨rfl, rfl⟩
  | cancelledRunning found running some' =>
      rw [found]
      exact ⟨rfl, rfl⟩

theorem Followed.pending_type (followed : engine.Followed jobs)
    (found : jobs.find? id = some job) (alive : job.cancellation = none) :
    (engine.pendingEvents.find? id).map (·.type) =
      (job.next? engine.backend).map Prod.fst := by
  have pending := congrArg (Option.map Prod.fst) (followed.holds.pending id)
  unfold agendaOf Job.due? at pending
  rw [found, Option.map_map, Option.map_map, Option.bind_some, alive] at pending
  dsimp only at pending
  rw [Option.map_map] at pending
  exact pending

/-- The pending event of a live job fits its state. -/
theorem pendingFits_ok (followed : engine.Followed jobs) (found : jobs.find? id = some job)
    (live : job.Live) :
    pendingFits (job.record engine.backend).state (engine.pendingEvents.find? id) = .ok () := by
  have pending := followed.pending_type found live.1
  obtain ⟨request, position, _⟩ := job
  obtain ⟨rfl, within⟩ := live
  unfold pendingFits
  rw [pending, Job.record_state]
  unfold Job.next?
  cases position with
  | submitted => rfl
  | waiting => rfl
  | admitted atUs steps =>
      dsimp only
      rw [if_pos (within atUs steps rfl)]
      cases steps with
      | zero => rfl
      | succ k =>
          have more : ¬ k = request.maxNewTokens + 1 := by
            have := within atUs (k + 1) rfl
            dsimp only at this
            omega
          unfold Job.state
          dsimp only
          rw [if_neg nofun, if_neg more, Option.map_some, stepType_succ]
          by_cases zero : request.maxNewTokens = 0
          · rw [if_pos zero, if_neg (by omega)]
            rfl
          · rw [if_neg zero]
            by_cases before : k < request.maxNewTokens
            · rw [if_pos before]
              rfl
            · rw [if_neg before]
              rfl

/-- What a cancellation does before the slot is given away. -/
theorem cancelled_stepped (followed : engine.Followed jobs) (found : jobs.find? id = some job)
    (live : job.Live) {scheduler : FcfsScheduler}
    (change : FcfsScheduler.Change engine.scheduler (.notifyCancelled id engine.nowUs) scheduler)
    (consistent : scheduler.Consistent) :
    Stepped engine jobs id (job.cancelledAt engine.nowUs) { engine with
      scheduler
      requests := engine.requests.insert id
        { job.record engine.backend with state := .cancelled, finishTimeUs := some engine.nowUs }
      pendingEvents := engine.pendingEvents.modify id fun pending =>
        { pending with authorizedCancelledIgnore := true }
      activeRequestId :=
        if engine.activeRequestId = some id then none else engine.activeRequestId } := by
  have tracked := followed.tracked
  have valid := tracked.valid id job found
  have entry := tracked.entry found
  obtain ⟨capacity, entries⟩ := cancelled_entries change
  obtain ⟨request, position, _⟩ := job
  obtain ⟨rfl, within⟩ := live
  refine ⟨tracked.put rfl tracked.alive rfl rfl (tracked.ids id ⟨request, position, none⟩ found)
    ⟨valid.pristine, valid.arrival, valid.waiting, valid.admitted, ?_⟩ consistent
    (capacity.trans tracked.capacity) (fun other => ?_) (fun other => ?_)
    fun other job' different found' => ?_, ?_, Grown.of_events rfl rfl rfl rfl, rfl⟩
  · intro cancellation same
    cases same
    refine ⟨tracked.now, le_rfl, fun atUs steps same => ⟨within atUs steps same, ?_⟩, nofun⟩
    exact (valid.admitted atUs steps same).2.1
  · dsimp only
    rw [entries, OrdMap.find?_insert, entry]
    cases position with
    | submitted => rfl
    | waiting => rfl
    | admitted atUs steps => rfl
  · dsimp only
    by_cases mine : engine.activeRequestId = some id
    · rw [if_pos mine]
      split
      · exact ⟨nofun, fun active => by cases active.1⟩
      · next different =>
          rw [mine, Option.some.injEq]
          exact ⟨nofun, fun same => absurd same.symm different⟩
    · rw [if_neg mine]
      split
      · next same =>
          rw [same]
          exact ⟨fun taken => absurd taken mine, fun active => by cases active.1⟩
      · rfl
  · refine (tracked.apart id other _ _ different.symm found found').of_same rfl (.inl ?_)
    cases position with
    | submitted => rfl
    | waiting => rfl
    | admitted atUs steps => exact if_pos (within atUs steps rfl)
  · have due : Job.due? engine.backend (Job.cancelledAt ⟨request, position, none⟩ engine.nowUs) =
        (agendaOf engine.backend jobs id).map fun due => { due with ignored := true } := by
      unfold agendaOf
      rw [found, Option.bind_some]
      unfold Job.due? Job.cancelledAt
      dsimp only
      rw [if_neg Bool.false_ne_true, Option.map_map]
      rfl
    rw [due]
    exact (followed.holds.authorize id).congr rfl rfl rfl

/-- What a successful cancellation does. -/
structure Cancelled (engine : SimulationEngine) (jobs : OrdMap RequestId Job) (id : RequestId)
    (job : Job) (next : SimulationEngine) (jobs' : OrdMap RequestId Job) : Prop where
  found : jobs.find? id = some job
  live : job.Live
  /-- The slot is given away unless events are due at this time. -/
  started : ∃ middle, Stepped engine jobs id (job.cancelledAt engine.nowUs) middle ∧
    (¬ Quiet middle (jobs.insert id (job.cancelledAt engine.nowUs)) ∧ next = middle ∧
        jobs' = jobs.insert id (job.cancelledAt engine.nowUs) ∨
      Quiet middle (jobs.insert id (job.cancelledAt engine.nowUs)) ∧
        Started middle (jobs.insert id (job.cancelledAt engine.nowUs)) next jobs')

/-- A live job is cancelled. -/
theorem cancel_ensures (followed : engine.Followed jobs) (found : jobs.find? id = some job)
    (live : job.Live) :
    Ensures Exn.IsOverflow (fun next => ∃ jobs', Cancelled engine jobs id job next jobs')
      (engine.cancel id (job.record engine.backend)) := by
  have tracked := followed.tracked
  have valid := tracked.valid id job found
  have entry := tracked.entry found
  have accepts : engine.scheduler.Accepts (.notifyCancelled id engine.nowUs) := by
    refine ⟨tracked.now, fun entry' found' => ?_⟩
    rw [entry] at found'
    obtain ⟨request, position, _⟩ := job
    obtain ⟨rfl, within⟩ := live
    cases position with
    | submitted => cases found'
    | waiting =>
        cases found'
        exact .inl ⟨rfl, valid.waiting rfl⟩
    | admitted atUs steps =>
        cases found'
        refine .inr ⟨if_pos (within atUs steps rfl), fun admitted same => ?_⟩
        cases same
        exact (valid.admitted atUs steps rfl).2.1
  have legal : isLegalTransition (job.record engine.backend).state .cancelled = true := by
    have open' := valid.live_iff.mp live
    have reserved : job.state ≠ .preempted := Job.state_ne_preempted
    rw [Job.record_state]
    cases state : job.state <;> simp_all [isLegalTransition]
  unfold cancel
  rw [pendingFits_ok followed found live, except_ok_bind]
  refine (callScheduler_ensures tracked.scheduler accepts nofun).bind ?_
  rintro _ ⟨scheduler, rfl, change, consistent⟩
  rw [Request.transitionTo_eq_ok legal nofun, except_ok_bind]
  have stepped := cancelled_stepped followed found live change consistent
  have quiet_iff := stepped.followed.quiet_iff
  change Ensures _ _ (if (engine.events.top?.any fun top => top.timestampUs = engine.nowUs) = true
    then .ok _ else startNextIfIdle _)
  split
  · next pending =>
      refine ⟨_, found, live, _, stepped, .inl ⟨fun quiet => ?_, rfl, rfl⟩⟩
      exact absurd (quiet_iff.mpr quiet) (ne_false_of_eq_true pending)
  · next later =>
      refine (startNextIfIdle_ensures stepped.followed).mono fun next ⟨jobs', started⟩ => ?_
      exact ⟨jobs', found, live, _, stepped,
        .inr ⟨quiet_iff.mp (Bool.eq_false_iff.mpr later), started⟩⟩

/-! ## Submitting -/

/-- The job of a request that was just submitted. -/
def submitted (request : Request) : Job := ⟨request, .submitted, none⟩

/-- A new request is submitted with its arrival queued. -/
theorem submit_ensures (followed : engine.Followed jobs) (pristine : request.Pristine)
    (ahead : engine.nowUs ≤ request.arrivalTimeUs)
    (fresh : jobs.find? request.requestId = none) :
    Ensures Exn.IsOverflow (Stepped engine jobs request.requestId (submitted request))
      ((engine.writeRequest request.requestId request).scheduleRequestEvent
        request.arrivalTimeUs request.requestId .requestArrival) := by
  have tracked := followed.tracked
  have nonneg : 0 ≤ request.arrivalTimeUs := tracked.now.trans ahead
  have nothing : agendaOf engine.backend jobs request.requestId = none := by
    unfold agendaOf
    rw [fresh]
    rfl
  have holds : (engine.writeRequest request.requestId request).Holds
      (agendaOf engine.backend jobs) := followed.holds.congr rfl rfl rfl
  refine (holds.schedule nothing ahead nonneg).mono ?_
  rintro _ ⟨rfl, holds'⟩
  refine ⟨tracked.put rfl tracked.alive rfl ?_ rfl ⟨pristine, nonneg, nofun, nofun, nofun⟩
    tracked.scheduler tracked.capacity (fun other => ?_) (fun other => ?_)
    (fun _ _ _ _ => Apart.of_unadmitted rfl), holds', Grown.of_scheduled ahead rfl rfl rfl rfl,
    rfl⟩
  · refine congrArg (engine.requests.insert request.requestId) ?_
    obtain ⟨state, generated, admitted, first, token, finish⟩ := pristine
    obtain ⟨id, arrival, limit, _, _, _, _, _, _, prompt⟩ := request
    cases state
    cases generated
    cases admitted
    cases first
    cases token
    cases finish
    rfl
  · split
    · next same =>
        rw [same]
        exact (tracked.entries _).trans (by rw [fresh]; rfl)
    · rfl
  · split
    · next same =>
        rw [same]
        refine (tracked.active _).trans ⟨fun ⟨job, found, _⟩ => ?_, fun ⟨_, _, _, same, _⟩ => ?_⟩
        · rw [fresh] at found
          cases found
        · cases same
    · rfl

end SimulationEngine

end LlmLab.Serving
