import LlmLab.Serving.Simulation.Turns

/-!
# The calls of the engine

`Effect` lists what a call does to an engine that follows its jobs: it is refused for one of the
documented reasons and changes nothing, or it succeeds.  Any other error is an overflow.
-/

namespace LlmLab.Serving

namespace SimulationEngine

variable {engine next : SimulationEngine} {jobs jobs' : OrdMap RequestId Job} {job : Job}
  {id : RequestId} {request : Request}

theorem Ran.refl (idle : Idle engine jobs) : Ran engine jobs engine jobs :=
  ⟨fun _ => .refl, idle⟩

theorem Ran.trans {last : SimulationEngine} {lastJobs : OrdMap RequestId Job}
    (ran : Ran engine jobs next jobs') (rest : Ran next jobs' last lastJobs) :
    Ran engine jobs last lastJobs :=
  ⟨fun found => (ran.turns found).trans (rest.turns found), rest.idle⟩

theorem Ran.followed (ran : Ran engine jobs next jobs') (followed : engine.Followed jobs) :
    next.Followed jobs' := (ran.turns 0).followed followed

/-! ## Draining -/

/-- With an empty queue every job has ended. -/
theorem Followed.ended (followed : engine.Followed jobs) (idle : Idle engine jobs)
    (drained : engine.events.top? = none) (present : jobs.find? id = some job) : ¬ job.Live := by
  have nothing := followed.holds.top_none_iff.mp drained
  have busy := idle fun id due something => by rw [nothing id] at something; cases something
  have free : engine.activeRequestId = none := by
    by_contra taken
    obtain ⟨id, slot⟩ := Option.ne_none_iff_exists'.mp taken
    obtain ⟨job, found, alive, atUs, steps, position, within⟩ :=
      (followed.tracked.active id).mp slot
    have due := nothing id
    unfold agendaOf Job.due? Job.next? at due
    rw [found, Option.bind_some, alive, position] at due
    dsimp only at due
    rw [if_pos within] at due
    cases due
  rintro ⟨alive, within⟩
  have due := nothing id
  unfold agendaOf Job.due? Job.next? at due
  rw [present, Option.bind_some, alive] at due
  cases position : job.position with
  | submitted =>
      rw [position] at due
      cases due
  | waiting => exact busy free id job present ⟨position, alive⟩
  | admitted atUs steps =>
      rw [position] at due
      dsimp only at due
      rw [if_pos (within atUs steps position)] at due
      cases due

/-- When no event is queued, nothing is active, waiting or pending. -/
theorem Followed.drained (followed : engine.Followed jobs) (idle : Idle engine jobs)
    (drained : engine.events.top? = none) :
    ¬ (engine.activeRequestId.isSome = true ∨ engine.scheduler.isEmpty = false ∨
      engine.pendingEvents.entries ≠ []) := by
  have beyond : ∀ id job, jobs.find? id = some job → ¬ job.Live := fun id job present =>
    followed.ended idle drained present
  have free : engine.activeRequestId = none := by
    by_contra taken
    obtain ⟨id, slot⟩ := Option.ne_none_iff_exists'.mp taken
    obtain ⟨job, found, alive, atUs, steps, position, within⟩ :=
      (followed.tracked.active id).mp slot
    refine beyond id job found ⟨alive, fun atUs' steps' same => ?_⟩
    rw [position, Position.admitted.injEq] at same
    omega
  have running := followed.tracked.runningCount
  rw [free] at running
  rintro (taken | waiting | pending)
  · rw [free] at taken
    cases taken
  · have nobody : engine.scheduler.waiting.elems = [] := by
      refine List.eq_nil_iff_forall_not_mem.mpr fun key member => ?_
      obtain ⟨job, found, waits, -⟩ := followed.waits_iff.mp member
      refine beyond _ job found ⟨waits.2, fun atUs steps same => ?_⟩
      rw [waits.1] at same
      cases same
    unfold FcfsScheduler.isEmpty at waiting
    rw [nobody, running] at waiting
    cases waiting
  · refine pending (OrdMap.entries_eq_nil fun id => ?_)
    exact followed.holds.pending_none (followed.holds.top_none_iff.mp drained id)

/-! ## Running -/

theorem runNextTimestamp_of_top_none (followed : engine.Followed jobs)
    (drained : engine.events.top? = none) : engine.runNextTimestamp = (.ok false, engine) := by
  unfold runNextTimestamp
  rw [if_neg (by rw [followed.tracked.alive]; exact nofun), drained]

/-- A timestamp with an event lowers what remains, unless it overflows. -/
theorem runNextTimestamp_of_top (followed : engine.Followed jobs) (idle : Idle engine jobs)
    {top : Event} (first : engine.events.top? = some top) :
    (∃ error, error.IsOverflow ∧
        engine.runNextTimestamp = (.error error, { engine with failed := true })) ∨
      ∃ next jobs', engine.runNextTimestamp = (.ok true, next) ∧ Ran engine jobs next jobs' ∧
        jobs'.total Job.remaining < jobs.total Job.remaining := by
  have timestamp := processTimestamp_ensures followed idle first
  unfold runNextTimestamp
  rw [if_neg (by rw [followed.tracked.alive]; exact nofun), first]
  dsimp only [orFail]
  cases result : engine.processTimestamp top.timestampUs with
  | error error =>
      exact .inl ⟨error, timestamp.of_eq_error result, rfl⟩
  | ok next =>
      obtain ⟨jobs', ran, less⟩ := timestamp.of_eq_ok result
      exact .inr ⟨next, jobs', rfl, ran, less⟩

/-- The loop of `run` empties the queue. -/
theorem runTimestamps_outcome {fuel : Nat} (followed : engine.Followed jobs)
    (idle : Idle engine jobs) (enough : jobs.total Job.remaining < fuel) :
    (∃ error next, error.IsOverflow ∧ engine.runTimestamps fuel = (.error error, next)) ∨
      ∃ next jobs', engine.runTimestamps fuel = (.ok (), next) ∧ Ran engine jobs next jobs' ∧
        next.events.top? = none := by
  induction fuel generalizing engine jobs with
  | zero => exact absurd enough (Nat.not_lt_zero _)
  | succ fuel ih =>
      unfold runTimestamps
      cases first : engine.events.top? with
      | none =>
          rw [runNextTimestamp_of_top_none followed first]
          exact .inr ⟨engine, jobs, rfl, .refl idle, first⟩
      | some top =>
          rcases runNextTimestamp_of_top followed idle first with
            ⟨error, overflow, result⟩ | ⟨next, jobs', result, ran, less⟩
          · rw [result]
            exact .inl ⟨error, _, overflow, rfl⟩
          · rw [result]
            rcases ih (ran.followed followed) ran.idle (by omega) with
              failed | ⟨last, lastJobs, result, rest, drained⟩
            · exact .inl failed
            · exact .inr ⟨last, lastJobs, result, ran.trans rest, drained⟩

theorem run_outcome (followed : engine.Followed jobs) (idle : Idle engine jobs) :
    (∃ error next, error.IsOverflow ∧ engine.run = (.error error, next)) ∨
      ∃ next jobs', engine.run = (.ok (), next) ∧ Ran engine jobs next jobs' ∧
        next.events.top? = none := by
  have enough := Nat.lt_succ_of_le followed.remaining_le_work
  unfold run
  rw [if_neg (by rw [followed.tracked.alive]; exact nofun)]
  rcases runTimestamps_outcome followed idle enough with
    ⟨error, next, overflow, result⟩ | ⟨next, jobs', result, ran, drained⟩
  · rw [result]
    exact .inl ⟨error, next, overflow, rfl⟩
  · rw [result]
    dsimp only
    rw [if_neg ((ran.followed followed).drained ran.idle drained)]
    exact .inr ⟨next, jobs', rfl, ran, drained⟩

/-! ## What a call does -/

/-- A call that is refused changes nothing, and only these are refused. -/
inductive Refused (engine : SimulationEngine) : SimulationCall → Prop
  | impure {request : Request} : ¬ request.Pristine → Refused engine (.submitRequest request)
  | late {request : Request} : request.arrivalTimeUs < engine.nowUs →
      Refused engine (.submitRequest request)
  | duplicate {request : Request} : engine.requests.contains request.requestId = true →
      Refused engine (.submitRequest request)
  | unknown {id : RequestId} : engine.requests.find? id = none → Refused engine (.cancelRequest id)
  | terminal {id : RequestId} {request : Request} : engine.requests.find? id = some request →
      request.state = .finished ∨ request.state = .cancelled → Refused engine (.cancelRequest id)

/-- What a successful call does. -/
inductive Effect (engine : SimulationEngine) (jobs : OrdMap RequestId Job) :
    SimulationCall → SimulationEngine → OrdMap RequestId Job → Prop
  | submitted {request : Request} {next : SimulationEngine} : request.Pristine →
      engine.nowUs ≤ request.arrivalTimeUs → jobs.find? request.requestId = none →
      Stepped engine jobs request.requestId (SimulationEngine.submitted request) next →
      Effect engine jobs (.submitRequest request) next
        (jobs.insert request.requestId (SimulationEngine.submitted request))
  | cancelled {id : RequestId} {job : Job} {next : SimulationEngine}
      {jobs' : OrdMap RequestId Job} : Cancelled engine jobs id job next jobs' →
      Effect engine jobs (.cancelRequest id) next jobs'
  | timestamp {next : SimulationEngine} {jobs' : OrdMap RequestId Job} :
      Ran engine jobs next jobs' → Effect engine jobs .runNextTimestamp next jobs'
  | run {next : SimulationEngine} {jobs' : OrdMap RequestId Job} : Ran engine jobs next jobs' →
      next.events.top? = none → Effect engine jobs .run next jobs'

/-- The outcome of a call: it overflows, is refused, or has its effect. -/
inductive CallOutcome (engine : SimulationEngine) (jobs : OrdMap RequestId Job)
    (call : SimulationCall) : Except Exn Unit × SimulationEngine → Prop
  | overflowed {error : Exn} {next : SimulationEngine} : error.IsOverflow →
      CallOutcome engine jobs call (.error error, next)
  | refused {error : Exn} : Refused engine call → CallOutcome engine jobs call (.error error, engine)
  | effected {next : SimulationEngine} {jobs' : OrdMap RequestId Job} :
      Effect engine jobs call next jobs' → CallOutcome engine jobs call (.ok (), next)

/-- What `submit_request` can do. -/
theorem submitRequest_outcome (followed : engine.Followed jobs) (request : Request) :
    CallOutcome engine jobs (.submitRequest request) (engine.submitRequest request) := by
  unfold submitRequest
  rw [if_neg (by rw [followed.tracked.alive]; exact nofun)]
  split
  · next impure => exact .refused (.impure impure)
  next pristine =>
  split
  · next late => exact .refused (.late late)
  next ahead =>
  split
  · next duplicate => exact .refused (.duplicate duplicate)
  next unknown =>
  have fresh : jobs.find? request.requestId = none := by
    rw [Bool.not_eq_true, OrdMap.contains_eq_false_iff, followed.tracked.requests,
      Option.map_eq_none_iff] at unknown
    exact unknown
  have submits := submit_ensures followed (not_not.mp pristine) (not_lt.mp ahead) fresh
  generalize (engine.writeRequest _ request).scheduleRequestEvent _ _ _ = result at submits
  cases result with
  | error error => exact .overflowed submits
  | ok next => exact .effected (.submitted (not_not.mp pristine) (not_lt.mp ahead) fresh submits)

/-- What `cancel_request` can do. -/
theorem cancelRequest_outcome (followed : engine.Followed jobs) (id : RequestId) :
    CallOutcome engine jobs (.cancelRequest id) (engine.cancelRequest id) := by
  have requests := followed.tracked.requests id
  unfold cancelRequest
  rw [if_neg (by rw [followed.tracked.alive]; exact nofun)]
  cases present : jobs.find? id with
  | none =>
      rw [present] at requests
      rw [requests]
      exact .refused (.unknown requests)
  | some job =>
      rw [present, Option.map_some] at requests
      rw [requests]
      dsimp only
      split
      · next beyond => exact .refused (.terminal requests beyond)
      next alive =>
      rw [Job.record_state, if_neg Job.state_ne_preempted]
      have live := (followed.tracked.valid id job present).live_iff.mpr alive
      have cancels := cancel_ensures followed present live
      cases result : engine.cancel id (job.record engine.backend) with
      | error error => exact .overflowed (cancels.of_eq_error result)
      | ok next =>
          obtain ⟨jobs', cancelled⟩ := cancels.of_eq_ok result
          exact .effected (.cancelled cancelled)

/-- What any call can do. -/
theorem apply_outcome (followed : engine.Followed jobs) (idle : Idle engine jobs)
    (call : SimulationCall) : CallOutcome engine jobs call (engine.apply call) := by
  cases call with
  | submitRequest request => exact submitRequest_outcome followed request
  | cancelRequest id => exact cancelRequest_outcome followed id
  | runNextTimestamp =>
      unfold apply
      cases first : engine.events.top? with
      | none =>
          rw [runNextTimestamp_of_top_none followed first]
          exact .effected (.timestamp (.refl idle))
      | some top =>
          rcases runNextTimestamp_of_top followed idle first with
            ⟨error, overflow, result⟩ | ⟨next, jobs', result, ran, -⟩
          · rw [result]
            exact .overflowed overflow
          · rw [result]
            exact .effected (.timestamp ran)
  | run =>
      unfold apply
      rcases run_outcome followed idle with
        ⟨error, next, overflow, result⟩ | ⟨next, jobs', result, ran, drained⟩
      · rw [result]
        exact .overflowed overflow
      · rw [result]
        exact .effected (.run ran drained)

/-! ## After a call -/

theorem Effect.followed {call : SimulationCall} (effect : Effect engine jobs call next jobs')
    (followed : engine.Followed jobs) : next.Followed jobs' := by
  cases effect with
  | submitted _ _ _ stepped => exact stepped.followed
  | cancelled cancelled =>
      obtain ⟨middle, stepped, ⟨-, rfl, rfl⟩ | ⟨-, started⟩⟩ := cancelled.started
      · exact stepped.followed
      · cases started with
        | kept _ => exact stepped.followed
        | admitted _ _ _ _ stepped' => exact stepped'.followed
  | timestamp ran => exact ran.followed followed
  | run ran _ => exact ran.followed followed

/-- A call leaves nobody waiting for a free slot. -/
theorem Effect.idle {call : SimulationCall} (effect : Effect engine jobs call next jobs')
    (followed : engine.Followed jobs) (idle : Idle engine jobs) : Idle next jobs' := by
  cases effect with
  | @submitted request _ pristine ahead fresh stepped =>
      intro quiet free id job present waits
      have quiet' : Quiet engine jobs := fun other due something => by
        have apart : other ≠ request.requestId := fun same => by
          unfold agendaOf at something
          rw [same, fresh] at something
          cases something
        refine stepped.grown.now ▸ quiet other due ?_
        unfold agendaOf at something ⊢
        rw [OrdMap.find?_insert, if_neg apart, stepped.grown.backend]
        exact something
      have free' : engine.activeRequestId = none := by
        by_contra taken
        obtain ⟨other, slot⟩ := Option.ne_none_iff_exists'.mp taken
        obtain ⟨job, found, active⟩ := (followed.tracked.active other).mp slot
        have apart : other ≠ request.requestId := fun same => by
          rw [same, fresh] at found
          cases found
        rw [(stepped.tracked.active other).mpr
          ⟨job, by rw [OrdMap.find?_insert, if_neg apart, found], active⟩] at free
        cases free
      rw [OrdMap.find?_insert] at present
      split at present
      · cases present
        cases waits.1
      · exact idle quiet' free' id job present waits
  | cancelled cancelled =>
      obtain ⟨middle, stepped, ⟨due, rfl, rfl⟩ | ⟨-, started⟩⟩ := cancelled.started
      · exact fun quiet => absurd quiet due
      · exact fun _ => started.busy
  | timestamp ran => exact ran.idle
  | run ran _ => exact ran.idle

/-- The calls of a run that do not overflow. -/
def Fits (engine : SimulationEngine) (call : SimulationCall) : Prop :=
  ∀ error, (engine.apply call).1 = .error error → ¬ error.IsOverflow

instance (engine : SimulationEngine) (call : SimulationCall) : Decidable (Fits engine call) :=
  match result : (engine.apply call).1 with
  | .ok () => .isTrue fun error failed => by rw [result] at failed; cases failed
  | .error error =>
      if overflow : error.IsOverflow then
        .isFalse fun fits => fits error result overflow
      else .isTrue fun error' failed => by
        rw [result, Except.error.injEq] at failed
        exact failed ▸ overflow

/-- A call that does not overflow is refused or has its effect. -/
theorem Fits.outcome {call : SimulationCall} (fits : Fits engine call)
    (followed : engine.Followed jobs) (idle : Idle engine jobs) :
    (Refused engine call ∧ (∃ error, (engine.apply call).1 = .error error) ∧
        machine.next engine call = engine) ∨
      ∃ jobs', Effect engine jobs call (machine.next engine call) jobs' ∧
        (engine.apply call).1 = .ok () := by
  have outcome := apply_outcome followed idle call
  unfold Fits at fits
  change _ ∧ _ ∧ (engine.apply call).2 = engine ∨
    ∃ jobs', Effect engine jobs call (engine.apply call).2 jobs' ∧ _
  generalize engine.apply call = result at outcome fits
  cases outcome with
  | overflowed overflow => exact absurd overflow (fits _ rfl)
  | @refused error refused => exact .inl ⟨refused, ⟨error, rfl⟩, rfl⟩
  | effected effect => exact .inr ⟨_, effect, rfl⟩

/-- Every engine of a run without overflow follows some jobs. -/
theorem fresh_followed {backend : Backend} (lawful : backend.Lawful) :
    (fresh backend).Followed OrdMap.empty where
  tracked :=
    { lawful
      alive := rfl
      now := le_rfl
      requests := fun _ => rfl
      ids := fun _ _ => nofun
      valid := fun _ _ => nofun
      scheduler := FcfsScheduler.fresh_consistent 1
      capacity := rfl
      entries := fun _ => rfl
      active := fun _ => ⟨nofun, fun ⟨_, found, _⟩ => by cases found⟩
      apart := fun _ _ _ _ _ found => by cases found }
  holds :=
    { pending := fun _ => rfl
      queued := fun _ _ _ => ⟨nofun, fun ⟨_, _, found, _⟩ => by cases found⟩
      distinct := fun _ _ _ _ found => by cases found
      fresh := fun _ _ found => by cases found
      ahead := fun _ _ something => by cases something }

theorem fresh_idle (backend : Backend) : Idle (fresh backend) OrdMap.empty :=
  fun _ _ _ _ found => by cases found

/-! ## Whole runs -/

/-- Whether a call is a cancellation that finds a pending event. -/
def findsPending (engine : SimulationEngine) (call : SimulationCall) : Bool :=
  match call with
  | .cancelRequest id =>
      (engine.apply call).1 = .ok () && engine.pendingEvents.contains id
  | _ => false

/-- Everything that can happen to an engine that follows its jobs. -/
inductive Move : Snapshot → Snapshot → Prop
  | turned {before after : Snapshot} : Turn before after → Move before after
  | submitted {engine next : SimulationEngine} {jobs : OrdMap RequestId Job} {log : List Event}
      {found : Nat} {request : Request} : request.Pristine →
      engine.nowUs ≤ request.arrivalTimeUs → jobs.find? request.requestId = none →
      Stepped engine jobs request.requestId (SimulationEngine.submitted request) next →
      Move ⟨engine, jobs, log, found⟩
        ⟨next, jobs.insert request.requestId (SimulationEngine.submitted request), log, found⟩
  | cancelled {engine next : SimulationEngine} {jobs : OrdMap RequestId Job} {log : List Event}
      {found : Nat} {id : RequestId} {job : Job} : jobs.find? id = some job → job.Live →
      Stepped engine jobs id (job.cancelledAt engine.nowUs) next →
      Move ⟨engine, jobs, log, found⟩ ⟨next, jobs.insert id (job.cancelledAt engine.nowUs), log,
        found + (engine.pendingEvents.contains id).toNat⟩

/-- An effect is a chain of moves. -/
theorem Effect.moves {call : SimulationCall} (effect : Effect engine jobs call next jobs')
    (done : (engine.apply call).1 = .ok ()) (found : Nat) :
    Relation.ReflTransGen Move ⟨engine, jobs, engine.eventLog, found⟩
      ⟨next, jobs', next.eventLog, found + (engine.findsPending call).toNat⟩ := by
  cases effect with
  | submitted pristine ahead fresh stepped =>
      rw [stepped.grown.log]
      exact .single (.submitted pristine ahead fresh stepped)
  | @cancelled id job _ _ cancelled =>
      have found_eq : engine.findsPending (.cancelRequest id) =
          engine.pendingEvents.contains id := by
        unfold findsPending
        rw [done]
        rfl
      obtain ⟨middle, stepped, rest⟩ := cancelled.started
      have move : Move ⟨engine, jobs, engine.eventLog, found⟩ _ :=
        .cancelled cancelled.found cancelled.live stepped
      rw [found_eq]
      rcases rest with ⟨-, rfl, rfl⟩ | ⟨quiet, started⟩
      · rw [stepped.grown.log]
        exact .single move
      · rw [started.eventLog, stepped.grown.log]
        exact .head move (Relation.ReflTransGen.mono (fun _ _ => .turned) _ _ (started.turns quiet))
  | timestamp ran =>
      exact Relation.ReflTransGen.mono (fun _ _ => .turned) _ _ (ran.turns found)
  | run ran _ => exact Relation.ReflTransGen.mono (fun _ _ => .turned) _ _ (ran.turns found)

theorem Move.followed {before after : Snapshot} (move : Move before after)
    (followed : before.engine.Followed before.jobs) : after.engine.Followed after.jobs := by
  cases move with
  | turned turn => exact turn.followed followed
  | submitted _ _ _ stepped => exact stepped.followed
  | cancelled _ _ stepped => exact stepped.followed

/-- What every move preserves holds at the end of every run that fits. -/
theorem runs_invariant {property : Snapshot → Prop}
    (preserved : ∀ before after, Move before after → before.engine.Followed before.jobs →
      property before → property after) {backend : Backend} (lawful : backend.Lawful)
    (start : property ⟨fresh backend, OrdMap.empty, [], 0⟩) {calls : List SimulationCall}
    (fits : machine.Along Fits (fresh backend) calls) : ∃ jobs,
      (machine.run (fresh backend) calls).Followed jobs ∧
        Idle (machine.run (fresh backend) calls) jobs ∧
        property ⟨machine.run (fresh backend) calls, jobs,
          (machine.run (fresh backend) calls).eventLog,
          machine.tally (fun engine call => (findsPending engine call).toNat)
            (fresh backend) calls⟩ := by
  have moves : ∀ before after, Relation.ReflTransGen Move before after →
      before.engine.Followed before.jobs → property before → property after := by
    intro before after moves followed holds
    suffices both : after.engine.Followed after.jobs ∧ property after from both.2
    induction moves with
    | refl => exact ⟨followed, holds⟩
    | tail _ move ih => exact ⟨move.followed ih.1, preserved _ _ move ih.1 ih.2⟩
  let Reached (engine : SimulationEngine) (found : Nat) : Prop := ∃ jobs, engine.Followed jobs ∧
    Idle engine jobs ∧ property ⟨engine, jobs, engine.eventLog, found⟩
  have step : ∀ engine call found, Reached engine found → Fits engine call →
      Reached (machine.next engine call) (found + (findsPending engine call).toNat) := by
    rintro engine call found ⟨jobs, followed, idle, holds⟩ fits
    rcases fits.outcome followed idle with ⟨refused, ⟨error, failed⟩, same⟩ | ⟨jobs', effect, done⟩
    · have nothing : findsPending engine call = false := by
        cases call with
        | cancelRequest id =>
            unfold findsPending
            rw [failed]
            rfl
        | _ => rfl
      rw [same, nothing]
      exact ⟨jobs, followed, idle, holds⟩
    · exact ⟨jobs', effect.followed followed, effect.idle followed idle,
        moves _ _ (effect.moves done found) followed holds⟩
  have reached := Machine.Along.tally step
    ⟨OrdMap.empty, fresh_followed lawful, fresh_idle backend, start⟩ fits
  rwa [Nat.zero_add] at reached

end SimulationEngine

end LlmLab.Serving
