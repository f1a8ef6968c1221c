import LlmLab.Serving.Simulation.Consistency

/-!
# The event log

The log is ordered by time and sequence, and the events that it holds for a request are its
timeline up to where the request is.
-/

namespace LlmLab.Serving

namespace SimulationEngine

variable {engine next : SimulationEngine} {jobs jobs' : OrdMap RequestId Job} {job : Job}
  {id : RequestId} {log : List Event} {found : Nat}

/-! ## The invariant -/

/-- The logged events of a request, with their times. -/
def eventsOf (log : List Event) (id : RequestId) : List (EventType × Int) :=
  (log.filter fun event => event.requestId = id).map fun event => (event.type, event.timestampUs)

/-- The log is ordered, it lies before everything queued, and it holds the timelines. -/
structure Logged (snapshot : Snapshot) : Prop where
  sorted : snapshot.log.Pairwise fun event other => event.key < other.key
  past : ∀ event ∈ snapshot.log, event.timestampUs ≤ snapshot.engine.nowUs ∧
    event.eventSequence < snapshot.engine.events.nextSequence
  before : ∀ event ∈ snapshot.log, ∀ key found,
    snapshot.engine.events.events.find? key = some found → event.key < key
  timelines : ∀ id, eventsOf snapshot.log id =
    (snapshot.jobs.find? id).elim [] (Job.timeline snapshot.engine.backend)

theorem eventsOf_append (event : Event) : eventsOf (log ++ [event]) id =
    eventsOf log id ++
      if event.requestId = id then [(event.type, event.timestampUs)] else [] := by
  unfold eventsOf
  rw [List.filter_append, List.map_append]
  by_cases same : event.requestId = id <;> simp [same]

/-- A key that is due now or later and was given out later comes after a logged event. -/
theorem key_lt {event : Event} {key : EventKey} (now : event.timestampUs ≤ (ofLex key).1)
    (later : event.eventSequence < (ofLex key).2) : event.key < key := by
  rw [Prod.Lex.lt_iff]
  rcases now.lt_or_eq with before | same
  · exact .inl before
  · exact .inr ⟨same, later⟩

/-- The timelines after one job was rewritten. -/
theorem timelines_put {backend : Backend}
    (timelines : ∀ id, eventsOf log id = (jobs.find? id).elim [] (Job.timeline backend))
    (same : job.timeline backend = (jobs.find? id).elim [] (Job.timeline backend))
    (other : RequestId) : eventsOf log other =
      ((jobs.insert id job).find? other).elim [] (Job.timeline backend) := by
  rw [timelines, OrdMap.find?_insert]
  split
  · next equal => rw [equal, ← same, Option.elim_some]
  · rfl

/-- An engine that grew keeps the log in order. -/
theorem Logged.grown (logged : Logged ⟨engine, jobs, log, found⟩) (grown : Grown engine next)
    (timelines : ∀ id, eventsOf log id =
      (jobs'.find? id).elim [] (Job.timeline engine.backend)) (found' : Nat) :
    Logged ⟨next, jobs', log, found'⟩ where
  sorted := logged.sorted
  past event member := by
    obtain ⟨now, sequence⟩ := logged.past event member
    exact ⟨grown.now ▸ now, sequence.trans_le grown.sequence⟩
  before event member key value queued := by
    rcases grown.queued key value queued with old | ⟨now, sequence, -⟩
    · exact logged.before event member key value old
    · obtain ⟨past, given⟩ := logged.past event member
      exact key_lt (past.trans now) (given.trans_le sequence)
  timelines := grown.backend ▸ timelines

/-- An event that leaves the queue comes before everything that stays or follows. -/
theorem Processed.first (followed : engine.Followed jobs) {event : Event} {logged : Bool}
    (processed : Processed engine jobs event job logged next) (key : EventKey)
    (value : RequestId × EventType) (queued : next.events.events.find? key = some value) :
    event.key < key := by
  obtain ⟨due, -, -, -, present⟩ := followed.holds.due_of_queued processed.isNext.queued
  have given : event.eventSequence < engine.events.nextSequence :=
    followed.holds.fresh _ _ present
  rcases processed.grown.queued key value queued with old | ⟨now, sequence, -⟩
  · dsimp only [Holds.popped] at old
    rw [OrdMap.find?_erase] at old
    split at old
    · cases old
    · next apart => exact lt_of_le_of_ne (processed.isNext.least key value old) (Ne.symm apart)
  · exact key_lt (processed.now.le.trans now) (given.trans_le sequence)

/-- Logging the next event keeps the log in order. -/
theorem Logged.processed (logged : Logged ⟨engine, jobs, log, found⟩)
    (followed : engine.Followed jobs) {event : Event} {kept : Bool}
    (processed : Processed engine jobs event job kept next) :
    Logged ⟨next, jobs.insert event.requestId job.moved, log ++ if kept then [event] else [],
      found⟩ := by
  have grown : Grown engine next :=
    { processed.grown with
      queued := fun key value queued => (processed.grown.queued key value queued).imp_left
        fun old => by
          dsimp only [Holds.popped] at old
          rw [OrdMap.find?_erase] at old
          split at old
          · cases old
          · exact old }
  have old : job.timeline engine.backend =
      (jobs.find? event.requestId).elim [] (Job.timeline engine.backend) := by
    rw [processed.found, Option.elim_some]
  obtain ⟨here, -⟩ := Job.due?_eq_some processed.due
  rcases processed.logged_cases with ⟨alive, rfl⟩ | ⟨atUs, cancelled, rfl⟩
  · have appended := Job.timeline_moved alive here
    obtain ⟨due, -, -, -, present⟩ := followed.holds.due_of_queued processed.isNext.queued
    have given : event.eventSequence < engine.events.nextSequence :=
      followed.holds.fresh _ _ present
    have base := logged.grown grown logged.timelines found
    rw [if_pos rfl]
    refine ⟨List.pairwise_append.mpr ⟨base.sorted, List.pairwise_singleton .., ?_⟩, ?_, ?_, ?_⟩
    · intro earlier member last same
      rw [List.mem_singleton] at same
      exact same ▸ logged.before earlier member _ _ processed.isNext.queued
    · intro other member
      rcases List.mem_append.mp member with earlier | last
      · exact base.past other earlier
      · rw [List.mem_singleton] at last
        subst last
        exact ⟨(processed.now.trans grown.now.symm).le, given.trans_le grown.sequence⟩
    · intro other member key value queued
      rcases List.mem_append.mp member with earlier | last
      · exact base.before other earlier key value queued
      · rw [List.mem_singleton] at last
        exact last ▸ processed.first followed key value queued
    · intro other
      dsimp only
      rw [eventsOf_append, logged.timelines, OrdMap.find?_insert, grown.backend]
      by_cases same : other = event.requestId
      · subst same
        rw [if_pos rfl, if_pos rfl, Option.elim_some, appended, processed.found]
        rfl
      · rw [if_neg same, if_neg (Ne.symm same), List.append_nil]
  · rw [if_neg Bool.false_ne_true, List.append_nil]
    have kept := (@Job.timeline_lost engine.backend job atUs cancelled).trans old
    exact logged.grown grown (timelines_put logged.timelines kept) found

/-- A move keeps the log in step with the timelines. -/
theorem Move.logged {before after : Snapshot} (move : Move before after)
    (followed : before.engine.Followed before.jobs) (logged : Logged before) : Logged after := by
  cases move with
  | turned turn =>
      cases turn with
      | advanced later _ _ =>
          refine ⟨logged.sorted, fun event member => ?_, logged.before, logged.timelines⟩
          obtain ⟨now, sequence⟩ := logged.past event member
          exact ⟨now.trans later, sequence⟩
      | processed processed => exact logged.processed followed processed
      | @admitted engine next jobs log found id job free present waits least quiet stepped =>
          refine logged.grown stepped.grown (timelines_put logged.timelines ?_) found
          obtain ⟨request, _, _⟩ := job
          obtain ⟨rfl, rfl⟩ := waits
          rw [present]
          rfl
      | committed => exact ⟨logged.sorted, logged.past, logged.before, logged.timelines⟩
  | @submitted engine next jobs log found request pristine ahead fresh stepped =>
      refine logged.grown stepped.grown (timelines_put logged.timelines ?_) found
      rw [fresh]
      rfl
  | cancelled present live stepped =>
      refine logged.grown stepped.grown (timelines_put logged.timelines ?_) _
      rw [present]
      rfl

/-! ## The shape of the log -/

/-- What the event log and the records of a run look like together. -/
structure LogShape (engine : SimulationEngine) : Prop where
  ordered : engine.eventLog.Pairwise fun event other => event.key < other.key
  known : ∀ event ∈ engine.eventLog, engine.requests.contains event.requestId = true
  finished : ∀ id request, engine.requests.find? id = some request → request.state = .finished →
    (eventsOf engine.eventLog id).map Prod.fst = lifecycle request.maxNewTokens
  cancelled : ∀ id request, engine.requests.find? id = some request →
    request.state = .cancelled →
    (eventsOf engine.eventLog id).map Prod.fst <+: lifecycle request.maxNewTokens ∧
      (eventsOf engine.eventLog id).map Prod.fst ≠ lifecycle request.maxNewTokens
  arrival : ∀ id request first, engine.requests.find? id = some request →
    (eventsOf engine.eventLog id).head? = some first → first.2 = request.arrivalTimeUs
  firstToken : ∀ id request, engine.requests.find? id = some request →
    ((eventsOf engine.eventLog id).find? fun event => event.1 = .decodeStepComplete).map
      Prod.snd = request.firstTokenTimeUs
  finish : ∀ id request finishUs, engine.requests.find? id = some request →
    (EventType.requestComplete, finishUs) ∈ eventsOf engine.eventLog id →
    request.finishTimeUs = some finishUs
  /-- The service intervals of two requests meet in at most an endpoint. -/
  apart : ∀ id other request request' admittedUs admittedUs' finishUs finishUs', id ≠ other →
    engine.requests.find? id = some request → engine.requests.find? other = some request' →
    request.admittedTimeUs = some admittedUs → request'.admittedTimeUs = some admittedUs' →
    request.finishTimeUs = some finishUs → request'.finishTimeUs = some finishUs' →
    finishUs ≤ admittedUs' ∨ finishUs' ≤ admittedUs

theorem length_lifecycle (outputs : Nat) : (lifecycle outputs).length = outputs + 3 := by
  simp [lifecycle]

/-- The log of the timelines has the shape of the specification. -/
theorem Followed.logShape (followed : engine.Followed jobs)
    (logged : Logged ⟨engine, jobs, engine.eventLog, found⟩) : engine.LogShape := by
  have tracked := followed.tracked
  have events : ∀ id job, jobs.find? id = some job →
      eventsOf engine.eventLog id = job.timeline engine.backend := fun id job present => by
    have timeline := logged.timelines id
    dsimp only at timeline
    rw [timeline, present, Option.elim_some]
  have record : ∀ id request, engine.requests.find? id = some request →
      ∃ job, jobs.find? id = some job ∧ request = job.record engine.backend ∧
        eventsOf engine.eventLog id = job.timeline engine.backend := fun id request found => by
    rw [tracked.requests] at found
    obtain ⟨job, present, rfl⟩ := Option.map_eq_some_iff.mp found
    exact ⟨job, present, rfl, events id job present⟩
  constructor
  case ordered => exact logged.sorted
  case known =>
    intro event member
    rw [OrdMap.contains_iff]
    have mine : (event.type, event.timestampUs) ∈ eventsOf engine.eventLog event.requestId :=
      List.mem_map.mpr ⟨event, List.mem_filter.mpr ⟨member, decide_eq_true rfl⟩, rfl⟩
    have timeline := logged.timelines event.requestId
    cases present : jobs.find? event.requestId with
    | none =>
        dsimp only at timeline
        rw [timeline, present] at mine
        cases mine
    | some job => exact ⟨_, by rw [tracked.requests, present]; rfl⟩
  case finished =>
    intro id request found state
    obtain ⟨job, present, rfl, events⟩ := record id request found
    have valid := tracked.valid id job present
    rw [events, valid.timeline_types, Job.timeline_finished state]
    exact List.take_of_length_le (length_lifecycle _).le
  case cancelled =>
    intro id request found state
    obtain ⟨job, present, rfl, events⟩ := record id request found
    have valid := tracked.valid id job present
    have short := valid.timeline_cancelled state
    rw [events, valid.timeline_types]
    refine ⟨List.take_prefix _ _, fun same => ?_⟩
    have lengths := congrArg List.length same
    rw [List.length_take, Job.record_maxNewTokens, length_lifecycle] at lengths
    omega
  case arrival =>
    intro id request first found head
    obtain ⟨job, present, rfl, events⟩ := record id request found
    rw [events] at head
    unfold Job.timeline at head
    split at head <;> cases head <;> rfl
  case firstToken =>
    intro id request found
    obtain ⟨job, present, rfl, events⟩ := record id request found
    rw [events]
    exact Job.timeline_firstToken
  case finish =>
    intro id request finishUs found member
    obtain ⟨job, present, rfl, events⟩ := record id request found
    rw [events] at member
    exact (tracked.valid id job present).timeline_finish member
  case apart =>
    intro id other request request' admittedUs admittedUs' finishUs finishUs' different found
      found' admitted admitted' finish finish'
    obtain ⟨job, present, rfl, -⟩ := record id request found
    obtain ⟨job', present', rfl, -⟩ := record other request' found'
    rcases tracked.apart id other job job' different present present' admittedUs admittedUs'
        admitted admitted' with ⟨ended, same, before⟩ | ⟨ended, same, before⟩
    · have finish : job.finishUs? engine.backend = some finishUs := finish
      rw [finish, Option.some.injEq] at same
      exact .inl (same ▸ before)
    · have finish' : job'.finishUs? engine.backend = some finishUs' := finish'
      rw [finish', Option.some.injEq] at same
      exact .inr (same ▸ before)

/-- The event log of every run without overflow has the shape of its requests' lives. -/
theorem simulation_log_shape {backend : Backend} (lawful : backend.Lawful)
    (calls : List SimulationCall) (fits : machine.Along Fits (fresh backend) calls) :
    (machine.run (fresh backend) calls).LogShape := by
  obtain ⟨jobs, followed, -, logged⟩ := runs_invariant
    (fun _ _ move followed logged => move.logged followed logged) lawful
    ⟨List.Pairwise.nil, nofun, nofun, fun _ => rfl⟩ fits
  exact followed.logShape logged

theorem simulation_log_shape_cancelled :
    (machine.run (fresh sampleBackend.toBackend) (cancelledRunning ++ [.run])).LogShape :=
  simulation_log_shape sampleBackend.lawful _ (by decide +kernel)

end SimulationEngine

end LlmLab.Serving
