import LlmLab.Serving.Simulation.Calls

/-!
# The engine stays consistent

Between any two calls the pending events are the queued events, the slot is the one request in
service, and no arrived request waits for a free slot; a run to the end leaves nothing behind.
-/

namespace LlmLab.Serving

namespace SimulationEngine

variable {engine next : SimulationEngine} {jobs jobs' : OrdMap RequestId Job} {job : Job}
  {id : RequestId}

/-! ## Statement -/

/-- The pending events and the queued events are in one-to-one correspondence. -/
structure Corresponds (engine : SimulationEngine) : Prop where
  queued : ∀ id pending, engine.pendingEvents.find? id = some pending → ∃ timestampUs,
    engine.events.events.find? (toLex (timestampUs, pending.eventSequence)) =
      some (id, pending.type)
  pending : ∀ timestampUs sequence id type,
    engine.events.events.find? (toLex (timestampUs, sequence)) = some (id, type) →
    ∃ pending, engine.pendingEvents.find? id = some pending ∧ pending.eventSequence = sequence ∧
      pending.type = type
  once : ∀ key other id type type', engine.events.events.find? key = some (id, type) →
    engine.events.events.find? other = some (id, type') → key = other

/-- What holds between two calls. -/
structure Consistent (engine : SimulationEngine) : Prop where
  alive : engine.failed = false
  corresponds : engine.Corresponds
  active : ∀ id, engine.activeRequestId = some id ↔ ∃ request,
    engine.requests.find? id = some request ∧
      (request.state = .prefilling ∨ request.state = .decoding)
  running : engine.scheduler.runningCount = if engine.activeRequestId.isSome then 1 else 0
  idle : (∀ key found, engine.events.events.find? key = some found →
      (ofLex key).1 ≠ engine.nowUs) →
    ∀ id request, engine.requests.find? id = some request → request.state = .waiting →
      request.arrivalTimeUs ≤ engine.nowUs → engine.activeRequestId ≠ none

/-- What a run to the end leaves behind. -/
structure Drained (engine : SimulationEngine) (found : Nat) : Prop where
  terminal : ∀ id request, engine.requests.find? id = some request →
    request.state = .finished ∨ request.state = .cancelled
  events : engine.events.events.entries = []
  pendingEvents : engine.pendingEvents.entries = []
  ignored : engine.ignoredCancelledEventCount = found

/-! ## The counters of cancellations -/

/-- The ignored events are the dropped ones, and the cancellations that found a pending event are
the interruptions. -/
structure Counted (snapshot : Snapshot) : Prop where
  ignored : snapshot.engine.ignoredCancelledEventCount =
    snapshot.jobs.total fun job => job.lost.toNat
  found : snapshot.found =
    snapshot.jobs.total fun job => (job.interrupted snapshot.engine.backend).toNat

/-- One job is rewritten and the counters follow. -/
theorem Counted.put {before after : Snapshot} (counted : Counted before)
    (backend : after.engine.backend = before.engine.backend)
    (jobs : after.jobs = before.jobs.insert id job)
    (ignored : after.engine.ignoredCancelledEventCount +
        (before.jobs.find? id).elim 0 (fun job => job.lost.toNat) =
      job.lost.toNat + before.engine.ignoredCancelledEventCount)
    (found : after.found + (before.jobs.find? id).elim 0
        (fun job => (job.interrupted before.engine.backend).toNat) =
      (job.interrupted before.engine.backend).toNat + before.found) : Counted after where
  ignored := by
    have sums := OrdMap.total_put (fun job => job.lost.toNat) before.jobs id job
    rw [counted.ignored] at ignored
    rw [jobs]
    omega
  found := by
    have sums := OrdMap.total_put
      (fun job => (job.interrupted before.engine.backend).toNat) before.jobs id job
    rw [counted.found] at found
    rw [jobs, backend]
    omega

/-- A move keeps the two counters of cancellations exact. -/
theorem Move.counted {before after : Snapshot} (move : Move before after)
    (followed : before.engine.Followed before.jobs) (counted : Counted before) :
    Counted after := by
  cases move with
  | turned turn =>
      cases turn with
      | advanced _ _ _ => exact ⟨counted.ignored, counted.found⟩
      | @processed engine next jobs log found event job logged processed =>
          have ignored := processed.ignored
          have cases := processed.logged_cases
          refine counted.put processed.grown.backend rfl ?_ ?_
          all_goals
            dsimp only
            rw [processed.found, Option.elim_some]
          all_goals
            obtain ⟨request, position, cancellation⟩ := job
            rcases cases with ⟨rfl, rfl⟩ | ⟨atUs, rfl, rfl⟩
          · have kept : Job.lost (Job.moved ⟨request, position, none⟩) = false := by
              cases position <;> rfl
            rw [kept, ignored]
            exact Nat.add_comm _ _
          · rw [ignored]
            exact Nat.add_comm engine.ignoredCancelledEventCount _
          · have kept : Job.interrupted engine.backend (Job.moved ⟨request, position, none⟩) =
                false := by
              cases position <;> rfl
            rw [kept]
            exact Nat.add_comm _ _
          · exact Nat.add_comm _ _
      | @admitted engine next jobs log found id job free present waits least quiet stepped =>
          obtain ⟨request, position, _⟩ := job
          obtain ⟨rfl, rfl⟩ := waits
          refine counted.put stepped.grown.backend rfl ?_ ?_
          all_goals
            dsimp only
            rw [present, Option.elim_some]
          · rw [stepped.ignored]
            exact Nat.add_comm _ _
          · exact Nat.add_comm _ _
      | committed => exact ⟨counted.ignored, counted.found⟩
  | @submitted engine next jobs log found request pristine ahead fresh stepped =>
      refine counted.put stepped.grown.backend rfl ?_ ?_
      all_goals
        dsimp only
        rw [fresh, Option.elim_none]
      · rw [stepped.ignored]
        exact Nat.add_comm _ _
      · exact Nat.add_comm _ _
  | @cancelled engine next jobs log found id job present live stepped =>
      have pending := congrArg Option.isSome (followed.pending_type present live.1)
      rw [Option.isSome_map, Option.isSome_map] at pending
      obtain ⟨request, position, _⟩ := job
      obtain ⟨rfl, -⟩ := live
      refine counted.put stepped.grown.backend rfl ?_ ?_
      all_goals
        dsimp only
        rw [present, Option.elim_some]
      · rw [stepped.ignored]
        exact Nat.add_comm _ _
      · have same : Job.interrupted engine.backend
            (Job.cancelledAt ⟨request, position, none⟩ engine.nowUs) =
            engine.pendingEvents.contains id := pending.symm
        rw [same]
        exact Nat.add_comm found _

/-! ## Between two calls -/

/-- The queue and the pending events of a followed engine correspond. -/
theorem Followed.corresponds (followed : engine.Followed jobs) : engine.Corresponds where
  queued id pending present := by
    have agenda := followed.holds.pending id
    rw [present, Option.map_some] at agenda
    obtain ⟨due, something, same⟩ := Option.map_eq_some_iff.mp agenda.symm
    rw [Prod.mk.injEq] at same
    exact ⟨due.timestampUs, (followed.holds.queued _ _ _).mpr
      ⟨pending, due, present, something, same.1, rfl⟩⟩
  pending timestampUs sequence id type queued := by
    obtain ⟨due, -, -, -, present⟩ := followed.holds.due_of_queued queued
    exact ⟨_, present, rfl, rfl⟩
  once key other id type type' queued queued' := by
    obtain ⟨pending, due, present, something, -, rfl⟩ :=
      (followed.holds.queued key id type).mp queued
    obtain ⟨pending', due', present', something', -, rfl⟩ :=
      (followed.holds.queued other id type').mp queued'
    rw [present, Option.some.injEq] at present'
    rw [something, Option.some.injEq] at something'
    rw [present', something']

/-- A followed engine is consistent between two calls. -/
theorem Followed.consistent (followed : engine.Followed jobs) (idle : Idle engine jobs) :
    engine.Consistent where
  alive := followed.tracked.alive
  corresponds := followed.corresponds
  active id := by
    rw [followed.tracked.active, followed.tracked.requests]
    constructor
    · rintro ⟨job, present, active⟩
      rw [present]
      exact ⟨_, rfl, (followed.tracked.valid id job present).active_iff.mp active⟩
    · rintro ⟨request, found, state⟩
      obtain ⟨job, present, rfl⟩ := Option.map_eq_some_iff.mp found
      exact ⟨job, present, (followed.tracked.valid id job present).active_iff.mpr state⟩
  running := followed.tracked.runningCount
  idle later id request found state arrived free := by
    have quiet : Quiet engine jobs := fun other due something => by
      obtain ⟨sequence, queued⟩ := followed.holds.queued_of_due something
      exact lt_of_le_of_ne (followed.holds.ahead other due something) (later _ _ queued).symm
    rw [followed.tracked.requests] at found
    obtain ⟨job, present, rfl⟩ := Option.map_eq_some_iff.mp found
    obtain ⟨alive, submitted | waiting⟩ := Job.state_waiting state
    · have due : agendaOf engine.backend jobs id =
          some ⟨.requestArrival, job.request.arrivalTimeUs, false⟩ := by
        unfold agendaOf Job.due? Job.next?
        rw [present, Option.bind_some, alive, submitted]
        rfl
      exact absurd (quiet id _ due) (not_lt.mpr arrived)
    · exact idle quiet free id job present ⟨waiting, alive⟩

/-- With an empty queue the ignored events are the cancellations that found one. -/
theorem Followed.drainedBy (followed : engine.Followed jobs) (idle : Idle engine jobs)
    (empty : engine.events.top? = none) {found : Nat} {log : List Event}
    (counted : Counted ⟨engine, jobs, log, found⟩) : engine.Drained found where
  terminal id request found := by
    rw [followed.tracked.requests] at found
    obtain ⟨job, present, rfl⟩ := Option.map_eq_some_iff.mp found
    have beyond := followed.ended idle empty present
    rw [(followed.tracked.valid id job present).live_iff, not_not] at beyond
    exact beyond
  events := by
    unfold EventQueue.top? at empty
    rw [Option.map_eq_none_iff, List.head?_eq_none_iff] at empty
    exact empty
  pendingEvents := OrdMap.entries_eq_nil fun id =>
    followed.holds.pending_none (followed.holds.top_none_iff.mp empty id)
  ignored := by
    have nothing := followed.holds.top_none_iff.mp empty
    refine counted.ignored.trans (Eq.trans ?_ counted.found.symm)
    refine OrdMap.total_congr fun id job present => congrArg Bool.toNat ?_
    -- A cancelled job lost its event exactly when it had one and none is due any more.
    have due := nothing id
    have valid := followed.tracked.valid id job present
    unfold agendaOf Job.due? at due
    rw [present, Option.bind_some] at due
    unfold Job.lost Job.interrupted
    cases cancellation : job.cancellation with
    | none => rfl
    | some cancelled =>
        rw [cancellation] at due
        dsimp only at due
        have had := (valid.cancelled cancelled cancellation).2.2.2
        cases dropped : cancelled.dropped with
        | true => simp [dropped, had dropped]
        | false =>
            rw [dropped, if_neg Bool.false_ne_true, Option.map_eq_none_iff] at due
            simp [dropped, due]

/-- Under any interleaving of calls without overflow the engine never fails and stays consistent;
a call throws only when it is refused, and then changes nothing; a run that returns has drained
the engine. -/
theorem simulation_consistent {backend : Backend} (lawful : backend.Lawful)
    (calls : List SimulationCall) (fits : machine.Along Fits (fresh backend) calls) :
    (machine.run (fresh backend) calls).Consistent ∧
      (∀ call error, ((machine.run (fresh backend) calls).apply call).1 = .error error →
        ¬ error.IsOverflow → Refused (machine.run (fresh backend) calls) call ∧
          ((machine.run (fresh backend) calls).apply call).2 =
            machine.run (fresh backend) calls) ∧
      ((machine.run (fresh backend) calls).run.1 = .ok () →
        (machine.run (fresh backend) calls).run.2.Drained
          (machine.tally (fun engine call => (findsPending engine call).toNat)
            (fresh backend) calls)) := by
  obtain ⟨jobs, followed, idle, counted⟩ := runs_invariant
    (fun _ _ move followed counted => move.counted followed counted) lawful ⟨rfl, rfl⟩ fits
  generalize machine.tally _ _ _ = found at counted ⊢
  generalize machine.run (fresh backend) calls = engine at *
  refine ⟨followed.consistent idle, fun call error failed fits => ?_, fun done => ?_⟩
  · have outcome := apply_outcome followed idle call
    generalize engine.apply call = result at outcome failed
    cases outcome with
    | overflowed overflow =>
        cases failed
        exact absurd overflow fits
    | refused refused => exact ⟨refused, rfl⟩
    | effected effect => cases failed
  · rcases run_outcome followed idle with ⟨error, next, -, result⟩ | ⟨next, jobs', result, ran, empty⟩
    · rw [result] at done
      cases done
    · rw [result]
      have counted' := (ran.turns found).invariant
        (fun _ _ turn followed counted => (Move.turned turn).counted followed counted)
        followed counted
      exact (ran.followed followed).drainedBy ran.idle empty counted'

/-- A backend whose prefills and decode steps take time. -/
def sampleBackend : SimulatedBackend :=
  ⟨{ prefillBaseUs := 5, prefillPerTokenUs := 1, decodeBaseUs := 2 }, by decide⟩

/-- A request of the samples. -/
def sampleRequest (requestId : RequestId) (arrivalTimeUs : Int) (promptLength maxNewTokens : Nat) :
    Request where
  requestId := requestId
  arrivalTimeUs := arrivalTimeUs
  maxNewTokens := maxNewTokens
  generatedTokenCount := 0
  state := .waiting
  admittedTimeUs := none
  firstScheduledTimeUs := none
  firstTokenTimeUs := none
  finishTimeUs := none
  prompt := .countOnly promptLength

/-- The running request is cancelled, so that the slot passes to the waiting one. -/
def cancelledRunning : List SimulationCall :=
  [.submitRequest (sampleRequest 7 0 3 2), .submitRequest (sampleRequest 4 1 1 0),
    .runNextTimestamp, .cancelRequest 7, .cancelRequest 7]

theorem simulation_consistent_cancelled :
    ((machine.run (fresh sampleBackend.toBackend) cancelledRunning).run.2).Drained 1 := by
  have drained := (simulation_consistent sampleBackend.lawful cancelledRunning
    (by decide +kernel)).2.2 (by decide +kernel)
  exact drained

end SimulationEngine

end LlmLab.Serving
