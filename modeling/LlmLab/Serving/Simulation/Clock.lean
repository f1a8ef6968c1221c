import LlmLab.Serving.Simulation.Engine

/-!
# The clock of the simulation

Every event lies in the range of a timestamp, since `schedule_after` adds the cost of a step to the
clock by `checked_add`; so does the clock, which only moves to the events.
-/

namespace LlmLab.Serving

namespace SimulationEngine

variable {engine : SimulationEngine} {id : RequestId} {timestampUs costUs : Int}

/-- The clock and the events of an engine fit their type. -/
structure Timed (engine : SimulationEngine) : Prop where
  now : engine.nowUs ≤ int64Max
  queue : ∀ key found, engine.events.events.find? key = some found → (ofLex key).1 ≤ int64Max

/-- A step whose results are timed. -/
abbrev KeepsTime (action : Except Exn SimulationEngine) : Prop :=
  Ensures (fun _ => True) Timed action

theorem fresh_timed (backend : Backend) : (fresh backend).Timed :=
  ⟨(by decide : (0 : Int) ≤ int64Max), fun _ _ found => by cases found⟩

theorem Timed.of_queue {next : SimulationEngine} (timed : engine.Timed)
    (now : next.nowUs = engine.nowUs) (events : next.events = engine.events) : next.Timed :=
  ⟨now ▸ timed.now, events ▸ timed.queue⟩

theorem Timed.top (timed : engine.Timed) {event : Event} (top : engine.events.top? = some event) :
    event.timestampUs ≤ int64Max := by
  obtain ⟨entry, first, rfl⟩ := Option.map_eq_some_iff.mp top
  exact timed.queue _ _ (OrdMap.find?_eq_some_iff.mpr (List.mem_of_mem_head? first))

theorem Timed.scheduleRequestEvent (timed : engine.Timed) (fits : timestampUs ≤ int64Max)
    (type : EventType) : KeepsTime (engine.scheduleRequestEvent timestampUs id type) := by
  unfold SimulationEngine.scheduleRequestEvent EventQueue.schedule
  refine .throwIf_bind (fun _ => True.intro) fun _ => ?_
  refine Ensures.bind (p := fun result => ∀ key found,
    result.2.events.find? key = some found → (ofLex key).1 ≤ int64Max) ?_ fun result queue => ?_
  · refine .throwIf_bind (fun _ => True.intro) fun _ => .throwIf_bind (fun _ => True.intro) fun _ => ?_
    intro key found present
    dsimp only at present
    rw [OrdMap.find?_insert] at present
    split at present
    · next same => exact same ▸ fits
    · exact timed.queue key found present
  · exact ⟨timed.now, queue⟩

theorem Timed.scheduleAfter (timed : engine.Timed) (type : EventType) :
    KeepsTime (engine.scheduleAfter costUs id type) := by
  unfold SimulationEngine.scheduleAfter
  refine .throwIf_bind (fun _ => True.intro) fun _ => ?_
  refine Ensures.bind_eq (.trivial (fun _ => True.intro) _) fun time added _ => ?_
  exact timed.scheduleRequestEvent (checkedAdd_le timed.now added) type

theorem Timed.callScheduler (timed : engine.Timed) (call : SchedulerCall) :
    KeepsTime (engine.callScheduler call) := by
  unfold SimulationEngine.callScheduler
  split
  · exact timed.of_queue rfl rfl
  · exact True.intro

theorem Timed.admitRequest (timed : engine.Timed) (decision : SchedulerDecision) :
    KeepsTime (engine.admitRequest decision id) := by
  unfold SimulationEngine.admitRequest
  refine Ensures.bind (.trivial (fun _ => True.intro) _) fun next _ => ?_
  refine .throwIf_bind (fun _ => True.intro) fun _ => ?_
  refine Ensures.bind (.trivial (fun _ => True.intro) _) fun cost _ => ?_
  refine Ensures.bind (timed.scheduleAfter _) fun scheduled timed => ?_
  refine Ensures.bind (timed.callScheduler _) fun notified timed => ?_
  refine Ensures.bind (.trivial (fun _ => True.intro) _) fun next _ => ?_
  exact timed.of_queue rfl rfl

theorem Timed.startNextIfIdle (timed : engine.Timed) : KeepsTime engine.startNextIfIdle := by
  unfold SimulationEngine.startNextIfIdle
  split
  · exact timed
  dsimp only
  split
  · exact .throwIf_bind (fun _ => True.intro) fun _ => timed
  · exact .throwIf_bind (fun _ => True.intro) fun _ => True.intro
  · split
    · exact True.intro
    · exact timed.admitRequest _

/-- Every branch of `process_event` keeps the clock, and schedules from it. -/
theorem Timed.processType (timed : engine.Timed) (type : EventType) (current : Request) :
    KeepsTime (engine.processType type id current) := by
  cases type with
  | requestArrival => exact .throwIf_bind (fun _ => True.intro) fun _ => timed.callScheduler _
  | prefillComplete =>
      refine .throwIf_bind (fun _ => True.intro) fun _ => ?_
      split
      · exact timed.scheduleAfter _
      · refine Ensures.bind (.trivial (fun _ => True.intro) _) fun cost _ => ?_
        refine Ensures.bind (timed.scheduleAfter _) fun scheduled timed => ?_
        exact Ensures.bind (.trivial (fun _ => True.intro) _) fun _ _ => timed.of_queue rfl rfl
  | decodeStepComplete =>
      refine .throwIf_bind (fun _ => True.intro) fun _ => ?_
      dsimp only
      split
      · exact Ensures.bind (timed.scheduleAfter _) fun _ timed => Timed.of_queue timed rfl rfl
      · refine Ensures.bind (.trivial (fun _ => True.intro) _) fun cost _ => ?_
        exact Ensures.bind (timed.scheduleAfter _) fun _ timed => Timed.of_queue timed rfl rfl
  | requestComplete =>
      refine .throwIf_bind (fun _ => True.intro) fun _ => ?_
      refine Ensures.bind (.trivial (fun _ => True.intro) _) fun current _ => ?_
      have written : (engine.writeRequest id { current with
          finishTimeUs := some engine.nowUs }).Timed := timed.of_queue rfl rfl
      exact Ensures.bind (written.callScheduler _) fun notified timed => timed.of_queue rfl rfl

theorem Timed.processEvent (timed : engine.Timed) (event : Event) :
    Ensures (fun _ => True) (fun result => result.2.Timed) (engine.processEvent event) := by
  unfold SimulationEngine.processEvent
  refine Ensures.bind (.trivial (fun _ => True.intro) _) fun current _ => ?_
  split
  · exact True.intro
  · refine .throwIf_bind (fun _ => True.intro) fun _ => ?_
    dsimp only
    split
    · refine .throwIf_bind (fun _ => True.intro) fun _ => ?_
      exact Ensures.bind (.trivial (fun _ => True.intro) _) fun _ _ => timed.of_queue rfl rfl
    · have erased : { engine with
          pendingEvents := engine.pendingEvents.erase event.requestId }.Timed :=
        timed.of_queue rfl rfl
      exact Ensures.bind (erased.processType _ _) fun _ timed => timed

/-- An event that is popped leaves the others. -/
theorem Timed.pop (timed : engine.Timed) :
    Ensures (fun _ => True) (fun result => { engine with events := result.2 }.Timed)
      engine.events.pop := by
  unfold EventQueue.pop
  split
  · exact True.intro
  · refine ⟨timed.now, fun key found present => ?_⟩
    dsimp only at present
    rw [OrdMap.find?_erase] at present
    split at present
    · cases present
    · exact timed.queue key found present

theorem Timed.processEvents (timed : engine.Timed) (fuel : Nat) (processed : List Event) :
    Ensures (fun _ => True) (fun result => result.1.Timed)
      (processEvents timestampUs fuel engine processed) := by
  induction fuel generalizing engine processed with
  | zero => exact True.intro
  | succ fuel ih =>
      unfold SimulationEngine.processEvents
      refine Ensures.bind timed.pop fun popped timed => ?_
      refine Ensures.bind (timed.processEvent _) fun result timed => ?_
      dsimp only
      split
      · exact ih timed _
      · exact timed

theorem Timed.processTimestamp (timed : engine.Timed) (fits : timestampUs ≤ int64Max) :
    KeepsTime (engine.processTimestamp timestampUs) := by
  unfold SimulationEngine.processTimestamp advanceTo
  refine Ensures.bind (p := Timed) ?_ fun advanced timed => ?_
  · exact .throwIf_bind (fun _ => True.intro) fun _ => ⟨fits, timed.queue⟩
  · refine Ensures.bind (timed.processEvents _ _) fun result timed => ?_
    exact Ensures.bind timed.startNextIfIdle fun _ timed => timed.of_queue rfl rfl

theorem Timed.runNextTimestamp (timed : engine.Timed) : engine.runNextTimestamp.2.Timed := by
  unfold SimulationEngine.runNextTimestamp
  split
  · exact timed
  · split
    · exact timed
    · next top first =>
        have step := timed.processTimestamp (timed.top first)
        dsimp only [orFail]
        cases result : engine.processTimestamp top.timestampUs with
        | error error => exact timed.of_queue rfl rfl
        | ok next => exact step.of_eq_ok result

theorem Timed.runTimestamps (timed : engine.Timed) (fuel : Nat) :
    (runTimestamps fuel engine).2.Timed := by
  induction fuel generalizing engine with
  | zero => exact timed
  | succ fuel ih =>
      have first := timed.runNextTimestamp
      unfold SimulationEngine.runTimestamps
      split
      · next result => rwa [result] at first
      · next result => rwa [result] at first
      · next result =>
          rw [result] at first
          exact ih first

/-- A run keeps the clock within its type. -/
theorem Timed.run (timed : engine.Timed) : engine.run.2.Timed := by
  have last := timed.runTimestamps (engine.work + 1)
  unfold SimulationEngine.run
  split
  · exact timed
  · split
    · next result => rwa [result] at last
    · next result =>
        rw [result] at last
        split
        · exact last.of_queue rfl rfl
        · exact last

theorem Timed.submitRequest (timed : engine.Timed) {request : Request}
    (fits : request.arrivalTimeUs ≤ int64Max) : (engine.submitRequest request).2.Timed := by
  have written : (engine.writeRequest request.requestId request).Timed := timed.of_queue rfl rfl
  unfold SimulationEngine.submitRequest
  split
  · exact timed
  split
  · exact timed
  split
  · exact timed
  split
  · exact timed
  split
  · next result => exact (written.scheduleRequestEvent fits .requestArrival).of_eq_ok result
  · exact timed

/-- Requests that arrive in range leave the clock of their run in range. -/
theorem runs_timed (backend : Backend) {requests : List Request}
    (arrivals : ∀ request ∈ requests, request.arrivalTimeUs ≤ int64Max) :
    (machine.run (fresh backend) (requests.map .submitRequest ++ [.run])).Timed := by
  have submitted : ∀ engine : SimulationEngine, engine.Timed →
      (machine.run engine (requests.map .submitRequest)).Timed := by
    induction requests with
    | nil => exact fun engine timed => timed
    | cons request requests ih =>
        rw [List.forall_mem_cons] at arrivals
        intro engine timed
        rw [List.map_cons, Machine.run_cons]
        exact ih arrivals.2 _ (timed.submitRequest arrivals.1)
  rw [Machine.run_append]
  exact (submitted _ (fresh_timed backend)).run

end SimulationEngine

end LlmLab.Serving
