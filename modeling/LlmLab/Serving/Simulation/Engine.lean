import LlmLab.Serving.Backend
import LlmLab.Serving.Scheduler.Fcfs

/-!
# The single-active simulation engine

`event.h`, `simulation_clock.h` and `simulation_engine.cpp`: a clock, a queue of events by
`(timestamp, sequence)`, the requests with their pending events, and the scheduler.

An operation that throws inside its `try` block leaves the engine failed; what it had already
written is dropped here, since a failed engine serves no results.
-/

namespace LlmLab.Serving

inductive EventType where
  | requestArrival
  | prefillComplete
  | decodeStepComplete
  | requestComplete
deriving DecidableEq, Repr

structure Event where
  timestampUs : Int
  eventSequence : Nat
  requestId : RequestId
  type : EventType
deriving DecidableEq, Repr

/-- The order of `LaterEvent`: by timestamp, then by sequence. -/
abbrev EventKey := Int ×ₗ Nat

/-- The key of an event. -/
def Event.key (event : Event) : EventKey := toLex (event.timestampUs, event.eventSequence)

structure EventQueue where
  events : OrdMap EventKey (RequestId × EventType)
  nextSequence : Nat

namespace EventQueue

/-- `schedule`. -/
def schedule (queue : EventQueue) (timestampUs : Int) (requestId : RequestId) (type : EventType) :
    Except Exn (Nat × EventQueue) := do
  throwIf (timestampUs < 0) (.invalidArgument "event timestamp must be non-negative")
  throwIf (queue.nextSequence = uint64Max) (.overflowError "event sequence overflow")
  return (queue.nextSequence, {
    events := queue.events.insert (toLex (timestampUs, queue.nextSequence)) (requestId, type)
    nextSequence := queue.nextSequence + 1 })

/-- `top`, if there is one. -/
def top? (queue : EventQueue) : Option Event :=
  queue.events.entries.head?.map fun entry =>
    ⟨(ofLex entry.1).1, (ofLex entry.1).2, entry.2.1, entry.2.2⟩

/-- `pop`. -/
def pop (queue : EventQueue) : Except Exn (Event × EventQueue) :=
  match queue.top? with
  | none => .error (.logicError "cannot pop an empty event queue")
  | some event => .ok (event, { queue with events := queue.events.erase event.key })

end EventQueue

structure PendingEvent where
  eventSequence : Nat
  type : EventType
  authorizedCancelledIgnore : Bool
deriving DecidableEq

structure SimulationEngine where
  backend : Backend
  scheduler : FcfsScheduler
  nowUs : Int
  events : EventQueue
  requests : OrdMap RequestId Request
  pendingEvents : OrdMap RequestId PendingEvent
  activeRequestId : Option RequestId
  eventLog : List Event
  ignoredCancelledEventCount : Nat
  failed : Bool

namespace SimulationEngine

/-- An engine without requests. -/
def fresh (backend : Backend) : SimulationEngine where
  backend := backend
  scheduler := FcfsScheduler.fresh 1
  nowUs := 0
  events := ⟨OrdMap.empty, 0⟩
  requests := OrdMap.empty
  pendingEvents := OrdMap.empty
  activeRequestId := none
  eventLog := []
  ignoredCancelledEventCount := 0
  failed := false

/-- The constructor; the backend's own configuration is already validated. -/
def create (backend : Backend) (maxActiveRequests : Nat) : Except Exn SimulationEngine := do
  let scheduler ← FcfsScheduler.create maxActiveRequests
  throwIf (maxActiveRequests ≠ 1)
    (.invalidArgument "Phase S2 supports exactly one active request")
  return { fresh backend with scheduler }

/-- `advance_to` of the clock. -/
def advanceTo (engine : SimulationEngine) (timestampUs : Int) : Except Exn SimulationEngine := do
  throwIf (timestampUs < engine.nowUs)
    (.invalidArgument "simulation clock cannot move backwards")
  return { engine with nowUs := timestampUs }

/-- `mutable_request`. -/
def findRequest (engine : SimulationEngine) (requestId : RequestId) : Except Exn Request :=
  match engine.requests.find? requestId with
  | none => .error (.logicError "event references unknown request ID")
  | some request => .ok request

/-- Write a request record. -/
def writeRequest (engine : SimulationEngine) (requestId : RequestId) (request : Request) :
    SimulationEngine :=
  { engine with requests := engine.requests.insert requestId request }

/-- Call the scheduler. -/
def callScheduler (engine : SimulationEngine) (call : SchedulerCall) :
    Except Exn SimulationEngine :=
  match engine.scheduler.apply call with
  | (.ok (), scheduler) => .ok { engine with scheduler }
  | (.error error, _) => .error error

/-- `schedule_request_event`. -/
def scheduleRequestEvent (engine : SimulationEngine) (timestampUs : Int) (requestId : RequestId)
    (type : EventType) : Except Exn SimulationEngine := do
  throwIf (engine.pendingEvents.contains requestId = true)
    (.logicError "request already has a pending event")
  let (eventSequence, events) ← engine.events.schedule timestampUs requestId type
  return { engine with
    events
    pendingEvents := engine.pendingEvents.insert requestId
      { eventSequence, type, authorizedCancelledIgnore := false } }

/-- `schedule_after`. -/
def scheduleAfter (engine : SimulationEngine) (costUs : Int) (requestId : RequestId)
    (type : EventType) : Except Exn SimulationEngine := do
  throwIf (costUs < 0) (.logicError "backend returned a negative cost")
  let timestampUs ← checkedAdd engine.nowUs costUs
  engine.scheduleRequestEvent timestampUs requestId type

/-- The admission of `start_next_if_idle`, once the scheduler has decided for it. -/
def admitRequest (engine : SimulationEngine) (decision : SchedulerDecision) (id : RequestId) :
    Except Exn SimulationEngine := do
  let next ← engine.findRequest id
  throwIf (next.state ≠ .waiting ∨ next.arrivalTimeUs > engine.nowUs)
    (.logicError "scheduler selected an invalid waiting request")
  let prefillCost ← engine.backend.estimatePrefillUs next.promptLength 1
  let engine ← engine.scheduleAfter prefillCost id .prefillComplete
  let engine ← engine.callScheduler (.notifyAdmitted decision engine.nowUs)
  let next ← next.transitionTo .prefilling
  return { engine.writeRequest id { next with
      admittedTimeUs := some engine.nowUs, firstScheduledTimeUs := some engine.nowUs } with
    activeRequestId := some id }

/-- `start_next_if_idle`. -/
def startNextIfIdle (engine : SimulationEngine) : Except Exn SimulationEngine :=
  if engine.activeRequestId.isSome then .ok engine
  else
    let decision := engine.scheduler.chooseNextRequest
    match decision.kind with
    | .noWork => do
        throwIf (decision.requestId.isSome = true)
          (.logicError "NoWork decision contains a request ID")
        return engine
    | .capacityFull => do
        throwIf (decision.requestId.isSome = true)
          (.logicError "CapacityFull decision contains a request ID")
        .error (.logicError "scheduler reports capacity with no active request")
    | .admitRequest =>
        match decision.requestId with
        | none => .error (.logicError "scheduler admission decision has no request ID")
        | some id => engine.admitRequest decision id

/-- The `RequestArrival` branch of `process_event`. -/
def processArrival (engine : SimulationEngine) (id : RequestId) (current : Request) :
    Except Exn SimulationEngine := do
  throwIf (current.state ≠ .waiting ∨ current.admittedTimeUs.isSome = true)
    (.logicError "duplicate or stale arrival event")
  engine.callScheduler (.notifyArrival id current.arrivalTimeUs)

/-- The `PrefillComplete` branch of `process_event`. -/
def processPrefillComplete (engine : SimulationEngine) (id : RequestId) (current : Request) :
    Except Exn SimulationEngine := do
  throwIf (engine.activeRequestId ≠ some id ∨ current.state ≠ .prefilling)
    (.logicError "duplicate or stale prefill completion event")
  if current.maxNewTokens = 0 then
    engine.scheduleAfter 0 id .requestComplete
  else
    let decodeCost ← engine.backend.estimateDecodeStepUs 1
    let engine ← engine.scheduleAfter decodeCost id .decodeStepComplete
    let current ← current.transitionTo .decoding
    return engine.writeRequest id current

/-- The `DecodeStepComplete` branch of `process_event`. -/
def processDecodeStepComplete (engine : SimulationEngine) (id : RequestId) (current : Request) :
    Except Exn SimulationEngine := do
  throwIf (engine.activeRequestId ≠ some id ∨ current.state ≠ .decoding ∨
      current.generatedTokenCount ≥ current.maxNewTokens)
    (.logicError "duplicate or stale decode completion event")
  let engine ←
    if current.generatedTokenCount + 1 = current.maxNewTokens then
      engine.scheduleAfter 0 id .requestComplete
    else do
      let decodeCost ← engine.backend.estimateDecodeStepUs 1
      engine.scheduleAfter decodeCost id .decodeStepComplete
  return engine.writeRequest id { current with
    generatedTokenCount := current.generatedTokenCount + 1
    firstTokenTimeUs := current.firstTokenTimeUs.or (some engine.nowUs) }

/-- The `RequestComplete` branch of `process_event`. -/
def processRequestComplete (engine : SimulationEngine) (id : RequestId) (current : Request) :
    Except Exn SimulationEngine := do
  throwIf (engine.activeRequestId ≠ some id ∨
      (current.state ≠ .prefilling ∧ current.state ≠ .decoding) ∨
      current.generatedTokenCount ≠ current.maxNewTokens)
    (.logicError "duplicate or stale request completion event")
  let current ← current.transitionTo .finished
  let engine := engine.writeRequest id { current with finishTimeUs := some engine.nowUs }
  let engine ← engine.callScheduler (.notifyCompleted id engine.nowUs)
  return { engine with activeRequestId := none }

/-- The `switch` of `process_event`. -/
def processType (engine : SimulationEngine) (type : EventType) (id : RequestId)
    (current : Request) : Except Exn SimulationEngine :=
  match type with
  | .requestArrival => engine.processArrival id current
  | .prefillComplete => engine.processPrefillComplete id current
  | .decodeStepComplete => engine.processDecodeStepComplete id current
  | .requestComplete => engine.processRequestComplete id current

/-- `process_event`; the flag says whether the event is logged. -/
def processEvent (engine : SimulationEngine) (event : Event) :
    Except Exn (Bool × SimulationEngine) := do
  let current ← engine.findRequest event.requestId
  match engine.pendingEvents.find? event.requestId with
  | none => .error (.logicError "event does not match the request's pending event")
  | some pending =>
      throwIf (pending.eventSequence ≠ event.eventSequence ∨ pending.type ≠ event.type)
        (.logicError "event does not match the request's pending event")
      let erased :=
        { engine with pendingEvents := engine.pendingEvents.erase event.requestId }
      if pending.authorizedCancelledIgnore then
        throwIf (current.state ≠ .cancelled)
          (.logicError "cancelled-event authorization on active request")
        let ignoredCancelledEventCount ← inc engine.ignoredCancelledEventCount
          "ignored cancelled event count overflow"
        return (false, { erased with ignoredCancelledEventCount })
      else
        let next ← erased.processType event.type event.requestId current
        return (true, next)

/-- A bound on the events that the engine can still process. -/
def work (engine : SimulationEngine) : Nat :=
  engine.requests.total fun request => request.maxNewTokens + 3

/-- The loop of `run_next_timestamp`, with a bound on its iterations. -/
def processEvents (timestampUs : Int) : Nat → SimulationEngine → List Event →
    Except Exn (SimulationEngine × List Event)
  | 0, _, _ => .error (.runtimeError "iteration bound")
  | fuel + 1, engine, processed => do
      let (event, events) ← engine.events.pop
      let (logged, engine) ← processEvent { engine with events } event
      let processed := if logged then processed ++ [event] else processed
      if (engine.events.top?.any fun top => top.timestampUs = timestampUs) = true then
        processEvents timestampUs fuel engine processed
      else return (engine, processed)

/-- The `try` block of `run_next_timestamp`. -/
def processTimestamp (engine : SimulationEngine) (timestampUs : Int) :
    Except Exn SimulationEngine := do
  let engine ← engine.advanceTo timestampUs
  let (engine, processed) ← processEvents timestampUs engine.work engine []
  let engine ← engine.startNextIfIdle
  return { engine with eventLog := engine.eventLog ++ processed }

/-- Keep the result of a `try` block, or fail. -/
def orFail (engine : SimulationEngine) (result : Except Exn SimulationEngine) :
    Except Exn Unit × SimulationEngine :=
  match result with
  | .ok next => (.ok (), next)
  | .error error => (.error error, { engine with failed := true })

/-- `run_next_timestamp`. -/
def runNextTimestamp (engine : SimulationEngine) : Except Exn Bool × SimulationEngine :=
  if engine.failed then
    (.error (.logicError "cannot run a failed simulation engine"), engine)
  else
    match engine.events.top? with
    | none => (.ok false, engine)
    | some top =>
        let (outcome, next) := engine.orFail (engine.processTimestamp top.timestampUs)
        (outcome.map fun _ => true, next)

/-- The loop of `run`, with a bound on its iterations. -/
def runTimestamps : Nat → SimulationEngine → Except Exn Unit × SimulationEngine
  | 0, engine => (.error (.runtimeError "iteration bound"), engine)
  | fuel + 1, engine =>
      match engine.runNextTimestamp with
      | (.error error, next) => (.error error, next)
      | (.ok false, next) => (.ok (), next)
      | (.ok true, next) => runTimestamps fuel next

/-- `run`. -/
def run (engine : SimulationEngine) : Except Exn Unit × SimulationEngine :=
  if engine.failed then
    (.error (.logicError "cannot run a failed simulation engine"), engine)
  else
    match engine.runTimestamps (engine.work + 1) with
    | (.error error, next) => (.error error, next)
    | (.ok (), next) =>
        if next.activeRequestId.isSome ∨ next.scheduler.isEmpty = false ∨
            next.pendingEvents.entries ≠ [] then
          (.error (.logicError "simulation drained with unfinished work"),
            { next with failed := true })
        else (.ok (), next)

/-- `submit_request`. -/
def submitRequest (engine : SimulationEngine) (request : Request) :
    Except Exn Unit × SimulationEngine :=
  if engine.failed then
    (.error (.logicError "cannot submit to a failed simulation engine"), engine)
  else if ¬ request.Pristine then
    (.error (.invalidArgument "submitted request must be pristine"), engine)
  else if request.arrivalTimeUs < engine.nowUs then
    (.error (.invalidArgument "request arrival precedes current simulation time"), engine)
  else if engine.requests.contains request.requestId then
    (.error (.invalidArgument "duplicate request ID"), engine)
  else
    match (engine.writeRequest request.requestId request).scheduleRequestEvent
        request.arrivalTimeUs request.requestId .requestArrival with
    | .ok next => (.ok (), next)
    | .error error => (.error error, engine)

/-- Whether the pending event of a request fits its state, as `cancel_request` checks it. -/
def pendingFits (state : RequestState) (pending : Option PendingEvent) : Except Exn Unit :=
  match state, pending.map (·.type) with
  | .waiting, none => .ok ()
  | .waiting, some type => do
      throwIf (type ≠ .requestArrival)
        (.logicError "waiting request has unexpected pending event")
  | .prefilling, type => do
      throwIf (type ≠ some .prefillComplete ∧ type ≠ some .requestComplete)
        (.logicError "prefilling request has no valid pending event")
  | .decoding, type => do
      throwIf (type ≠ some .decodeStepComplete ∧ type ≠ some .requestComplete)
        (.logicError "decoding request has no valid pending event")
  | _, _ => .ok ()

/-- The event a cancelled request leaves in the queue is ignored when it comes, and the request
is no longer active. -/
def withdraw (engine : SimulationEngine) (requestId : RequestId) : SimulationEngine :=
  { engine with
    pendingEvents := engine.pendingEvents.modify requestId fun pending =>
      { pending with authorizedCancelledIgnore := true }
    activeRequestId :=
      if engine.activeRequestId = some requestId then none else engine.activeRequestId }

/-- A cancellation starts the next request unless more events of the same time are to come. -/
def startUnlessSimultaneous (engine : SimulationEngine) : Except Exn SimulationEngine :=
  if (engine.events.top?.any fun top => top.timestampUs = engine.nowUs) = true then .ok engine
  else engine.startNextIfIdle

/-- The `try` block of `cancel_request`. -/
def cancel (engine : SimulationEngine) (requestId : RequestId) (request : Request) :
    Except Exn SimulationEngine := do
  pendingFits request.state (engine.pendingEvents.find? requestId)
  let engine ← engine.callScheduler (.notifyCancelled requestId engine.nowUs)
  let cancelled ← request.transitionTo .cancelled
  ((engine.writeRequest requestId { cancelled with finishTimeUs := some engine.nowUs }).withdraw
    requestId).startUnlessSimultaneous

/-- `cancel_request`. -/
def cancelRequest (engine : SimulationEngine) (requestId : RequestId) :
    Except Exn Unit × SimulationEngine :=
  if engine.failed then
    (.error (.logicError "cannot cancel in a failed simulation engine"), engine)
  else
    match engine.requests.find? requestId with
    | none => (.error (.outOfRange "unknown request ID"), engine)
    | some request =>
        if request.state = .finished ∨ request.state = .cancelled then
          (.error (.logicError "terminal request cannot be cancelled"), engine)
        else if request.state = .preempted then
          (.error (.logicError "preempted requests are not implemented"), engine)
        else engine.orFail (engine.cancel requestId request)

end SimulationEngine

/-- A call of the engine. -/
inductive SimulationCall where
  | submitRequest (request : Request)
  | cancelRequest (requestId : RequestId)
  | runNextTimestamp
  | run

namespace SimulationEngine

/-- Make one call. -/
def apply (engine : SimulationEngine) : SimulationCall → Except Exn Unit × SimulationEngine
  | .submitRequest request => engine.submitRequest request
  | .cancelRequest requestId => engine.cancelRequest requestId
  | .runNextTimestamp => (engine.runNextTimestamp.1.map fun _ => (), engine.runNextTimestamp.2)
  | .run => engine.run

/-- The engine as a machine over its calls. -/
def machine : Machine SimulationEngine SimulationCall (Except Exn Unit) := ⟨apply⟩

end SimulationEngine

end LlmLab.Serving
