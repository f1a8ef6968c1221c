import LlmLab.Lib.Machine
import LlmLab.Lib.OrdMap
import LlmLab.Serving.Request

/-!
# The FCFS scheduler

`scheduler.h` / `fcfs_scheduler.cpp`.  Every operation returns its outcome together with the
scheduler it leaves behind, which on a throw is the one at the throw.
-/

namespace LlmLab.Serving

inductive SchedulerDecisionKind where
  | admitRequest
  | noWork
  | capacityFull
deriving DecidableEq, Repr

structure SchedulerDecision where
  kind : SchedulerDecisionKind
  requestId : Option RequestId
  decisionEpoch : Nat
deriving DecidableEq, Repr

structure SchedulerStatistics where
  arrivedRequestCount : Nat := 0
  admittedRequestCount : Nat := 0
  completedRequestCount : Nat := 0
  cancelledRequestCount : Nat := 0
  maximumWaitingQueueDepth : Nat := 0
  totalQueueWaitTimeUs : Int := 0
deriving DecidableEq

/-- `FcfsScheduler::EntryState`. -/
inductive EntryState where
  | waiting
  | running
  | completed
  | cancelled
deriving DecidableEq, Repr

/-- `FcfsScheduler::Entry`. -/
structure Entry where
  arrivalTimeUs : Int
  state : EntryState
  hasArrived : Bool
  admittedTimeUs : Option Int
deriving DecidableEq

/-- `WaitingKey` in the order of `WaitingKeyLess`: by arrival, then by id. -/
abbrev WaitingKey := Int ×ₗ RequestId

structure FcfsScheduler where
  maxActiveRequests : Nat
  waiting : OrdSet WaitingKey
  entries : OrdMap RequestId Entry
  runningCount : Nat
  epoch : Nat
  statistics : SchedulerStatistics

namespace FcfsScheduler

/-- A scheduler without requests. -/
def fresh (maxActiveRequests : Nat) : FcfsScheduler where
  maxActiveRequests := maxActiveRequests
  waiting := OrdSet.empty
  entries := OrdMap.empty
  runningCount := 0
  epoch := 0
  statistics := {}

/-- The constructor. -/
def create (maxActiveRequests : Nat) : Except Exn FcfsScheduler :=
  if maxActiveRequests = 0 then
    .error (.invalidArgument "scheduler capacity must be positive")
  else .ok (fresh maxActiveRequests)

/-- `next_epoch`. -/
def nextEpoch (scheduler : FcfsScheduler) : Except Exn Nat :=
  inc scheduler.epoch "scheduler decision epoch overflow"

/-- The head of the waiting set. -/
def head? (scheduler : FcfsScheduler) : Option WaitingKey := scheduler.waiting.elems.head?

/-- `notify_arrival`. -/
def notifyArrival (scheduler : FcfsScheduler) (requestId : RequestId) (arrivalTimeUs : Int) :
    Except Exn Unit × FcfsScheduler :=
  if arrivalTimeUs < 0 then
    (.error (.invalidArgument "scheduler arrival time must be non-negative"), scheduler)
  else if scheduler.entries.contains requestId then
    (.error (.logicError "request was already known to scheduler"), scheduler)
  else if scheduler.statistics.arrivedRequestCount = uint64Max then
    (.error (.overflowError "arrived request count overflow"), scheduler)
  else
    match scheduler.nextEpoch with
    | .error error => (.error error, scheduler)
    | .ok newEpoch =>
        if toLex (arrivalTimeUs, requestId) ∈ scheduler.waiting then
          (.error (.logicError "duplicate FCFS waiting key"), scheduler)
        else
          let waiting := scheduler.waiting.insert (toLex (arrivalTimeUs, requestId))
          (.ok (), { scheduler with
            waiting
            entries := scheduler.entries.insert requestId
              { arrivalTimeUs, state := .waiting, hasArrived := true, admittedTimeUs := none }
            statistics := { scheduler.statistics with
              arrivedRequestCount := scheduler.statistics.arrivedRequestCount + 1
              maximumWaitingQueueDepth :=
                max scheduler.statistics.maximumWaitingQueueDepth waiting.size }
            epoch := newEpoch })

/-- `choose_next_request`. -/
def chooseNextRequest (scheduler : FcfsScheduler) : SchedulerDecision :=
  match scheduler.head? with
  | none => { kind := .noWork, requestId := none, decisionEpoch := scheduler.epoch }
  | some key =>
      if scheduler.runningCount ≥ scheduler.maxActiveRequests then
        { kind := .capacityFull, requestId := none, decisionEpoch := scheduler.epoch }
      else
        { kind := .admitRequest, requestId := some (ofLex key).2, decisionEpoch := scheduler.epoch }

/-- `notify_admitted`. -/
def notifyAdmitted (scheduler : FcfsScheduler) (decision : SchedulerDecision) (timestampUs : Int) :
    Except Exn Unit × FcfsScheduler :=
  if decision.kind ≠ .admitRequest then
    (.error (.logicError "scheduler decision is not an admission"), scheduler)
  else
    match decision.requestId with
    | none => (.error (.logicError "admission decision has no request ID"), scheduler)
    | some requestId =>
        if decision.decisionEpoch ≠ scheduler.epoch then
          (.error (.logicError "stale scheduler admission decision"), scheduler)
        else if (scheduler.head?.map fun key => (ofLex key).2) ≠ some requestId then
          (.error (.logicError "admission decision does not select FCFS head"), scheduler)
        else
          match scheduler.entries.find? requestId with
          | none => (.error (.logicError "request is unknown to scheduler"), scheduler)
          | some entry =>
              if entry.hasArrived = false ∨ entry.state ≠ .waiting then
                (.error (.logicError "request is not waiting for admission"), scheduler)
              else if scheduler.runningCount ≥ scheduler.maxActiveRequests then
                (.error (.logicError "scheduler admission exceeds capacity"), scheduler)
              else if timestampUs < entry.arrivalTimeUs then
                (.error (.logicError "request admitted before arrival"), scheduler)
              else
                match checkedAdd scheduler.statistics.totalQueueWaitTimeUs
                    (timestampUs - entry.arrivalTimeUs) with
                | .error error => (.error error, scheduler)
                | .ok newTotal =>
                    if scheduler.statistics.admittedRequestCount = uint64Max then
                      (.error (.overflowError "admitted request count overflow"), scheduler)
                    else
                      match scheduler.nextEpoch with
                      | .error error => (.error error, scheduler)
                      | .ok newEpoch =>
                          let key := toLex (entry.arrivalTimeUs, requestId)
                          let erased := { scheduler with waiting := scheduler.waiting.erase key }
                          if key ∉ scheduler.waiting then
                            (.error (.logicError "waiting request missing from FCFS order"), erased)
                          else
                            (.ok (), { erased with
                              entries := scheduler.entries.insert requestId
                                { entry with
                                  state := .running, admittedTimeUs := some timestampUs }
                              runningCount := scheduler.runningCount + 1
                              statistics := { scheduler.statistics with
                                admittedRequestCount :=
                                  scheduler.statistics.admittedRequestCount + 1
                                totalQueueWaitTimeUs := newTotal }
                              epoch := newEpoch })

/-- `notify_completed`. -/
def notifyCompleted (scheduler : FcfsScheduler) (requestId : RequestId) (timestampUs : Int) :
    Except Exn Unit × FcfsScheduler :=
  match scheduler.entries.find? requestId with
  | none => (.error (.logicError "request is unknown to scheduler"), scheduler)
  | some entry =>
      if entry.state ≠ .running ∨ scheduler.runningCount = 0 then
        (.error (.logicError "request is not running at completion"), scheduler)
      else if (entry.admittedTimeUs.all fun admitted => timestampUs < admitted) = true then
        (.error (.logicError "request completed before admission"), scheduler)
      else
        match scheduler.nextEpoch with
        | .error error => (.error error, scheduler)
        | .ok newEpoch =>
            match inc scheduler.statistics.completedRequestCount
                "completed request count overflow" with
            | .error error => (.error error, scheduler)
            | .ok completed =>
                (.ok (), { scheduler with
                  statistics := { scheduler.statistics with completedRequestCount := completed }
                  entries := scheduler.entries.insert requestId { entry with state := .completed }
                  runningCount := scheduler.runningCount - 1
                  epoch := newEpoch })

/-- The last writes of `notify_cancelled` on a known request. -/
def cancelEntry (scheduler : FcfsScheduler) (requestId : RequestId) (entry : Entry)
    (newEpoch : Nat) : FcfsScheduler :=
  { scheduler with
    statistics := { scheduler.statistics with
      cancelledRequestCount := scheduler.statistics.cancelledRequestCount + 1 }
    entries := scheduler.entries.insert requestId { entry with state := .cancelled }
    epoch := newEpoch }

/-- `notify_cancelled`. -/
def notifyCancelled (scheduler : FcfsScheduler) (requestId : RequestId) (timestampUs : Int) :
    Except Exn Unit × FcfsScheduler :=
  if timestampUs < 0 then
    (.error (.invalidArgument "scheduler cancellation time must be non-negative"), scheduler)
  else if scheduler.statistics.cancelledRequestCount = uint64Max then
    (.error (.overflowError "cancelled request count overflow"), scheduler)
  else
    match scheduler.nextEpoch with
    | .error error => (.error error, scheduler)
    | .ok newEpoch =>
        match scheduler.entries.find? requestId with
        | none =>
            (.ok (), scheduler.cancelEntry requestId
              { arrivalTimeUs := timestampUs, state := .cancelled, hasArrived := false
                admittedTimeUs := none } newEpoch)
        | some entry =>
            if entry.state = .completed ∨ entry.state = .cancelled then
              (.error (.logicError "terminal request cannot be cancelled"), scheduler)
            else if entry.state = .running ∧ entry.admittedTimeUs = none then
              (.error (.logicError "running request has no admission time"), scheduler)
            else if timestampUs < (if entry.state = .running then
                entry.admittedTimeUs.getD 0 else entry.arrivalTimeUs) then
              (.error (.logicError "request cancelled before its current state"), scheduler)
            else if entry.state = .waiting then
              let key := toLex (entry.arrivalTimeUs, requestId)
              let erased := { scheduler with waiting := scheduler.waiting.erase key }
              if key ∉ scheduler.waiting then
                (.error (.logicError "cancelled request missing from FCFS order"), erased)
              else (.ok (), erased.cancelEntry requestId entry newEpoch)
            else if scheduler.runningCount = 0 then
              (.error (.logicError "running scheduler count underflow"), scheduler)
            else
              (.ok (), { scheduler with
                runningCount := scheduler.runningCount - 1 }.cancelEntry requestId entry newEpoch)

/-- `empty`. -/
def isEmpty (scheduler : FcfsScheduler) : Bool :=
  scheduler.waiting.elems.isEmpty && scheduler.runningCount = 0

end FcfsScheduler

/-- A call of the scheduler, with arbitrary arguments. -/
inductive SchedulerCall where
  | notifyArrival (requestId : RequestId) (arrivalTimeUs : Int)
  | chooseNextRequest
  | notifyAdmitted (decision : SchedulerDecision) (timestampUs : Int)
  | notifyCompleted (requestId : RequestId) (timestampUs : Int)
  | notifyCancelled (requestId : RequestId) (timestampUs : Int)

namespace FcfsScheduler

/-- Make one call. -/
def apply (scheduler : FcfsScheduler) : SchedulerCall → Except Exn Unit × FcfsScheduler
  | .notifyArrival requestId arrivalTimeUs => scheduler.notifyArrival requestId arrivalTimeUs
  | .chooseNextRequest => (.ok (), scheduler)
  | .notifyAdmitted decision timestampUs => scheduler.notifyAdmitted decision timestampUs
  | .notifyCompleted requestId timestampUs => scheduler.notifyCompleted requestId timestampUs
  | .notifyCancelled requestId timestampUs => scheduler.notifyCancelled requestId timestampUs

/-- The scheduler as a machine over its calls. -/
def machine : Machine FcfsScheduler SchedulerCall (Except Exn Unit) := ⟨apply⟩

end FcfsScheduler

end LlmLab.Serving
