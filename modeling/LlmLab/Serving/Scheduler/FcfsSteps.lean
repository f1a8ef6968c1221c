import LlmLab.Serving.Scheduler.Fcfs

/-!
# The steps of the scheduler

`Change` lists what a successful call does, and everything else leaves the scheduler as it is.
`Consistent` ties the waiting set and the counters to the entries; every change keeps it.
-/

namespace LlmLab.Serving

/-- How long an admitted entry waited. -/
def Entry.waitUs (entry : Entry) : Nat :=
  (entry.admittedTimeUs.elim 0 fun admitted => admitted - entry.arrivalTimeUs).toNat

namespace FcfsScheduler

variable {scheduler next : FcfsScheduler} {call : SchedulerCall} {requestId : RequestId}
  {entry : Entry}

/-! ## The invariant -/

/-- How many entries have a property. -/
def numberOf (scheduler : FcfsScheduler) (property : Entry → Bool) : Nat :=
  scheduler.entries.total fun entry => (property entry).toNat

/-- What each state of an entry says about its other fields. -/
structure EntryConsistent (entry : Entry) : Prop where
  waiting : entry.state = .waiting → entry.hasArrived = true ∧ entry.admittedTimeUs = none
  admitted : entry.state = .running ∨ entry.state = .completed → entry.admittedTimeUs ≠ none
  ordered : ∀ admitted, entry.admittedTimeUs = some admitted →
    entry.hasArrived = true ∧ entry.arrivalTimeUs ≤ admitted

/-- The waiting set is the set of the keys of the waiting entries. -/
def Lists (waiting : OrdSet WaitingKey) (entries : OrdMap RequestId Entry) : Prop :=
  ∀ arrivalTimeUs requestId, toLex (arrivalTimeUs, requestId) ∈ waiting ↔
    ∃ entry, entries.find? requestId = some entry ∧ entry.state = .waiting ∧
      entry.arrivalTimeUs = arrivalTimeUs

/-- The waiting set and the counters agree with the entries. -/
structure Consistent (scheduler : FcfsScheduler) : Prop where
  waiting : Lists scheduler.waiting scheduler.entries
  entry : ∀ requestId entry, scheduler.entries.find? requestId = some entry →
    EntryConsistent entry
  running : scheduler.runningCount = scheduler.numberOf (·.state = .running)
  capacity : scheduler.runningCount ≤ scheduler.maxActiveRequests
  arrived : scheduler.statistics.arrivedRequestCount = scheduler.numberOf (·.hasArrived)
  admitted : scheduler.statistics.admittedRequestCount =
    scheduler.numberOf (·.admittedTimeUs.isSome)
  completed : scheduler.statistics.completedRequestCount =
    scheduler.numberOf (·.state = .completed)
  cancelled : scheduler.statistics.cancelledRequestCount =
    scheduler.numberOf (·.state = .cancelled)
  waited : scheduler.statistics.totalQueueWaitTimeUs = scheduler.entries.total Entry.waitUs

theorem fresh_consistent (maxActiveRequests : Nat) : (fresh maxActiveRequests).Consistent where
  waiting arrivalTimeUs requestId := ⟨fun member => absurd member (OrdSet.not_mem_empty _),
    fun ⟨_, found, _⟩ => by cases found⟩
  entry requestId entry found := by cases found
  running := rfl
  capacity := Nat.zero_le _
  arrived := rfl
  admitted := rfl
  completed := rfl
  cancelled := rfl
  waited := rfl

/-- The calls that the scheduler is meant to accept. -/
def Accepts (scheduler : FcfsScheduler) : SchedulerCall → Prop
  | .notifyArrival requestId arrivalTimeUs =>
      0 ≤ arrivalTimeUs ∧ scheduler.entries.find? requestId = none
  | .chooseNextRequest => True
  | .notifyAdmitted decision timestampUs =>
      decision = scheduler.chooseNextRequest ∧ decision.kind = .admitRequest ∧
        ∀ requestId entry, decision.requestId = some requestId →
          scheduler.entries.find? requestId = some entry → entry.arrivalTimeUs ≤ timestampUs
  | .notifyCompleted requestId timestampUs =>
      ∃ entry, scheduler.entries.find? requestId = some entry ∧ entry.state = .running ∧
        ∀ admitted, entry.admittedTimeUs = some admitted → admitted ≤ timestampUs
  | .notifyCancelled requestId timestampUs =>
      0 ≤ timestampUs ∧ ∀ entry, scheduler.entries.find? requestId = some entry →
        (entry.state = .waiting ∧ entry.arrivalTimeUs ≤ timestampUs) ∨
          (entry.state = .running ∧
            ∀ admitted, entry.admittedTimeUs = some admitted → admitted ≤ timestampUs)

/-! ## What a call does -/

/-- The effect of a successful call other than a choice. -/
inductive Change (scheduler : FcfsScheduler) : SchedulerCall → FcfsScheduler → Prop
  | arrived {requestId : RequestId} {arrivalTimeUs : Int} :
      scheduler.entries.find? requestId = none → 0 ≤ arrivalTimeUs →
      Change scheduler (.notifyArrival requestId arrivalTimeUs) { scheduler with
        waiting := scheduler.waiting.insert (toLex (arrivalTimeUs, requestId))
        entries := scheduler.entries.insert requestId
          { arrivalTimeUs, state := .waiting, hasArrived := true, admittedTimeUs := none }
        statistics := { scheduler.statistics with
          arrivedRequestCount := scheduler.statistics.arrivedRequestCount + 1
          maximumWaitingQueueDepth := max scheduler.statistics.maximumWaitingQueueDepth
            (scheduler.waiting.insert (toLex (arrivalTimeUs, requestId))).size }
        epoch := scheduler.epoch + 1 }
  | admitted {requestId : RequestId} {entry : Entry} {timestampUs : Int} :
      scheduler.chooseNextRequest.requestId = some requestId →
      scheduler.entries.find? requestId = some entry → entry.state = .waiting →
      entry.hasArrived = true → entry.arrivalTimeUs ≤ timestampUs →
      scheduler.runningCount < scheduler.maxActiveRequests →
      Change scheduler (.notifyAdmitted scheduler.chooseNextRequest timestampUs) { scheduler with
        waiting := scheduler.waiting.erase (toLex (entry.arrivalTimeUs, requestId))
        entries := scheduler.entries.insert requestId
          { entry with state := .running, admittedTimeUs := some timestampUs }
        runningCount := scheduler.runningCount + 1
        statistics := { scheduler.statistics with
          admittedRequestCount := scheduler.statistics.admittedRequestCount + 1
          totalQueueWaitTimeUs := scheduler.statistics.totalQueueWaitTimeUs +
            (timestampUs - entry.arrivalTimeUs) }
        epoch := scheduler.epoch + 1 }
  | completed {requestId : RequestId} {entry : Entry} {timestampUs : Int} :
      scheduler.entries.find? requestId = some entry → entry.state = .running →
      scheduler.runningCount ≠ 0 →
      Change scheduler (.notifyCompleted requestId timestampUs) { scheduler with
        statistics := { scheduler.statistics with
          completedRequestCount := scheduler.statistics.completedRequestCount + 1 }
        entries := scheduler.entries.insert requestId { entry with state := .completed }
        runningCount := scheduler.runningCount - 1
        epoch := scheduler.epoch + 1 }
  | cancelledUnknown {requestId : RequestId} {timestampUs : Int} :
      scheduler.entries.find? requestId = none →
      Change scheduler (.notifyCancelled requestId timestampUs) (scheduler.cancelEntry requestId
        { arrivalTimeUs := timestampUs, state := .cancelled, hasArrived := false
          admittedTimeUs := none } (scheduler.epoch + 1))
  | cancelledWaiting {requestId : RequestId} {entry : Entry} {timestampUs : Int} :
      scheduler.entries.find? requestId = some entry → entry.state = .waiting →
      Change scheduler (.notifyCancelled requestId timestampUs) ({ scheduler with
        waiting := scheduler.waiting.erase (toLex (entry.arrivalTimeUs, requestId)) }.cancelEntry
          requestId entry (scheduler.epoch + 1))
  | cancelledRunning {requestId : RequestId} {entry : Entry} {timestampUs : Int} :
      scheduler.entries.find? requestId = some entry → entry.state = .running →
      scheduler.runningCount ≠ 0 →
      Change scheduler (.notifyCancelled requestId timestampUs) ({ scheduler with
        runningCount := scheduler.runningCount - 1 }.cancelEntry requestId entry
          (scheduler.epoch + 1))

/-- A call throws and changes nothing, or succeeds with its change; an accepted call of a
consistent scheduler only throws on an overflow. -/
inductive CallOutcome (scheduler : FcfsScheduler) (call : SchedulerCall) :
    Except Exn Unit × FcfsScheduler → Prop
  | threw {error : Exn} :
      (scheduler.Consistent → scheduler.Accepts call → error.IsOverflow) →
      CallOutcome scheduler call (.error error, scheduler)
  | chose : call = .chooseNextRequest → CallOutcome scheduler call (.ok (), scheduler)
  | changed {next : FcfsScheduler} : Change scheduler call next →
      CallOutcome scheduler call (.ok (), next)

theorem nextEpoch_ensures :
    Ensures Exn.IsOverflow (fun newEpoch => newEpoch = scheduler.epoch + 1) scheduler.nextEpoch :=
  inc_ensures _ _

/-- A decision to admit names the head of the waiting set. -/
theorem chooseNextRequest_admits (admits : scheduler.chooseNextRequest.kind = .admitRequest) :
    ∃ key, scheduler.head? = some key ∧ scheduler.runningCount < scheduler.maxActiveRequests ∧
      scheduler.chooseNextRequest = { kind := .admitRequest, requestId := some (ofLex key).2
                                      decisionEpoch := scheduler.epoch } := by
  unfold chooseNextRequest at admits ⊢
  cases first : scheduler.head? with
  | none => simp [first] at admits
  | some key =>
      simp only [first] at admits
      dsimp only
      split at admits
      · cases admits
      · next room => exact ⟨key, rfl, not_le.mp room, if_neg room⟩

theorem Consistent.head (consistent : scheduler.Consistent) {key : WaitingKey}
    (first : scheduler.head? = some key) : ∃ entry,
      scheduler.entries.find? (ofLex key).2 = some entry ∧ entry.state = .waiting ∧
        entry.arrivalTimeUs = (ofLex key).1 :=
  (consistent.waiting _ _).mp (OrdSet.head?_eq_some first).1

theorem Consistent.running_pos (consistent : scheduler.Consistent)
    (found : scheduler.entries.find? requestId = some entry) (running : entry.state = .running) :
    scheduler.runningCount ≠ 0 := by
  have counted := OrdMap.le_total (fun entry : Entry => (decide (entry.state = .running)).toNat) found
  simp only [running, decide_true, Bool.toNat_true] at counted
  rw [consistent.running]
  exact Nat.one_le_iff_ne_zero.mp counted

/-- What `notify_arrival` can do. -/
theorem notifyArrival_outcome (requestId : RequestId) (arrivalTimeUs : Int) :
    CallOutcome scheduler (.notifyArrival requestId arrivalTimeUs)
      (scheduler.notifyArrival requestId arrivalTimeUs) := by
  unfold notifyArrival
  split
  · next negative => exact .threw fun _ accepts => absurd accepts.1 (not_le.mpr negative)
  next nonneg =>
  split
  · next known =>
      refine .threw fun _ accepts => ?_
      rw [OrdMap.contains_eq_false_iff.mpr accepts.2] at known
      cases known
  next unknown =>
  rw [Bool.not_eq_true, OrdMap.contains_eq_false_iff] at unknown
  split
  · exact .threw fun _ _ => trivial
  have epochs := @nextEpoch_ensures scheduler
  cases epoch : scheduler.nextEpoch with
  | error error => exact .threw fun _ _ => epochs.of_eq_error epoch
  | ok newEpoch =>
      dsimp only
      split
      · next duplicate =>
          refine .threw fun consistent _ => ?_
          obtain ⟨entry, found, -⟩ := (consistent.waiting _ _).mp duplicate
          rw [unknown] at found
          cases found
      · rw [epochs.of_eq_ok epoch]
        exact .changed (.arrived unknown (not_lt.mp nonneg))

/-- What `notify_admitted` can do. -/
theorem notifyAdmitted_outcome (decision : SchedulerDecision) (timestampUs : Int) :
    CallOutcome scheduler (.notifyAdmitted decision timestampUs)
      (scheduler.notifyAdmitted decision timestampUs) := by
  -- The guards hold for the decision of a consistent scheduler.
  have accepted : scheduler.Consistent →
      scheduler.Accepts (.notifyAdmitted decision timestampUs) → ∃ key entry,
        scheduler.head? = some key ∧ scheduler.runningCount < scheduler.maxActiveRequests ∧
        decision = { kind := .admitRequest, requestId := some (ofLex key).2
                     decisionEpoch := scheduler.epoch } ∧
        scheduler.entries.find? (ofLex key).2 = some entry ∧ entry.state = .waiting ∧
        entry.arrivalTimeUs = (ofLex key).1 ∧ entry.hasArrived = true ∧
        entry.arrivalTimeUs ≤ timestampUs := by
    rintro consistent ⟨same, admits, later⟩
    obtain ⟨key, first, room, choice⟩ := chooseNextRequest_admits (same ▸ admits)
    obtain ⟨entry, found, waiting, arrival⟩ := consistent.head first
    rw [choice] at same
    exact ⟨key, entry, first, room, same, found, waiting, arrival,
      ((consistent.entry _ _ found).waiting waiting).1, later _ _ (by rw [same]) found⟩
  unfold notifyAdmitted
  split
  · next other =>
      refine .threw fun consistent accepts => ?_
      obtain ⟨key, entry, -, -, rfl, -⟩ := accepted consistent accepts
      exact absurd rfl other
  next kind =>
  split
  · next unnamed =>
      refine .threw fun consistent accepts => ?_
      obtain ⟨key, entry, -, -, rfl, -⟩ := accepted consistent accepts
      cases unnamed
  next requestId named =>
  split
  · next stale =>
      refine .threw fun consistent accepts => ?_
      obtain ⟨key, entry, -, -, rfl, -⟩ := accepted consistent accepts
      exact absurd rfl stale
  next current =>
  split
  · next other =>
      refine .threw fun consistent accepts => ?_
      obtain ⟨key, entry, first, -, rfl, -⟩ := accepted consistent accepts
      rw [first] at other
      exact absurd named other
  next head =>
  rw [not_not] at head
  obtain ⟨key, first, same⟩ := Option.map_eq_some_iff.mp head
  subst same
  split
  · next unknown =>
      refine .threw fun consistent _ => ?_
      obtain ⟨entry, found, -⟩ := consistent.head first
      rw [unknown] at found
      cases found
  next entry found =>
  have same : scheduler.Consistent → scheduler.Accepts (.notifyAdmitted decision timestampUs) →
      scheduler.runningCount < scheduler.maxActiveRequests ∧ entry.state = .waiting ∧
        entry.arrivalTimeUs = (ofLex key).1 ∧ entry.hasArrived = true ∧
        entry.arrivalTimeUs ≤ timestampUs := by
    intro consistent accepts
    obtain ⟨key', entry', first', room, -, found', rest⟩ := accepted consistent accepts
    rw [first, Option.some.injEq] at first'
    subst first'
    rw [found, Option.some.injEq] at found'
    subst found'
    exact ⟨room, rest⟩
  split
  · next idle =>
      refine .threw fun consistent accepts => ?_
      obtain ⟨-, waiting, -, arrived, -⟩ := same consistent accepts
      rw [arrived, waiting] at idle
      simp at idle
  next arrived =>
  split
  · next full =>
      exact .threw fun consistent accepts => absurd (same consistent accepts).1 (not_lt.mpr full)
  next room =>
  split
  · next early =>
      exact .threw fun consistent accepts =>
        absurd (same consistent accepts).2.2.2.2 (not_le.mpr early)
  next later =>
  have sums := checkedAdd_ensures scheduler.statistics.totalQueueWaitTimeUs
    (timestampUs - entry.arrivalTimeUs)
  cases total : checkedAdd scheduler.statistics.totalQueueWaitTimeUs
      (timestampUs - entry.arrivalTimeUs) with
  | error error => exact .threw fun _ _ => sums.of_eq_error total
  | ok newTotal =>
      dsimp only
      split
      · exact .threw fun _ _ => trivial
      have epochs := @nextEpoch_ensures scheduler
      cases epoch : scheduler.nextEpoch with
      | error error => exact .threw fun _ _ => epochs.of_eq_error epoch
      | ok newEpoch =>
          dsimp only
          split
          · next missing =>
              rw [OrdSet.erase_of_notMem missing]
              refine .threw fun consistent accepts => ?_
              rw [(same consistent accepts).2.2.1] at missing
              exact absurd (OrdSet.head?_eq_some first).1 missing
          · rw [epochs.of_eq_ok epoch, sums.of_eq_ok total]
            push Not at arrived kind current
            have choice : scheduler.chooseNextRequest = decision := by
              unfold chooseNextRequest
              rw [first]
              dsimp only
              rw [if_neg room, ← named, ← kind, ← current]
            rw [← choice] at named ⊢
            exact .changed (.admitted named found arrived.2 (by simpa using arrived.1)
              (not_lt.mp later) (not_le.mp room))

/-- What `notify_completed` can do. -/
theorem notifyCompleted_outcome (requestId : RequestId) (timestampUs : Int) :
    CallOutcome scheduler (.notifyCompleted requestId timestampUs)
      (scheduler.notifyCompleted requestId timestampUs) := by
  unfold notifyCompleted
  split
  · next unknown =>
      refine .threw fun _ ⟨entry, found, _⟩ => ?_
      rw [unknown] at found
      cases found
  next entry found =>
  have same : scheduler.Accepts (.notifyCompleted requestId timestampUs) →
      entry.state = .running ∧
        ∀ admitted, entry.admittedTimeUs = some admitted → admitted ≤ timestampUs := by
    rintro ⟨entry', found', rest⟩
    rw [found, Option.some.injEq] at found'
    exact found' ▸ rest
  split
  · next idle =>
      refine .threw fun consistent accepts => ?_
      obtain ⟨running, -⟩ := same accepts
      exact absurd idle (not_or.mpr ⟨not_not.mpr running, consistent.running_pos found running⟩)
  next running =>
  push Not at running
  split
  · next early =>
      refine .threw fun consistent accepts => ?_
      have admitted := (consistent.entry _ _ found).admitted (Or.inl running.1)
      obtain ⟨time, known⟩ := Option.ne_none_iff_exists'.mp admitted
      rw [known] at early
      simp only [Option.all_some, decide_eq_true_eq] at early
      exact absurd ((same accepts).2 time known) (not_le.mpr early)
  have epochs := @nextEpoch_ensures scheduler
  cases epoch : scheduler.nextEpoch with
  | error error => exact .threw fun _ _ => epochs.of_eq_error epoch
  | ok newEpoch =>
      dsimp only
      have counts := inc_ensures scheduler.statistics.completedRequestCount
        "completed request count overflow"
      cases counted : inc scheduler.statistics.completedRequestCount
          "completed request count overflow" with
      | error error => exact .threw fun _ _ => counts.of_eq_error counted
      | ok completed =>
          rw [epochs.of_eq_ok epoch, counts.of_eq_ok counted]
          exact .changed (.completed found running.1 running.2)

/-- What `notify_cancelled` can do. -/
theorem notifyCancelled_outcome (requestId : RequestId) (timestampUs : Int) :
    CallOutcome scheduler (.notifyCancelled requestId timestampUs)
      (scheduler.notifyCancelled requestId timestampUs) := by
  unfold notifyCancelled
  split
  · next negative => exact .threw fun _ accepts => absurd accepts.1 (not_le.mpr negative)
  split
  · exact .threw fun _ _ => trivial
  have epochs := @nextEpoch_ensures scheduler
  cases epoch : scheduler.nextEpoch with
  | error error => exact .threw fun _ _ => epochs.of_eq_error epoch
  | ok newEpoch =>
      rw [epochs.of_eq_ok epoch]
      dsimp only
      cases found : scheduler.entries.find? requestId with
      | none => exact .changed (.cancelledUnknown found)
      | some entry =>
          dsimp only
          have live : scheduler.Accepts (.notifyCancelled requestId timestampUs) →
              _ := fun accepts => accepts.2 entry found
          split
          · next terminal =>
              refine .threw fun _ accepts => ?_
              rcases live accepts with ⟨waiting, -⟩ | ⟨running, -⟩
              · simp [waiting] at terminal
              · simp [running] at terminal
          next alive =>
          split
          · next torn =>
              exact .threw fun consistent _ => absurd torn.2
                ((consistent.entry _ _ found).admitted (Or.inl torn.1))
          by_cases early : timestampUs < (if entry.state = .running then
              entry.admittedTimeUs.getD 0 else entry.arrivalTimeUs)
          · rw [if_pos early]
            refine .threw fun consistent accepts => ?_
            rcases live accepts with ⟨waiting, later⟩ | ⟨running, later⟩
            · rw [if_neg (by simp [waiting])] at early
              exact absurd later (not_le.mpr early)
            · obtain ⟨time, known⟩ := Option.ne_none_iff_exists'.mp
                ((consistent.entry _ _ found).admitted (Or.inl running))
              rw [if_pos running, known] at early
              exact absurd (later time known) (not_le.mpr early)
          rw [if_neg early]
          split
          · next waiting =>
              split
              · next missing =>
                  rw [OrdSet.erase_of_notMem missing]
                  exact .threw fun consistent _ =>
                    absurd ((consistent.waiting _ _).mpr ⟨entry, found, waiting, rfl⟩) missing
              · exact .changed (.cancelledWaiting found waiting)
          next notWaiting =>
          have running : entry.state = .running := by
            cases state : entry.state <;> simp_all
          split
          · next none =>
              exact .threw fun consistent _ => absurd none (consistent.running_pos found running)
          next some' => exact .changed (.cancelledRunning found running some')

theorem apply_outcome (scheduler : FcfsScheduler) (call : SchedulerCall) :
    CallOutcome scheduler call (scheduler.apply call) := by
  cases call with
  | notifyArrival requestId arrivalTimeUs => exact notifyArrival_outcome requestId arrivalTimeUs
  | chooseNextRequest => exact .chose rfl
  | notifyAdmitted decision timestampUs => exact notifyAdmitted_outcome decision timestampUs
  | notifyCompleted requestId timestampUs => exact notifyCompleted_outcome requestId timestampUs
  | notifyCancelled requestId timestampUs => exact notifyCancelled_outcome requestId timestampUs

/-! ## Every change keeps the invariant -/

section Entries

variable {waiting : OrdSet WaitingKey} {entries : OrdMap RequestId Entry} {changed : Entry}

/-- An entry that starts to wait is listed. -/
theorem Lists.insert (lists : Lists waiting entries) (fresh : entries.find? requestId = none)
    (waits : changed.state = .waiting) :
    Lists (waiting.insert (toLex (changed.arrivalTimeUs, requestId)))
      (entries.insert requestId changed) := by
  intro arrivalTimeUs other
  rw [OrdSet.mem_insert, lists, OrdMap.find?_insert]
  by_cases same : other = requestId
  · subst same
    simp only [if_true, fresh, Option.some.injEq, reduceCtorEq, false_and, exists_false, or_false,
      EmbeddingLike.apply_eq_iff_eq, Prod.mk.injEq, and_true]
    constructor
    · intro arrival
      exact ⟨changed, rfl, waits, arrival.symm⟩
    · intro ⟨entry, same, _, arrival⟩
      rw [same, arrival]
  · have differ : ¬ toLex (arrivalTimeUs, other) = toLex (changed.arrivalTimeUs, requestId) :=
      fun equal => same (congrArg (fun key => (ofLex key).2) equal)
    rw [if_neg same, or_iff_right differ]

/-- An entry that stops waiting is not listed any more. -/
theorem Lists.erase (lists : Lists waiting entries) (found : entries.find? requestId = some entry)
    (moved : changed.state ≠ .waiting) :
    Lists (waiting.erase (toLex (entry.arrivalTimeUs, requestId)))
      (entries.insert requestId changed) := by
  intro arrivalTimeUs other
  rw [OrdSet.mem_erase, lists, OrdMap.find?_insert]
  by_cases same : other = requestId
  · subst same
    simp only [if_true, found, Option.some.injEq]
    constructor
    · rintro ⟨differ, entry', rfl, -, rfl⟩
      exact absurd rfl differ
    · rintro ⟨entry', rfl, waits, -⟩
      exact absurd waits moved
  · have differ : toLex (arrivalTimeUs, other) ≠ toLex (entry.arrivalTimeUs, requestId) :=
      fun equal => same (congrArg (fun key => (ofLex key).2) equal)
    rw [if_neg same, and_iff_right differ]

/-- An entry that neither waited nor waits is not listed. -/
theorem Lists.keep (lists : Lists waiting entries)
    (idle : ∀ entry, entries.find? requestId = some entry → entry.state ≠ .waiting)
    (moved : changed.state ≠ .waiting) : Lists waiting (entries.insert requestId changed) := by
  intro arrivalTimeUs other
  rw [lists, OrdMap.find?_insert]
  by_cases same : other = requestId
  · subst same
    simp only [if_true, Option.some.injEq]
    constructor
    · intro ⟨entry, found, waits, _⟩
      exact absurd waits (idle entry found)
    · rintro ⟨entry', rfl, waits, -⟩
      exact absurd waits moved
  · rw [if_neg same]

theorem entry_insert
    (each : ∀ requestId entry, entries.find? requestId = some entry → EntryConsistent entry)
    (consistent : EntryConsistent changed) (other : RequestId) (entry : Entry)
    (found : (entries.insert requestId changed).find? other = some entry) :
    EntryConsistent entry := by
  rw [OrdMap.find?_insert] at found
  split at found
  · rw [Option.some.injEq] at found
    exact found ▸ consistent
  · exact each other entry found

end Entries

/-- The invariant after one entry is written: each figure moves by what the entry adds. -/
theorem Consistent.put {changed : Entry} {previous : Option Entry}
    (consistent : scheduler.Consistent) (found : scheduler.entries.find? requestId = previous)
    (entries : next.entries = scheduler.entries.insert requestId changed)
    (lists : Lists next.waiting (scheduler.entries.insert requestId changed))
    (entry : EntryConsistent changed) (capacity : next.runningCount ≤ next.maxActiveRequests)
    (running : next.runningCount + previous.elim 0 (fun e => (decide (e.state = .running)).toNat) =
      (decide (changed.state = .running)).toNat + scheduler.runningCount)
    (arrived : next.statistics.arrivedRequestCount + previous.elim 0 (fun e => e.hasArrived.toNat) =
      changed.hasArrived.toNat + scheduler.statistics.arrivedRequestCount)
    (admitted : next.statistics.admittedRequestCount +
        previous.elim 0 (fun e => e.admittedTimeUs.isSome.toNat) =
      changed.admittedTimeUs.isSome.toNat + scheduler.statistics.admittedRequestCount)
    (completed : next.statistics.completedRequestCount +
        previous.elim 0 (fun e => (decide (e.state = .completed)).toNat) =
      (decide (changed.state = .completed)).toNat + scheduler.statistics.completedRequestCount)
    (cancelled : next.statistics.cancelledRequestCount +
        previous.elim 0 (fun e => (decide (e.state = .cancelled)).toNat) =
      (decide (changed.state = .cancelled)).toNat + scheduler.statistics.cancelledRequestCount)
    (waited : next.statistics.totalQueueWaitTimeUs + previous.elim 0 Entry.waitUs =
      changed.waitUs + scheduler.statistics.totalQueueWaitTimeUs) : next.Consistent := by
  have count : ∀ weight, next.entries.total weight + previous.elim 0 weight =
      weight changed + scheduler.entries.total weight := fun weight => by
    rw [entries, ← found]
    exact OrdMap.total_put weight scheduler.entries requestId changed
  have sums := count Entry.waitUs
  exact {
    waiting := entries ▸ lists
    entry := entries ▸ entry_insert consistent.entry entry
    running := Nat.add_right_cancel
      (running.trans (consistent.running ▸ (count fun e => (decide (e.state = .running)).toNat).symm))
    capacity
    arrived := Nat.add_right_cancel
      (arrived.trans (consistent.arrived ▸ (count fun e => e.hasArrived.toNat).symm))
    admitted := Nat.add_right_cancel
      (admitted.trans (consistent.admitted ▸ (count fun e => e.admittedTimeUs.isSome.toNat).symm))
    completed := Nat.add_right_cancel (completed.trans
      (consistent.completed ▸ (count fun e => (decide (e.state = .completed)).toNat).symm))
    cancelled := Nat.add_right_cancel (cancelled.trans
      (consistent.cancelled ▸ (count fun e => (decide (e.state = .cancelled)).toNat).symm))
    waited := by
      rw [consistent.waited] at waited
      omega }

/-- Every change keeps the invariant. -/
theorem Change.consistent (change : Change scheduler call next)
    (consistent : scheduler.Consistent) : next.Consistent := by
  cases change with
  | @arrived requestId arrivalTimeUs fresh nonneg =>
      have lists := @Lists.insert _ _ _ ⟨arrivalTimeUs, .waiting, true, none⟩ consistent.waiting
        fresh rfl
      refine consistent.put fresh rfl lists ⟨?_, ?_, ?_⟩ consistent.capacity ?_ ?_ ?_ ?_ ?_ ?_
      all_goals simp [Entry.waitUs, Nat.add_comm]
  | admitted named found waits arrived later room =>
      have unadmitted := ((consistent.entry _ _ found).waiting waits).2
      refine consistent.put found rfl (consistent.waiting.erase found ?_)
        ⟨nofun, ?_, fun admitted same => ?_⟩ room ?_ ?_ ?_ ?_ ?_ ?_
      case refine_3 =>
        cases same
        exact ⟨arrived, later⟩
      all_goals simp [Entry.waitUs, unadmitted, waits, Nat.add_comm]
      omega
  | completed found running some' =>
      have known := consistent.entry _ _ found
      refine consistent.put found rfl (consistent.waiting.keep (fun entry same => ?_) ?_)
        ⟨nofun, fun _ => known.admitted (Or.inl running), known.ordered⟩
        ((Nat.sub_le _ _).trans consistent.capacity) ?_ ?_ ?_ ?_ ?_ ?_
      case refine_1 =>
        rw [found, Option.some.injEq] at same
        simp [← same, running]
      all_goals simp [Entry.waitUs, running, add_comm]
      omega
  | cancelledUnknown fresh =>
      refine consistent.put fresh rfl (consistent.waiting.keep (fun entry same => ?_) ?_)
        ⟨nofun, ?_, nofun⟩ consistent.capacity ?_ ?_ ?_ ?_ ?_ ?_
      case refine_1 =>
        rw [fresh] at same
        cases same
      all_goals simp [cancelEntry, Entry.waitUs, Nat.add_comm]
  | cancelledWaiting found waits =>
      have unadmitted := ((consistent.entry _ _ found).waiting waits).2
      refine consistent.put found rfl (consistent.waiting.erase found ?_)
        ⟨nofun, ?_, (consistent.entry _ _ found).ordered⟩ consistent.capacity ?_ ?_ ?_ ?_ ?_ ?_
      all_goals simp [cancelEntry, Entry.waitUs, unadmitted, waits, Nat.add_comm]
  | cancelledRunning found running some' =>
      have known := consistent.entry _ _ found
      refine consistent.put found rfl (consistent.waiting.keep (fun entry same => ?_) ?_)
        ⟨nofun, ?_, known.ordered⟩ ((Nat.sub_le _ _).trans consistent.capacity) ?_ ?_ ?_ ?_ ?_ ?_
      case refine_1 =>
        rw [found, Option.some.injEq] at same
        simp [← same, running]
      all_goals simp [cancelEntry, Entry.waitUs, running, add_comm]
      omega

end FcfsScheduler

end LlmLab.Serving
