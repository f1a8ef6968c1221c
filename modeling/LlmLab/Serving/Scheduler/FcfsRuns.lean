import LlmLab.Serving.Scheduler.FcfsSteps

/-!
# The scheduler under arbitrary calls

`Recalls` ties the counters to the states a run went through: who ever ran, and how deep the
queue ever was.
-/

namespace LlmLab.Serving

namespace FcfsScheduler

variable {scheduler next : FcfsScheduler} {call : SchedulerCall} {seen : List FcfsScheduler}

/-! ## What one change leaves behind -/

/-- The request was admitted at some time. -/
def WasAdmitted (scheduler : FcfsScheduler) (requestId : RequestId) : Prop :=
  ∃ entry, scheduler.entries.find? requestId = some entry ∧ entry.admittedTimeUs.isSome = true

/-- The request runs. -/
def Runs (scheduler : FcfsScheduler) (requestId : RequestId) : Prop :=
  ∃ entry, scheduler.entries.find? requestId = some entry ∧ entry.state = .running

/-- A change writes one entry; it admits the request exactly when the request then runs. -/
theorem Change.writes (change : Change scheduler call next) :
    ∃ requestId changed, next.entries = scheduler.entries.insert requestId changed ∧
      (changed.admittedTimeUs.isSome = true ↔
        scheduler.WasAdmitted requestId ∨ changed.state = .running) := by
  cases change with
  | arrived fresh nonneg => exact ⟨_, _, rfl, by simp [WasAdmitted, fresh]⟩
  | admitted named found waits arrived later room => exact ⟨_, _, rfl, by simp⟩
  | completed found running some' => exact ⟨_, _, rfl, by simp [WasAdmitted, found]⟩
  | cancelledUnknown fresh => exact ⟨_, _, rfl, by simp [WasAdmitted, fresh]⟩
  | cancelledWaiting found waits => exact ⟨_, _, rfl, by simp [WasAdmitted, found]⟩
  | cancelledRunning found running some' => exact ⟨_, _, rfl, by simp [WasAdmitted, found]⟩

/-- After a change the requests once admitted are those before, and those that now run. -/
theorem Change.wasAdmitted (change : Change scheduler call next)
    (consistent : scheduler.Consistent) (requestId : RequestId) :
    next.WasAdmitted requestId ↔ scheduler.WasAdmitted requestId ∨ next.Runs requestId := by
  obtain ⟨written, changed, entries, admits⟩ := change.writes
  unfold Runs
  rw [WasAdmitted, entries, OrdMap.find?_insert]
  by_cases same : requestId = written
  · subst same
    simp [admits]
  · rw [if_neg same]
    constructor
    · exact Or.inl
    · intro admitted
      rcases admitted with before | ⟨entry, found, running⟩
      · exact before
      · exact ⟨entry, found, Option.isSome_iff_ne_none.mpr
          ((consistent.entry _ _ found).admitted (Or.inl running))⟩

/-- Only an arrival makes the queue longer, and it updates the maximum. -/
theorem Change.depth (change : Change scheduler call next)
    (bounded : scheduler.waiting.size ≤ scheduler.statistics.maximumWaitingQueueDepth) :
    next.statistics.maximumWaitingQueueDepth =
      max scheduler.statistics.maximumWaitingQueueDepth next.waiting.size := by
  have shrunk := fun key => (scheduler.waiting.size_erase_le key).trans bounded
  cases change with
  | arrived fresh nonneg => rfl
  | admitted named found waits arrived later room => exact (max_eq_left (shrunk _)).symm
  | completed found running some' => exact (max_eq_left bounded).symm
  | cancelledUnknown fresh => exact (max_eq_left bounded).symm
  | cancelledWaiting found waits => exact (max_eq_left (shrunk _)).symm
  | cancelledRunning found running some' => exact (max_eq_left bounded).symm

theorem Change.epoch (change : Change scheduler call next) : next.epoch = scheduler.epoch + 1 := by
  cases change <;> rfl

theorem Change.capacity (change : Change scheduler call next) :
    next.maxActiveRequests = scheduler.maxActiveRequests := by
  cases change <;> rfl

/-! ## The history -/

/-- The scheduler after some states of a run, its own state the last of them. -/
structure Recalls (seen : List FcfsScheduler) (scheduler : FcfsScheduler) : Prop where
  consistent : scheduler.Consistent
  admitted : ∀ requestId,
    scheduler.WasAdmitted requestId ↔ ∃ earlier ∈ seen, earlier.Runs requestId
  deepest : IsGreatest {depth | ∃ earlier ∈ seen, depth = earlier.waiting.size}
    scheduler.statistics.maximumWaitingQueueDepth
  member : scheduler ∈ seen

theorem fresh_recalls (maxActiveRequests : Nat) :
    Recalls [fresh maxActiveRequests] (fresh maxActiveRequests) where
  consistent := fresh_consistent maxActiveRequests
  admitted requestId := by simp [WasAdmitted, Runs, fresh]
  deepest := ⟨⟨_, List.mem_singleton_self _, rfl⟩, fun depth ⟨earlier, member, same⟩ => by
    rw [List.mem_singleton] at member
    rw [same, member]
    rfl⟩
  member := List.mem_singleton_self _

theorem Recalls.bounded (recalls : Recalls seen scheduler) :
    scheduler.waiting.size ≤ scheduler.statistics.maximumWaitingQueueDepth :=
  recalls.deepest.2 ⟨scheduler, recalls.member, rfl⟩

/-- A state that is seen again adds nothing. -/
theorem Recalls.again (recalls : Recalls seen scheduler) :
    Recalls (seen ++ [scheduler]) scheduler := by
  have members : ∀ earlier, earlier ∈ seen ++ [scheduler] ↔ earlier ∈ seen := fun earlier => by
    rw [List.mem_append, List.mem_singleton]
    exact or_iff_left_of_imp fun same => same ▸ recalls.member
  refine ⟨recalls.consistent, ?_, ?_, (members _).mpr recalls.member⟩
  · simp only [members]
    exact recalls.admitted
  · simp only [members]
    exact recalls.deepest

/-- A change extends the history by its state. -/
theorem Change.recalls (change : Change scheduler call next) (recalls : Recalls seen scheduler) :
    Recalls (seen ++ [next]) next where
  consistent := change.consistent recalls.consistent
  admitted requestId := by
    rw [change.wasAdmitted recalls.consistent, recalls.admitted]
    simp only [List.mem_append, List.mem_singleton, or_and_right, exists_or, exists_eq_left]
  deepest := by
    rw [change.depth recalls.bounded]
    constructor
    · rcases max_choice scheduler.statistics.maximumWaitingQueueDepth next.waiting.size with
        same | same
      · rw [same]
        obtain ⟨earlier, member, depth⟩ := recalls.deepest.1
        exact ⟨earlier, List.mem_append_left _ member, depth⟩
      · rw [same]
        exact ⟨next, List.mem_append_right _ (List.mem_singleton_self _), rfl⟩
    · intro depth ⟨earlier, member, same⟩
      rw [List.mem_append, List.mem_singleton] at member
      rcases member with before | rfl
      · exact (recalls.deepest.2 ⟨earlier, before, same⟩).trans (le_max_left _ _)
      · exact same ▸ le_max_right _ _
  member := List.mem_append_right _ (List.mem_singleton_self _)

/-- A call throws and changes nothing, or it is a choice, or it makes a change. -/
theorem next_cases (scheduler : FcfsScheduler) (call : SchedulerCall) :
    machine.next scheduler call = scheduler ∨
      Change scheduler call (machine.next scheduler call) := by
  have outcome := apply_outcome scheduler call
  change (scheduler.apply call).2 = _ ∨ Change _ _ (scheduler.apply call).2
  generalize scheduler.apply call = result at outcome
  cases outcome with
  | threw => exact Or.inl rfl
  | chose => exact Or.inl rfl
  | changed change => exact Or.inr change

theorem unchanged_of_error {error : Exn} (failure : machine.output scheduler call = .error error) :
    machine.next scheduler call = scheduler := by
  have outcome := apply_outcome scheduler call
  change (scheduler.apply call).1 = _ at failure
  change (scheduler.apply call).2 = _
  generalize scheduler.apply call = result at outcome failure
  cases outcome with
  | threw => rfl
  | chose => rfl
  | changed change => cases failure

/-- A successful call other than a choice makes a change. -/
theorem change_of_success (success : machine.output scheduler call = .ok ())
    (acts : call ≠ .chooseNextRequest) : Change scheduler call (machine.next scheduler call) := by
  have outcome := apply_outcome scheduler call
  change (scheduler.apply call).1 = _ at success
  change Change _ _ (scheduler.apply call).2
  generalize scheduler.apply call = result at outcome success
  cases outcome with
  | threw => cases success
  | chose choice => exact absurd choice acts
  | changed change => exact change

/-- What a run started in a consistent scheduler remembers. -/
theorem run_recalls (recalls : Recalls [scheduler] scheduler) (calls : List SchedulerCall) :
    Recalls (machine.states scheduler calls) (machine.run scheduler calls) := by
  refine Machine.states_invariant (fun seen state call recalls => ?_) calls recalls
  rcases next_cases state call with same | change
  · rw [same]
    exact recalls.again
  · exact change.recalls recalls

theorem run_capacity (calls : List SchedulerCall) :
    (machine.run scheduler calls).maxActiveRequests = scheduler.maxActiveRequests := by
  refine @Machine.run_invariant _ _ _ _
    (fun state : FcfsScheduler => state.maxActiveRequests = scheduler.maxActiveRequests)
    (fun state call same => ?_) _ calls rfl
  rcases next_cases state call with kept | change
  · rw [kept]
    exact same
  · exact change.capacity.trans same

theorem run_epoch (calls : List SchedulerCall) :
    scheduler.epoch ≤ (machine.run scheduler calls).epoch := by
  refine @Machine.run_invariant _ _ _ _ (fun state : FcfsScheduler => scheduler.epoch ≤ state.epoch)
    (fun state call before => ?_) _ calls le_rfl
  rcases next_cases state call with kept | change
  · rw [kept]
    exact before
  · rw [change.epoch]
    exact before.trans (Nat.le_succ _)

/-! ## The state machine -/

theorem chooseNextRequest_epoch (scheduler : FcfsScheduler) :
    scheduler.chooseNextRequest.decisionEpoch = scheduler.epoch := by
  unfold chooseNextRequest
  repeat' split
  all_goals rfl

/-- An accepted decision is the scheduler's own choice, and it names the first waiting request. -/
theorem notifyAdmitted_accepts {decision : SchedulerDecision} {timestampUs : Int}
    (accepted : (scheduler.notifyAdmitted decision timestampUs).1 = .ok ()) :
    decision = scheduler.chooseNextRequest ∧ ∃ key ∈ scheduler.waiting,
      decision.requestId = some (ofLex key).2 ∧ ∀ other ∈ scheduler.waiting, key ≤ other := by
  have change := @change_of_success scheduler (.notifyAdmitted decision timestampUs) accepted nofun
  generalize machine.next scheduler _ = next at change
  cases change with
  | admitted named found waits arrived later room =>
      refine ⟨rfl, ?_⟩
      unfold chooseNextRequest at named ⊢
      cases first : scheduler.head? with
      | none => simp [first] at named
      | some key =>
          simp only [if_neg (not_le.mpr room)]
          exact ⟨key, (OrdSet.head?_eq_some first).1, rfl, (OrdSet.head?_eq_some first).2⟩

/-- The scheduler after some calls, against the states of the run. -/
structure Follows (start : FcfsScheduler) (calls : List SchedulerCall)
    (scheduler : FcfsScheduler) : Prop where
  waiting : ∀ arrivalTimeUs requestId, toLex (arrivalTimeUs, requestId) ∈ scheduler.waiting ↔
    ∃ entry, scheduler.entries.find? requestId = some entry ∧ entry.state = .waiting ∧
      entry.arrivalTimeUs = arrivalTimeUs
  running : scheduler.runningCount = {requestId | scheduler.Runs requestId}.ncard
  arrived : scheduler.statistics.arrivedRequestCount = {requestId | ∃ entry,
    scheduler.entries.find? requestId = some entry ∧ entry.hasArrived = true}.ncard
  admitted : scheduler.statistics.admittedRequestCount =
    {requestId | ∃ earlier ∈ machine.states start calls, earlier.Runs requestId}.ncard
  completed : scheduler.statistics.completedRequestCount = {requestId | ∃ entry,
    scheduler.entries.find? requestId = some entry ∧ entry.state = .completed}.ncard
  cancelled : scheduler.statistics.cancelledRequestCount = {requestId | ∃ entry,
    scheduler.entries.find? requestId = some entry ∧ entry.state = .cancelled}.ncard
  waited : scheduler.statistics.totalQueueWaitTimeUs = (scheduler.entries.entries.map fun entry =>
    entry.2.admittedTimeUs.elim 0 fun admitted => admitted - entry.2.arrivalTimeUs).sum
  deepest : IsGreatest {depth | ∃ earlier ∈ machine.states start calls,
    depth = earlier.waiting.size} scheduler.statistics.maximumWaitingQueueDepth
  accepts : ∀ decision timestampUs, (scheduler.notifyAdmitted decision timestampUs).1 = .ok () →
    decision = scheduler.chooseNextRequest ∧ ∃ key ∈ scheduler.waiting,
      decision.requestId = some (ofLex key).2 ∧ ∀ other ∈ scheduler.waiting, key ≤ other
  /-- A decision issued before a later successful change. -/
  stale : ∀ issued before call after timestampUs, calls = issued ++ before ++ call :: after →
    machine.output (machine.run start (issued ++ before)) call = .ok () →
    call ≠ .chooseNextRequest → ∃ error,
      (scheduler.notifyAdmitted (machine.run start issued).chooseNextRequest timestampUs).1 =
        .error error
  atomic : ∀ call error, machine.output scheduler call = .error error →
    machine.next scheduler call = scheduler

theorem Consistent.waited_sum (consistent : scheduler.Consistent) :
    scheduler.statistics.totalQueueWaitTimeUs = (scheduler.entries.entries.map fun entry =>
      entry.2.admittedTimeUs.elim 0 fun admitted => admitted - entry.2.arrivalTimeUs).sum := by
  rw [consistent.waited]
  unfold OrdMap.total
  refine (map_list_sum (Nat.castAddMonoidHom Int) _).trans ?_
  rw [List.map_map]
  refine congrArg List.sum (List.map_congr_left fun entry member => ?_)
  have known := consistent.entry entry.1 entry.2 (OrdMap.find?_eq_some_iff.mpr member)
  cases time : entry.2.admittedTimeUs with
  | none => simp [Entry.waitUs, time]
  | some admitted =>
      have := (known.ordered admitted time).2
      simp [Entry.waitUs, time]
      exact this

/-- The scheduler under every sequence of calls, with arbitrary ids, times and decisions. -/
theorem scheduler_follows {maxActiveRequests : Nat} {start : FcfsScheduler}
    (created : create maxActiveRequests = .ok start) (calls : List SchedulerCall) :
    Follows start calls (machine.run start calls) ∧
      (machine.run start calls).runningCount ≤ maxActiveRequests := by
  have positive : start = fresh maxActiveRequests := by
    unfold create at created
    split at created
    · cases created
    · exact (Except.ok.inj created).symm
  subst positive
  have recalls := run_recalls (fresh_recalls maxActiveRequests) calls
  have consistent := recalls.consistent
  have number := fun property =>
    (machine.run (fresh maxActiveRequests) calls).entries.total_eq_ncard property
  refine ⟨?_, ?_⟩
  · exact {
      waiting := consistent.waiting
      running := by
        rw [consistent.running, numberOf, number]
        simp [Runs]
      arrived := by rw [consistent.arrived, numberOf, number]
      admitted := by
        rw [consistent.admitted, numberOf, number]
        exact congrArg Set.ncard (Set.ext fun requestId => recalls.admitted requestId)
      completed := by
        rw [consistent.completed, numberOf, number]
        simp
      cancelled := by
        rw [consistent.cancelled, numberOf, number]
        simp
      waited := consistent.waited_sum
      deepest := recalls.deepest
      accepts := fun decision timestampUs => notifyAdmitted_accepts
      stale := fun issued before call after timestampUs split success acts => by
        cases result : ((machine.run (fresh maxActiveRequests) calls).notifyAdmitted
            (machine.run (fresh maxActiveRequests) issued).chooseNextRequest timestampUs).1 with
        | error error => exact ⟨error, rfl⟩
        | ok done =>
            -- The accepted decision would carry the current epoch, which has moved on.
            have same := congrArg SchedulerDecision.decisionEpoch (notifyAdmitted_accepts result).1
            rw [chooseNextRequest_epoch, chooseNextRequest_epoch] at same
            have changed := (change_of_success success acts).epoch
            have first := @run_epoch (machine.run (fresh maxActiveRequests) issued) before
            have last := @run_epoch (machine.next
              (machine.run (fresh maxActiveRequests) (issued ++ before)) call) after
            rw [← Machine.run_cons, ← Machine.run_append, ← split, changed] at last
            rw [← Machine.run_append] at first
            omega
      atomic := fun call error failure => unchanged_of_error failure }
  · exact consistent.capacity.trans_eq (run_capacity calls)

/-- Two requests arrive together; the head is cancelled after it was chosen. -/
def cancelledHead : List SchedulerCall :=
  [.notifyArrival 7 5, .notifyArrival 3 5, .chooseNextRequest, .notifyCancelled 3 5,
    .notifyAdmitted { kind := .admitRequest, requestId := some 3, decisionEpoch := 2 } 6,
    .notifyAdmitted { kind := .admitRequest, requestId := some 7, decisionEpoch := 3 } 8]

theorem scheduler_follows_cancelled :
    Follows (fresh 1) cancelledHead (machine.run (fresh 1) cancelledHead) ∧
      (machine.run (fresh 1) cancelledHead).runningCount ≤ 1 :=
  scheduler_follows rfl cancelledHead

end FcfsScheduler

end LlmLab.Serving
