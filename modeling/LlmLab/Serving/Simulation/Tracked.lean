import LlmLab.Serving.Simulation.Jobs

/-!
# The engine follows its jobs

`Tracked` ties the requests, the scheduler and the active slot to the jobs; the agenda of the jobs
is what the queue holds.  Each step of the engine moves one job.
-/

namespace LlmLab.Serving

namespace SimulationEngine

variable {engine next : SimulationEngine} {jobs : OrdMap RequestId Job} {job : Job}
  {id : RequestId}

/-! ## The invariant -/

/-- The agenda of the jobs. -/
def agendaOf (backend : Backend) (jobs : OrdMap RequestId Job) : Agenda :=
  fun id => (jobs.find? id).bind (Job.due? backend)

/-- Of two admitted jobs one has ended before the other is admitted. -/
def Apart (backend : Backend) (job other : Job) : Prop :=
  ∀ atUs otherUs, job.admittedUs? = some atUs → other.admittedUs? = some otherUs →
    (∃ finishUs, job.finishUs? backend = some finishUs ∧ finishUs ≤ otherUs) ∨
      (∃ finishUs, other.finishUs? backend = some finishUs ∧ finishUs ≤ atUs)

structure Tracked (engine : SimulationEngine) (jobs : OrdMap RequestId Job) : Prop where
  lawful : engine.backend.Lawful
  alive : engine.failed = false
  now : 0 ≤ engine.nowUs
  requests : ∀ id, engine.requests.find? id = (jobs.find? id).map (Job.record engine.backend)
  ids : ∀ id job, jobs.find? id = some job → job.request.requestId = id
  valid : ∀ id job, jobs.find? id = some job → job.Valid engine.backend engine.nowUs
  scheduler : engine.scheduler.Consistent
  capacity : engine.scheduler.maxActiveRequests = 1
  entries : ∀ id, engine.scheduler.entries.find? id = (jobs.find? id).bind Job.entry?
  active : ∀ id, engine.activeRequestId = some id ↔ ∃ job, jobs.find? id = some job ∧ job.Active
  apart : ∀ id other job job', id ≠ other → jobs.find? id = some job →
    jobs.find? other = some job' → Apart engine.backend job job'

theorem agendaOf_insert (backend : Backend) (jobs : OrdMap RequestId Job) (id : RequestId)
    (job : Job) : agendaOf backend (jobs.insert id job) =
      Function.update (agendaOf backend jobs) id (job.due? backend) := by
  funext other
  rw [agendaOf, OrdMap.find?_insert, Function.update_apply]
  split <;> rfl

namespace Tracked

theorem request (tracked : engine.Tracked jobs) (found : jobs.find? id = some job) :
    engine.findRequest id = .ok (job.record engine.backend) := by
  unfold findRequest
  rw [tracked.requests, found]
  rfl

theorem entry (tracked : engine.Tracked jobs) (found : jobs.find? id = some job) :
    engine.scheduler.entries.find? id = job.entry? := by
  rw [tracked.entries, found]
  rfl

/-- One job is written. -/
theorem put (tracked : engine.Tracked jobs) (backend : next.backend = engine.backend)
    (alive : next.failed = false) (now : next.nowUs = engine.nowUs)
    (requests : next.requests = engine.requests.insert id (job.record engine.backend))
    (named : job.request.requestId = id) (valid : job.Valid engine.backend engine.nowUs)
    (scheduler : next.scheduler.Consistent) (capacity : next.scheduler.maxActiveRequests = 1)
    (entries : ∀ other, next.scheduler.entries.find? other =
      if other = id then job.entry? else engine.scheduler.entries.find? other)
    (active : ∀ other, next.activeRequestId = some other ↔
      if other = id then job.Active else engine.activeRequestId = some other)
    (apart : ∀ other job', other ≠ id → jobs.find? other = some job' →
      Apart engine.backend job job') : next.Tracked (jobs.insert id job) where
  lawful := backend ▸ tracked.lawful
  alive := alive
  now := now ▸ tracked.now
  requests other := by
    rw [requests, backend, OrdMap.find?_insert, OrdMap.find?_insert]
    split
    · rfl
    · exact tracked.requests other
  ids other job' found := by
    rw [OrdMap.find?_insert] at found
    split at found
    · next same =>
        cases found
        exact named.trans same.symm
    · exact tracked.ids other job' found
  valid other job' found := by
    rw [backend, now]
    rw [OrdMap.find?_insert] at found
    split at found
    · cases found
      exact valid
    · exact tracked.valid other job' found
  scheduler := scheduler
  capacity := capacity
  entries other := by
    rw [entries, OrdMap.find?_insert]
    split
    · rfl
    · exact tracked.entries other
  active other := by
    rw [active, OrdMap.find?_insert]
    split
    · simp
    · exact tracked.active other
  apart first second job' job'' different found found' := by
    rw [backend]
    rw [OrdMap.find?_insert] at found found'
    split at found
    · next same =>
        cases found
        rw [if_neg (same ▸ different.symm)] at found'
        exact apart second job'' (same ▸ different.symm) found'
    · next other =>
        split at found'
        · cases found'
          intro atUs otherUs admitted admitted'
          exact (apart first job' other found otherUs atUs admitted' admitted).symm
        · exact tracked.apart first second job' job'' different found found'

/-- An admitted job that is not active has ended by now. -/
theorem ended (tracked : engine.Tracked jobs) (found : jobs.find? id = some job)
    (idle : ¬ job.Active) {atUs : Int} (admitted : job.admittedUs? = some atUs) :
    ∃ finishUs, job.finishUs? engine.backend = some finishUs ∧ finishUs ≤ engine.nowUs := by
  have valid := tracked.valid id job found
  unfold Job.admittedUs? at admitted
  unfold Job.finishUs?
  cases cancellation : job.cancellation with
  | some cancellation' => exact ⟨_, rfl, (valid.cancelled _ cancellation).2.1⟩
  | none =>
      cases position : job.position with
      | submitted => simp [position] at admitted
      | waiting => simp [position] at admitted
      | admitted started steps =>
          obtain ⟨-, -, -, past, -⟩ := valid.admitted started steps position
          have beyond : ¬ steps ≤ job.request.maxNewTokens + 1 := fun more =>
            idle ⟨cancellation, started, steps, position, more⟩
          refine ⟨_, if_neg beyond, past _ (by omega)⟩

/-- The slot counts as the scheduler's running request. -/
theorem runningCount (tracked : engine.Tracked jobs) :
    engine.scheduler.runningCount = if engine.activeRequestId.isSome then 1 else 0 := by
  have bounded := tracked.capacity ▸ tracked.scheduler.capacity
  cases slot : engine.activeRequestId with
  | some id =>
      obtain ⟨job, found, here, atUs, steps, position, more⟩ := (tracked.active id).mp slot
      have entry := tracked.entry found
      unfold Job.entry? at entry
      rw [position, here] at entry
      dsimp only at entry
      rw [if_pos more] at entry
      have positive := tracked.scheduler.running_pos entry rfl
      simp only [Option.isSome_some, if_true]
      omega
  | none =>
      rw [tracked.scheduler.running]
      refine OrdMap.total_eq_zero fun id entry found => ?_
      rw [tracked.entries, Option.bind_eq_some_iff] at found
      obtain ⟨job, found, same⟩ := found
      have idle : ¬ job.Active := fun active => by
        rw [(tracked.active id).mpr ⟨job, found, active⟩] at slot
        cases slot
      suffices ended : entry.state ≠ .running by simp [ended]
      intro running
      unfold Job.entry? at same
      split at same <;> cases same
      all_goals first | cases running | skip
      next atUs steps position here =>
        dsimp only at running
        split at running
        · next more => exact idle ⟨here, atUs, steps, position, more⟩
        · cases running

end Tracked

end SimulationEngine

end LlmLab.Serving
