import LlmLab.Serving.Simulation.Admission
import Mathlib.Logic.Relation

/-!
# Runs of the event loop

A `Turn` is one of the steps that the engine takes by itself: the clock advances, an event is
processed, a job is admitted, the log is committed.  Every loop of the engine is a chain of turns,
so that a property of all turns is a property of all loops.
-/

namespace LlmLab.Serving

namespace SimulationEngine

variable {engine next : SimulationEngine} {jobs jobs' : OrdMap RequestId Job} {job : Job}
  {id : RequestId} {log : List Event} {found : Nat}

/-- An engine with its jobs, the events logged so far and the cancellations that found a pending
event. -/
structure Snapshot where
  engine : SimulationEngine
  jobs : OrdMap RequestId Job
  log : List Event
  found : Nat

/-- A step of the event loop. -/
inductive Turn : Snapshot → Snapshot → Prop
  | advanced {engine : SimulationEngine} {jobs : OrdMap RequestId Job} {log : List Event}
      {found : Nat} {timestampUs : Int} : engine.nowUs ≤ timestampUs →
      (∀ id due, agendaOf engine.backend jobs id = some due → timestampUs ≤ due.timestampUs) →
      engine.nowUs = timestampUs ∨ Busy engine jobs →
      Turn ⟨engine, jobs, log, found⟩ ⟨{ engine with nowUs := timestampUs }, jobs, log, found⟩
  | processed {engine next : SimulationEngine} {jobs : OrdMap RequestId Job} {log : List Event}
      {found : Nat} {event : Event} {job : Job} {logged : Bool} :
      Processed engine jobs event job logged next →
      Turn ⟨engine, jobs, log, found⟩ ⟨next, jobs.insert event.requestId job.moved,
        log ++ if logged then [event] else [], found⟩
  | admitted {engine next : SimulationEngine} {jobs : OrdMap RequestId Job} {log : List Event}
      {found : Nat} {id : RequestId} {job : Job} : engine.activeRequestId = none →
      jobs.find? id = some job → job.Waits →
      (∀ other job', jobs.find? other = some job' → job'.Waits → job.key ≤ job'.key) →
      Quiet engine jobs → Stepped engine jobs id (job.admittedAt engine.nowUs) next →
      Turn ⟨engine, jobs, log, found⟩
        ⟨next, jobs.insert id (job.admittedAt engine.nowUs), log, found⟩
  | committed {engine : SimulationEngine} {jobs : OrdMap RequestId Job} {log : List Event}
      {found : Nat} :
      Turn ⟨engine, jobs, log, found⟩ ⟨{ engine with eventLog := log }, jobs, log, found⟩

/-- A chain of turns. -/
abbrev Turns : Snapshot → Snapshot → Prop := Relation.ReflTransGen Turn

theorem Followed.advance (followed : engine.Followed jobs) {timestampUs : Int}
    (later : engine.nowUs ≤ timestampUs)
    (first : ∀ id due, agendaOf engine.backend jobs id = some due →
      timestampUs ≤ due.timestampUs) :
    Followed { engine with nowUs := timestampUs } jobs where
  tracked := { followed.tracked with
    now := followed.tracked.now.trans later
    valid := fun id job found => (followed.tracked.valid id job found).later later }
  holds := followed.holds.advance first

theorem Turn.followed {before after : Snapshot} (turn : Turn before after)
    (followed : before.engine.Followed before.jobs) : after.engine.Followed after.jobs := by
  cases turn with
  | advanced later first _ => exact followed.advance later first
  | processed processed => exact processed.followed
  | admitted _ _ _ _ _ stepped => exact stepped.followed
  | committed => exact ⟨{ followed.tracked with }, followed.holds.congr rfl rfl rfl⟩

/-- What every turn preserves holds after a chain of them. -/
theorem Turns.invariant {property : Snapshot → Prop}
    (preserved : ∀ before after, Turn before after → before.engine.Followed before.jobs →
      property before → property after) {before after : Snapshot} (turns : Turns before after)
    (followed : before.engine.Followed before.jobs) (start : property before) :
    property after := by
  suffices both : after.engine.Followed after.jobs ∧ property after from both.2
  induction turns with
  | refl => exact ⟨followed, start⟩
  | tail _ turn ih => exact ⟨turn.followed ih.1, preserved _ _ turn ih.1 ih.2⟩

theorem Turns.followed {before after : Snapshot} (turns : Turns before after)
    (followed : before.engine.Followed before.jobs) : after.engine.Followed after.jobs :=
  turns.invariant (fun _ _ turn followed _ => turn.followed followed) followed followed

theorem Turns.backend {before after : Snapshot} (turns : Turns before after)
    (followed : before.engine.Followed before.jobs) :
    after.engine.backend = before.engine.backend := by
  refine @Turns.invariant (fun snapshot => snapshot.engine.backend = before.engine.backend)
    (fun middle after turn _ same => ?_) _ _ turns followed rfl
  rw [← same]
  cases turn with
  | advanced _ _ _ => rfl
  | processed processed => exact processed.grown.backend
  | admitted _ _ _ _ _ stepped => exact stepped.grown.backend
  | committed => rfl

/-! ## The loop of one timestamp -/

/-- An event on the agenda takes one step off what remains. -/
theorem remaining_moved {backend : Backend} {due : Due} (something : job.due? backend = some due) :
    job.moved.remaining + 1 = job.remaining := by
  obtain ⟨here, alive⟩ := Job.due?_eq_some something
  obtain ⟨request, position, cancellation⟩ := job
  rcases alive with ⟨rfl, -⟩ | ⟨atUs, rfl, -⟩
  · cases position with
    | submitted => rfl
    | waiting => cases here
    | admitted atUs steps =>
        unfold Job.next? at here
        dsimp only at here
        split at here
        · next within =>
            simp only [Job.remaining, Job.moved]
            omega
        · cases here
  · rfl

theorem Processed.remaining {event : Event} {logged : Bool}
    (processed : Processed engine jobs event job logged next) :
    (jobs.insert event.requestId job.moved).total Job.remaining + 1 =
      jobs.total Job.remaining := by
  have sums := OrdMap.total_put Job.remaining jobs event.requestId job.moved
  rw [processed.found, Option.elim_some] at sums
  have one := remaining_moved processed.due
  omega

/-- The loop of a timestamp processes events until none is due at it. -/
theorem processEvents_ensures {fuel : Nat} {processed : List Event}
    (followed : engine.Followed jobs) (enough : jobs.total Job.remaining ≤ fuel)
    {top : Event} (first : engine.events.top? = some top)
    (now : top.timestampUs = engine.nowUs) :
    Ensures Exn.IsOverflow (fun (final, processed') => ∃ jobs',
        (∀ base found, Turns ⟨engine, jobs, base ++ processed, found⟩
          ⟨final, jobs', base ++ processed', found⟩) ∧
        final.eventLog = engine.eventLog ∧ Quiet final jobs' ∧
        jobs'.total Job.remaining < jobs.total Job.remaining)
      (processEvents engine.nowUs fuel engine processed) := by
  induction fuel generalizing engine jobs processed top with
  | zero =>
      obtain ⟨due, something, -⟩ := followed.due_of_top first
      obtain ⟨job, present, due_eq⟩ := Option.bind_eq_some_iff.mp something
      have some' := OrdMap.le_total Job.remaining present
      have one := remaining_moved due_eq
      omega
  | succ fuel ih =>
      unfold processEvents EventQueue.pop
      rw [first]
      refine (processEvent_ensures followed (isNext_of_top first) now).bind ?_
      rintro ⟨logged, next⟩ ⟨job, step⟩
      have fewer := step.remaining
      have now' : next.nowUs = engine.nowUs := step.grown.now
      have log' : next.eventLog = engine.eventLog := step.grown.log
      have turn : ∀ base found, Turn ⟨engine, jobs, base ++ processed, found⟩
          ⟨next, jobs.insert top.requestId job.moved,
            base ++ (if logged then processed ++ [top] else processed), found⟩ := by
        intro base found
        have turn := @Turn.processed _ _ _ (base ++ processed) found _ _ _ step
        cases logged <;> simpa using turn
      dsimp only
      rw [← now']
      cases due : next.events.top?.any fun top => top.timestampUs = next.nowUs with
      | true =>
          rw [if_pos rfl]
          obtain ⟨top', first', now''⟩ := (Option.any_eq_true _ _).mp due
          refine (ih step.followed (by omega) first' (of_decide_eq_true now'')).mono ?_
          rintro ⟨final, processed'⟩ ⟨jobs', turns, log, quiet, less⟩
          exact ⟨jobs', fun base found => .head (turn base found) (turns base found), log.trans log', quiet, by omega⟩
      | false =>
          rw [if_neg Bool.false_ne_true]
          exact ⟨_, fun base found => .single (turn base found), log', step.followed.quiet_iff.mp due, by omega⟩

/-! ## One timestamp -/

/-- Between two calls: nobody waits for a free slot unless an event is due now. -/
def Idle (engine : SimulationEngine) (jobs : OrdMap RequestId Job) : Prop :=
  Quiet engine jobs → Busy engine jobs

/-- What the engine does by itself between two calls. -/
structure Ran (engine : SimulationEngine) (jobs : OrdMap RequestId Job) (next : SimulationEngine)
    (jobs' : OrdMap RequestId Job) : Prop where
  turns : ∀ found, Turns ⟨engine, jobs, engine.eventLog, found⟩ ⟨next, jobs', next.eventLog, found⟩
  idle : Idle next jobs'

theorem Started.busy (started : Started engine jobs next jobs') : Busy next jobs' := by
  cases started with
  | kept busy => exact busy
  | @admitted id job _ idle present waits least stepped =>
      intro free
      have active : (job.admittedAt engine.nowUs).Active :=
        ⟨waits.2, _, 0, rfl, Nat.zero_le _⟩
      rw [(stepped.tracked.active id).mpr ⟨_, by rw [OrdMap.find?_insert, if_pos rfl], active⟩] at free
      cases free

theorem Started.turns (started : Started engine jobs next jobs') (quiet : Quiet engine jobs) :
    Turns ⟨engine, jobs, log, found⟩ ⟨next, jobs', log, found⟩ := by
  cases started with
  | kept busy => exact .refl
  | admitted idle present waits least stepped =>
      exact .single (.admitted idle present waits least quiet stepped)

theorem Started.eventLog (started : Started engine jobs next jobs') :
    next.eventLog = engine.eventLog := by
  cases started with
  | kept busy => rfl
  | admitted idle present waits least stepped => exact stepped.grown.log

theorem Started.remaining (started : Started engine jobs next jobs') :
    jobs'.total Job.remaining = jobs.total Job.remaining := by
  cases started with
  | kept busy => rfl
  | @admitted id job _ idle present waits least stepped =>
      have sums := OrdMap.total_put Job.remaining jobs id (job.admittedAt engine.nowUs)
      rw [present, Option.elim_some] at sums
      obtain ⟨request, _, _⟩ := job
      obtain ⟨rfl, rfl⟩ := waits
      have same : Job.remaining (Job.admittedAt ⟨request, .waiting, none⟩ engine.nowUs) =
          Job.remaining ⟨request, .waiting, none⟩ := rfl
      omega

/-- The events of the jobs are within the bound of the loops. -/
theorem Followed.remaining_le_work (followed : engine.Followed jobs) :
    jobs.total Job.remaining ≤ engine.work := by
  refine OrdMap.total_le_total fun id job present => ?_
  rw [followed.tracked.requests, present]
  exact ⟨_, rfl, Job.remaining_le⟩

/-- A timestamp carries out what is due, and lowers what remains. -/
theorem processTimestamp_ensures (followed : engine.Followed jobs) (idle : Idle engine jobs)
    {top : Event} (first : engine.events.top? = some top) :
    Ensures Exn.IsOverflow (fun next => ∃ jobs', Ran engine jobs next jobs' ∧
        jobs'.total Job.remaining < jobs.total Job.remaining)
      (engine.processTimestamp top.timestampUs) := by
  obtain ⟨due, something, time⟩ := followed.due_of_top first
  have later := time ▸ followed.holds.ahead _ _ something
  have earliest := fun id due (something : agendaOf engine.backend jobs id = some due) =>
    followed.holds.first (isNext_of_top first) something
  have advanced := followed.advance later earliest
  have busy : engine.nowUs = top.timestampUs ∨ Busy engine jobs := by
    rcases later.eq_or_lt with same | before
    · exact .inl same
    · exact .inr (idle fun id due something => before.trans_le (earliest id due something))
  unfold processTimestamp advanceTo
  rw [throwIf_of_not (not_lt.mpr later), except_ok_bind]
  refine (processEvents_ensures advanced followed.remaining_le_work first rfl).bind ?_
  rintro ⟨middle, processed⟩ ⟨middleJobs, turns, log, quiet, less⟩
  have followed' := (turns [] 0).followed advanced
  refine (startNextIfIdle_ensures followed').bind ?_
  rintro started ⟨jobs', starts⟩
  refine ⟨jobs', ⟨fun found => ?_, fun _ => starts.busy⟩, starts.remaining ▸ less⟩
  have head : Turn ⟨engine, jobs, engine.eventLog, found⟩ _ := .advanced later earliest busy
  have events := turns engine.eventLog found
  rw [List.append_nil] at events
  have same : started.eventLog = engine.eventLog := starts.eventLog.trans log
  refine .tail (.trans (.head head events) (starts.turns quiet)) ?_
  rw [← same]
  exact .committed

end SimulationEngine

end LlmLab.Serving
