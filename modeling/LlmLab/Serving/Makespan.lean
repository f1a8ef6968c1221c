import LlmLab.Serving.ContinuousBatching.OneSlotRuns
import LlmLab.Serving.Simulation.Log

/-!
# The end of a run

A run that only submits ends when its last request finishes.
-/

namespace LlmLab.Serving

variable {backend : Backend} {request : Request} {atUs : Int}

/-- The decode steps of a request that was served to its end. -/
theorem Job.decodes_served :
    ((Job.timeline backend ⟨request, .admitted atUs (request.maxNewTokens + 2), none⟩).filter
      fun event => event.1 = .decodeStepComplete).map Prod.snd =
    (List.range request.maxNewTokens).map fun k => backend.stepUs request atUs (k + 1) := by
  have decodes : ((List.range request.maxNewTokens).map fun k =>
      (stepType request.maxNewTokens (k + 1), backend.stepUs request atUs (k + 1))).filter
        (fun event => event.1 = .decodeStepComplete) =
      (List.range request.maxNewTokens).map fun k =>
        (stepType request.maxNewTokens (k + 1), backend.stepUs request atUs (k + 1)) := by
    refine List.filter_eq_self.mpr fun event member => ?_
    obtain ⟨k, inside, rfl⟩ := List.mem_map.mp member
    dsimp only
    rw [stepType_succ, if_pos (List.mem_range.mp inside)]
    exact decide_eq_true rfl
  have last : stepType request.maxNewTokens (request.maxNewTokens + 1) = .requestComplete := by
    rw [stepType_succ, if_neg (lt_irrefl _)]
  have split : (List.range (request.maxNewTokens + 2)).map (fun k =>
      (stepType request.maxNewTokens k, backend.stepUs request atUs k)) =
      (.prefillComplete, backend.stepUs request atUs 0) ::
        ((List.range request.maxNewTokens).map fun k =>
          (stepType request.maxNewTokens (k + 1), backend.stepUs request atUs (k + 1))) ++
        [(.requestComplete, backend.stepUs request atUs (request.maxNewTokens + 1))] := by
    rw [List.range_succ_eq_map, List.map_cons, List.map_map, List.range_succ, List.map_append,
      ← last]
    rfl
  unfold Job.timeline
  dsimp only
  rw [split, List.filter_cons_of_neg (by simp), List.cons_append,
    List.filter_cons_of_neg (by simp), List.filter_append, decodes,
    List.filter_cons_of_neg (by simp), List.filter_nil, List.append_nil, List.map_map]
  rfl

/-- No event of a job lies after its last step. -/
theorem Job.timeline_le {steps : Nat} (lawful : backend.Lawful)
    (arrived : request.arrivalTimeUs ≤ atUs) {event : EventType × Int}
    (member : event ∈ Job.timeline backend ⟨request, .admitted atUs steps, none⟩) :
    event.2 ≤ backend.stepUs request atUs request.maxNewTokens := by
  rcases List.mem_cons.mp member with rfl | step
  · exact arrived.trans lawful.at_le_stepUs
  · obtain ⟨k, -, rfl⟩ := List.mem_map.mp step
    rcases le_total k request.maxNewTokens with less | more
    · exact lawful.stepUs_mono less
    · exact le_of_eq (by rw [Backend.stepUs, Backend.stepUs, Nat.min_eq_right more, Nat.min_self])

namespace SimulationEngine

variable {engine next : SimulationEngine} {jobs jobs' : OrdMap RequestId Job}

/-- No job has been cancelled. -/
def Alive (jobs : OrdMap RequestId Job) : Prop :=
  ∀ id job, jobs.find? id = some job → job.cancellation = none

theorem Alive.insert (alive : Alive jobs) {id : RequestId} {job : Job}
    (here : job.cancellation = none) : Alive (jobs.insert id job) := by
  intro other found present
  rw [OrdMap.find?_insert] at present
  split at present
  · exact Option.some.inj present ▸ here
  · exact alive other found present

theorem cancellation_moved {job : Job} (alive : job.cancellation = none) :
    job.moved.cancellation = none := by
  obtain ⟨request, position, _⟩ := job
  cases alive
  cases position <;> rfl

theorem Ran.alive (ran : Ran engine jobs next jobs') (followed : engine.Followed jobs)
    (alive : Alive jobs) : Alive jobs' := by
  refine @Turns.invariant (fun snapshot => Alive snapshot.jobs)
    (fun before after turn _ alive => ?_) _ _ (ran.turns 0) followed alive
  cases turn with
  | advanced _ _ _ => exact alive
  | processed processed => exact alive.insert (cancellation_moved (alive _ _ processed.found))
  | admitted _ present waits _ _ _ => exact alive.insert waits.2
  | committed => exact alive

/-- The clock shows the start or the time of a logged event. -/
def Caught (engine : SimulationEngine) : Prop :=
  engine.nowUs = 0 ∨ ∃ event ∈ engine.eventLog, event.timestampUs = engine.nowUs

/-- The loop of a timestamp keeps the clock and logs the event that is due first. -/
theorem processEvents_logs {fuel : Nat} {processed : List Event} (followed : engine.Followed jobs)
    (alive : Alive jobs) {top : Event} (first : engine.events.top? = some top)
    (now : top.timestampUs = engine.nowUs) :
    Ensures (fun _ => True) (fun (final, processed') => final.nowUs = engine.nowUs ∧
        processed ++ [top] <+: processed')
      (processEvents engine.nowUs fuel engine processed) := by
  induction fuel generalizing engine jobs processed top with
  | zero => trivial
  | succ fuel ih =>
      unfold processEvents EventQueue.pop
      rw [first]
      refine (Ensures.mono_allowed (processEvent_ensures followed (isNext_of_top first) now)
        fun _ _ => trivial).bind ?_
      rintro ⟨logged, next⟩ ⟨job, step⟩
      have here := alive _ _ step.found
      have kept : logged = true := by
        rcases step.logged_cases with ⟨-, kept⟩ | ⟨atUs, cancelled, -⟩
        · exact kept
        · rw [here] at cancelled
          cases cancelled
      subst kept
      have now' : next.nowUs = engine.nowUs := step.grown.now
      dsimp only
      rw [← now', if_pos rfl]
      cases due : next.events.top?.any fun top => top.timestampUs = next.nowUs with
      | true =>
          rw [if_pos rfl]
          obtain ⟨top', first', now''⟩ := (Option.any_eq_true _ _).mp due
          refine (ih step.followed (alive.insert (cancellation_moved here)) first'
            (of_decide_eq_true now'')).mono ?_
          rintro ⟨final, processed'⟩ ⟨same, grows⟩
          exact ⟨same, (List.prefix_append _ _).trans grows⟩
      | false =>
          rw [if_neg Bool.false_ne_true]
          exact ⟨rfl, List.prefix_rfl⟩

/-- One timestamp ends at the time of an event that it logs. -/
theorem processTimestamp_caught (followed : engine.Followed jobs) (alive : Alive jobs)
    {top : Event} (first : engine.events.top? = some top)
    (done : engine.processTimestamp top.timestampUs = .ok next) : Caught next := by
  obtain ⟨due, something, time⟩ := followed.due_of_top first
  have later := time ▸ followed.holds.ahead _ _ something
  have earliest := fun id due (something : agendaOf engine.backend jobs id = some due) =>
    followed.holds.first (isNext_of_top first) something
  have advanced := followed.advance later earliest
  unfold processTimestamp advanceTo at done
  rw [throwIf_of_not (not_lt.mpr later), except_ok_bind] at done
  obtain ⟨_, here, done⟩ := except_bind_eq_ok.mp done
  obtain rfl := Except.ok.inj here
  obtain ⟨⟨middle, processed⟩, events, done⟩ := except_bind_eq_ok.mp done
  obtain ⟨started, starts, done⟩ := except_bind_eq_ok.mp done
  obtain rfl := Except.ok.inj done
  obtain ⟨same, grows⟩ := (processEvents_logs advanced alive first rfl).of_eq_ok events
  obtain ⟨middleJobs, turns, -⟩ :=
    (processEvents_ensures advanced followed.remaining_le_work first rfl).of_eq_ok events
  obtain ⟨jobs', begun⟩ :=
    (startNextIfIdle_ensures ((turns [] 0).followed advanced)).of_eq_ok starts
  have now : started.nowUs = middle.nowUs := by
    cases begun with
    | kept busy => rfl
    | admitted idle present waits least stepped => exact stepped.grown.now
  refine .inr ⟨top, List.mem_append_right _ (grows.subset (by simp)), ?_⟩
  exact (now.trans same).symm

/-- The loop of `run` ends at the time of a logged event. -/
theorem runTimestamps_caught {fuel : Nat} (followed : engine.Followed jobs)
    (idle : Idle engine jobs) (alive : Alive jobs) (caught : Caught engine)
    (done : engine.runTimestamps fuel = (.ok (), next)) : Caught next := by
  induction fuel generalizing engine jobs with
  | zero => cases done
  | succ fuel ih =>
      unfold runTimestamps at done
      cases first : engine.events.top? with
      | none =>
          rw [runNextTimestamp_of_top_none followed first] at done
          cases done
          exact caught
      | some top =>
          rcases runNextTimestamp_of_top followed idle first with
            ⟨error, overflow, result⟩ | ⟨middle, jobs', result, ran, less⟩
          · rw [result] at done
            cases done
          · rw [result] at done
            refine ih (ran.followed followed) ran.idle (ran.alive followed alive) ?_ done
            refine processTimestamp_caught followed alive first ?_
            unfold runNextTimestamp at result
            rw [if_neg (by rw [followed.tracked.alive]; exact Bool.false_ne_true), first] at result
            dsimp only [orFail] at result
            cases stepped : engine.processTimestamp top.timestampUs with
            | error error =>
                rw [stepped] at result
                cases result
            | ok after =>
                rw [stepped] at result
                cases result
                rfl

/-- A completed run ends at the time of a logged event. -/
theorem run_caught (followed : engine.Followed jobs) (idle : Idle engine jobs)
    (alive : Alive jobs) (caught : Caught engine) (done : engine.run = (.ok (), next)) :
    Caught next := by
  unfold run at done
  rw [if_neg (by rw [followed.tracked.alive]; exact Bool.false_ne_true)] at done
  cases result : engine.runTimestamps (engine.work + 1) with
  | mk output after =>
      rw [result] at done
      cases output with
      | error error => cases done
      | ok finish =>
          dsimp only at done
          split at done
          · cases done
          · cases done
            exact runTimestamps_caught followed idle alive caught result

theorem scheduleRequestEvent_nowUs {timestampUs : Int} {id : RequestId} {type : EventType}
    (done : engine.scheduleRequestEvent timestampUs id type = .ok next) :
    next.nowUs = engine.nowUs := by
  unfold scheduleRequestEvent at done
  obtain ⟨_, -, done⟩ := except_bind_eq_ok.mp done
  obtain ⟨⟨sequence, events⟩, -, done⟩ := except_bind_eq_ok.mp done
  cases done
  rfl

theorem submitRequest_nowUs (engine : SimulationEngine) (request : Request) :
    (engine.submitRequest request).2.nowUs = engine.nowUs := by
  unfold submitRequest
  split_ifs
  any_goals rfl
  cases result : (engine.writeRequest request.requestId request).scheduleRequestEvent
      request.arrivalTimeUs request.requestId .requestArrival with
  | error error => rfl
  | ok next =>
      have same := scheduleRequestEvent_nowUs result
      exact same

theorem submitted_nowUs (engine : SimulationEngine) (requests : List Request) :
    (machine.run engine (requests.map .submitRequest)).nowUs = engine.nowUs := by
  induction requests generalizing engine with
  | nil => rfl
  | cons request requests ih =>
      rw [List.map_cons, Machine.run_cons, ih]
      exact submitRequest_nowUs engine request

/-- The clock of a run that only submits ends at the last finish. -/
theorem run_makespan {backend : Backend} (lawful : backend.Lawful) {requests : List Request}
    (ids : (requests.map Request.requestId).Nodup)
    (pristine : ∀ request ∈ requests, request.Pristine ∧ 0 ≤ request.arrivalTimeUs)
    (fits : machine.Along Fits (fresh backend) (requests.map .submitRequest ++ [.run])) :
    let final := machine.run (fresh backend) (requests.map .submitRequest ++ [.run])
    (∀ id record finishUs, final.requests.find? id = some record →
        record.finishTimeUs = some finishUs → finishUs ≤ final.nowUs) ∧
      (final.nowUs = 0 ∨ ∃ id record, final.requests.find? id = some record ∧
        record.finishTimeUs = some final.nowUs) := by
  intro final
  obtain ⟨-, records, -⟩ := run_servedRecords lawful ids pristine fits
  obtain ⟨jobs, followed, -, logged⟩ := runs_invariant
    (fun _ _ move followed logged => move.logged followed logged) lawful
    ⟨List.Pairwise.nil, nofun, nofun, fun _ => rfl⟩ fits
  change Followed final jobs at followed
  change Logged ⟨final, jobs, final.eventLog, _⟩ at logged
  have tracked := followed.tracked
  -- Every job has run to its end.
  have ended : ∀ id job, jobs.find? id = some job → ∃ atUs,
      job = ⟨job.request, .admitted atUs (job.request.maxNewTokens + 2), none⟩ := by
    intro id job present
    have found : final.requests.find? id = some (job.record final.backend) := by
      rw [tracked.requests, present, Option.map_some]
    obtain ⟨request, member, rfl⟩ := records.known _ _ found
    obtain ⟨startUs, place⟩ := exists_served backend member
    have same := Option.some.inj (found.symm.trans (records.places _ _ place))
    exact Job.eq_of_finished (congrArg Request.state same : job.state = .finished)
  have within : ∀ id job atUs, jobs.find? id = some job →
      job = ⟨job.request, .admitted atUs (job.request.maxNewTokens + 2), none⟩ →
      job.finishUs? final.backend =
          some (final.backend.stepUs job.request atUs job.request.maxNewTokens) ∧
        final.backend.stepUs job.request atUs job.request.maxNewTokens ≤ final.nowUs := by
    intro id job atUs present shape
    obtain ⟨-, -, -, steps, -⟩ := (tracked.valid _ _ present).admitted atUs _
      (congrArg Job.position shape)
    refine ⟨?_, steps _ (by omega)⟩
    rw [shape, finishUs?_served, Backend.stepUs, Nat.min_self, serviceUs, add_assoc]
  constructor
  · intro id record finishUs found finish
    rw [tracked.requests] at found
    obtain ⟨job, present, rfl⟩ := Option.map_eq_some_iff.mp found
    obtain ⟨atUs, shape⟩ := ended id job present
    obtain ⟨ends, bound⟩ := within id job atUs present shape
    have finish : job.finishUs? final.backend = some finishUs := finish
    rw [ends, Option.some.injEq] at finish
    exact finish ▸ bound
  · have caught : Caught final := by
      obtain ⟨jobs, followed, idle, only, -, fit, -⟩ := submissions (fresh_followed lawful)
        (fresh_idle backend) submittedOnly_nil rfl rfl ids pristine fits
      have now := submitted_nowUs (fresh backend) requests
      have ends : final = (machine.run (fresh backend) (requests.map .submitRequest)).run.2 :=
        Machine.run_append ..
      rw [ends]
      generalize machine.run (fresh backend) (requests.map .submitRequest) = engine at *
      rcases run_outcome followed idle with
        ⟨error, next, overflow, result⟩ | ⟨next, jobs', result, -⟩
      · exact absurd overflow (fit error (congrArg Prod.fst result))
      · rw [result]
        refine run_caught followed idle (fun id job present => ?_) (.inl now) result
        obtain ⟨request, -, -, rfl⟩ := (only id job).mp present
        rfl
    rcases caught with zero | ⟨event, member, now⟩
    · exact .inl zero
    · have mine : (event.type, event.timestampUs) ∈ eventsOf final.eventLog event.requestId :=
        List.mem_map.mpr ⟨event, List.mem_filter.mpr ⟨member, decide_eq_true rfl⟩, rfl⟩
      have timeline := logged.timelines event.requestId
      dsimp only at timeline
      rw [timeline] at mine
      cases present : jobs.find? event.requestId with
      | none =>
          rw [present] at mine
          cases mine
      | some job =>
          rw [present, Option.elim_some] at mine
          obtain ⟨atUs, shape⟩ := ended _ _ present
          obtain ⟨ends, bound⟩ := within _ _ _ present shape
          obtain ⟨arrived, -⟩ := (tracked.valid _ _ present).admitted atUs _
            (congrArg Job.position shape)
          rw [shape] at mine
          have before := Job.timeline_le tracked.lawful arrived mine
          refine .inr ⟨event.requestId, job.record final.backend, ?_, ?_⟩
          · rw [tracked.requests, present, Option.map_some]
          · change job.finishUs? final.backend = _
            rw [ends]
            exact congrArg some (le_antisymm bound (now ▸ before))

end SimulationEngine

end LlmLab.Serving
