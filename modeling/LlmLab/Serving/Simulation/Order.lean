import LlmLab.Lib.Lists
import LlmLab.Lib.SingleServer
import LlmLab.Serving.Simulation.Consistency

/-!
# The order of service

Without cancellations the engine serves its requests by arrival and id, and never leaves one
waiting without cause.  With every request submitted before the run the service times are those of
a single server.
-/

namespace LlmLab.Serving

namespace SimulationEngine

variable {engine next : SimulationEngine} {jobs jobs' : OrdMap RequestId Job} {job : Job}
  {id : RequestId} {log : List Event} {found : Nat}

/-! ## The invariant -/

/-- A job ended at some time. -/
def EndedAt (backend : Backend) (jobs : OrdMap RequestId Job) (key : WaitingKey) (atUs : Int) :
    Prop :=
  ∃ id job, jobs.find? id = some job ∧ job.key = key ∧ job.finishUs? backend = some atUs

/-- Jobs are admitted in order, and as soon as they may be. -/
structure Ordered (snapshot : Snapshot) : Prop where
  alive : ∀ id job, snapshot.jobs.find? id = some job → job.cancellation = none
  /-- Every job before an admitted one has ended. -/
  earlier : ∀ id other job job' atUs, snapshot.jobs.find? id = some job →
    snapshot.jobs.find? other = some job' → job'.key < job.key → job.admittedUs? = some atUs →
    ∃ finishUs, job'.finishUs? snapshot.engine.backend = some finishUs ∧ finishUs ≤ atUs
  /-- An admission follows the arrival of the job, or the end of one before it. -/
  prompt : ∀ id job atUs, snapshot.jobs.find? id = some job → job.admittedUs? = some atUs →
    atUs = job.request.arrivalTimeUs ∨
      ∃ key, key < job.key ∧ EndedAt snapshot.engine.backend snapshot.jobs key atUs
  /-- A job waits for a free slot only since now. -/
  free : snapshot.engine.activeRequestId = none → ∀ id job, snapshot.jobs.find? id = some job →
    job.Waits → job.request.arrivalTimeUs = snapshot.engine.nowUs ∨
      ∃ key, EndedAt snapshot.engine.backend snapshot.jobs key snapshot.engine.nowUs

theorem key_inj (followed : engine.Followed jobs) {other : RequestId} {job' : Job}
    (present : jobs.find? id = some job) (present' : jobs.find? other = some job')
    (same : job.key = job'.key) : id = other := by
  have ids := congrArg (fun key => (ofLex key).2) same
  exact (followed.tracked.ids id job present).symm.trans
    (ids.trans (followed.tracked.ids other job' present'))

/-- An end stays when a job that has not ended is rewritten. -/
theorem EndedAt.insert {backend : Backend} {key : WaitingKey} {atUs : Int} {job' : Job}
    (ended : EndedAt backend jobs key atUs) (present : jobs.find? id = some job)
    (running : job.finishUs? backend = none) : EndedAt backend (jobs.insert id job') key atUs := by
  obtain ⟨other, earlier, found, same, finish⟩ := ended
  have apart : other ≠ id := fun equal => by
    rw [equal, present, Option.some.injEq] at found
    rw [← found, running] at finish
    cases finish
  exact ⟨other, earlier, by rw [OrdMap.find?_insert, if_neg apart, found], same, finish⟩

/-! ## Every turn keeps the order -/

theorem finishUs?_of_next {backend : Backend} {next : EventType × Int}
    (alive : job.cancellation = none) (here : job.next? backend = some next) :
    job.finishUs? backend = none := by
  obtain ⟨request, position, _⟩ := job
  cases alive
  unfold Job.next? at here
  cases position with
  | submitted => rfl
  | waiting => rfl
  | admitted atUs steps =>
      dsimp only at here
      split at here
      · next within => exact if_pos within
      · cases here

theorem moved_same {job : Job} (alive : job.cancellation = none) :
    job.moved.cancellation = none ∧ job.moved.request = job.request ∧
      job.moved.admittedUs? = job.admittedUs? := by
  obtain ⟨request, position, _⟩ := job
  cases alive
  cases position <;> exact ⟨rfl, rfl, rfl⟩

/-- The slot gets free when its job ends. -/
theorem Processed.freed (followed : engine.Followed jobs) {event : Event} {logged : Bool}
    (processed : Processed engine jobs event job logged next) (alive : job.cancellation = none)
    (freed : next.activeRequestId = none) :
    (engine.activeRequestId = none ∧
        (job.moved.Waits → job.request.arrivalTimeUs = engine.nowUs)) ∨
      job.moved.finishUs? engine.backend = some engine.nowUs := by
  obtain ⟨here, -⟩ := Job.due?_eq_some processed.due
  rw [processed.now] at here
  have idle : ∀ id job', (jobs.insert event.requestId job.moved).find? id = some job' →
      ¬ job'.Active := fun id job' present active => by
    rw [(processed.followed.tracked.active id).mpr ⟨job', present, active⟩] at freed
    cases freed
  have beyond := idle event.requestId job.moved (by rw [OrdMap.find?_insert, if_pos rfl])
  cases slot : engine.activeRequestId with
  | none =>
      refine .inl ⟨rfl, fun waits => ?_⟩
      obtain ⟨request, position, _⟩ := job
      cases alive
      cases position with
      | submitted => exact congrArg Prod.snd (Option.some.inj here)
      | waiting => cases here
      | admitted atUs steps => cases waits.1
  | some id =>
      obtain ⟨active, present, isActive⟩ := (followed.tracked.active id).mp slot
      obtain rfl : id = event.requestId := by
        by_contra apart
        exact idle id active (by rw [OrdMap.find?_insert, if_neg apart, present]) isActive
      rw [processed.found, Option.some.injEq] at present
      subst present
      obtain ⟨request, position, _⟩ := job
      obtain ⟨rfl, atUs, steps, rfl, within⟩ := isActive
      have last : steps = request.maxNewTokens + 1 := by
        by_contra short
        dsimp only at within
        have within' : steps + 1 ≤ request.maxNewTokens + 1 := by omega
        exact beyond ⟨rfl, atUs, steps + 1, rfl, within'⟩
      subst last
      have now : engine.backend.stepUs request atUs (request.maxNewTokens + 1) = engine.nowUs :=
        congrArg Prod.snd (Option.some.inj ((if_pos within).symm.trans here))
      have beyond' : ¬ request.maxNewTokens + 1 + 1 ≤ request.maxNewTokens + 1 := by omega
      rw [← now, Backend.stepUs_last le_rfl]
      exact .inr (if_neg beyond')

/-- Processing an event keeps the order of the admissions. -/
theorem Ordered.processed (followed : engine.Followed jobs)
    (ordered : Ordered ⟨engine, jobs, log, found⟩) {event : Event} {logged : Bool}
    (processed : Processed engine jobs event job logged next) (log' : List Event) :
    Ordered ⟨next, jobs.insert event.requestId job.moved, log', found⟩ := by
  have alive := ordered.alive _ job processed.found
  obtain ⟨here, -⟩ := Job.due?_eq_some processed.due
  have running := finishUs?_of_next alive here
  obtain ⟨alive', request, admitted⟩ := moved_same alive
  have key : job.moved.key = job.key := by
    unfold Job.key
    rw [request]
  have backend : next.backend = engine.backend := processed.grown.backend
  have now : next.nowUs = engine.nowUs := processed.grown.now
  constructor
  case alive =>
    intro id job' present
    rw [OrdMap.find?_insert] at present
    split at present
    · cases present
      exact alive'
    · exact ordered.alive id job' present
  case earlier =>
    intro id other first second atUs present present' less admits
    dsimp only at present present' ⊢
    rw [OrdMap.find?_insert] at present present'
    rw [backend]
    by_cases mine' : other = event.requestId
    · rw [if_pos mine', Option.some.injEq] at present'
      subst present'
      by_cases mine : id = event.requestId
      · rw [if_pos mine, Option.some.injEq] at present
        subst present
        exact absurd less (lt_irrefl _)
      · rw [if_neg mine] at present
        obtain ⟨finishUs, ended, -⟩ := ordered.earlier id _ first job atUs present processed.found
          (key ▸ less) admits
        rw [running] at ended
        cases ended
    · rw [if_neg mine'] at present'
      by_cases mine : id = event.requestId
      · rw [if_pos mine, Option.some.injEq] at present
        subst present
        exact ordered.earlier _ other job second atUs processed.found present' (key ▸ less)
          (admitted ▸ admits)
      · rw [if_neg mine] at present
        exact ordered.earlier id other first second atUs present present' less admits
  case prompt =>
    intro id first atUs present admits
    dsimp only at present ⊢
    rw [OrdMap.find?_insert] at present
    rw [backend]
    have old : ∃ id before, jobs.find? id = some before ∧ before.key = first.key ∧
        before.request = first.request ∧ before.admittedUs? = some atUs := by
      split at present
      · cases present
        exact ⟨_, job, processed.found, key.symm, request.symm, admitted ▸ admits⟩
      · exact ⟨id, first, present, rfl, rfl, admits⟩
    obtain ⟨id, before, present, key, request, admits⟩ := old
    rw [← key, ← request]
    refine (ordered.prompt id before atUs present admits).imp_right fun ⟨key, less, ended⟩ => ?_
    exact ⟨key, less, ended.insert processed.found running⟩
  case free =>
    intro freed id first present waits
    dsimp only at present ⊢
    rw [OrdMap.find?_insert] at present
    rw [backend, now]
    rcases processed.freed followed alive freed with ⟨idle, arrives⟩ | finish
    · split at present
      · cases present
        exact .inl (request ▸ arrives waits)
      · refine (ordered.free idle id first present waits).imp_right fun ⟨key, ended⟩ => ?_
        exact ⟨key, ended.insert processed.found running⟩
    · exact .inr ⟨_, _, job.moved, by rw [OrdMap.find?_insert, if_pos rfl], rfl, finish⟩

/-- When a job is admitted, every job before it has ended. -/
theorem Ordered.before_head (followed : engine.Followed jobs)
    (ordered : Ordered ⟨engine, jobs, log, found⟩) (free : engine.activeRequestId = none)
    (quiet : Quiet engine jobs) (present : jobs.find? id = some job) (waits : job.Waits)
    (least : ∀ other job', jobs.find? other = some job' → job'.Waits → job.key ≤ job'.key)
    {other : RequestId} {job' : Job} (present' : jobs.find? other = some job')
    (less : job'.key < job.key) : ∃ finishUs,
      job'.finishUs? engine.backend = some finishUs ∧ finishUs ≤ engine.nowUs := by
  have alive := ordered.alive other job' present'
  have arrived := (followed.tracked.valid id job present).waiting waits.1
  cases position : job'.position with
  | submitted =>
      have due : agendaOf engine.backend jobs other =
          some ⟨.requestArrival, job'.request.arrivalTimeUs, false⟩ := by
        unfold agendaOf Job.due? Job.next?
        rw [present', Option.bind_some, alive, position]
        rfl
      have later := quiet other _ due
      have sooner : job'.request.arrivalTimeUs ≤ job.request.arrivalTimeUs := by
        rcases Prod.Lex.lt_iff.mp less with before | ⟨same, -⟩
        · exact before.le
        · exact same.le
      dsimp only at later
      omega
  | waiting => exact absurd less (not_lt.mpr (least other job' present' ⟨position, alive⟩))
  | admitted atUs steps =>
      refine followed.tracked.ended present' (fun active => ?_)
        (show job'.admittedUs? = some atUs by unfold Job.admittedUs?; rw [position])
      rw [(followed.tracked.active other).mpr ⟨job', present', active⟩] at free
      cases free

/-- To admit the first waiting job keeps the order of the admissions. -/
theorem Ordered.admitted (followed : engine.Followed jobs)
    (ordered : Ordered ⟨engine, jobs, log, found⟩) (free : engine.activeRequestId = none)
    (present : jobs.find? id = some job) (waits : job.Waits)
    (least : ∀ other job', jobs.find? other = some job' → job'.Waits → job.key ≤ job'.key)
    (quiet : Quiet engine jobs) (stepped : Stepped engine jobs id (job.admittedAt engine.nowUs) next) :
    Ordered ⟨next, jobs.insert id (job.admittedAt engine.nowUs), log, found⟩ := by
  have running : job.finishUs? engine.backend = none := by
    unfold Job.finishUs?
    rw [waits.1, waits.2]
  have key : (job.admittedAt engine.nowUs).key = job.key := rfl
  have backend : next.backend = engine.backend := stepped.grown.backend
  constructor
  case alive =>
    intro other job' present'
    rw [OrdMap.find?_insert] at present'
    split at present'
    · cases present'
      exact waits.2
    · exact ordered.alive other job' present'
  case earlier =>
    intro first second one two atUs here there less admits
    dsimp only at here there ⊢
    rw [OrdMap.find?_insert] at here there
    rw [backend]
    by_cases mine' : second = id
    · rw [if_pos mine', Option.some.injEq] at there
      subst there
      by_cases mine : first = id
      · rw [if_pos mine, Option.some.injEq] at here
        subst here
        exact absurd less (lt_irrefl _)
      · rw [if_neg mine] at here
        obtain ⟨finishUs, ended, -⟩ := ordered.earlier first id one job atUs here present less admits
        rw [running] at ended
        cases ended
    · rw [if_neg mine'] at there
      by_cases mine : first = id
      · rw [if_pos mine, Option.some.injEq] at here
        subst here
        cases admits
        exact ordered.before_head followed free quiet present waits least there less
      · rw [if_neg mine] at here
        exact ordered.earlier first second one two atUs here there less admits
  case prompt =>
    intro other job' atUs here admits
    dsimp only at here ⊢
    rw [OrdMap.find?_insert] at here
    rw [backend]
    by_cases mine : other = id
    · rw [if_pos mine, Option.some.injEq] at here
      subst here
      cases admits
      refine (ordered.free free id job present waits).imp Eq.symm fun ⟨last, ended⟩ => ?_
      refine ⟨last, ?_, ended.insert present running⟩
      -- The job that ended now was served before, so it is before this one.
      obtain ⟨last', job', found, rfl, finish⟩ := ended
      by_contra notLess
      rcases (not_lt.mp notLess).eq_or_lt with same | greater
      · have equal := key_inj followed present found same
        rw [← equal, present, Option.some.injEq] at found
        rw [← found, running] at finish
        cases finish
      · have admits : ∃ atUs, job'.admittedUs? = some atUs := by
          have alive := ordered.alive last' job' found
          unfold Job.finishUs? at finish
          rw [alive] at finish
          unfold Job.admittedUs?
          cases position : job'.position <;> rw [position] at finish
          · cases finish
          · cases finish
          · exact ⟨_, rfl⟩
        obtain ⟨atUs, admits⟩ := admits
        obtain ⟨finishUs, ended, -⟩ :=
          ordered.earlier last' id job' job atUs found present greater admits
        rw [running] at ended
        cases ended
    · rw [if_neg mine] at here
      refine (ordered.prompt other job' atUs here admits).imp_right fun ⟨key, less, ended⟩ => ?_
      exact ⟨key, less, ended.insert present running⟩
  case free =>
    intro idle
    have active : (job.admittedAt engine.nowUs).Active := ⟨waits.2, _, 0, rfl, Nat.zero_le _⟩
    rw [(stepped.tracked.active id).mpr ⟨_, by rw [OrdMap.find?_insert, if_pos rfl], active⟩] at idle
    cases idle

theorem Turn.ordered {before after : Snapshot} (turn : Turn before after)
    (followed : before.engine.Followed before.jobs) (ordered : Ordered before) :
    Ordered after := by
  cases turn with
  | advanced later first busy =>
      refine ⟨ordered.alive, ordered.earlier, ordered.prompt, fun free id job present waits => ?_⟩
      rcases busy with rfl | busy
      · exact ordered.free free id job present waits
      · exact absurd waits (busy free id job present)
  | processed processed => exact ordered.processed followed processed _
  | admitted free present waits least quiet stepped =>
      exact ordered.admitted followed free present waits least quiet stepped
  | committed => exact ⟨ordered.alive, ordered.earlier, ordered.prompt, ordered.free⟩

/-! ## Submitting before the run -/

/-- The jobs of requests that were all just submitted. -/
def SubmittedOnly (jobs : OrdMap RequestId Job) (requests : List Request) : Prop :=
  ∀ id job, jobs.find? id = some job ↔
    ∃ request ∈ requests, request.requestId = id ∧ job = submitted request

theorem submittedOnly_nil : SubmittedOnly OrdMap.empty [] := by
  intro id job
  exact ⟨nofun, fun ⟨_, member, _⟩ => by cases member⟩

/-- One more submission. -/
theorem SubmittedOnly.concat {requests : List Request} {request : Request}
    (only : SubmittedOnly jobs requests) (fresh : jobs.find? request.requestId = none) :
    SubmittedOnly (jobs.insert request.requestId (submitted request)) (requests ++ [request]) := by
  intro id job
  rw [OrdMap.find?_insert]
  constructor
  · intro present
    split at present
    · next same =>
        cases present
        exact ⟨request, by simp, same.symm, rfl⟩
    · obtain ⟨request', member, named, rfl⟩ := (only id job).mp present
      exact ⟨request', List.mem_append_left _ member, named, rfl⟩
  · rintro ⟨request', member, rfl, rfl⟩
    rcases List.mem_append.mp member with earlier | last
    · have present := (only request'.requestId _).mpr ⟨request', earlier, rfl, rfl⟩
      have apart : request'.requestId ≠ request.requestId := fun same => by
        rw [same, fresh] at present
        cases present
      rw [if_neg apart, present]
    · rw [List.mem_singleton] at last
      rw [last, if_pos rfl]

/-- Before the run starts every request is submitted and nothing else has happened. -/
theorem submissions {backend : Backend} {rest before : List Request}
    (followed : engine.Followed jobs) (idle : Idle engine jobs)
    (only : SubmittedOnly jobs before) (now : engine.nowUs = 0)
    (same : engine.backend = backend)
    (ids : ((before ++ rest).map Request.requestId).Nodup)
    (pristine : ∀ request ∈ rest, request.Pristine ∧ 0 ≤ request.arrivalTimeUs)
    (fits : machine.Along Fits engine (rest.map .submitRequest ++ [.run])) :
    ∃ jobs', (machine.run engine (rest.map .submitRequest)).Followed jobs' ∧
      Idle (machine.run engine (rest.map .submitRequest)) jobs' ∧
      SubmittedOnly jobs' (before ++ rest) ∧
      (machine.run engine (rest.map .submitRequest)).backend = backend ∧
      Fits (machine.run engine (rest.map .submitRequest)) .run ∧
      ∀ output ∈ machine.outputs engine (rest.map .submitRequest), output = .ok () := by
  induction rest generalizing engine jobs before with
  | nil =>
      rw [List.append_nil]
      exact ⟨jobs, followed, idle, only, same, fits.1, nofun⟩
  | cons request rest ih =>
      obtain ⟨fit, along⟩ := fits
      obtain ⟨isPristine, nonneg⟩ := pristine request (List.mem_cons_self ..)
      have split : before ++ request :: rest = before ++ [request] ++ rest := by simp
      rw [split] at ids ⊢
      rcases fit.outcome followed idle with ⟨refused, -⟩ | ⟨jobs', effect, done⟩
      · cases refused with
        | impure impure => exact absurd isPristine impure
        | late late => omega
        | duplicate duplicate =>
            obtain ⟨record, found⟩ := OrdMap.contains_iff.mp duplicate
            rw [followed.tracked.requests] at found
            obtain ⟨job, present, -⟩ := Option.map_eq_some_iff.mp found
            obtain ⟨other, member, named, -⟩ := (only _ job).mp present
            rw [List.map_append, List.map_append, List.nodup_append] at ids
            have apart := (List.nodup_append.mp ids.1).2.2 other.requestId
              (List.mem_map_of_mem member) request.requestId (by simp)
            exact absurd named apart
      · cases effect with
        | submitted _ _ fresh stepped =>
            obtain ⟨jobs', followed', idle', only', same', fits', answers⟩ := ih stepped.followed
              (Effect.idle (.submitted isPristine (by omega) fresh stepped) followed idle)
              (only.concat fresh) (stepped.grown.now.trans now) (stepped.grown.backend.trans same)
              ids (fun request member => pristine request (List.mem_cons_of_mem _ member)) along
            refine ⟨jobs', followed', idle', only', same', fits', fun output member => ?_⟩
            rcases List.mem_cons.mp member with rfl | later
            · exact done
            · exact answers output later

/-! ## The closed form -/

/-- The order of service. -/
def servingKey (request : Request) : WaitingKey := toLex (request.arrivalTimeUs, request.requestId)

/-- How long a request keeps the slot. -/
def serviceUs (backend : Backend) (request : Request) : Int :=
  backend.prefillUs request + request.maxNewTokens * backend.decodeUs

/-- The requests by arrival and id with their starting times: the first one starts when it
arrives, each other one when it has arrived and the one before it is finished. -/
def served (backend : Backend) (requests : List Request) : List (Request × Int) :=
  serve Request.arrivalTimeUs (serviceUs backend) none (sortBy servingKey requests)

/-- The record of a request that started at a time and was served to its end. -/
def servedRecord (backend : Backend) (request : Request) (startUs : Int) : Request :=
  { request with
    state := .finished
    generatedTokenCount := request.maxNewTokens
    admittedTimeUs := some startUs
    firstScheduledTimeUs := some startUs
    firstTokenTimeUs := if request.maxNewTokens = 0 then none
      else some (startUs + backend.prefillUs request + backend.decodeUs)
    finishTimeUs := some (startUs + serviceUs backend request) }

/-- Turns change no request. -/
theorem sameRequests {before after : Snapshot} (turns : Turns before after)
    (followed : before.engine.Followed before.jobs) (id : RequestId) :
    (after.jobs.find? id).map Job.request = (before.jobs.find? id).map Job.request := by
  refine @Turns.invariant (fun snapshot => (snapshot.jobs.find? id).map Job.request =
    (before.jobs.find? id).map Job.request) (fun middle after turn _ same => ?_) _ _ turns followed
    rfl
  rw [← same]
  cases turn with
  | advanced _ _ _ => rfl
  | @processed engine next jobs log found event job logged processed =>
      dsimp only
      rw [OrdMap.find?_insert]
      split
      · next mine =>
          rw [mine, processed.found]
          obtain ⟨request, position, cancellation⟩ := job
          cases cancellation <;> cases position <;> rfl
      · rfl
  | @admitted engine next jobs log found id' job free present waits least quiet stepped =>
      dsimp only
      rw [OrdMap.find?_insert]
      split
      · next mine =>
          rw [mine, present]
          rfl
      · rfl
  | committed => rfl

/-- The starting time of a request. -/
def startUs (jobs : OrdMap RequestId Job) (request : Request) : Int :=
  ((jobs.find? request.requestId).bind Job.admittedUs?).getD 0

/-- Every job of the requests was served to its end. -/
def ServedAll (jobs : OrdMap RequestId Job) (requests : List Request) : Prop :=
  ∀ id job, jobs.find? id = some job ↔ ∃ request ∈ requests, request.requestId = id ∧
    job = ⟨request, .admitted (startUs jobs request) (request.maxNewTokens + 2), none⟩

/-- When every job has ended, the requests were all served. -/
theorem servedAll {before after : Snapshot} {requests : List Request}
    (turns : Turns before after) (followed : before.engine.Followed before.jobs)
    (only : SubmittedOnly before.jobs requests)
    (alive : ∀ id job, after.jobs.find? id = some job → job.cancellation = none)
    (beyond : ∀ id job, after.jobs.find? id = some job → ¬ job.Live) :
    ServedAll after.jobs requests := by
  have followed' := turns.followed followed
  have full : ∀ id job, after.jobs.find? id = some job →
      job = ⟨job.request, .admitted (startUs after.jobs job.request)
        (job.request.maxNewTokens + 2), none⟩ := by
    intro id job present
    have named := followed'.tracked.ids id job present
    have ended := beyond id job present
    have within := (followed'.tracked.valid id job present).admitted
    have start : startUs after.jobs job.request = (job.admittedUs?).getD 0 := by
      unfold startUs
      rw [named, present, Option.bind_some]
    have live := alive id job present
    obtain ⟨request, position, _⟩ := job
    cases live
    cases position with
    | submitted => exact absurd ⟨rfl, nofun⟩ ended
    | waiting => exact absurd ⟨rfl, nofun⟩ ended
    | admitted atUs steps =>
        have last : steps = request.maxNewTokens + 2 := by
          have bound := (within atUs steps rfl).2.2.1
          by_contra short
          refine ended ⟨rfl, fun atUs' steps' same => ?_⟩
          cases same
          dsimp only at bound ⊢
          omega
        rw [start, last]
        rfl
  intro id job
  have same := sameRequests turns followed id
  constructor
  · intro present
    rw [present, Option.map_some] at same
    obtain ⟨first, found, request⟩ := Option.map_eq_some_iff.mp same.symm
    obtain ⟨request', member, named, rfl⟩ := (only id first).mp found
    have request : request' = job.request := request
    exact ⟨request', member, named, request ▸ full id job present⟩
  · rintro ⟨request, member, rfl, rfl⟩
    rw [(only request.requestId _).mpr ⟨request, member, rfl, rfl⟩, Option.map_some] at same
    obtain ⟨job, present, request'⟩ := Option.map_eq_some_iff.mp same
    have request' : job.request = request := request'
    rw [present, ← request', ← full _ job present]

section Final

variable {requests : List Request}

theorem ServedAll.find (all : ServedAll jobs requests) {request : Request}
    (member : request ∈ requests) : jobs.find? request.requestId =
      some ⟨request, .admitted (startUs jobs request) (request.maxNewTokens + 2), none⟩ :=
  (all _ _).mpr ⟨request, member, rfl, rfl⟩

theorem finishUs?_served {backend : Backend} {request : Request} {atUs : Int} :
    Job.finishUs? backend ⟨request, .admitted atUs (request.maxNewTokens + 2), none⟩ =
      some (atUs + serviceUs backend request) := by
  have beyond : ¬ request.maxNewTokens + 2 ≤ request.maxNewTokens + 1 := by omega
  unfold Job.finishUs? serviceUs Backend.stepUs
  dsimp only
  rw [if_neg beyond, Nat.min_self, add_assoc]

/-- The starting times are those of the closed form. -/
theorem ServedAll.served_eq (all : ServedAll jobs requests) (followed : engine.Followed jobs)
    (ordered : Ordered ⟨engine, jobs, log, found⟩)
    (ids : (requests.map Request.requestId).Nodup) : served engine.backend requests =
      (sortBy servingKey requests).map fun request => (request, startUs jobs request) := by
  have lawful := followed.tracked.lawful
  have valid := fun request (member : request ∈ requests) =>
    (followed.tracked.valid _ _ (all.find member)).admitted _ _ rfl
  have ended : ∀ first ∈ requests, ∀ second ∈ requests, servingKey first < servingKey second →
      startUs jobs first + serviceUs engine.backend first ≤ startUs jobs second := by
    intro first here second there less
    obtain ⟨finishUs, same, before⟩ := ordered.earlier _ _ _ _ _ (all.find there) (all.find here)
      less rfl
    rw [finishUs?_served, Option.some.injEq] at same
    exact same ▸ before
  have distinct : (sortBy servingKey requests).Pairwise fun first second =>
      servingKey first < servingKey second := by
    have perm := (sortBy_perm servingKey requests).map Request.requestId
    have apart := List.pairwise_map.mp (perm.nodup_iff.mpr ids)
    refine ((sortBy_sorted servingKey requests).and apart).imp fun {first second} both => ?_
    refine lt_of_le_of_ne both.1 fun same => both.2 ?_
    exact congrArg (fun key => (ofLex key).2) same
  refine @serve_eq_map _ _ _ _ [] (sortBy servingKey requests) none ?_ ?_ ?_ ?_ rfl
  · intro request member
    have one := lawful.prefillUs_nonneg request
    have more := mul_nonneg (Int.natCast_nonneg request.maxNewTokens) lawful.decodeUs_nonneg
    exact add_nonneg one more
  · intro request member
    exact (valid request (mem_sortBy.mp member)).1
  · refine distinct.imp_of_mem fun {first second} here there less => ?_
    exact ended first (mem_sortBy.mp here) second (mem_sortBy.mp there) less
  · intro earlier request rest split
    rw [List.nil_append] at split
    have member : request ∈ requests := mem_sortBy.mp (split ▸ List.mem_append_right _ (by simp))
    refine (ordered.prompt _ _ _ (all.find member) rfl).imp_right fun ⟨key, less, ended⟩ => ?_
    obtain ⟨id, job, present, rfl, finish⟩ := ended
    obtain ⟨other, inside, rfl, rfl⟩ := (all id job).mp present
    rw [finishUs?_served, Option.some.injEq] at finish
    refine ⟨other, ?_, finish⟩
    -- A request with a smaller key stands before this one.
    have place : other ∈ earlier ++ request :: rest := split ▸ mem_sortBy.mpr inside
    rcases List.mem_append.mp place with before | behind
    · exact before
    · rw [split, List.pairwise_append] at distinct
      rcases List.mem_cons.mp behind with rfl | later
      · exact absurd less (lt_irrefl _)
      · have greater := List.rel_of_pairwise_cons distinct.2.1 later
        exact absurd less (lt_asymm greater)

theorem sum_toNat {xs : List Request} {value : Request → Int}
    (nonneg : ∀ request ∈ xs, 0 ≤ value request) :
    (((xs.map fun request => (value request).toNat).sum : Nat) : Int) = (xs.map value).sum := by
  induction xs with
  | nil => rfl
  | cons request rest ih =>
      have first := nonneg request (List.mem_cons_self ..)
      rw [List.map_cons, List.map_cons, List.sum_cons, List.sum_cons, Nat.cast_add,
        ih fun other member => nonneg other (List.mem_cons_of_mem _ member),
        Int.toNat_of_nonneg first]

/-- The scheduler's total is the sum of the waits. -/
theorem ServedAll.waited (all : ServedAll jobs requests) (followed : engine.Followed jobs)
    (ids : (requests.map Request.requestId).Nodup) :
    engine.scheduler.statistics.totalQueueWaitTimeUs =
      (requests.map fun request => startUs jobs request - request.arrivalTimeUs).sum := by
  have tracked := followed.tracked
  have entries : ∀ id entry, engine.scheduler.entries.find? id = some entry ↔
      ∃ request ∈ requests, request.requestId = id ∧ entry =
        ⟨request.arrivalTimeUs, .completed, true, some (startUs jobs request)⟩ := by
    have entry : ∀ request : Request, Job.entry? ⟨request,
        .admitted (startUs jobs request) (request.maxNewTokens + 2), none⟩ =
          some ⟨request.arrivalTimeUs, .completed, true, some (startUs jobs request)⟩ := by
      intro request
      have beyond : ¬ request.maxNewTokens + 2 ≤ request.maxNewTokens + 1 := by omega
      unfold Job.entry?
      dsimp only
      rw [if_neg beyond]
    intro id value
    rw [tracked.entries, Option.bind_eq_some_iff]
    constructor
    · rintro ⟨job, present, same⟩
      obtain ⟨request, member, named, rfl⟩ := (all id job).mp present
      rw [entry, Option.some.injEq] at same
      exact ⟨request, member, named, same.symm⟩
    · rintro ⟨request, member, rfl, rfl⟩
      exact ⟨_, all.find member, entry request⟩
  have total : engine.scheduler.entries.total Entry.waitUs = (requests.map fun request =>
      Entry.waitUs ⟨request.arrivalTimeUs, .completed, true, some (startUs jobs request)⟩).sum :=
    OrdMap.total_eq_sum ids entries
  rw [tracked.scheduler.waited, total]
  refine sum_toNat fun request member => ?_
  have arrived := ((tracked.valid _ _ (all.find member)).admitted _ _ rfl).1
  exact Int.sub_nonneg_of_le arrived

/-- The record of a job that has completed all its steps. -/
theorem record_served {backend : Backend} {request : Request} {atUs : Int} :
    Job.record backend ⟨request, .admitted atUs (request.maxNewTokens + 2), none⟩ =
      servedRecord backend request atUs := by
  have finish := @finishUs?_served backend request atUs
  have state : Job.state ⟨request, .admitted atUs (request.maxNewTokens + 2), none⟩ =
      .finished := by
    simp [Job.state]
  have generated : Job.generated ⟨request, .admitted atUs (request.maxNewTokens + 2), none⟩ =
      request.maxNewTokens := by
    simp [Job.generated]
  have token : Job.firstTokenUs? backend
      ⟨request, .admitted atUs (request.maxNewTokens + 2), none⟩ =
      if request.maxNewTokens = 0 then none
        else some (atUs + backend.prefillUs request + backend.decodeUs) := by
    unfold Job.firstTokenUs?
    rw [generated]
    dsimp only
    by_cases zero : request.maxNewTokens = 0
    · rw [if_pos zero, if_pos zero]
    · have first := @Backend.stepUs_succ backend request atUs 0 (Nat.pos_of_ne_zero zero)
      rw [if_neg zero, if_neg zero, first, Backend.stepUs_zero]
  unfold Job.record servedRecord
  rw [state, generated, token, finish]
  rfl

end Final

/-- The result of a simulation in closed form. -/
structure ClosedForm (backend : Backend) (requests : List Request) (final : SimulationEngine) :
    Prop where
  records : ∀ request startUs, (request, startUs) ∈ served backend requests →
    final.requests.find? request.requestId = some (servedRecord backend request startUs)
  known : ∀ id record, final.requests.find? id = some record →
    ∃ request ∈ requests, request.requestId = id
  waited : final.scheduler.statistics.totalQueueWaitTimeUs =
    ((served backend requests).map fun service => service.2 - service.1.arrivalTimeUs).sum
  /-- The costs in it are the backend's estimates. -/
  costs : ∀ request ∈ requests,
    backend.estimatePrefillUs request.promptLength 1 = .ok (backend.prefillUs request) ∧
      (0 < request.maxNewTokens → backend.estimateDecodeStepUs 1 = .ok backend.decodeUs)

/-- Requests that are all submitted before the run, in any order, are served like customers of a
single server, by arrival and id. -/
theorem simulation_closed_form {backend : Backend} (lawful : backend.Lawful)
    (requests : List Request) (ids : (requests.map Request.requestId).Nodup)
    (pristine : ∀ request ∈ requests, request.Pristine ∧ 0 ≤ request.arrivalTimeUs)
    (fits : machine.Along Fits (fresh backend) (requests.map .submitRequest ++ [.run])) :
    (∀ output ∈ machine.outputs (fresh backend) (requests.map .submitRequest ++ [.run]),
      output = .ok ()) ∧
      ClosedForm backend requests
        (machine.run (fresh backend) (requests.map .submitRequest ++ [.run])) := by
  obtain ⟨jobs, followed, idle, only, same, fit, answers⟩ := submissions (fresh_followed lawful)
    (fresh_idle backend) submittedOnly_nil rfl rfl ids pristine fits
  rw [Machine.run_append, Machine.outputs_append]
  generalize machine.run (fresh backend) (requests.map .submitRequest) = engine at *
  rw [List.nil_append] at only
  rcases run_outcome followed idle with
    ⟨error, next, overflow, result⟩ | ⟨next, jobs', result, ran, drained⟩
  · exact absurd overflow (fit error (congrArg Prod.fst result))
  have final : machine.run engine [.run] = next := congrArg Prod.snd result
  rw [final]
  refine ⟨fun output member => ?_, ?_⟩
  · rcases List.mem_append.mp member with submitted | last
    · exact answers output submitted
    · rw [List.mem_singleton.mp last]
      exact congrArg Prod.fst result
  have followed' := ran.followed followed
  have turns := ran.turns 0
  have start : Ordered ⟨engine, jobs, engine.eventLog, 0⟩ := by
    have none' : ∀ id job, jobs.find? id = some job → job.cancellation = none ∧
        job.admittedUs? = none ∧ ¬ job.Waits := fun id job present => by
      obtain ⟨request, -, -, rfl⟩ := (only id job).mp present
      exact ⟨rfl, rfl, fun waits => by cases waits.1⟩
    refine ⟨fun id job present => (none' id job present).1, ?_, ?_, ?_⟩
    · intro id other job job' atUs present _ _ admits
      rw [(none' id job present).2.1] at admits
      cases admits
    · intro id job atUs present admits
      rw [(none' id job present).2.1] at admits
      cases admits
    · intro _ id job present waits
      exact absurd waits (none' id job present).2.2
  have ordered := turns.invariant
    (fun _ _ turn followed ordered => turn.ordered followed ordered) followed start
  have all : ServedAll jobs' requests := servedAll turns followed only ordered.alive
    fun id job present => followed'.ended ran.idle drained present
  have backends : next.backend = backend := (turns.backend followed).trans same
  have served_eq := all.served_eq followed' ordered ids
  rw [backends] at served_eq
  constructor
  case records =>
    intro request atUs member
    rw [served_eq] at member
    obtain ⟨request', inside, equal⟩ := List.mem_map.mp member
    cases equal
    have present := all.find (mem_sortBy.mp inside)
    rw [followed'.tracked.requests, present, Option.map_some, record_served, backends]
  case known =>
    intro id record found
    rw [followed'.tracked.requests] at found
    obtain ⟨job, present, -⟩ := Option.map_eq_some_iff.mp found
    obtain ⟨request, member, named, -⟩ := (all id job).mp present
    exact ⟨request, member, named⟩
  case waited =>
    rw [all.waited followed' ids, served_eq, List.map_map]
    exact ((sortBy_perm servingKey requests).map _).sum_eq.symm
  case costs =>
    intro request member
    have valid := (followed'.tracked.valid _ _ (all.find member)).admitted _ _ rfl
    rw [backends] at valid
    exact ⟨valid.2.2.2.2.1, valid.2.2.2.2.2 (Nat.succ_pos _)⟩

/-- Three requests, submitted out of order; two of them arrive together. -/
def outOfOrder : List Request :=
  [sampleRequest 7 3 2 1, sampleRequest 4 3 0 0, sampleRequest 5 0 1 2]

theorem simulation_closed_form_outOfOrder : ClosedForm sampleBackend.toBackend outOfOrder
    (machine.run (fresh sampleBackend.toBackend) (outOfOrder.map .submitRequest ++ [.run])) :=
  (simulation_closed_form sampleBackend.lawful outOfOrder (by decide) (by decide)
    (by decide +kernel)).2

end SimulationEngine

end LlmLab.Serving
