import LlmLab.Serving.Simulation.Agenda
import LlmLab.Serving.Scheduler.FcfsSteps

/-!
# What the simulation should do

A `Job` says how far one request has come: its position on the fixed timeline of a request, and
whether it was cancelled there.  Position and costs determine the request record, the event that
is due, the events that are logged and the scheduler's entry.
-/

namespace LlmLab.Serving

namespace Backend

/-- What the prefill of a request costs. -/
def prefillUs (backend : Backend) (request : Request) : Int :=
  (backend.estimatePrefillUs request.promptLength 1).toOption.getD 0

/-- What one decode step costs. -/
def decodeUs (backend : Backend) : Int := (backend.estimateDecodeStepUs 1).toOption.getD 0

variable {backend : Backend}

theorem Lawful.prefillUs_nonneg (lawful : backend.Lawful) (request : Request) :
    0 ≤ backend.prefillUs request := by
  have cost := lawful.prefill request.promptLength 1 Nat.one_pos
  unfold prefillUs
  cases estimate : backend.estimatePrefillUs request.promptLength 1 with
  | error error => exact le_rfl
  | ok value => exact cost.of_eq_ok estimate

theorem Lawful.decodeUs_nonneg (lawful : backend.Lawful) : 0 ≤ backend.decodeUs := by
  have cost := lawful.decode 1 Nat.one_pos
  unfold decodeUs
  cases estimate : backend.estimateDecodeStepUs 1 with
  | error error => exact le_rfl
  | ok value => exact cost.of_eq_ok estimate

theorem Lawful.prefill_ensures (lawful : backend.Lawful) (request : Request) :
    Ensures Exn.IsOverflow (fun cost => cost = backend.prefillUs request ∧
        backend.estimatePrefillUs request.promptLength 1 = .ok cost)
      (backend.estimatePrefillUs request.promptLength 1) := by
  have cost := lawful.prefill request.promptLength 1 Nat.one_pos
  unfold prefillUs
  cases estimate : backend.estimatePrefillUs request.promptLength 1 with
  | error error => exact cost.of_eq_error estimate
  | ok value => exact ⟨rfl, rfl⟩

theorem Lawful.decode_ensures (lawful : backend.Lawful) :
    Ensures Exn.IsOverflow (fun cost => cost = backend.decodeUs ∧
        backend.estimateDecodeStepUs 1 = .ok cost)
      (backend.estimateDecodeStepUs 1) := by
  have cost := lawful.decode 1 Nat.one_pos
  unfold decodeUs
  cases estimate : backend.estimateDecodeStepUs 1 with
  | error error => exact cost.of_eq_error estimate
  | ok value => exact ⟨rfl, rfl⟩

/-- The time of the `k`-th event after an admission. -/
def stepUs (backend : Backend) (request : Request) (atUs : Int) (k : Nat) : Int :=
  atUs + backend.prefillUs request + (min k request.maxNewTokens : Nat) * backend.decodeUs

theorem stepUs_zero (request : Request) (atUs : Int) :
    backend.stepUs request atUs 0 = atUs + backend.prefillUs request := by
  simp [stepUs]

theorem stepUs_succ {request : Request} {atUs : Int} {k : Nat} (more : k < request.maxNewTokens) :
    backend.stepUs request atUs (k + 1) = backend.stepUs request atUs k + backend.decodeUs := by
  unfold stepUs
  rw [Nat.min_eq_left (Nat.succ_le_of_lt more), Nat.min_eq_left more.le]
  push_cast
  rw [Int.add_mul, Int.one_mul, ← add_assoc]

theorem stepUs_last {request : Request} {atUs : Int} {k : Nat} (last : request.maxNewTokens ≤ k) :
    backend.stepUs request atUs (k + 1) = backend.stepUs request atUs k := by
  unfold stepUs
  rw [Nat.min_eq_right last, Nat.min_eq_right (last.trans (Nat.le_succ k))]

theorem Lawful.stepUs_mono (lawful : backend.Lawful) {request : Request} {atUs : Int} {j k : Nat}
    (before : j ≤ k) : backend.stepUs request atUs j ≤ backend.stepUs request atUs k := by
  have scaled := mul_le_mul_of_nonneg_right
    (Int.ofNat_le.mpr (min_le_min_right request.maxNewTokens before)) lawful.decodeUs_nonneg
  unfold stepUs
  exact Int.add_le_add_left scaled _

theorem Lawful.at_le_stepUs (lawful : backend.Lawful) {request : Request} {atUs : Int} {k : Nat} :
    atUs ≤ backend.stepUs request atUs k := by
  have first := @stepUs_zero backend request atUs
  have later : backend.stepUs request atUs 0 ≤ backend.stepUs request atUs k :=
    lawful.stepUs_mono (Nat.zero_le k)
  have cost := lawful.prefillUs_nonneg request
  omega

end Backend

/-- The type of the `k`-th event after an admission. -/
def stepType (outputs k : Nat) : EventType :=
  if k = 0 then .prefillComplete
  else if k ≤ outputs then .decodeStepComplete
  else .requestComplete

theorem stepType_succ (outputs k : Nat) : stepType outputs (k + 1) =
    if k < outputs then .decodeStepComplete else .requestComplete := by
  unfold stepType
  rw [if_neg (Nat.succ_ne_zero k)]
  rfl

/-- The types of the events of a request that is served to its end. -/
def lifecycle (outputs : Nat) : List EventType :=
  [.requestArrival, .prefillComplete] ++ List.replicate outputs .decodeStepComplete ++
    [.requestComplete]

/-- The arrival and the steps of a job make up its lifecycle. -/
theorem map_stepType (outputs : Nat) : .requestArrival ::
    (List.range (outputs + 2)).map (stepType outputs) = lifecycle outputs := by
  have decodes : (List.range outputs).map (fun k => stepType outputs (k + 1)) =
      List.replicate outputs .decodeStepComplete := by
    have all : (List.range outputs).map (fun k => stepType outputs (k + 1)) =
        List.replicate (List.range outputs).length .decodeStepComplete := by
      refine List.map_eq_replicate_iff.mpr fun k member => ?_
      rw [stepType_succ, if_pos (List.mem_range.mp member)]
    rwa [List.length_range] at all
  have last : stepType outputs (outputs + 1) = .requestComplete := by
    rw [stepType_succ, if_neg (lt_irrefl _)]
  unfold lifecycle
  rw [List.range_succ_eq_map, List.map_cons, List.map_map, List.range_succ, List.map_append]
  change _ :: _ :: ((List.range outputs).map (fun k => stepType outputs (k + 1)) ++
    [stepType outputs (outputs + 1)]) = _
  rw [decodes, last]
  rfl

/-- Where a request is on its timeline. -/
inductive Position where
  | submitted
  | waiting
  /-- Admitted, and how many of its events were processed since. -/
  | admitted (atUs : Int) (steps : Nat)

structure Cancellation where
  atUs : Int
  /-- The event that was due at the cancellation has left the queue. -/
  dropped : Bool

structure Job where
  request : Request
  position : Position
  cancellation : Option Cancellation

namespace Job

variable (backend : Backend) (job : Job)

/-- The event at the position, if one is due there. -/
def next? : Option (EventType × Int) :=
  match job.position with
  | .submitted => some (.requestArrival, job.request.arrivalTimeUs)
  | .waiting => none
  | .admitted atUs steps =>
      if steps ≤ job.request.maxNewTokens + 1 then
        some (stepType job.request.maxNewTokens steps, backend.stepUs job.request atUs steps)
      else none

/-- The event that is due for the job. -/
def due? : Option Due :=
  match job.cancellation with
  | none => (job.next? backend).map fun next => ⟨next.1, next.2, false⟩
  | some cancellation =>
      if cancellation.dropped then none
      else (job.next? backend).map fun next => ⟨next.1, next.2, true⟩

/-- The events of the job that are logged, with their times. -/
def timeline : List (EventType × Int) :=
  match job.position with
  | .submitted => []
  | .waiting => [(.requestArrival, job.request.arrivalTimeUs)]
  | .admitted atUs steps => (.requestArrival, job.request.arrivalTimeUs) ::
      (List.range steps).map fun k =>
        (stepType job.request.maxNewTokens k, backend.stepUs job.request atUs k)

/-- The admitted job has not come to its end. -/
def Running : Prop :=
  ∃ atUs steps, job.position = .admitted atUs steps ∧ steps ≤ job.request.maxNewTokens + 1

/-- The job holds the engine's only slot. -/
def Active : Prop := job.cancellation = none ∧ job.Running

/-- The job has arrived and waits for the slot. -/
def Waits : Prop := job.position = .waiting ∧ job.cancellation = none

/-- The job has neither finished nor been cancelled. -/
def Live : Prop :=
  job.cancellation = none ∧
    ∀ atUs steps, job.position = .admitted atUs steps → steps ≤ job.request.maxNewTokens + 1

/-- The order in which jobs are served: by arrival, then by id. -/
def key : WaitingKey := toLex (job.request.arrivalTimeUs, job.request.requestId)

def state : RequestState :=
  if job.cancellation.isSome then .cancelled
  else match job.position with
    | .submitted => .waiting
    | .waiting => .waiting
    | .admitted _ 0 => .prefilling
    | .admitted _ (k + 1) =>
        if k = job.request.maxNewTokens + 1 then .finished
        else if job.request.maxNewTokens = 0 then .prefilling
        else .decoding

def generated : Nat :=
  match job.position with
  | .admitted _ steps => min (steps - 1) job.request.maxNewTokens
  | _ => 0

def admittedUs? : Option Int :=
  match job.position with
  | .admitted atUs _ => some atUs
  | _ => none

def firstTokenUs? : Option Int :=
  match job.position with
  | .admitted atUs _ =>
      if job.generated = 0 then none else some (backend.stepUs job.request atUs 1)
  | _ => none

def finishUs? : Option Int :=
  match job.cancellation with
  | some cancellation => some cancellation.atUs
  | none =>
      match job.position with
      | .admitted atUs steps =>
          if steps ≤ job.request.maxNewTokens + 1 then none
          else some (backend.stepUs job.request atUs job.request.maxNewTokens)
      | _ => none

/-- The request record of the job. -/
def record : Request :=
  { job.request with
    state := job.state
    generatedTokenCount := job.generated
    admittedTimeUs := job.admittedUs?
    firstScheduledTimeUs := job.admittedUs?
    firstTokenTimeUs := job.firstTokenUs? backend
    finishTimeUs := job.finishUs? backend }

/-- The scheduler's entry for the job. -/
def entry? : Option Entry :=
  match job.position, job.cancellation with
  | .submitted, none => none
  | .submitted, some cancellation =>
      some ⟨cancellation.atUs, .cancelled, false, none⟩
  | .waiting, none => some ⟨job.request.arrivalTimeUs, .waiting, true, none⟩
  | .waiting, some _ => some ⟨job.request.arrivalTimeUs, .cancelled, true, none⟩
  | .admitted atUs steps, none => some ⟨job.request.arrivalTimeUs,
      if steps ≤ job.request.maxNewTokens + 1 then .running else .completed, true, some atUs⟩
  | .admitted atUs _, some _ => some ⟨job.request.arrivalTimeUs, .cancelled, true, some atUs⟩

/-- What a job of a running simulation satisfies. -/
structure Valid (nowUs : Int) : Prop where
  pristine : job.request.Pristine
  arrival : 0 ≤ job.request.arrivalTimeUs
  waiting : job.position = .waiting → job.request.arrivalTimeUs ≤ nowUs
  admitted : ∀ atUs steps, job.position = .admitted atUs steps →
    job.request.arrivalTimeUs ≤ atUs ∧ atUs ≤ nowUs ∧
      steps ≤ job.request.maxNewTokens + 2 ∧
      (∀ k < steps, backend.stepUs job.request atUs k ≤ nowUs) ∧
      backend.estimatePrefillUs job.request.promptLength 1 =
        .ok (backend.prefillUs job.request) ∧
      (0 < steps → 0 < job.request.maxNewTokens →
        backend.estimateDecodeStepUs 1 = .ok backend.decodeUs)
  cancelled : ∀ cancellation, job.cancellation = some cancellation →
    0 ≤ cancellation.atUs ∧ cancellation.atUs ≤ nowUs ∧
      (∀ atUs steps, job.position = .admitted atUs steps →
        steps ≤ job.request.maxNewTokens + 1 ∧ atUs ≤ cancellation.atUs) ∧
      (cancellation.dropped = true → (job.next? backend).isSome = true)

/-- The events a job can still take out of the queue. -/
def remaining : Nat :=
  match job.cancellation with
  | some cancellation => if cancellation.dropped then 0 else 1
  | none =>
      match job.position with
      | .submitted => job.request.maxNewTokens + 3
      | .waiting => job.request.maxNewTokens + 2
      | .admitted _ steps => job.request.maxNewTokens + 2 - steps

/-- The event of a cancelled job has been dropped. -/
def lost : Bool := job.cancellation.any (·.dropped)

/-- The job was cancelled while an event was due for it. -/
def interrupted : Bool :=
  job.cancellation.isSome && (job.next? backend).isSome

/-- The job once its due event has left the queue. -/
def moved : Job :=
  match job.cancellation, job.position with
  | some cancellation, _ => { job with cancellation := some { cancellation with dropped := true } }
  | none, .submitted => { job with position := .waiting }
  | none, .waiting => job
  | none, .admitted atUs steps => { job with position := .admitted atUs (steps + 1) }

/-- The job once it is admitted. -/
def admittedAt (nowUs : Int) : Job := { job with position := .admitted nowUs 0 }

/-- The job once it is cancelled. -/
def cancelledAt (nowUs : Int) : Job := { job with cancellation := some ⟨nowUs, false⟩ }

variable {backend} {job}

@[simp] theorem record_maxNewTokens :
    (job.record backend).maxNewTokens = job.request.maxNewTokens := rfl

@[simp] theorem record_state : (job.record backend).state = job.state := rfl

@[simp] theorem record_generated : (job.record backend).generatedTokenCount = job.generated := rfl

@[simp] theorem record_admitted : (job.record backend).admittedTimeUs = job.admittedUs? := rfl

@[simp] theorem record_arrival :
    (job.record backend).arrivalTimeUs = job.request.arrivalTimeUs := rfl

theorem due?_eq_none (nothing : job.next? backend = none) : job.due? backend = none := by
  unfold due?
  rw [nothing]
  split
  · rfl
  · split <;> rfl

/-- What is due is the next step, ignored once the job is cancelled. -/
theorem due?_eq_some {due : Due} (something : job.due? backend = some due) :
    job.next? backend = some (due.type, due.timestampUs) ∧
      ((job.cancellation = none ∧ due.ignored = false) ∨
        ∃ atUs, job.cancellation = some ⟨atUs, false⟩ ∧ due.ignored = true) := by
  unfold due? at something
  split at something
  · next alive =>
      obtain ⟨next, here, rfl⟩ := Option.map_eq_some_iff.mp something
      exact ⟨here, .inl ⟨alive, rfl⟩⟩
  · next cancellation cancelled =>
      split at something
      · cases something
      · next pending =>
          obtain ⟨next, here, rfl⟩ := Option.map_eq_some_iff.mp something
          refine ⟨here, .inr ⟨cancellation.atUs, ?_, rfl⟩⟩
          rw [Bool.not_eq_true] at pending
          rw [cancelled, ← pending]

/-- The events of a job are the first ones of a full life. -/
theorem Valid.timeline_types {nowUs : Int} (valid : job.Valid backend nowUs) :
    (job.timeline backend).map Prod.fst =
      (lifecycle job.request.maxNewTokens).take (job.timeline backend).length := by
  obtain ⟨request, position, cancellation⟩ := job
  unfold timeline
  cases position with
  | submitted => rfl
  | waiting => rfl
  | admitted atUs steps =>
      have within := (valid.admitted atUs steps rfl).2.2.1
      dsimp only at within ⊢
      rw [← map_stepType, List.map_cons, List.map_map, List.length_cons, List.length_map,
        List.length_range, List.take_succ_cons, ← List.map_take, List.take_range,
        Nat.min_eq_left within]
      rfl

/-- A finished job has had all its events. -/
theorem eq_of_finished (finished : job.state = .finished) : ∃ atUs,
    job = ⟨job.request, .admitted atUs (job.request.maxNewTokens + 2), none⟩ := by
  obtain ⟨request, position, cancellation⟩ := job
  unfold state at finished
  cases cancellation with
  | some cancellation => cases finished
  | none =>
      cases position with
      | submitted => cases finished
      | waiting => cases finished
      | admitted atUs steps =>
          cases steps with
          | zero => cases finished
          | succ k =>
              have last : k = request.maxNewTokens + 1 := by
                by_contra other
                simp only [Option.isSome_none, Bool.false_eq_true, if_false, if_neg other] at finished
                split at finished <;> cases finished
              exact ⟨atUs, by rw [last]⟩

theorem timeline_finished (finished : job.state = .finished) :
    (job.timeline backend).length = job.request.maxNewTokens + 3 := by
  obtain ⟨atUs, shape⟩ := eq_of_finished finished
  rw [shape]
  simp [timeline]

/-- A cancelled job never reaches the end of its timeline. -/
theorem Valid.timeline_cancelled {nowUs : Int} (valid : job.Valid backend nowUs)
    (cancelled : job.state = .cancelled) :
    (job.timeline backend).length < job.request.maxNewTokens + 3 := by
  obtain ⟨request, position, cancellation⟩ := job
  cases cancellation with
  | none =>
      unfold state at cancelled
      simp only [Option.isSome_none, Bool.false_eq_true, if_false] at cancelled
      repeat' split at cancelled
      all_goals cases cancelled
  | some cancellation =>
      have within := (valid.cancelled cancellation rfl).2.2.1
      unfold timeline
      cases position with
      | submitted => simp
      | waiting => simp
      | admitted atUs steps =>
          have before := (within atUs steps rfl).1
          simp only [List.length_cons, List.length_map, List.length_range]
          dsimp only at before
          omega

/-- The first token of a job is its first decode step. -/
theorem timeline_firstToken : ((job.timeline backend).find? fun event =>
    event.1 = .decodeStepComplete).map Prod.snd = job.firstTokenUs? backend := by
  obtain ⟨request, position, cancellation⟩ := job
  unfold timeline firstTokenUs? generated
  cases position with
  | submitted => rfl
  | waiting => rfl
  | admitted atUs steps =>
      dsimp only
      rw [List.find?_cons_of_neg (by simp)]
      match steps with
      | 0 => rfl
      | 1 => rfl
      | k + 2 =>
          by_cases zero : request.maxNewTokens = 0
          · rw [if_pos (by rw [zero, Nat.min_zero]), Option.map_eq_none_iff,
              List.find?_eq_none]
            intro event member
            obtain ⟨j, -, rfl⟩ := List.mem_map.mp member
            cases j with
            | zero => simp [stepType]
            | succ j => simp [stepType_succ, zero]
          · rw [if_neg (by omega), List.range_succ_eq_map, List.range_succ_eq_map]
            simp [stepType, Nat.one_le_iff_ne_zero, zero]

/-- The completion on a timeline is at the finish time. -/
theorem Valid.timeline_finish {nowUs : Int} (valid : job.Valid backend nowUs) {finishUs : Int}
    (member : (EventType.requestComplete, finishUs) ∈ job.timeline backend) :
    job.finishUs? backend = some finishUs := by
  obtain ⟨request, position, cancellation⟩ := job
  unfold timeline at member
  cases position with
  | submitted => cases member
  | waiting => simp at member
  | admitted atUs steps =>
      have within := (valid.admitted atUs steps rfl).2.2.1
      rcases List.mem_cons.mp member with arrival | later
      · cases arrival
      · obtain ⟨k, before, same⟩ := List.mem_map.mp later
        rw [Prod.mk.injEq] at same
        obtain ⟨type, rfl⟩ := same
        have past : request.maxNewTokens < k := by
          cases k with
          | zero => cases type
          | succ k =>
              dsimp only at type
              rw [stepType_succ] at type
              by_contra short
              rw [if_pos (by omega)] at type
              cases type
        rw [List.mem_range] at before
        dsimp only at within
        obtain rfl : k = request.maxNewTokens + 1 := by omega
        have beyond : ¬ steps ≤ request.maxNewTokens + 1 := by omega
        unfold finishUs?
        cases cancellation with
        | some cancellation =>
            exact absurd ((valid.cancelled cancellation rfl).2.2.1 atUs steps rfl).1 beyond
        | none =>
            dsimp only
            rw [if_neg beyond, Backend.stepUs_last le_rfl]

/-- An event that is due for an uncancelled job is the next one of its timeline. -/
theorem timeline_moved {next : EventType × Int} (alive : job.cancellation = none)
    (here : job.next? backend = some next) :
    job.moved.timeline backend = job.timeline backend ++ [next] := by
  obtain ⟨request, position, _⟩ := job
  cases alive
  cases position with
  | submitted =>
      cases here
      rfl
  | waiting => cases here
  | admitted atUs steps =>
      unfold next? at here
      dsimp only at here
      split at here
      · cases here
        unfold timeline moved
        dsimp only
        rw [List.range_succ, List.map_append]
        rfl
      · cases here

theorem timeline_lost {atUs : Int} (cancelled : job.cancellation = some ⟨atUs, false⟩) :
    job.moved.timeline backend = job.timeline backend := by
  obtain ⟨request, position, _⟩ := job
  cases cancelled
  rfl

theorem Valid.later {nowUs laterUs : Int} (valid : job.Valid backend nowUs)
    (later : nowUs ≤ laterUs) : job.Valid backend laterUs where
  pristine := valid.pristine
  arrival := valid.arrival
  waiting waits := (valid.waiting waits).trans later
  admitted atUs steps position := by
    obtain ⟨arrived, started, within, past, costs⟩ := valid.admitted atUs steps position
    exact ⟨arrived, started.trans later, within, fun k before => (past k before).trans later, costs⟩
  cancelled cancellation same := by
    obtain ⟨nonneg, past, rest⟩ := valid.cancelled cancellation same
    exact ⟨nonneg, past.trans later, rest⟩

theorem state_ne_preempted : job.state ≠ .preempted := by
  unfold state
  repeat' split
  all_goals exact nofun

/-- A job is live until it is finished or cancelled. -/
theorem Valid.live_iff {nowUs : Int} (valid : job.Valid backend nowUs) :
    job.Live ↔ ¬ (job.state = .finished ∨ job.state = .cancelled) := by
  obtain ⟨request, position, cancellation⟩ := job
  unfold Live state
  cases cancellation with
  | some cancellation => simp
  | none =>
      cases position with
      | submitted => simp
      | waiting => simp
      | admitted atUs steps =>
          have within := (valid.admitted atUs steps rfl).2.2.1
          dsimp only at within
          cases steps with
          | zero => simp
          | succ k =>
              simp only [Option.isSome_none, Bool.false_eq_true, if_false]
              by_cases beyond : k = request.maxNewTokens + 1
              · rw [if_pos beyond]
                simp [beyond]
              · rw [if_neg beyond]
                have more : k ≤ request.maxNewTokens := by omega
                by_cases zero : request.maxNewTokens = 0
                · simp [zero]
                  omega
                · simp [zero, more]

/-- The active job is the one whose request is prefilling or decoding. -/
theorem Valid.active_iff {nowUs : Int} (valid : job.Valid backend nowUs) :
    job.Active ↔ job.state = .prefilling ∨ job.state = .decoding := by
  obtain ⟨request, position, cancellation⟩ := job
  unfold Active Running state
  cases cancellation with
  | some cancellation => simp
  | none =>
      cases position with
      | submitted => simp
      | waiting => simp
      | admitted atUs steps =>
          have within := (valid.admitted atUs steps rfl).2.2.1
          dsimp only at within
          cases steps with
          | zero => simp
          | succ k =>
              by_cases beyond : k = request.maxNewTokens + 1
              · simp [beyond]
              · have more : k ≤ request.maxNewTokens := by omega
                by_cases zero : request.maxNewTokens = 0
                · simp [zero]
                  omega
                · simp [zero, beyond, more]

/-- A request that waits has not been admitted. -/
theorem state_waiting (waits : job.state = .waiting) :
    job.cancellation = none ∧ (job.position = .submitted ∨ job.position = .waiting) := by
  obtain ⟨request, position, cancellation⟩ := job
  unfold state at waits
  cases cancellation with
  | some cancellation => simp at waits
  | none =>
      cases position with
      | submitted => exact ⟨rfl, .inl rfl⟩
      | waiting => exact ⟨rfl, .inr rfl⟩
      | admitted atUs steps =>
          cases steps with
          | zero => cases waits
          | succ k =>
              simp only [Option.isSome_none, Bool.false_eq_true, if_false] at waits
              repeat' split at waits
              all_goals cases waits

/-- The scheduler lists exactly the jobs that wait. -/
theorem entry?_waiting {entry : Entry} (same : job.entry? = some entry) :
    entry.state = .waiting ↔ job.Waits := by
  obtain ⟨request, position, cancellation⟩ := job
  unfold entry? at same
  unfold Waits
  cases position <;> cases cancellation <;> cases same <;> simp
  split <;> simp

theorem remaining_le : job.remaining ≤ job.request.maxNewTokens + 3 := by
  unfold remaining
  repeat' split
  all_goals omega

end Job

end LlmLab.Serving
