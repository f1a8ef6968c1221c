import LlmLab.Benchmarks.ServingRunner.Delivery
import LlmLab.Serving.Makespan

/-!
# The requests of a single-active run

The request records that `run_fcfs` writes for a transported workload pass
`validate_native_records` once `run` has completed them.
-/

namespace LlmLab.Benchmarks

open LlmLab.Serving

section Served

variable {backend : Backend} {request : Request} {atUs : Int}

/-- A request that was served to its end, with the times of its decode steps. -/
theorem reported_served (lawful : backend.Lawful) (nonneg : 0 ≤ request.arrivalTimeUs)
    (arrived : request.arrivalTimeUs ≤ atUs) :
    Reported (SimulationEngine.servedRecord backend request atUs) 0 request.promptLength
      ((List.range request.maxNewTokens).map fun k => backend.stepUs request atUs (k + 1)) := by
  have first : backend.stepUs request atUs 0 = atUs + backend.prefillUs request :=
    Backend.stepUs_zero request atUs
  constructor
  case arrival => exact nonneg
  case settled => exact .inr (.inr rfl)
  case unadmitted => exact fun none => by cases none
  case admitted =>
    intro start admitted
    obtain rfl := Option.some.inj admitted
    refine ⟨fun waiting => (by cases waiting), arrived, Nat.zero_add _, fun time member => ?_⟩
    obtain ⟨k, -, rfl⟩ := List.mem_map.mp member
    exact lawful.at_le_stepUs
  case ordered =>
    refine List.pairwise_map.mpr (List.pairwise_lt_range.imp fun before => ?_)
    exact lawful.stepUs_mono (Nat.succ_le_succ before.le)
  case count => rw [List.length_map, List.length_range]; rfl
  case limit => exact le_rfl
  case firstToken =>
    unfold SimulationEngine.servedRecord
    dsimp only
    cases outputs : request.maxNewTokens with
    | zero => rfl
    | succ n =>
        have token := @Backend.stepUs_succ backend request atUs 0 (by omega)
        rw [if_neg (Nat.succ_ne_zero n), List.range_succ_eq_map, List.map_cons, List.head?_cons,
          token, first]
  case finished =>
    refine fun _ => ⟨_, rfl, fun last found => ?_, fun start admitted => ?_⟩
    · cases outputs : request.maxNewTokens with
      | zero => rw [outputs] at found; cases found
      | succ n =>
          rw [outputs, List.range_succ, List.map_append, List.map_singleton,
            List.getLast?_concat, Option.some.injEq] at found
          rw [← found]
          unfold Backend.stepUs SimulationEngine.serviceUs
          rw [outputs, Nat.min_self, add_assoc]
    · obtain rfl := Option.some.inj admitted
      have service := @Backend.Lawful.at_le_stepUs backend lawful request atUs request.maxNewTokens
      unfold Backend.stepUs at service
      rw [Nat.min_self, add_assoc] at service
      exact service
  case unfinished => exact fun other => absurd rfl other

theorem decodeTimes_eq (log : List Event) (id : RequestId) : Runner.decodeTimes log id =
    ((SimulationEngine.eventsOf log id).filter
      fun event => event.1 = .decodeStepComplete).map Prod.snd := by
  unfold Runner.decodeTimes SimulationEngine.eventsOf
  rw [List.filter_map, List.map_map, List.filter_filter]
  congr 1
  refine List.filter_congr fun event _ => ?_
  simp [Bool.decide_and]

/-- What a run of the single-active engine leaves of a request. -/
theorem run_reported (lawful : backend.Lawful) {requests : List Request}
    (ids : (requests.map Request.requestId).Nodup)
    (pristine : ∀ request ∈ requests, request.Pristine ∧ 0 ≤ request.arrivalTimeUs)
    (fits : SimulationEngine.machine.Along SimulationEngine.Fits (SimulationEngine.fresh backend)
      (requests.map .submitRequest ++ [.run])) (member : request ∈ requests) :
    let final := SimulationEngine.machine.run (SimulationEngine.fresh backend)
      (requests.map .submitRequest ++ [.run])
    ∃ startUs, final.requests.find? request.requestId =
        some (SimulationEngine.servedRecord backend request startUs) ∧
      Reported (SimulationEngine.servedRecord backend request startUs) 0 request.promptLength
        (Runner.decodeTimes final.eventLog request.requestId) := by
  intro final
  obtain ⟨-, records, -⟩ := SimulationEngine.run_servedRecords lawful ids pristine fits
  obtain ⟨startUs, place⟩ := exists_served backend member
  have found := records.places _ _ place
  obtain ⟨jobs, followed, -, logged⟩ := SimulationEngine.runs_invariant
    (fun _ _ move followed logged => move.logged followed logged) lawful
    ⟨List.Pairwise.nil, nofun, nofun, fun _ => rfl⟩ fits
  change SimulationEngine.Followed final jobs at followed
  change SimulationEngine.Logged ⟨final, jobs, final.eventLog, _⟩ at logged
  change final.requests.find? request.requestId = _ at found
  have tracked := followed.tracked
  have timeline := logged.timelines request.requestId
  rw [tracked.requests] at found
  obtain ⟨job, present, shown⟩ := Option.map_eq_some_iff.mp found
  have valid := tracked.valid _ _ present
  obtain ⟨atUs, shape⟩ := Job.eq_of_finished (congrArg Request.state shown : job.state = .finished)
  obtain ⟨arrived, -⟩ := valid.admitted atUs _ (congrArg Job.position shape)
  have reported := reported_served tracked.lawful valid.arrival arrived
  dsimp only at timeline
  rw [present, Option.elim_some, shape] at timeline
  have lengths := congrArg Request.promptLength shown
  change job.request.promptLength = request.promptLength at lengths
  rw [← SimulationEngine.record_served, ← shape, shown, lengths, ← Job.decodes_served, ← timeline, ← decodeTimes_eq] at reported
  refine ⟨startUs, ?_, reported⟩
  rw [tracked.requests]
  exact found

end Served

namespace Runner

variable {divide : Int → Int → FloatNumeral} {backend : SimulatedBackend}
  {inputs : List InputRequest} {native : List Record}

/-- Submissions that all succeed are the calls of a run without overflow. -/
theorem submitted_of_ok {engine next : SimulationEngine}
    (submitted : inputs.foldlM (fun engine input => do
      let (_, next) ← orThrow (engine.submitRequest input.request)
      return next) engine = .ok next) (fit : SimulationEngine.Fits next .run) :
    SimulationEngine.machine.run engine
        ((inputs.map InputRequest.request).map .submitRequest) = next ∧
      SimulationEngine.machine.Along SimulationEngine.Fits engine
        ((inputs.map InputRequest.request).map .submitRequest ++ [.run]) := by
  induction inputs generalizing engine with
  | nil =>
      obtain rfl := Except.ok.inj submitted
      exact ⟨rfl, fit, trivial⟩
  | cons input inputs ih =>
      rw [List.foldlM_cons] at submitted
      obtain ⟨middle, first, later⟩ := except_bind_eq_ok.mp submitted
      cases answer : engine.submitRequest input.request with
      | mk output after =>
          rw [answer] at first
          cases output with
          | error error => cases first
          | ok done =>
              obtain rfl := Except.ok.inj first
              obtain ⟨ends, along⟩ := ih later
              have stepped : SimulationEngine.machine.next engine
                  (.submitRequest input.request) = after := congrArg Prod.snd answer
              have answered : (engine.apply (.submitRequest input.request)).1 = .ok done :=
                congrArg Prod.fst answer
              refine ⟨?_, fun error failed => ?_, ?_⟩
              · rw [List.map_cons, List.map_cons, Machine.run_cons, stepped]
                exact ends
              · rw [answered] at failed
                cases failed
              · rw [stepped]
                exact along

/-- The engine at the end of `run_fcfs`. -/
def fcfsEngine (backend : SimulatedBackend) (inputs : List InputRequest) : SimulationEngine :=
  SimulationEngine.machine.run (SimulationEngine.fresh backend.toBackend)
    ((inputs.map InputRequest.request).map .submitRequest ++ [.run])

/-- Records are only written by a run without overflow, from the engine at its end. -/
theorem runFcfs_cases (ran : runFcfs divide backend inputs = .ok native) :
    SimulationEngine.machine.Along SimulationEngine.Fits
        (SimulationEngine.fresh backend.toBackend)
        ((inputs.map InputRequest.request).map .submitRequest ++ [.run]) ∧
      fcfsRecords divide (fcfsEngine backend inputs) inputs = .ok native := by
  unfold runFcfs at ran
  obtain ⟨created, opened, ran⟩ := except_bind_eq_ok.mp ran
  obtain rfl : SimulationEngine.fresh backend.toBackend = created := Except.ok.inj opened
  obtain ⟨submitted, calls, ran⟩ := except_bind_eq_ok.mp ran
  obtain ⟨⟨done, engine⟩, finished, ran⟩ := except_bind_eq_ok.mp ran
  cases answer : submitted.run with
  | mk output after =>
      rw [answer] at finished
      cases output with
      | error error => cases finished
      | ok finish =>
          cases finished
          have answered : (submitted.apply .run).1 = .ok done := congrArg Prod.fst answer
          obtain ⟨ends, along⟩ := submitted_of_ok calls fun error failed => by
            rw [answered] at failed
            cases failed
          refine ⟨along, ?_⟩
          have last : fcfsEngine backend inputs = engine := by
            unfold fcfsEngine
            rw [Machine.run_append, ends]
            exact congrArg Prod.snd answer
          rw [last]
          exact ran

end Runner

/-! ## What a run delivers -/

section Deliveries

variable {quotient : Int → Int → FloatNumeral} {backend : SimulatedBackend} {workload : List Record}
  {inputs : List Runner.InputRequest} {native : List Record}

/-- What the writer prints of the inputs. -/
def fcfsFigures (engine : SimulationEngine) : Figures where
  matched _ := 0
  scheduled input := input.request.promptLength
  times input := Runner.decodeTimes engine.eventLog input.request.requestId

/-- What the engine has left of an input. -/
structure LeftBy (engine : SimulationEngine) (input : Runner.InputRequest) (final : Request) :
    Prop where
  found : engine.requests.find? input.request.requestId = some final
  finished : final.state = .finished
  generated : final.generatedTokenCount = final.maxNewTokens
  left : LeftOf (fcfsFigures engine) input final

/-- A delivery of a request that the single-active engine has served to its end. -/
structure Delivery.Served (delivery : Delivery quotient) : Prop where
  finished : delivery.entry.request.state = .finished
  generated : delivery.entry.request.generatedTokenCount = delivery.entry.request.maxNewTokens
  matched : delivery.entry.matched = 0
  scheduled : delivery.entry.scheduled = delivery.entry.request.promptLength

theorem leftBy_of_mapM {engine : SimulationEngine} {finals : List Request}
    (each : ∀ input ∈ inputs, ∃ final, LeftBy engine input final)
    (result : inputs.mapM (Runner.fcfsRequest engine) = .ok finals) :
    List.Forall₂ (LeftBy engine) inputs finals := by
  have found := forall₂_of_mapM result
  clear result
  induction found with
  | nil => exact .nil
  | @cons input final inputs finals here _ ih =>
      rw [List.forall_mem_cons] at each
      obtain ⟨⟨final', left⟩, rest⟩ := each
      unfold Runner.fcfsRequest at here
      rw [left.found] at here
      obtain rfl := Except.ok.inj here
      exact .cons left (ih rest)

/-- The lines of a run: its deliveries and a summary at the end of the last one. -/
theorem runFcfs_deliveries (carried : Carried workload inputs)
    (ran : Runner.runFcfs quotient backend inputs = .ok native) :
    let nowUs := (Runner.fcfsEngine backend inputs).nowUs
    ∃ deliveries : List (Delivery quotient), Covers deliveries workload ∧
      (∀ delivery ∈ deliveries, delivery.Served) ∧
      native = deliveries.map Delivery.record ++ [Runner.fcfsSummary nowUs
        (Runner.sum64 (deliveries.map fun delivery => delivery.entry.request.promptLength))
        (Runner.sum64 (deliveries.map fun delivery => delivery.entry.request.generatedTokenCount))
        deliveries.length] ∧
      (∀ delivery ∈ deliveries, ∀ finishUs,
        delivery.entry.request.finishTimeUs = some finishUs → finishUs ≤ nowUs) ∧
      (nowUs = 0 ∨ ∃ delivery ∈ deliveries, delivery.entry.request.finishTimeUs = some nowUs) := by
  obtain ⟨fits, ran⟩ := Runner.runFcfs_cases ran
  have lawful := backend.lawful
  obtain ⟨-, records, -⟩ :=
    SimulationEngine.run_servedRecords lawful carried.ids carried.pristine fits
  obtain ⟨bound, reached⟩ :=
    SimulationEngine.run_makespan lawful carried.ids carried.pristine fits
  have leaves : ∀ input ∈ inputs, ∃ final,
      LeftBy (Runner.fcfsEngine backend inputs) input final := fun input member => by
    obtain ⟨startUs, found, reported⟩ := run_reported lawful carried.ids carried.pristine fits
      (List.mem_map_of_mem (f := Runner.InputRequest.request) member)
    have waiting := (carried.pristine _ (List.mem_map_of_mem member)).1
    exact ⟨_, found, rfl, rfl, waiting.submission_eq, reported⟩
  obtain ⟨finals, each, ran⟩ := except_bind_eq_ok.mp ran
  obtain rfl := Except.ok.inj ran
  have left := leftBy_of_mapM leaves each
  obtain ⟨deliveries, same, ends, shows, lines⟩ :=
    @exists_deliveries quotient inputs (fcfsFigures (Runner.fcfsEngine backend inputs)) _ _
      carried.accepted_of_numbered carried.transported (left.imp fun _ _ here => here.left)
  have prompts : inputs.map (fun input => input.request.promptLength) =
      deliveries.map fun delivery => delivery.entry.request.promptLength :=
    (map_eq_map_of_forall₂ shows fun _ _ here =>
      congrArg Request.promptLength here.submission).symm
  refine ⟨deliveries, same, fun delivery member => ?_, ?_, ?_, ?_⟩
  · obtain ⟨input, -, here⟩ := exists_mem_of_forall₂ shows.flip member
    have listed : delivery.entry.request ∈ finals := ends ▸ List.mem_map_of_mem member
    obtain ⟨_, -, left⟩ := exists_mem_of_forall₂ left listed
    exact ⟨left.finished, left.generated, here.matched,
      here.scheduled.trans (congrArg Request.promptLength here.submission).symm⟩
  · refine congrArg₂ (· ++ ·) lines ?_
    rw [prompts, shows.length_eq, ends, List.map_map]
    rfl
  · intro delivery member finishUs finish
    have listed : delivery.entry.request ∈ finals := ends ▸ List.mem_map_of_mem member
    obtain ⟨input, -, left⟩ := exists_mem_of_forall₂ left listed
    exact bound _ _ _ left.found finish
  · refine reached.imp_right fun ⟨id, record, found, finish⟩ => ?_
    obtain ⟨request, member, rfl⟩ := records.known _ _ found
    obtain ⟨input, inside, rfl⟩ := List.mem_map.mp member
    obtain ⟨final, listed, here⟩ := exists_mem_of_forall₂ left.flip inside
    rw [ends] at listed
    obtain ⟨delivery, present, rfl⟩ := List.mem_map.mp listed
    obtain rfl := Option.some.inj (here.found.symm.trans found)
    exact ⟨delivery, present, finish⟩

end Deliveries

end LlmLab.Benchmarks
