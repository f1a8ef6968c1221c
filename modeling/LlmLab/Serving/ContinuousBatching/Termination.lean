import LlmLab.Serving.ContinuousBatching.Residency

/-!
# Termination

Every iteration that makes progress takes something off what the requests still ask for: an
arrival that the clock has not reached, a prefill, or a token.  So `run` returns or throws within a
bound that is known when it starts, and what it returns tells what became of the requests.
-/

namespace LlmLab.Serving

open KVCacheManager

/-- What a request still asks of the iterations at a time. -/
def Request.outstanding (nowUs : Int) (request : Request) : Nat :=
  match request.state with
  | .waiting => (if nowUs < request.arrivalTimeUs then 1 else 0) + 1 +
      (request.maxNewTokens - request.generatedTokenCount)
  | .decoding => request.maxNewTokens - request.generatedTokenCount
  | _ => 0

namespace ContinuousBatchingEngine

variable {engine next : ContinuousBatchingEngine} {arrived : OrdSet RequestId}
  {consumed : List Candidate} {builder : PlanBuilder} {plan : BatchPlan} {id : RequestId}
  {request : Request} {nowUs endTimestampUs : Int}
  {last : Except Exn IterationOutcome × ContinuousBatchingEngine} {count : Nat}

/-! ## The potential -/

/-- What all requests still ask for. -/
def outstanding (engine : ContinuousBatchingEngine) : Nat :=
  engine.requests.total (Request.outstanding engine.nowUs)

/-- The outstanding steps are no more than the fuel of `run`. -/
theorem Coherent.outstanding_le_work (coherent : engine.Coherent) :
    engine.outstanding ≤ engine.work := by
  have each : engine.outstanding ≤ engine.requests.total fun request =>
      (if request.state = .waiting then 1 else 0) +
        if request.state = .finished ∨ request.state = .cancelled then 0
        else 1 + request.maxNewTokens - request.generatedTokenCount := by
    refine OrdMap.total_le_total fun id request found => ⟨request, found, ?_⟩
    have generated := (coherent.resting id request found).generated_le
    unfold Request.outstanding
    cases state : request.state with
    | waiting =>
        simp only [reduceCtorEq, or_self, if_true, if_false]
        split <;> omega
    | decoding =>
        simp only [reduceCtorEq, or_self, if_false]
        omega
    | prefilling | preempted | finished | cancelled => exact Nat.zero_le _
  refine each.trans (Nat.le_of_eq ?_)
  unfold work OrdMap.total
  rw [← List.sum_map_add]

/-- Later a waiting request asks for no more. -/
theorem outstanding_mono (forward : nowUs ≤ endTimestampUs) (request : Request) :
    request.outstanding endTimestampUs ≤ request.outstanding nowUs := by
  unfold Request.outstanding
  split
  · split
    · next late => rw [if_pos (lt_of_le_of_lt forward late)]
    · omega
  · exact le_rfl
  · exact le_rfl

/-- A prefill and a decode each take something off what their request asks for. -/
theorem advance_outstanding_lt (scheduled : engine.Scheduled arrived plan id request)
    (resting : request.Resting) (listed : id ∈ plan.prefillRequestIds ++ plan.decodeRequestIds) :
    (advance plan nowUs endTimestampUs id request).outstanding endTimestampUs <
      request.outstanding nowUs := by
  unfold advance
  cases scheduled with
  | prefill prefill _ waiting _ =>
      have unused := (resting.pristine waiting).2.1
      rw [if_pos prefill, Request.outstanding, Request.outstanding, waiting,
        Request.admitted_state, Request.admitted_maxNewTokens,
        Request.admitted_generatedTokenCount]
      by_cases zero : request.maxNewTokens = 0
      · rw [if_pos zero]
        simp
      · rw [if_neg zero]
        simp only
        omega
  | decode prefill decode decoding room =>
      rw [if_neg prefill, if_pos decode, Request.outstanding, Request.outstanding, decoding,
        Request.decoded_state, Request.decoded_maxNewTokens, Request.decoded_generatedTokenCount]
      by_cases all : request.generatedTokenCount + 1 = request.maxNewTokens
      · rw [if_pos all]
        simp only
        omega
      · rw [if_neg all, decoding]
        simp only
        omega
  | idle prefill decode => exact absurd listed (by simp [prefill, decode])

theorem advance_outstanding_le (scheduled : engine.Scheduled arrived plan id request)
    (resting : request.Resting) (forward : nowUs ≤ endTimestampUs) :
    (advance plan nowUs endTimestampUs id request).outstanding endTimestampUs ≤
      request.outstanding nowUs := by
  by_cases listed : id ∈ plan.prefillRequestIds ++ plan.decodeRequestIds
  · exact (advance_outstanding_lt scheduled resting listed).le
  · rw [List.mem_append, not_or] at listed
    rw [advance, if_neg listed.1, if_neg listed.2]
    exact outstanding_mono forward request

/-- A committed iteration takes something off where it takes something off one request. -/
theorem Committed.outstanding_lt (trail : engine.Trail arrived consumed builder)
    (coherent : engine.Coherent) (distinct : (consumed.map (·.requestId)).Nodup)
    (committed : engine.Committed arrived builder endTimestampUs next)
    (found : engine.requests.find? id = some request)
    (less : (advance (builder.plan engine.nextIterationNumber) engine.nowUs endTimestampUs id
      request).outstanding endTimestampUs < request.outstanding engine.nowUs) :
    next.outstanding < engine.outstanding := by
  have runs := trail.runs coherent distinct engine.nextIterationNumber
  unfold outstanding
  rw [committed.nowUs_eq]
  refine OrdMap.total_lt_total (fun key value present => ?_)
    ((committed.requests id).trans (congrArg _ found)) found less
  rw [committed.requests] at present
  obtain ⟨old, listed, rfl⟩ := Option.map_eq_some_iff.mp present
  exact ⟨old, listed, advance_outstanding_le (runs.scheduled listed)
    (coherent.resting key old listed) committed.forward⟩

/-- Progress takes something off what the requests ask for. -/
theorem Iterated.outstanding_lt (coherent : engine.Coherent)
    (iterated : engine.Iterated .progressed next) : next.outstanding < engine.outstanding := by
  cases iterated with
  | idle _ ahead committed =>
      have future := @nextFutureArrival_spec engine engine.arrivalsAtCurrentTimestamp
      rw [ahead] at future
      obtain ⟨⟨id, request, found, ⟨waiting, -, late⟩, rfl⟩, -⟩ := future
      refine committed.outstanding_lt .start coherent List.nodup_nil found ?_
      change Request.outstanding _ (if id ∈ [] then _ else if id ∈ [] then _ else request) < _
      rw [if_neg List.not_mem_nil, if_neg List.not_mem_nil, Request.outstanding,
        Request.outstanding, waiting]
      simp only
      rw [if_pos late, if_neg (lt_irrefl _)]
      omega
  | @progressed builder durationUs _ _ _ trail scheduled _ committed =>
      have distinct := orderedCandidates_nodup coherent engine.arrivalsAtCurrentTimestamp
      have runs := trail.runs coherent distinct engine.nextIterationNumber
      obtain ⟨item, listed⟩ := List.exists_mem_of_ne_nil _ scheduled
      have known : item.requestId ∈ (builder.plan engine.nextIterationNumber).prefillRequestIds ++
          (builder.plan engine.nextIterationNumber).decodeRequestIds :=
        trail.planned.scheduled.mem_iff.mpr (List.mem_map_of_mem listed)
      obtain ⟨request, found⟩ : ∃ request, engine.requests.find? item.requestId = some request := by
        rcases List.mem_append.mp known with prefill | decode
        · obtain ⟨request, found, -⟩ := runs.prefill _ prefill
          exact ⟨request, found⟩
        · obtain ⟨request, found, -⟩ := runs.decode _ decode
          exact ⟨request, found⟩
      exact committed.outstanding_lt trail coherent distinct found
        (advance_outstanding_lt (runs.scheduled found) (coherent.resting _ _ found) known)

/-! ## The loop of `run` -/

/-- The loop of `run` calls `run_next_iteration` this often, and ends with what the last call
returns or throws. -/
inductive Loops : ContinuousBatchingEngine → Nat →
    Except Exn IterationOutcome × ContinuousBatchingEngine → Prop
  | last {engine : ContinuousBatchingEngine} : engine.runNextIteration.1 ≠ .ok .progressed →
      Loops engine 1 engine.runNextIteration
  | more {engine next : ContinuousBatchingEngine} {count : Nat}
      {last : Except Exn IterationOutcome × ContinuousBatchingEngine} :
      engine.runNextIteration = (.ok .progressed, next) → Loops next count last →
      Loops engine (count + 1) last

/-- With room for what the requests ask for the loop ends within it. -/
theorem runIterations_loops (coherent : engine.Coherent) {fuel : Nat}
    (room : engine.outstanding ≤ fuel) :
    ∃ count ≤ engine.outstanding + 1, Loops engine count (runIterations (fuel + 1) engine) := by
  induction fuel generalizing engine with
  | zero =>
      unfold runIterations
      split
      · next next progressed =>
          obtain ⟨-, iterated⟩ := runNextIteration_eq_ok progressed
          have less := ((iterate_ensures coherent).of_eq_ok iterated).outstanding_lt coherent
          omega
      · next stopped =>
          exact ⟨1, by omega, .last fun progressed => stopped _ (Prod.ext progressed rfl)⟩
  | succ fuel ih =>
      unfold runIterations
      split
      · next next progressed =>
          obtain ⟨-, iterated⟩ := runNextIteration_eq_ok progressed
          have step := (iterate_ensures coherent).of_eq_ok iterated
          have less := step.outstanding_lt coherent
          obtain ⟨count, bound, loops⟩ := ih (step.coherent coherent) (by omega)
          exact ⟨count + 1, by omega, .more progressed loops⟩
      · next stopped =>
          exact ⟨1, by omega, .last fun progressed => stopped _ (Prod.ext progressed rfl)⟩

/-- The loop ends with a call that does not make progress, on an engine that has what the calls
before it preserve. -/
theorem Loops.ends {property : ContinuousBatchingEngine → Prop}
    (preserved : ∀ {engine next : ContinuousBatchingEngine}, engine.Coherent → property engine →
      engine.iterate = .ok (.progressed, next) → property next)
    (loops : Loops engine count last) (coherent : engine.Coherent) (holds : property engine) :
    ∃ before : ContinuousBatchingEngine, before.Coherent ∧ property before ∧
      last = before.runNextIteration ∧ last.1 ≠ .ok .progressed := by
  induction loops with
  | @last engine stopped => exact ⟨engine, coherent, holds, rfl, stopped⟩
  | more progressed _ ih =>
      obtain ⟨-, iterated⟩ := runNextIteration_eq_ok progressed
      exact ih (((iterate_ensures coherent).of_eq_ok iterated).coherent coherent)
        (preserved coherent holds iterated)

/-! ## What `run` returns -/

/-- Where an iteration finds nothing more to do every request is over. -/
theorem Coherent.terminal (coherent : engine.Coherent)
    (runs : engine.hasRunnableWork engine.arrivalsAtCurrentTimestamp = false)
    (ahead : engine.nextFutureArrival engine.arrivalsAtCurrentTimestamp = none)
    (found : engine.requests.find? id = some request) :
    request.state = .finished ∨ request.state = .cancelled := by
  by_contra open'
  have future := @nextFutureArrival_spec engine engine.arrivalsAtCurrentTimestamp
  rw [ahead] at future
  have idle : ∀ id request, ¬ engine.Runnable id request := fun id request runnable => by
    rw [(hasRunnableWork_iff_runnable coherent).mpr ⟨id, request, runnable⟩] at runs
    cases runs
  rcases coherent.live found open' with waiting | decoding
  · by_cases known : id ∈ engine.arrivalsAtCurrentTimestamp
    · exact idle id request ⟨found, Or.inr ⟨waiting, known⟩⟩
    · refine future id request found ⟨waiting, ?_, ?_⟩
      · rwa [coherent.keyed id request found]
      · by_contra early
        exact known ((mem_arrivals coherent).mpr
          (Or.inr ⟨request, found, waiting, not_lt.mp early⟩))
  · exact idle id request ⟨found, Or.inl decoding⟩

/-- An engine whose requests are all over, with nothing but published blocks in its cache. -/
structure Drained (engine : ContinuousBatchingEngine) : Prop where
  requests : ∀ id request, engine.requests.find? id = some request →
    request.state = .finished ∨ request.state = .cancelled
  tables : ∀ id, engine.kvCache.blockTables.find? id = none
  blocks : ∀ x < engine.config.kvCacheConfig.totalNumBlocks,
    (engine.kvCache.block x).state = .free ∨ (engine.kvCache.block x).state = .cached

/-- An engine whose last iteration scheduled nothing for want of KV blocks. -/
structure Stranded (engine : ContinuousBatchingEngine) : Prop where
  entry : ∃ front entry, engine.planTrace = front ++ [entry] ∧
    entry.endTimestampUs = entry.startTimestampUs ∧ entry.plan.workOrder = [] ∧
    entry.plan.prefillRequestIds = [] ∧ entry.plan.decodeRequestIds = [] ∧
    entry.plan.deferredRequests ≠ [] ∧
    ∀ item ∈ entry.plan.deferredRequests, item.reason = .kvCapacity
  unfinished : ∃ id request, engine.requests.find? id = some request ∧
    request.state ≠ .finished ∧ request.state ≠ .cancelled

/-- An iteration that schedules nothing leaves the engine stranded. -/
theorem Committed.stranded
    (trail : engine.Trail engine.arrivalsAtCurrentTimestamp
      (engine.orderedCandidates engine.arrivalsAtCurrentTimestamp) builder)
    (coherent : engine.Coherent)
    (runs : engine.hasRunnableWork engine.arrivalsAtCurrentTimestamp = true)
    (idle : builder.workOrder = [])
    (committed : engine.Committed engine.arrivalsAtCurrentTimestamp builder engine.nowUs next) :
    next.Stranded := by
  have distinct := orderedCandidates_nodup coherent engine.arrivalsAtCurrentTimestamp
  have after := committed.coherent trail coherent distinct (arrivals_arrived coherent)
  have unmoved := (committed.unmoved trail coherent after idle).1
  obtain ⟨noPrefills, noDecodes⟩ := trail.planned.workOrder_eq_nil.mp idle
  have some' := orderedCandidates_ne_nil coherent runs
  have deferred : builder.deferred ≠ [] := fun none => by
    have length := trail.planned.ids.length_eq
    rw [idle, none, List.map_nil, List.map_nil, List.append_nil, List.length_nil,
      List.length_map] at length
    exact some' (List.length_eq_zero_iff.mp length.symm)
  refine ⟨⟨engine.planTrace, engine.entryOf (builder.plan engine.nextIterationNumber) engine.nowUs
    next.kvCache, by rw [committed.rest], rfl, idle, ?_, noDecodes, deferred,
    trail.planned.stalls idle⟩, ?_⟩
  · change builder.prefills.map _ = []
    rw [noPrefills]
    rfl
  · obtain ⟨id, request, found, state⟩ := (hasRunnableWork_iff_runnable coherent).mp runs
    refine ⟨id, request, by rw [unmoved.requests]; exact found, ?_, ?_⟩
    · rcases state with decoding | ⟨waiting, -⟩
      · simp [decoding]
      · simp [waiting]
    · rcases state with decoding | ⟨waiting, -⟩
      · simp [decoding]
      · simp [waiting]

theorem finishRun_eq_completed (completed : (finishRun last).1 = .ok .completed) :
    ∃ outcome, last.1 = .ok outcome ∧ outcome ≠ .stalled ∧ (finishRun last).2 = last.2 := by
  unfold finishRun at completed ⊢
  split at completed
  · cases completed
  · cases completed
  · next outcome engine other =>
      split at completed
      · cases completed
      · next settled =>
          simp only
          rw [if_neg settled]
          exact ⟨_, rfl, fun stalled => other (by rw [stalled]), rfl⟩

theorem finishRun_eq_stalled (stalled : (finishRun last).1 = .ok .stalled) :
    last.1 = .ok .stalled ∧ (finishRun last).2 = last.2 := by
  unfold finishRun at stalled ⊢
  split at stalled
  · cases stalled
  · exact ⟨rfl, rfl⟩
  · split at stalled <;> cases stalled

/-- A run that returns ends with an iteration that finds the work complete or stalled, on an engine
that has what progress preserves. -/
theorem run_returns {property : ContinuousBatchingEngine → Prop}
    (preserved : ∀ {engine next : ContinuousBatchingEngine}, engine.Coherent → property engine →
      engine.iterate = .ok (.progressed, next) → property next)
    (coherent : engine.Coherent) (holds : property engine) {result : RunResult}
    (returned : engine.run.1 = .ok result) :
    ∃ before : ContinuousBatchingEngine, before.Coherent ∧ property before ∧
      ∃ outcome, before.iterate = .ok (outcome, engine.run.2) ∧
        ((result = .completed ∧ outcome = .complete) ∨
          (result = .stalled ∧ outcome = .stalled)) := by
  obtain ⟨count, -, loops⟩ := runIterations_loops coherent coherent.outstanding_le_work
  obtain ⟨before, settled, kept, same, stops⟩ := loops.ends preserved coherent holds
  have iterated : ∀ outcome, (runIterations (engine.work + 1) engine).1 = .ok outcome →
      before.iterate = .ok (outcome, (runIterations (engine.work + 1) engine).2) :=
    fun outcome found => (runNextIteration_eq_ok (same.symm.trans (Prod.ext found rfl))).2
  unfold run at returned ⊢
  cases result with
  | completed =>
      obtain ⟨outcome, found, other, ends⟩ := finishRun_eq_completed returned
      obtain rfl : outcome = .complete := by
        cases outcome with
        | progressed => exact absurd found stops
        | stalled => exact absurd rfl other
        | complete => rfl
      exact ⟨before, settled, kept, .complete, ends ▸ iterated _ found, .inl ⟨rfl, rfl⟩⟩
  | stalled =>
      obtain ⟨found, ends⟩ := finishRun_eq_stalled returned
      exact ⟨before, settled, kept, .stalled, ends ▸ iterated _ found, .inr ⟨rfl, rfl⟩⟩

/-- An iteration that finds the work complete leaves the engine drained. -/
theorem Iterated.drained (coherent : engine.Coherent) (iterated : engine.Iterated .complete next) :
    next.Drained := by
  cases iterated with
  | complete runs ahead =>
      have over' {id request} (found : engine.requests.find? id = some request) :=
        coherent.terminal runs ahead found
      have idle : ∀ id request, engine.requests.find? id = some request →
          request.state ≠ .decoding := by
        intro id request found decoding
        rcases over' found with finished | cancelled
        · rw [finished] at decoding
          cases decoding
        · rw [cancelled] at decoding
          cases decoding
      refine ⟨fun id request found => over' found, fun id => ?_,
        (coherent.resident.drained idle).1⟩
      rw [Option.eq_none_iff_forall_ne_some]
      intro table present
      obtain ⟨request, found, decoding⟩ := (coherent.resident.holders id).mp ⟨table, present⟩
      exact idle id request found decoding

theorem Iterated.stranded (coherent : engine.Coherent) (iterated : engine.Iterated .stalled next) :
    next.Stranded := by
  cases iterated with
  | stalled runs _ trail idle committed => exact committed.stranded trail coherent runs idle

/-- From every reachable state `run` returns or throws within `work + 1` iterations; a completed run
leaves nothing open and no block in use, and a stalled one is short of KV blocks. -/
theorem reach_run_terminates (backend : SimulatedBackend) (config : ContinuousBatchingConfig)
    (calls : List EngineCall) :
    (∃ count last, count ≤ (reach backend config calls).work + 1 ∧
      Loops (reach backend config calls) count last ∧
      (reach backend config calls).run = finishRun last) ∧
    ((reach backend config calls).run.1 = .ok .completed →
      (reach backend config calls).run.2.Drained) ∧
    ((reach backend config calls).run.1 = .ok .stalled →
      (reach backend config calls).run.2.Stranded) := by
  have coherent := reach_coherent backend config calls
  have room := coherent.outstanding_le_work
  obtain ⟨count, bound, loops⟩ := runIterations_loops coherent room
  have returns {result : RunResult} := @run_returns (reach backend config calls) (fun _ => True)
    (fun _ _ _ => True.intro) coherent True.intro result
  refine ⟨⟨count, _, bound.trans (Nat.add_le_add_right room 1), loops, rfl⟩, fun completed => ?_,
    fun stalled => ?_⟩
  · obtain ⟨before, settled, -, outcome, iterated, ⟨-, rfl⟩ | ⟨other, -⟩⟩ := returns completed
    · exact ((iterate_ensures settled).of_eq_ok iterated).drained settled
    · cases other
  · obtain ⟨before, settled, -, outcome, iterated, ⟨other, -⟩ | ⟨-, rfl⟩⟩ := returns stalled
    · cases other
    · exact ((iterate_ensures settled).of_eq_ok iterated).stranded settled

end ContinuousBatchingEngine

end LlmLab.Serving
