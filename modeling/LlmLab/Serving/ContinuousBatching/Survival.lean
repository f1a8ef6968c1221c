import LlmLab.Serving.KVCache.Client
import LlmLab.Serving.ContinuousBatching.Termination

/-!
# Survival

What makes an iteration throw.  On prompts that fit a batch, with hashes that tell their key
materials apart, planning fails exactly where it makes room with a pinned block: a cached block
whose key a live request has published but holds only in an unkeyed duplicate.
-/

namespace LlmLab.Serving

open KVCacheManager

namespace ContinuousBatchingEngine

variable {engine next : ContinuousBatchingEngine} {arrived : OrdSet RequestId}
  {consumed rest : List Candidate} {builder final : PlanBuilder} {candidate : Candidate}
  {id : RequestId} {request : Request} {fuel : Nat} {error : Exn}

/-! ## Planning -/

/-- A planned candidate makes room with no pinned block. -/
theorem planCandidate_spares (ready : engine.Ready builder.cache candidate)
    (found : engine.requests.find? candidate.requestId = some request)
    (planned : engine.planCandidate builder candidate = .ok final) :
    builder.cache.Unpinned (engine.victimsOf builder candidate) := by
  unfold planCandidate at planned
  unfold victimsOf
  rw [requestAt_eq_ok.mpr found] at planned ⊢
  rw [except_ok_bind] at planned
  obtain ⟨demand, demanded, scheduled⟩ := except_bind_eq_ok.mp planned
  have demands := (demandOf_ensures ready.sound ready.prefixConfig ready.listed).of_eq_ok demanded
  dsimp only
  rw [demanded]
  dsimp only
  cases reason : engine.deferralReason builder candidate demand with
  | some reason' =>
      rw [if_neg (by simp)]
      exact fun x member => by cases member
  | none =>
      rw [if_pos rfl]
      rw [reason] at scheduled
      obtain ⟨-, -, room⟩ := deferralReason_eq_none.mp reason
      unfold schedule at scheduled
      rcases Bool.eq_false_or_eq_true candidate.isPrefill with isPrefill | isDecode
      · rw [if_pos isPrefill] at scheduled
        obtain ⟨cache, allocated, -⟩ := except_bind_eq_ok.mp scheduled
        obtain ⟨effect, sound⟩ := (allocatePrefill_ensures ready.sound ready.prefixConfig isPrefill
          demands (ready.unknown isPrefill) room).of_eq_ok allocated
        obtain ⟨g, served, -, -, victims, -⟩ := prefill_served isPrefill demands effect
        rw [← victims]
        exact served.valid.mp sound.valid
      · rw [if_neg (by simp [isDecode])] at scheduled
        obtain ⟨cache, appended, -⟩ := except_bind_eq_ok.mp scheduled
        obtain ⟨effect, sound⟩ := (appendDecode_ensures ready.sound isDecode demands room).of_eq_ok
          appended
        obtain ⟨victims, fresh, extended, rfl, -⟩ := decode_appended isDecode demands effect
        exact (extended.valid_iff ready.sound).mp sound.valid

/-- The loop over candidates makes room with no pinned block where it succeeds. -/
theorem Trail.sparesFrom (trail : engine.Trail arrived consumed builder)
    (coherent : engine.Coherent)
    (described : ∀ candidate ∈ rest, ∃ request, engine.Describes arrived candidate request)
    (nodup : ((consumed ++ rest).map (·.requestId)).Nodup)
    (looped : rest.foldlM engine.planCandidate builder = .ok final) :
    engine.SparesFrom builder rest := by
  induction rest generalizing consumed builder with
  | nil => exact True.intro
  | cons candidate rest ih =>
      rw [List.foldlM_cons] at looped
      obtain ⟨next, planned, looped⟩ := except_bind_eq_ok.mp looped
      obtain ⟨request, describes⟩ := described candidate List.mem_cons_self
      have fresh : candidate.requestId ∉ consumed.map (·.requestId) := by
        rw [List.map_append, List.nodup_append] at nodup
        exact fun old => nodup.2.2 _ old candidate.requestId (by simp) rfl
      have ready := trail.ready coherent describes fresh
      refine ⟨planCandidate_spares ready describes.found planned, fun other same => ?_⟩
      cases planned.symm.trans same
      refine ih (trail.step describes fresh ((planCandidate_ensures ready
        describes.found).of_eq_ok planned)) (fun candidate member =>
          described candidate (List.mem_cons_of_mem _ member)) ?_ looped
      rwa [List.append_assoc]

/-- Where a plan could be built it makes room with no pinned block. -/
theorem buildPlan_spares (coherent : engine.Coherent) {number : Nat} {plan : BatchPlan}
    (built : engine.buildPlan number arrived = .ok plan) : engine.Spares arrived := by
  obtain ⟨builder, looped, -⟩ := except_bind_eq_ok.mp built
  exact Trail.start.sparesFrom coherent (fun candidate member =>
    (mem_orderedCandidates coherent).mp member) (orderedCandidates_nodup coherent arrived) looped

/-! ## One iteration -/

/-- The prompts of the requests fit a batch and their key materials have hashes of their own. -/
def Sheltered (engine : ContinuousBatchingEngine) : Prop :=
  ∀ id request, engine.requests.find? id = some request →
    request.promptLength ≤ engine.config.maxBatchedTokens ∧ engine.Fresh engine.kvCache request

/-- An iteration that returns made room with no pinned block. -/
theorem iterate_spares (coherent : engine.Coherent) {answer : IterationOutcome × _}
    (iterated : engine.iterate = .ok answer) : engine.Spares engine.arrivalsAtCurrentTimestamp := by
  unfold iterate at iterated
  simp only at iterated
  split at iterated
  · next idle =>
      have none : engine.orderedCandidates engine.arrivalsAtCurrentTimestamp = [] := by
        refine List.eq_nil_iff_forall_not_mem.mpr fun candidate member => ?_
        obtain ⟨request, describes⟩ := (mem_orderedCandidates coherent).mp member
        have runs := hasRunnableWork_iff.mpr ⟨_, request, describes.found, describes.runnable⟩
        rw [idle] at runs
        cases runs
      unfold Spares
      rw [none]
      exact True.intro
  · obtain ⟨plan, built, -⟩ := except_bind_eq_ok.mp iterated
    exact buildPlan_spares coherent built

/-- An iteration that throws overflowed a counter, or it made room with a pinned block. -/
theorem iterate_throws (coherent : engine.Coherent) (sheltered : engine.Sheltered)
    (threw : engine.iterate = .error error) :
    error.IsOverflow ∨ ¬ engine.Spares engine.arrivalsAtCurrentTimestamp := by
  refine ((iterate_ensures coherent).of_eq_error threw).imp_right fun unclear spares => unclear ?_
  exact ⟨fun id request found => (sheltered id request found).1,
    fun id request found => (sheltered id request found).2, spares⟩

/-! ## The prompts of a run -/

/-- Every request has a prompt that fits a batch and, where it has tokens, is among the given
ones. -/
def Offers (engine : ContinuousBatchingEngine) (prompts : Set (List Token)) : Prop :=
  ∀ id request, engine.requests.find? id = some request →
    request.promptLength ≤ engine.config.maxBatchedTokens ∧
      ∀ tokens, request.promptTokens? = some tokens → tokens ∈ prompts

variable {prompts : Set (List Token)}

/-- A fresh cache of a configuration tells the key materials of some prompts apart. -/
def Distinguishes (config : ContinuousBatchingConfig) (prompts : Set (List Token)) : Prop :=
  let cache := KVCacheManager.create config.kvCacheConfig config.prefixCacheConfig
    stableTokenBlockHash
  cache.CollisionFree (cache.inScope prompts)

theorem Offers.sheltered (offers : engine.Offers prompts) (coherent : engine.Coherent)
    (free : Distinguishes engine.config prompts) : engine.Sheltered := by
  intro id request found
  obtain ⟨fits, offered⟩ := offers id request found
  refine ⟨fits, fun tokens exact => ?_⟩
  refine (coherent.setup.collisionFree.mpr free).mono fun prompt member => ?_
  obtain ⟨namespace', salt, same⟩ := member
  rw [coherent.setup.prefixConfig] at namespace' salt
  refine ⟨namespace', salt, ?_⟩
  rw [Set.mem_singleton_iff.mp same]
  exact offered tokens (cachedTokens?_eq_some exact).2

theorem Offers.iterated {outcome : IterationOutcome} (offers : engine.Offers prompts)
    (coherent : engine.Coherent) (iterated : engine.Iterated outcome next) :
    next.Offers prompts := by
  rcases iterated.committed coherent with rfl | ⟨_, _, _, _, _, committed⟩
  · exact offers
  · intro id request found
    rw [committed.requests] at found
    obtain ⟨old, before, rfl⟩ := Option.map_eq_some_iff.mp found
    have fits := offers id old before
    rw [Request.promptLength, Request.promptTokens?, advance_prompt, committed.config_eq]
    exact fits

theorem Offers.cancelled (offers : engine.Offers prompts) (coherent : engine.Coherent)
    (id : RequestId) : (engine.cancelRequest id).2.Offers prompts := by
  rcases cancelRequest_cases coherent id with
    same | ⟨-, record, cache, present, -, -, result⟩
  · rw [same]
    exact offers
  · rw [result]
    intro other request found
    change (engine.requests.insert id _).find? other = some request at found
    rw [OrdMap.find?_insert] at found
    split at found
    · cases found
      exact offers id record present
    · exact offers other request found

theorem Offers.submitted (offers : engine.Offers prompts)
    (fits : request.promptLength ≤ engine.config.maxBatchedTokens)
    (offered : ∀ tokens, request.promptTokens? = some tokens → tokens ∈ prompts) :
    (engine.submitRequest request).2.Offers prompts := by
  rcases submitRequest_cases engine request with same | ⟨-, -, -, -, -, result⟩
  · rw [same]
    exact offers
  · rw [result]
    intro other known found
    change (engine.requests.insert request.requestId _).find? other = some known at found
    rw [OrdMap.find?_insert] at found
    split at found
    · cases found
      exact ⟨fits, offered⟩
    · exact offers other known found

/-! ## Calls -/

/-- An engine that has not failed, on prompts that shelter it. -/
structure Alive (config : ContinuousBatchingConfig) (prompts : Set (List Token))
    (engine : ContinuousBatchingEngine) : Prop where
  coherent : engine.Coherent
  running : engine.failed = false
  config_eq : engine.config = config
  offers : engine.Offers prompts
  free : Distinguishes config prompts

variable {config : ContinuousBatchingConfig}

/-- What an iteration of an engine that is alive may come to. -/
theorem Alive.runs (alive : Alive config prompts engine) :
    (∃ outcome next, engine.runNextIteration = (.ok outcome, next) ∧
        engine.Iterated outcome next ∧ Alive config prompts next ∧
        engine.Spares engine.arrivalsAtCurrentTimestamp) ∨
      ∃ error next, engine.runNextIteration = (.error error, next) ∧ next.failed = true ∧
        (error.IsOverflow ∨ ¬ engine.Spares engine.arrivalsAtCurrentTimestamp) := by
  have coherent := alive.coherent
  have sheltered := alive.offers.sheltered coherent (alive.config_eq ▸ alive.free)
  unfold runNextIteration
  rw [if_neg (by simp [alive.running])]
  cases result : engine.iterate with
  | error error =>
      exact Or.inr ⟨error, _, rfl, rfl, iterate_throws coherent sheltered result⟩
  | ok answer =>
      have iterated := (iterate_ensures coherent).of_eq_ok result
      obtain ⟨sameConfig, -, sameFailed⟩ := iterated.setup
      exact Or.inl ⟨answer.1, answer.2, rfl, iterated, ⟨iterated.coherent coherent,
        sameFailed.trans alive.running, sameConfig.trans alive.config_eq,
        alive.offers.iterated coherent iterated, alive.free⟩, iterate_spares coherent result⟩

/-- The states in which the loop of `run` makes its iterations. -/
def iterationsFrom : Nat → ContinuousBatchingEngine → List ContinuousBatchingEngine
  | 0, _ => []
  | fuel + 1, engine => engine ::
      match engine.runNextIteration with
      | (.ok .progressed, next) => iterationsFrom fuel next
      | _ => []

/-- No iteration from one of the states makes room with a pinned block. -/
def AllSpare (states : List ContinuousBatchingEngine) : Prop :=
  ∀ state ∈ states, state.Spares state.arrivalsAtCurrentTimestamp

/-- A drained engine has no runnable work and no future arrival. -/
theorem Drained.idle (drained : engine.Drained) (arrived : OrdSet RequestId) :
    engine.hasRunnableWork arrived = false ∧ engine.nextFutureArrival arrived = none := by
  have notWaiting : ∀ id request, engine.requests.find? id = some request →
      request.state ≠ .waiting ∧ request.state ≠ .decoding := fun id request found => by
    rcases drained.requests id request found with finished | cancelled
    · simp [finished]
    · simp [cancelled]
  constructor
  · rw [← Bool.not_eq_true, hasRunnableWork_iff]
    rintro ⟨id, request, found, runs⟩
    rcases runnable_iff.mp runs with decoding | ⟨waiting, -⟩
    · exact (notWaiting id request found).2 decoding
    · exact (notWaiting id request found).1 waiting
  · have future := @nextFutureArrival_spec engine arrived
    cases ahead : engine.nextFutureArrival arrived with
    | none => rfl
    | some time =>
        rw [ahead] at future
        obtain ⟨⟨id, request, found, isAhead, -⟩, -⟩ := future
        exact absurd isAhead.1 (notWaiting id request found).1

theorem runIterations_progressed (ran : engine.runNextIteration = (.ok .progressed, next))
    (fuel : Nat) : runIterations (fuel + 1) engine = runIterations fuel next ∧
      iterationsFrom (fuel + 1) engine = engine :: iterationsFrom fuel next := by
  rw [runIterations, iterationsFrom, ran]
  exact ⟨rfl, rfl⟩

theorem runIterations_stopped {answer : Except Exn IterationOutcome}
    (ran : engine.runNextIteration = (answer, next)) (stops : answer ≠ .ok .progressed)
    (fuel : Nat) : runIterations (fuel + 1) engine = (answer, next) ∧
      iterationsFrom (fuel + 1) engine = [engine] := by
  rw [runIterations, iterationsFrom, ran]
  cases answer with
  | error error => exact ⟨rfl, rfl⟩
  | ok outcome =>
      cases outcome with
      | progressed => exact absurd rfl stops
      | stalled | complete => exact ⟨rfl, rfl⟩

theorem allSpare_nil : AllSpare [] := fun _ member => by cases member

theorem allSpare_cons {state : ContinuousBatchingEngine} {states : List ContinuousBatchingEngine} :
    AllSpare (state :: states) ↔
      state.Spares state.arrivalsAtCurrentTimestamp ∧ AllSpare states :=
  List.forall_mem_cons

/-- What the loop of `run` may come to. -/
theorem Alive.loops (alive : Alive config prompts engine) (room : engine.outstanding ≤ fuel) :
    (∃ outcome next, runIterations (fuel + 1) engine = (.ok outcome, next) ∧
        outcome ≠ .progressed ∧ (outcome = .complete → next.Drained) ∧
        Alive config prompts next ∧ AllSpare (iterationsFrom (fuel + 1) engine)) ∨
      ∃ error next, runIterations (fuel + 1) engine = (.error error, next) ∧ next.failed = true ∧
        (error.IsOverflow ∨ ¬ AllSpare (iterationsFrom (fuel + 1) engine)) := by
  induction fuel using Nat.strong_induction_on generalizing engine with
  | _ fuel ih =>
  rcases alive.runs with ⟨outcome, next, ran, iterated, after, spares⟩ | ⟨error, next, ran, failed, why⟩
  · cases outcome with
    | progressed =>
        have less := iterated.outstanding_lt alive.coherent
        obtain ⟨fuel, rfl⟩ : ∃ smaller, fuel = smaller + 1 := ⟨fuel - 1, by omega⟩
        obtain ⟨sameRun, sameStates⟩ := runIterations_progressed ran (fuel + 1)
        rw [sameRun, sameStates, allSpare_cons]
        rcases ih fuel (Nat.lt_succ_self fuel) after (by omega) with
          ⟨outcome, last, ended, stops, drained, survived, rest⟩ | ⟨error, last, ended, failed, why⟩
        · exact Or.inl ⟨outcome, last, ended, stops, drained, survived, spares, rest⟩
        · exact Or.inr ⟨error, last, ended, failed, why.imp_right fun pinned both => pinned both.2⟩
    | stalled =>
        obtain ⟨sameRun, sameStates⟩ := runIterations_stopped ran (by simp) fuel
        rw [sameRun, sameStates, allSpare_cons]
        exact Or.inl ⟨.stalled, next, rfl, by simp, by simp, after, spares, allSpare_nil⟩
    | complete =>
        obtain ⟨sameRun, sameStates⟩ := runIterations_stopped ran (by simp) fuel
        rw [sameRun, sameStates, allSpare_cons]
        exact Or.inl ⟨.complete, next, rfl, by simp, fun _ => iterated.drained alive.coherent,
          after, spares, allSpare_nil⟩
  · obtain ⟨sameRun, sameStates⟩ := runIterations_stopped ran (by simp) fuel
    rw [sameRun, sameStates, allSpare_cons]
    exact Or.inr ⟨error, next, rfl, failed, why.imp_right fun pinned both => pinned both.1⟩

end ContinuousBatchingEngine

/-! ## Calls -/

namespace EngineCall

variable {engine : ContinuousBatchingEngine} {call : EngineCall}

/-- The states from which a call makes an iteration. -/
def iterations (engine : ContinuousBatchingEngine) : EngineCall → List ContinuousBatchingEngine
  | .runNextIteration => [engine]
  | .run => ContinuousBatchingEngine.iterationsFrom (engine.work + 1) engine
  | .submitRequest _ | .cancelRequest _ => []

/-- No iteration of a call makes room with a pinned block. -/
def Spares (engine : ContinuousBatchingEngine) (call : EngineCall) : Prop :=
  ContinuousBatchingEngine.AllSpare (call.iterations engine)

@[simp] theorem spares_submitRequest (request : Request) :
    Spares engine (.submitRequest request) := fun _ member => by cases member

@[simp] theorem spares_cancelRequest (id : RequestId) : Spares engine (.cancelRequest id) :=
  fun _ member => by cases member

theorem spares_runNextIteration : Spares engine .runNextIteration ↔
    engine.Spares engine.arrivalsAtCurrentTimestamp := by
  unfold Spares iterations ContinuousBatchingEngine.AllSpare
  exact List.forall_mem_singleton

/-- No checked counter overflows in a call. -/
def Counts (engine : ContinuousBatchingEngine) (call : EngineCall) : Prop :=
  ∀ error, (engine.apply call).1 = .error error → ¬ error.IsOverflow

/-- The engine does not fail in a call, and no iteration of it throws. -/
def Survives (engine : ContinuousBatchingEngine) (call : EngineCall) : Prop :=
  (engine.apply call).2.failed = false ∧
    ((call = .runNextIteration ∨ call = .run) → ∃ answer, (engine.apply call).1 = .ok answer)

end EngineCall

namespace ContinuousBatchingEngine

variable {config : ContinuousBatchingConfig} {prompts : Set (List Token)}
  {engine : ContinuousBatchingEngine} {call : EngineCall}

/-- What `run` may come to. -/
theorem Alive.ran (alive : Alive config prompts engine) :
    (∃ result next, engine.run = (.ok result, next) ∧ Alive config prompts next ∧
        EngineCall.Spares engine .run) ∨
      ∃ error next, engine.run = (.error error, next) ∧ next.failed = true ∧
        (error.IsOverflow ∨ ¬ EngineCall.Spares engine .run) := by
  have room := alive.coherent.outstanding_le_work
  unfold run finishRun
  rcases alive.loops room with ⟨outcome, next, ended, stops, drained, after, spares⟩ |
    ⟨error, next, ended, failed, why⟩
  · rw [ended]
    cases outcome with
    | progressed => exact absurd rfl stops
    | stalled => exact Or.inl ⟨.stalled, next, rfl, after, spares⟩
    | complete =>
        obtain ⟨noWork, noArrival⟩ := (drained rfl).idle next.arrivedRequests
        refine Or.inl ⟨.completed, next, ?_, after, spares⟩
        dsimp only
        rw [if_neg (by simp [noWork, noArrival])]
  · rw [ended]
    exact Or.inr ⟨error, next, rfl, failed, why⟩

/-- Submissions and cancellations do not make the engine fail. -/
theorem submitRequest_failed (engine : ContinuousBatchingEngine) (request : Request) :
    (engine.submitRequest request).2.failed = engine.failed ∧
      (engine.submitRequest request).2.config = engine.config := by
  rcases submitRequest_cases engine request with same | ⟨-, -, -, -, -, result⟩
  · rw [same]
    exact ⟨rfl, rfl⟩
  · rw [result]
    exact ⟨rfl, rfl⟩

theorem cancelRequest_failed (coherent : engine.Coherent) (id : RequestId) :
    (engine.cancelRequest id).2.failed = engine.failed ∧
      (engine.cancelRequest id).2.config = engine.config := by
  rcases cancelRequest_cases coherent id with same | ⟨-, _, _, _, _, _, result⟩
  · rw [same]
    exact ⟨rfl, rfl⟩
  · rw [result]
    exact ⟨rfl, rfl⟩

/-- Where no counter overflows a call survives exactly if it makes room with no pinned block. -/
theorem Alive.survives_iff (alive : Alive config prompts engine) (counts : call.Counts engine) :
    call.Survives engine ↔ call.Spares engine := by
  cases call with
  | submitRequest request =>
      refine ⟨fun _ => EngineCall.spares_submitRequest request, fun _ => ⟨?_, by simp⟩⟩
      exact (submitRequest_failed engine request).1.trans alive.running
  | cancelRequest id =>
      refine ⟨fun _ => EngineCall.spares_cancelRequest id, fun _ => ⟨?_, by simp⟩⟩
      exact (cancelRequest_failed alive.coherent id).1.trans alive.running
  | runNextIteration =>
      rcases alive.runs with ⟨outcome, next, ran, -, after, spares⟩ | ⟨error, next, ran, failed, why⟩
      · refine ⟨fun _ => EngineCall.spares_runNextIteration.mpr spares,
          fun _ => ⟨?_, fun _ => ?_⟩⟩
        · change engine.runNextIteration.2.failed = false
          rw [ran]
          exact after.running
        · exact ⟨.iteration outcome, by rw [apply, ran]; rfl⟩
      · have threw : (engine.apply .runNextIteration).1 = .error error := by
          rw [apply, ran]
          rfl
        refine ⟨fun survives => ?_, fun spares => ?_⟩
        · obtain ⟨answer, returned⟩ := survives.2 (Or.inl rfl)
          rw [threw] at returned
          cases returned
        · exact absurd (EngineCall.spares_runNextIteration.mp spares)
            (why.resolve_left (counts error threw))
  | run =>
      rcases alive.ran with ⟨result, next, ran, after, spares⟩ | ⟨error, next, ran, failed, why⟩
      · refine ⟨fun _ => spares, fun _ => ⟨?_, fun _ => ?_⟩⟩
        · change engine.run.2.failed = false
          rw [ran]
          exact after.running
        · exact ⟨.ran result, by rw [apply, ran]; rfl⟩
      · have threw : (engine.apply .run).1 = .error error := by
          rw [apply, ran]
          rfl
        refine ⟨fun survives => ?_, fun spares => ?_⟩
        · obtain ⟨answer, returned⟩ := survives.2 (Or.inr rfl)
          rw [threw] at returned
          cases returned
        · exact absurd spares (why.resolve_left (counts error threw))

/-- The engine stays alive in a call that survives. -/
theorem Alive.next (alive : Alive config prompts engine)
    (fits : ∀ request, call = .submitRequest request →
      request.promptLength ≤ config.maxBatchedTokens ∧
        ∀ tokens, request.promptTokens? = some tokens → tokens ∈ prompts)
    (survives : call.Survives engine) : Alive config prompts (machine.next engine call) := by
  have coherent := (apply_moves alive.coherent call).coherent alive.coherent
  cases call with
  | submitRequest request =>
      obtain ⟨short, offered⟩ := fits request rfl
      obtain ⟨-, sameConfig⟩ := submitRequest_failed engine request
      exact ⟨coherent, survives.1, sameConfig.trans alive.config_eq,
        alive.offers.submitted (alive.config_eq ▸ short) offered, alive.free⟩
  | cancelRequest id =>
      obtain ⟨-, sameConfig⟩ := cancelRequest_failed alive.coherent id
      exact ⟨coherent, survives.1, sameConfig.trans alive.config_eq,
        alive.offers.cancelled alive.coherent id, alive.free⟩
  | runNextIteration =>
      rcases alive.runs with ⟨outcome, next, ran, -, after, -⟩ | ⟨error, next, ran, failed, -⟩
      · change Alive config prompts engine.runNextIteration.2
        rw [ran]
        exact after
      · have kept : engine.runNextIteration.2.failed = false := survives.1
        rw [ran, failed] at kept
        cases kept
  | run =>
      rcases alive.ran with ⟨result, next, ran, after, -⟩ | ⟨error, next, ran, failed, -⟩
      · change Alive config prompts engine.run.2
        rw [ran]
        exact after
      · have kept : engine.run.2.failed = false := survives.1
        rw [ran, failed] at kept
        cases kept

/-- The exact-token prompts that a run submits. -/
def submitted (calls : List EngineCall) : Set (List Token) :=
  {tokens | ∃ request, .submitRequest request ∈ calls ∧ request.promptTokens? = some tokens}

/-- Calls that count and spare the engine never make it fail. -/
theorem Alive.along {calls : List EngineCall} (alive : Alive config prompts engine)
    (fits : ∀ request, .submitRequest request ∈ calls →
      request.promptLength ≤ config.maxBatchedTokens ∧
        ∀ tokens, request.promptTokens? = some tokens → tokens ∈ prompts)
    (steps : machine.Along (fun engine call => call.Counts engine ∧ call.Spares engine) engine
      calls) :
    machine.Along (fun engine call => call.Survives engine) engine calls ∧
      Alive config prompts (machine.run engine calls) := by
  induction calls generalizing engine with
  | nil => exact ⟨True.intro, alive⟩
  | cons call rest ih =>
      obtain ⟨⟨counts, spares⟩, later⟩ := steps
      have survives := (alive.survives_iff counts).mpr spares
      have after := alive.next (fun request same => fits request (same ▸ List.mem_cons_self))
        survives
      obtain ⟨survive, final⟩ := ih after (fun request member =>
        fits request (List.mem_cons_of_mem _ member)) later
      exact ⟨⟨survives, survive⟩, final⟩

/-- The engine never fails by itself: in every run on prompts that fit a batch and with hashes that
tell their key materials apart, whose calls overflow no counter and make room with no pinned block,
every call survives; and the next call survives exactly if it makes room with no pinned block. -/
theorem reach_survives (backend : SimulatedBackend) (config : ContinuousBatchingConfig)
    (calls : List EngineCall) (call : EngineCall)
    (fits : ∀ request, .submitRequest request ∈ calls →
      request.promptLength ≤ config.maxBatchedTokens)
    (free : Distinguishes config (submitted calls))
    (steps : machine.Along (fun engine call => call.Counts engine ∧ call.Spares engine)
      (create backend config) calls)
    (counts : call.Counts (reach backend config calls)) :
    machine.Along (fun engine call => call.Survives engine) (create backend config) calls ∧
      (reach backend config calls).failed = false ∧
      (call.Survives (reach backend config calls) ↔ call.Spares (reach backend config calls)) := by
  have start : Alive config (submitted calls) (create backend config) :=
    ⟨create_coherent backend config, rfl, rfl, fun _ _ found => (by cases found), free⟩
  obtain ⟨survive, final⟩ := start.along (fun request member =>
    ⟨fits request member, fun tokens exact => ⟨request, member, exact⟩⟩) steps
  exact ⟨survive, final.running, final.survives_iff counts⟩

/-! ## A run that fails -/

theorem counts_of_ok {answer : EngineAnswer} (returned : (engine.apply call).1 = .ok answer) :
    call.Counts engine := fun error threw => by
  rw [returned] at threw
  cases threw

theorem spares_of_ok {answer : EngineAnswer} (coherent : engine.Coherent)
    (returned : (engine.apply .runNextIteration).1 = .ok answer) :
    EngineCall.Spares engine .runNextIteration := by
  rw [EngineCall.spares_runNextIteration]
  cases ran : engine.runNextIteration with
  | mk outcome next =>
      cases outcome with
      | error error =>
          rw [apply, ran] at returned
          cases returned
      | ok outcome => exact iterate_spares coherent (runNextIteration_eq_ok ran).2

/-- Two requests with one prompt, on three blocks: the second one decodes once more when the owner
of the published block has left, and the cached block is what makes room. -/
def duplicatePrompts : List EngineCall :=
  [.submitRequest (tinyRequest 1 [7] 1), .submitRequest (tinyRequest 2 [7] 2), .runNextIteration,
    .runNextIteration, .runNextIteration]

theorem duplicatePrompts_short (request : Request)
    (member : .submitRequest request ∈ duplicatePrompts) :
    request.promptLength ≤ tinyConfig.maxBatchedTokens := by
  simp only [duplicatePrompts, List.mem_cons, EngineCall.submitRequest.injEq, reduceCtorEq,
    List.not_mem_nil, or_false] at member
  rcases member with rfl | rfl <;> decide

theorem duplicatePrompts_free : Distinguishes tinyConfig (submitted duplicatePrompts) := by
  refine tinyManager_collisionFree fun tokens offered => ?_
  obtain ⟨request, member, exact⟩ := offered
  simp only [duplicatePrompts, List.mem_cons, EngineCall.submitRequest.injEq, reduceCtorEq,
    List.not_mem_nil, or_false] at member
  rcases member with rfl | rfl
  · exact (Option.some.inj exact).symm
  · exact (Option.some.inj exact).symm

theorem duplicatePrompts_answers :
    machine.outputs (create tinyBackend tinyConfig) duplicatePrompts =
      [.ok .done, .ok .done, .ok (.iteration .progressed), .ok (.iteration .progressed),
        .ok (.iteration .progressed)] := by
  decide +kernel

theorem duplicatePrompts_throws :
    ((reach tinyBackend tinyConfig duplicatePrompts).apply .runNextIteration).1 =
      .error (.logicError "invalid KV manager state after decode append") := by
  decide +kernel

/-- Calls that return meet the conditions of `reach_survives`. -/
theorem steps_of_ok {calls : List EngineCall} (coherent : engine.Coherent)
    (noRun : ∀ call ∈ calls, call ≠ .run)
    (returns : ∀ output ∈ machine.outputs engine calls, ∃ answer, output = .ok answer) :
    machine.Along (fun engine call => call.Counts engine ∧ call.Spares engine) engine calls := by
  induction calls generalizing engine with
  | nil => exact True.intro
  | cons call rest ih =>
      obtain ⟨⟨answer, returned⟩, later⟩ := List.forall_mem_cons.mp returns
      obtain ⟨notRun, noRun⟩ := List.forall_mem_cons.mp noRun
      have after := (apply_moves coherent call).coherent coherent
      refine ⟨⟨counts_of_ok returned, ?_⟩, ih after noRun later⟩
      cases call with
      | submitRequest request => exact EngineCall.spares_submitRequest request
      | cancelRequest id => exact EngineCall.spares_cancelRequest id
      | runNextIteration => exact spares_of_ok coherent returned
      | run => exact absurd rfl notRun

theorem duplicatePrompts_steps :
    machine.Along (fun engine call => call.Counts engine ∧ call.Spares engine)
      (create tinyBackend tinyConfig) duplicatePrompts := by
  refine steps_of_ok (create_coherent ..) (by simp [duplicatePrompts]) fun output member => ?_
  rw [duplicatePrompts_answers] at member
  simp only [List.mem_cons, List.not_mem_nil, or_false] at member
  rcases member with rfl | rfl | rfl | rfl | rfl <;> exact ⟨_, rfl⟩

theorem duplicatePrompts_counts :
    EngineCall.Counts (reach tinyBackend tinyConfig duplicatePrompts) .runNextIteration :=
  fun error threw => by
    rw [duplicatePrompts_throws] at threw
    cases threw
    exact not_false

/-- Without an overflow, on prompts that fit and hash apart, an iteration throws. -/
theorem duplicatePrompts_fail :
    (∀ request, .submitRequest request ∈ duplicatePrompts →
        request.promptLength ≤ tinyConfig.maxBatchedTokens) ∧
      Distinguishes tinyConfig (submitted duplicatePrompts) ∧
      machine.Along (fun engine call => call.Counts engine) (create tinyBackend tinyConfig)
        duplicatePrompts ∧
      EngineCall.Counts (reach tinyBackend tinyConfig duplicatePrompts) .runNextIteration ∧
      ((reach tinyBackend tinyConfig duplicatePrompts).apply .runNextIteration).1 =
        .error (.logicError "invalid KV manager state after decode append") ∧
      ((reach tinyBackend tinyConfig duplicatePrompts).apply .runNextIteration).2.failed = true :=
  ⟨duplicatePrompts_short, duplicatePrompts_free,
    duplicatePrompts_steps.mono fun _ _ step => step.1, duplicatePrompts_counts,
    duplicatePrompts_throws, by decide +kernel⟩

/-- The five calls survive, and the sixth makes room with a pinned block. -/
theorem reach_survives_duplicatePrompts :
    machine.Along (fun engine call => call.Survives engine) (create tinyBackend tinyConfig)
        duplicatePrompts ∧
      ¬ EngineCall.Spares (reach tinyBackend tinyConfig duplicatePrompts) .runNextIteration := by
  obtain ⟨survive, -, next⟩ := reach_survives tinyBackend tinyConfig duplicatePrompts
    .runNextIteration duplicatePrompts_short duplicatePrompts_free duplicatePrompts_steps
    duplicatePrompts_counts
  refine ⟨survive, fun spares => ?_⟩
  obtain ⟨answer, returned⟩ := (next.mpr spares).2 (Or.inl rfl)
  rw [duplicatePrompts_throws] at returned
  cases returned

end ContinuousBatchingEngine

end LlmLab.Serving
