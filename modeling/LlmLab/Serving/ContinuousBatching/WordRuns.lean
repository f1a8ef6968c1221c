import LlmLab.Serving.KVCache.WordExactness
import LlmLab.Serving.ContinuousBatching.Safety
import LlmLab.Serving.ContinuousBatching.WordEngine

/-!
# Runs over machine words are runs over `Nat`

Whatever the arithmetic does with a result that does not fit, the manager and the engine answer
every call as they do over `Nat` and reach the same states: no unchecked result leaves its type.
-/

namespace LlmLab.Serving

open KVCacheManager

/-- The exact tokens of a prompt are no more than a vector can hold. -/
def Request.Sized (request : Request) : Prop :=
  ∀ tokens, request.promptTokens? = some tokens → tokens.length ≤ sizeMax

/-- A call with a request that fits its types. -/
def EngineCall.Sized : EngineCall → Prop
  | .submitRequest request => request.Sized
  | _ => True

namespace ContinuousBatchingEngine

variable {engine next : ContinuousBatchingEngine} {cache : KVCacheManager} {request : Request}
  {candidate : Candidate} {builder : PlanBuilder} {demand : Demand} {plan : BatchPlan}
  {id : RequestId}

/-- The requests and the token budget fit their types. -/
structure Sized (engine : ContinuousBatchingEngine) : Prop where
  requests : ∀ id request, engine.requests.find? id = some request → request.Sized
  budget : engine.config.maxBatchedTokens ≤ uint64Max

theorem Sized.requestAt (sized : engine.Sized) (found : engine.requestAt id = .ok request) :
    request.Sized :=
  sized.requests id request (requestAt_eq_ok.mp found)

/-! ## Requests keep their prompts -/

theorem Committed.sized {arrived : OrdSet RequestId} {endTimestampUs : Int}
    (committed : engine.Committed arrived builder endTimestampUs next) (sized : engine.Sized) :
    next.Sized where
  requests id request found tokens exact := by
    rw [committed.requests] at found
    obtain ⟨old, present, rfl⟩ := Option.map_eq_some_iff.mp found
    refine sized.requests id old present tokens ?_
    rw [← exact, Request.promptTokens?, Request.promptTokens?, advance_prompt]
  budget := committed.config_eq ▸ sized.budget

theorem Iterated.sized {outcome : IterationOutcome} (iterated : engine.Iterated outcome next)
    (sized : engine.Sized) : next.Sized := by
  cases iterated with
  | complete => exact sized
  | idle _ _ committed | stalled _ _ _ _ committed | progressed _ _ _ _ _ committed =>
      exact committed.sized sized

theorem Sized.runNextIteration (sized : engine.Sized) (coherent : engine.Coherent) :
    engine.runNextIteration.2.Sized := by
  unfold ContinuousBatchingEngine.runNextIteration
  split
  · exact sized
  · cases result : engine.iterate with
    | error error => exact ⟨sized.requests, sized.budget⟩
    | ok answer => exact ((iterate_ensures coherent).of_eq_ok result).sized sized

theorem Sized.runIterations (sized : engine.Sized) (coherent : engine.Coherent) (fuel : Nat) :
    (runIterations fuel engine).2.Sized := by
  induction fuel generalizing engine with
  | zero => exact sized
  | succ fuel ih =>
      have after := sized.runNextIteration coherent
      have follows := (Moves.of_moved (runNextIteration_moved coherent)).coherent coherent
      unfold ContinuousBatchingEngine.runIterations
      split
      · next _ _ progressed =>
          rw [progressed] at after follows
          exact ih after follows
      · exact after

theorem Sized.finishRun {last : Except Exn IterationOutcome × ContinuousBatchingEngine}
    (sized : last.2.Sized) : (finishRun last).2.Sized := by
  unfold ContinuousBatchingEngine.finishRun
  split
  · exact sized
  · exact sized
  · split
    · exact ⟨sized.requests, sized.budget⟩
    · exact sized

/-- A cancelled request keeps its prompt. -/
theorem Sized.cancelledWith (sized : engine.Sized)
    (found : engine.requests.find? id = some request) :
    (engine.cancelledWith id request cache).Sized where
  requests other record present := by
    change (engine.requests.insert _ _).find? other = _ at present
    rw [OrdMap.find?_insert] at present
    split at present
    · obtain rfl := Option.some.inj present
      exact sized.requests id request found
    · exact sized.requests other record present
  budget := sized.budget

/-- Every call with a request that fits its types keeps the engine within them. -/
theorem Sized.apply (sized : engine.Sized) (coherent : engine.Coherent) {call : EngineCall}
    (fits : call.Sized) : (machine.next engine call).Sized := by
  cases call with
  | submitRequest request =>
      change (engine.submitRequest request).2.Sized
      rcases submitRequest_cases engine request with same | ⟨-, -, -, -, -, result⟩
      · rw [same]
        exact sized
      · rw [result]
        refine ⟨fun other record present => ?_, sized.budget⟩
        rw [OrdMap.find?_insert] at present
        split at present
        · obtain rfl := Option.some.inj present
          exact fits
        · exact sized.requests other record present
  | cancelRequest id =>
      change (engine.cancelRequest id).2.Sized
      rcases cancelRequest_cases coherent id with same | ⟨-, request, cache, found, -, -, result⟩
      · rw [same]
        exact sized
      · rw [result]
        exact sized.cancelledWith found
  | runNextIteration => exact sized.runNextIteration coherent
  | run => exact (sized.runIterations coherent _).finishRun

/-! ## Soundness of the managers on the way -/

theorem allocatePrefill_sound (sound : cache.Sound) {lookup : PrefixLookupResult}
    {evicted allocated : List Nat} : Ensures (fun _ => True) Sound
      (engine.allocatePrefill cache request id lookup evicted allocated) := by
  unfold allocatePrefill
  split
  · exact ((allocatePromptWithPrefixExact_ensures sound).mono_allowed fun _ _ => trivial).mono
      fun _ spec => spec.2
  · exact ((allocatePromptExact_ensures sound).mono_allowed fun _ _ => trivial).mono
      fun _ spec => spec.2

theorem replayItem_sound (sound : cache.Sound) (item : PlannedWorkItem) :
    Ensures (fun _ => True) Sound (engine.replayItem plan cache item) := by
  unfold replayItem
  split
  · split
    · trivial
    · exact (Ensures.trivial (fun _ => trivial) _).bind fun _ _ => allocatePrefill_sound sound
  · split
    · trivial
    · exact ((appendDecodeTokenExact_ensures sound).mono_allowed fun _ _ => trivial).mono
        fun _ spec => spec.2

theorem publishWork_sound (sound : cache.Sound) (work : PrefillWork) :
    Ensures (fun _ => True) Sound (engine.publishWork cache work) := by
  unfold publishWork
  refine (Ensures.trivial (fun _ => trivial) _).bind fun _ _ => ?_
  dsimp only
  split
  · exact ((insertCompletedPromptBlocks_ensures sound).mono_allowed fun _ _ => trivial).mono
      fun _ spec => spec.2
  · exact sound

theorem releaseIf_sound (sound : cache.Sound) (finishes : Request → Bool) (id : RequestId) :
    Ensures (fun _ => True) Sound (engine.releaseIf finishes cache id) := by
  unfold releaseIf
  refine (Ensures.trivial (fun _ => trivial) _).bind fun _ _ => ?_
  split
  · exact ((releaseRequest_ensures sound).mono_allowed fun _ _ => trivial).mono
      fun _ spec => spec.2
  · exact sound

theorem releaseFinished_sound (sound : cache.Sound) :
    Ensures (fun _ => True) Sound (engine.releaseFinished plan cache) := by
  unfold releaseFinished
  refine (Ensures.foldlM (fun _ => Sound) sound fun _ id _ _ _ held =>
    releaseIf_sound held _ id).bind fun _ middle => ?_
  exact Ensures.foldlM (fun _ => Sound) middle fun _ id _ _ _ held => releaseIf_sound held _ id

/-! ## The budget -/

/-- What is planned never exceeds the budget. -/
theorem planCandidate_used (within : builder.usedTokens ≤ engine.config.maxBatchedTokens) :
    Ensures (fun _ => True) (fun next => next.usedTokens ≤ engine.config.maxBatchedTokens)
      (engine.planCandidate builder candidate) := by
  unfold planCandidate
  refine (Ensures.trivial (fun _ => trivial) _).bind fun request _ =>
    (Ensures.trivial (fun _ => trivial) _).bind fun demand _ => ?_
  cases decided : engine.deferralReason builder candidate demand with
  | some reason => exact within
  | none =>
      have fits := (deferralReason_eq_none.mp decided).1
      dsimp only
      unfold schedule
      dsimp only
      split
      · refine (Ensures.trivial (fun _ => trivial) _).bind fun cache _ => ?_
        change builder.usedTokens + demand.tokenCost ≤ _
        omega
      · refine (Ensures.trivial (fun _ => trivial) _).bind fun cache _ => ?_
        change builder.usedTokens + demand.tokenCost ≤ _
        omega

end ContinuousBatchingEngine

namespace WordArithmetic

open ContinuousBatchingEngine

variable {words : WordArithmetic} {engine : ContinuousBatchingEngine} {cache : KVCacheManager}
  {request : Request} {candidate : Candidate} {builder : PlanBuilder} {demand : Demand}
  {plan : BatchPlan}

/-! ## Planning -/

theorem lookupPrefix_eq (sized : request.Sized) :
    words.lookupPrefix engine cache request = engine.lookupPrefix cache request := by
  unfold lookupPrefix ContinuousBatchingEngine.lookupPrefix
  cases exact : engine.cachedTokens? request with
  | none => rfl
  | some tokens => exact findLongestCachedPrefixIn_eq (sized tokens (cachedTokens?_eq_some exact).2)

/-- A lookup matches no more tokens than the request's prompt has. -/
theorem lookupPrefix_le {lookup : PrefixLookupResult}
    (found : engine.lookupPrefix cache request = .ok lookup) :
    lookup.matchedTokenCount ≤ request.promptLength := by
  unfold ContinuousBatchingEngine.lookupPrefix at found
  cases exact : engine.cachedTokens? request with
  | none =>
      rw [exact] at found
      obtain rfl := Except.ok.inj found
      exact Nat.zero_le _
  | some tokens =>
      rw [exact] at found
      rw [Request.promptLength_eq_length (cachedTokens?_eq_some exact).2]
      exact matched_le found

theorem demandOf_eq (sized : request.Sized) :
    words.demandOf engine cache candidate request = engine.demandOf cache candidate request := by
  unfold demandOf ContinuousBatchingEngine.demandOf
  split
  · rw [lookupPrefix_eq sized]
    refine except_bind_congr fun lookup found => ?_
    rw [words.sub_eq (lookupPrefix_le found), except_ok_bind]
  · rfl

theorem deferralReason_eq (within : builder.usedTokens ≤ engine.config.maxBatchedTokens) :
    words.deferralReason engine builder candidate demand =
      .ok (engine.deferralReason builder candidate demand) := by
  unfold deferralReason
  rw [words.sub_eq within]
  rfl

theorem allocatePrefill_eq (sized : request.Sized) {id : RequestId} {lookup : PrefixLookupResult}
    {evicted allocated : List Nat} :
    words.allocatePrefill engine cache request id lookup evicted allocated =
      engine.allocatePrefill cache request id lookup evicted allocated := by
  unfold allocatePrefill ContinuousBatchingEngine.allocatePrefill
  cases exact : engine.cachedTokens? request with
  | none => exact allocatePromptExact_eq
  | some tokens =>
      exact allocatePromptWithPrefixExact_eq (sized tokens (cachedTokens?_eq_some exact).2)

theorem schedule_eq (sized : request.Sized)
    (fits : builder.usedTokens + demand.tokenCost ≤ uint64Max) :
    words.schedule engine builder candidate request demand =
      engine.schedule builder candidate request demand := by
  unfold schedule ContinuousBatchingEngine.schedule
  dsimp only
  rw [words.add_eq fits, except_ok_bind, allocatePrefill_eq sized, appendDecodeTokenExact_eq]
  rfl

/-- A candidate within the budget is planned as over `Nat`. -/
theorem planCandidate_eq (sized : engine.Sized)
    (within : builder.usedTokens ≤ engine.config.maxBatchedTokens) :
    words.planCandidate engine builder candidate = engine.planCandidate builder candidate := by
  unfold planCandidate ContinuousBatchingEngine.planCandidate
  refine except_bind_congr fun request found => ?_
  have short := sized.requestAt found
  rw [demandOf_eq short]
  refine except_bind_congr fun demand _ => ?_
  rw [deferralReason_eq within, except_ok_bind]
  cases decided : engine.deferralReason builder candidate demand with
  | some reason => rfl
  | none =>
      have room := (deferralReason_eq_none.mp decided).1
      have budget := sized.budget
      exact schedule_eq short (by omega)

theorem buildPlan_eq (sized : engine.Sized) (number : Nat) (arrived : OrdSet RequestId) :
    words.buildPlan engine number arrived = engine.buildPlan number arrived := by
  have loop : (engine.orderedCandidates arrived).foldlM (words.planCandidate engine)
      { cache := engine.kvCache } =
        (engine.orderedCandidates arrived).foldlM engine.planCandidate
          { cache := engine.kvCache } :=
    @foldlM_congr_of _ _ _ _ _ (fun builder => builder.usedTokens ≤ engine.config.maxBatchedTokens)
      _ (fun _ _ _ within => planCandidate_eq sized within)
      (fun _ _ _ _ within planned => (planCandidate_used within).of_eq_ok planned) _
      (Nat.zero_le _)
  unfold buildPlan ContinuousBatchingEngine.buildPlan buildFromCandidates
  rw [loop]

/-! ## Preparing an iteration -/

theorem replayItem_eq (sized : engine.Sized) (cache : KVCacheManager) (item : PlannedWorkItem) :
    words.replayItem engine plan cache item = engine.replayItem plan cache item := by
  unfold replayItem ContinuousBatchingEngine.replayItem
  split
  · cases plan.prefillWork.find? (·.requestId = item.requestId) with
    | none => rfl
    | some work =>
        exact except_bind_congr fun request found => allocatePrefill_eq (sized.requestAt found)
  · cases plan.decodeWork.find? (·.requestId = item.requestId) with
    | none => rfl
    | some work => exact appendDecodeTokenExact_eq

theorem publishWork_eq (cache : KVCacheManager) (work : PrefillWork) :
    words.publishWork engine cache work = engine.publishWork cache work := by
  unfold publishWork ContinuousBatchingEngine.publishWork
  simp only [insertCompletedPromptBlocks_eq]

theorem releaseFinished_eq : words.releaseFinished engine plan cache =
    engine.releaseFinished plan cache := by
  have body : words.releaseIf engine = engine.releaseIf :=
    funext fun finishes => funext fun cache => funext fun id => by
      unfold releaseIf ContinuousBatchingEngine.releaseIf
      simp only [releaseRequest_eq]
  unfold releaseFinished ContinuousBatchingEngine.releaseFinished
  rw [body]

theorem copyCache_eq (sound : cache.Sound) (statistics : ContinuousBatchingStatistics) :
    words.copyCache statistics cache = .ok (statistics.copyCache cache) := by
  rw [copyCache, internalFragmentationTokens_eq sound]
  rfl

/-- An iteration is prepared as over `Nat`. -/
theorem prepareIteration_eq (sized : engine.Sized) (sound : engine.kvCache.Sound)
    (arrived : OrdSet RequestId) (timeValueUs : Int) (timeValueIsDuration : Bool) :
    words.prepareIteration engine plan arrived timeValueUs timeValueIsDuration =
      engine.prepareIteration plan arrived timeValueUs timeValueIsDuration := by
  unfold prepareIteration ContinuousBatchingEngine.prepareIteration
  rw [foldlM_congr fun item _ cache => replayItem_eq sized cache item]
  refine except_bind_congr fun replayed replay => ?_
  have first := (Ensures.foldlM (fun _ => Sound) sound fun _ item _ _ _ held =>
    replayItem_sound held item).of_eq_ok replay
  rw [foldlM_congr fun work _ cache => publishWork_eq cache work]
  refine except_bind_congr fun published publication => ?_
  have second := (Ensures.foldlM (fun _ => Sound) first fun _ work _ _ _ held =>
    publishWork_sound held work).of_eq_ok publication
  refine except_bind_congr fun endTimestampUs _ => except_bind_congr fun _ _ =>
    except_bind_congr fun updates _ => ?_
  rw [releaseFinished_eq]
  refine except_bind_congr fun cache released => ?_
  have third := (releaseFinished_sound second).of_eq_ok released
  refine except_bind_congr fun statistics prepared => ?_
  obtain rfl := (prepareStatistics_ensures _ _ _).of_eq_ok prepared
  rw [copyCache_eq third, except_ok_bind]
  refine except_bind_congr fun number _ => ?_
  rw [internalFragmentationTokens_eq third, except_ok_bind]
  rfl

theorem iterate_eq (sized : engine.Sized) (sound : engine.kvCache.Sound) :
    words.iterate engine = engine.iterate := by
  unfold iterate ContinuousBatchingEngine.iterate
  simp only [prepareIteration_eq sized sound, buildPlan_eq sized]
  all_goals rfl

theorem runNextIteration_eq (sized : engine.Sized) (sound : engine.kvCache.Sound) :
    words.runNextIteration engine = engine.runNextIteration := by
  unfold runNextIteration ContinuousBatchingEngine.runNextIteration
  rw [iterate_eq sized sound]
  all_goals rfl

/-- The loop of `run`, iteration by iteration. -/
theorem runIterations_eq (fuel : Nat) (sized : engine.Sized) (coherent : engine.Coherent) :
    words.runIterations fuel engine =
      ContinuousBatchingEngine.runIterations fuel engine := by
  induction fuel generalizing engine with
  | zero => rfl
  | succ fuel ih =>
      have after := sized.runNextIteration coherent
      have follows := (Moves.of_moved (runNextIteration_moved coherent)).coherent coherent
      unfold runIterations ContinuousBatchingEngine.runIterations
      rw [runNextIteration_eq sized coherent.sound]
      generalize engine.runNextIteration = last at after follows
      obtain ⟨answer, next⟩ := last
      cases answer with
      | error error => rfl
      | ok outcome =>
          cases outcome with
          | progressed => exact ih after follows
          | stalled => rfl
          | complete => rfl

theorem prepareCancel_eq (sound : engine.kvCache.Sound) (id : RequestId) :
    words.prepareCancel engine id request = engine.prepareCancel id request := by
  unfold prepareCancel ContinuousBatchingEngine.prepareCancel
  refine except_bind_congr fun count _ => except_bind_congr fun cancelled _ => ?_
  dsimp only
  by_cases decoding : request.state = .decoding
  · rw [if_pos decoding, if_pos decoding, releaseRequest_eq]
    refine except_bind_congr fun cache released => ?_
    rw [copyCache_eq ((releaseRequest_ensures sound).of_eq_ok released).2, except_ok_bind]
  · rw [if_neg decoding, if_neg decoding, except_ok_bind, except_ok_bind, copyCache_eq sound,
      except_ok_bind]

theorem cancelRequest_eq (sound : engine.kvCache.Sound) (id : RequestId) :
    words.cancelRequest engine id = engine.cancelRequest id := by
  unfold cancelRequest ContinuousBatchingEngine.cancelRequest
  simp only [prepareCancel_eq sound]
  all_goals rfl

/-- Every call is answered as over `Nat`, and has the same effect. -/
theorem call_eq (sized : engine.Sized) (coherent : engine.Coherent) (call : EngineCall) :
    words.call engine call = engine.apply call := by
  cases call with
  | submitRequest request => rfl
  | cancelRequest id =>
      exact congrArg (fun answer => (answer.1.map fun _ => EngineAnswer.done, answer.2))
        (cancelRequest_eq coherent.sound id)
  | runNextIteration =>
      exact congrArg (fun answer => (answer.1.map EngineAnswer.iteration, answer.2))
        (runNextIteration_eq sized coherent.sound)
  | run =>
      exact congrArg (fun last => ((finishRun last).1.map EngineAnswer.ran, (finishRun last).2))
        (runIterations_eq (engine.work + 1) sized coherent)

/-! ## Runs -/

/-- No unchecked unsigned result of the manager or the engine leaves its type: whatever the
arithmetic does with such a result, it may stop the run, the answers of every run and the states it
reaches are those over `Nat`.  The argument vectors and the token budget fit their types. -/
theorem runs_exact (words : WordArithmetic) :
    (∀ (config : KVCacheConfig) (prefixConfig : PrefixCacheConfig)
      (hashFunction : PrefixHashFunction) (ops : List KVOp), (∀ op ∈ ops, op.Sized) →
        let reached := KVCacheManager.reach config prefixConfig hashFunction ops
        words.cacheMachine.outputs (KVCacheManager.create config prefixConfig hashFunction) ops =
            KVCacheManager.machine.outputs
              (KVCacheManager.create config prefixConfig hashFunction) ops ∧
          words.cacheMachine.run (KVCacheManager.create config prefixConfig hashFunction) ops =
            reached ∧
          words.internalFragmentationTokens reached = .ok reached.internalFragmentationTokens ∧
          (∀ tokens ns salt, tokens.length ≤ sizeMax →
            words.findLongestCachedPrefixIn reached tokens ns salt =
              reached.findLongestCachedPrefixIn tokens ns salt) ∧
          ∀ block ∈ reached.blocks, block.validTokenCount ≤ config.blockSizeTokens) ∧
    ∀ (backend : SimulatedBackend) (config : ContinuousBatchingConfig) (calls : List EngineCall),
      config.maxBatchedTokens ≤ uint64Max → (∀ call ∈ calls, call.Sized) →
        words.engineMachine.outputs (ContinuousBatchingEngine.create backend config) calls =
            ContinuousBatchingEngine.machine.outputs
              (ContinuousBatchingEngine.create backend config) calls ∧
          words.engineMachine.run (ContinuousBatchingEngine.create backend config) calls =
            ContinuousBatchingEngine.reach backend config calls := by
  refine ⟨fun config prefixConfig hashFunction ops sized => ?_,
    fun backend config calls budget sized => ?_⟩
  · intro reached
    obtain ⟨answers, same⟩ := @Machine.simulation _ _ _ words.cacheMachine _ _
      KVCacheManager.machine (fun _ op => op.Sized) Eq Eq
      (fun state _ op alike fits => by
        subst alike
        have step : words.cacheMachine.step state op = KVCacheManager.machine.step state op :=
          apply_eq state fits
        exact ⟨congrArg Prod.fst step, congrArg Prod.snd step⟩)
      _ _ ops (Eq.refl (KVCacheManager.create config prefixConfig hashFunction))
      (Machine.along_of_forall sized)
    obtain ⟨sound, setup⟩ := @reach_sound config prefixConfig hashFunction ops
    refine ⟨List.forall₂_eq_eq_eq ▸ answers, same, internalFragmentationTokens_eq sound,
      fun tokens ns salt short => findLongestCachedPrefixIn_eq short, fun block member => ?_⟩
    have capacity := (sound.valid.blocks.capacity block member).1
    rwa [setup.config] at capacity
  · obtain ⟨answers, same, -⟩ := @Machine.simulation _ _ _ words.engineMachine _ _
      ContinuousBatchingEngine.machine (fun _ call => call.Sized)
      (fun engine other => engine = other ∧ engine.Coherent ∧ engine.Sized) Eq
      (fun engine _ call alike fits => by
        obtain ⟨rfl, coherent, within⟩ := alike
        have step : words.engineMachine.step engine call =
          ContinuousBatchingEngine.machine.step engine call := call_eq within coherent call
        have next : words.engineMachine.next engine call =
          ContinuousBatchingEngine.machine.next engine call := congrArg Prod.snd step
        refine ⟨congrArg Prod.fst step, next, ?_, ?_⟩
        · rw [next]
          exact (apply_moves coherent call).coherent coherent
        · rw [next]
          exact within.apply coherent fits)
      _ _ calls ⟨rfl, create_coherent backend config, fun _ _ found => (by cases found), budget⟩
      (Machine.along_of_forall sized)
    exact ⟨List.forall₂_eq_eq_eq ▸ answers, same⟩

/-- A cached block is hit, given back and evicted for a prompt that then grows. -/
def evictingOps : List KVOp :=
  [.allocatePromptWithPrefix 1 [7, 8] {} OrdSet.empty, .insertCompletedPromptBlocks 1,
    .releaseRequest 1,
    .allocatePromptWithPrefix 2 [7, 8, 9]
      { matchedTokenCount := 2, physicalBlockIds := [0], kind := .allEligibleBlocksHit }
      OrdSet.empty,
    .releaseRequest 2, .allocatePrompt 3 3, .appendDecodeToken 3]

/-- Two requests of one prompt are served one after the other. -/
def sharingCalls : List EngineCall :=
  [.submitRequest (.initial 1 0 (.exactTokens [7, 8]) 1),
    .submitRequest (.initial 2 20 (.exactTokens [7, 8]) 1), .run]

/-- Where a result that does not fit stops the run nothing stops, and where it wraps around, as in
C++, nothing wraps around. -/
theorem runs_exact_evicting :
    trapping.cacheMachine.outputs
        (KVCacheManager.create (.small 2 2) { enabled := true } stableTokenBlockHash) evictingOps =
      evictingOps.map (fun _ => .ok ()) ∧
    (wrapping.cacheMachine.run
        (KVCacheManager.create (.small 2 2) { enabled := true } stableTokenBlockHash)
        evictingOps).representedTokenCount = 4 ∧
    trapping.engineMachine.outputs (ContinuousBatchingEngine.create tinyBackend tinyConfig)
        sharingCalls = [.ok .done, .ok .done, .ok (.ran .completed)] := by
  have sized : ∀ op ∈ evictingOps, op.Sized := by simp [evictingOps, KVOp.Sized, sizeMax]
  have trapped := (runs_exact trapping).1 (.small 2 2) { enabled := true } stableTokenBlockHash
    evictingOps sized
  have wrapped := (runs_exact wrapping).1 (.small 2 2) { enabled := true } stableTokenBlockHash
    evictingOps sized
  have calls := (runs_exact trapping).2 tinyBackend tinyConfig sharingCalls (by decide)
    (by simp [sharingCalls, EngineCall.Sized, Request.Sized, Request.initial,
      Request.promptTokens?, sizeMax])
  refine ⟨trapped.1.trans (by decide +kernel), ?_, calls.1.trans (by decide +kernel)⟩
  rw [wrapped.2.1]
  decide +kernel

end WordArithmetic

end LlmLab.Serving
