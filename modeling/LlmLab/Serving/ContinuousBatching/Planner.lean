import LlmLab.Serving.KVCache.Reuse
import LlmLab.Serving.ContinuousBatching.Lifecycle

/-!
# One candidate of a plan

What a candidate demands of the local manager, and the two ways `build_from_candidates` goes on:
the candidate is deferred, or its work is done on the local manager and noted down.
-/

namespace LlmLab.Serving

open KVCacheManager

namespace ContinuousBatchingEngine

variable {engine : ContinuousBatchingEngine} {cache next : KVCacheManager}
  {builder : PlanBuilder} {candidate : Candidate} {request : Request} {demand : Demand}

/-- The event of a prefill. -/
def promptEvent (engine : ContinuousBatchingEngine) (id : RequestId) (request : Request) : KVEvent :=
  match engine.cachedTokens? request with
  | some tokens => .exactPrompt id tokens
  | none => .countPrompt id request.promptLength

theorem promptEvent_subject (id : RequestId) :
    (engine.promptEvent id request).subject = some id := by
  unfold promptEvent
  split <;> rfl

theorem cachedTokens?_eq_some {tokens : List Token}
    (exact : engine.cachedTokens? request = some tokens) :
    engine.config.prefixCacheConfig.enabled = true ∧ request.promptTokens? = some tokens := by
  unfold cachedTokens? at exact
  split at exact
  · next enabled => exact ⟨enabled, exact⟩
  · cases exact

/-! ## The demand -/

/-- What a candidate asks of the local manager. -/
inductive Demands (engine : ContinuousBatchingEngine) (cache : KVCacheManager)
    (candidate : Candidate) (request : Request) : Demand → Prop
  | exact {tokens : List Token} {lookup : PrefixLookupResult} : candidate.isPrefill = true →
      engine.cachedTokens? request = some tokens →
      cache.findLongestCachedPrefix tokens = .ok lookup →
      cache.LookupSpec tokens cache.prefixConfig.modelNamespace cache.prefixConfig.cacheSalt
        lookup →
      request.promptLength - lookup.matchedTokenCount ≤ engine.config.maxBatchedTokens →
      Demands engine cache candidate request
        ⟨lookup, request.promptLength - lookup.matchedTokenCount,
          cache.config.demand (request.promptLength - lookup.matchedTokenCount)⟩
  | count : candidate.isPrefill = true → engine.cachedTokens? request = none →
      request.promptLength ≤ engine.config.maxBatchedTokens →
      Demands engine cache candidate request
        ⟨{ kind := .disabled }, request.promptLength, cache.config.demand request.promptLength⟩
  | decode {newBlock : Bool} {table : List Nat} : candidate.isPrefill = false →
      cache.blockTables.find? candidate.requestId = some table →
      cache.decodeRequiresNewBlock candidate.requestId = .ok newBlock →
      (newBlock = true ↔ cache.NeedsBlock table) →
      Demands engine cache candidate request ⟨{}, 1, if newBlock then 1 else 0⟩

/-- A candidate has a demand, unless a prompt is longer than the batch. -/
theorem demandOf_ensures (sound : cache.Sound)
    (setup : cache.prefixConfig = engine.config.prefixCacheConfig)
    (listed : candidate.isPrefill = false →
      ∃ table, cache.blockTables.find? candidate.requestId = some table) :
    Ensures (Refuses (request.promptLength ≤ engine.config.maxBatchedTokens))
      (engine.Demands cache candidate request) (engine.demandOf cache candidate request) := by
  unfold demandOf
  by_cases isPrefill : candidate.isPrefill = true
  · rw [if_pos isPrefill]
    unfold lookupPrefix
    cases exact : engine.cachedTokens? request with
    | some tokens =>
        obtain ⟨enabled, prompt⟩ := cachedTokens?_eq_some exact
        have length := Request.promptLength_eq_length prompt
        refine ((findLongestCachedPrefixIn_ensures sound.valid
          (by rw [setup]; exact enabled)).mono_allowed fun _ => Or.inl).bind_eq
            fun lookup current spec => ?_
        have room : lookup.matchedTokenCount ≤ request.promptLength := by
          rw [spec.1.matchedTokens, length]
          exact (Nat.le_div_iff_mul_le cache.config.blockSize_pos).mp spec.1.inside
        refine .throwIf_bind (fun long => Or.inr (not_le.mpr long.1)) fun _ => ?_
        refine .throwIf_bind (fun long => Or.inr (not_le.mpr long.1)) fun short => ?_
        refine (KVCacheConfig.blocksRequired_ensures.mono_allowed fun _ => Or.inl).bind
          fun required counted => ?_
        subst counted
        refine .exact isPrefill exact current spec.1 ?_
        by_contra large
        exact short ⟨by omega, Or.inr (not_le.mp large)⟩
    | none =>
        refine .throwIf_bind (fun long => Or.inr (not_le.mpr long.1)) fun _ => ?_
        refine .throwIf_bind (fun long => Or.inr (not_le.mpr long.1)) fun short => ?_
        refine (KVCacheConfig.blocksRequired_ensures.mono_allowed fun _ => Or.inl).bind
          fun required counted => ?_
        subst counted
        exact .count isPrefill exact (not_lt.mp fun long => short ⟨long, Or.inl rfl⟩)
  · rw [if_neg isPrefill]
    rw [Bool.not_eq_true] at isPrefill
    obtain ⟨table, found⟩ := listed isPrefill
    obtain ⟨newBlock, decided, needs⟩ := decodeRequiresNewBlock_eq sound found
    rw [decided]
    exact .decode isPrefill found decided needs

namespace Demands

theorem cost_le (demands : engine.Demands cache candidate request demand) :
    demand.tokenCost ≤ engine.config.maxBatchedTokens := by
  cases demands with
  | exact _ _ _ _ fits => exact fits
  | count _ _ fits => exact fits
  | decode => exact engine.config.tokens_pos

/-- A prefill pays for the tokens its match does not cover. -/
theorem prompt (demands : engine.Demands cache candidate request demand)
    (isPrefill : candidate.isPrefill = true) :
    demand.lookup.matchedTokenCount + demand.tokenCost = request.promptLength := by
  cases demands with
  | exact _ exact _ lookup _ =>
      have room := (Nat.le_div_iff_mul_le cache.config.blockSize_pos).mp lookup.inside
      rw [← lookup.matchedTokens,
        ← Request.promptLength_eq_length (cachedTokens?_eq_some exact).2] at room
      exact Nat.add_sub_cancel' room
  | count => exact Nat.zero_add _
  | decode isDecode =>
      rw [isPrefill] at isDecode
      cases isDecode

theorem decode_cost (demands : engine.Demands cache candidate request demand)
    (isDecode : candidate.isPrefill = false) : demand.tokenCost = 1 := by
  cases demands with
  | exact isPrefill | count isPrefill =>
      rw [isDecode] at isPrefill
      cases isPrefill
  | decode => rfl

end Demands

/-! ## The victims -/

theorem evictableFor_prefill (isPrefill : candidate.isPrefill = true)
    (lookup : PrefixLookupResult) :
    evictableFor cache candidate lookup = cache.evictableOutside lookup.physicalBlockIds := by
  rw [evictableFor, if_pos isPrefill]
  rfl

theorem evictableFor_decode (isDecode : candidate.isPrefill = false)
    (lookup : PrefixLookupResult) :
    evictableFor cache candidate lookup = cache.eligibleEvictionOrder := by
  rw [evictableFor, isDecode]
  rfl

/-- The blocks that scheduling a candidate evicts; a deferred one evicts none. -/
def victimsOf (engine : ContinuousBatchingEngine) (builder : PlanBuilder)
    (candidate : Candidate) : List Nat :=
  match engine.requestAt candidate.requestId with
  | .error _ => []
  | .ok request =>
      match engine.demandOf builder.cache candidate request with
      | .error _ => []
      | .ok demand =>
          if engine.deferralReason builder candidate demand = none then
            evictedFor builder.cache candidate demand
          else []

/-- A scheduled candidate stays within the budgets and the capacity. -/
theorem deferralReason_eq_none : engine.deferralReason builder candidate demand = none ↔
    demand.tokenCost ≤ engine.config.maxBatchedTokens - builder.usedTokens ∧
      builder.prefills.length + builder.decodes.length < engine.config.maxNumSequences ∧
      demand.blocksRequired ≤ builder.cache.freeBlocks.size +
        (evictableFor builder.cache candidate demand.lookup).length := by
  unfold deferralReason
  split
  · next long => simp [not_le.mpr long]
  split
  · next full => simp [not_lt.mpr full]
  split
  · next short => simp [not_le.mpr short]
  · next tokens sequences blocks =>
      simp [not_lt.mp tokens, not_le.mp sequences, not_lt.mp blocks]

/-! ## The work -/

/-- Only these fields of a supplied lookup are looked at. -/
theorem allocatePromptWithPrefixExact_congr {id : RequestId} {tokens : List Token}
    {supplied other : PrefixLookupResult} {evictionIds allocationIds : List Nat}
    (ids : supplied.physicalBlockIds = other.physicalBlockIds)
    (count : supplied.matchedTokenCount = other.matchedTokenCount)
    (kind : supplied.kind = other.kind) :
    cache.allocatePromptWithPrefixExact id tokens supplied evictionIds allocationIds =
      cache.allocatePromptWithPrefixExact id tokens other evictionIds allocationIds := by
  unfold allocatePromptWithPrefixExact allocatePromptWithPrefixExactUnchecked
  rw [ids, count, kind]

/-- What the local manager must offer for a prefill to be served. -/
def Fresh (engine : ContinuousBatchingEngine) (cache : KVCacheManager) (request : Request) : Prop :=
  ∀ tokens, engine.cachedTokens? request = some tokens →
    cache.CollisionFree (cache.inScope {tokens})

/-- A prefill with room for its demand is allocated on the local manager. -/
theorem allocatePrefill_ensures (sound : cache.Sound)
    (setup : cache.prefixConfig = engine.config.prefixCacheConfig)
    (isPrefill : candidate.isPrefill = true)
    (demands : engine.Demands cache candidate request demand)
    (unknown : cache.blockTables.find? candidate.requestId = none)
    (room : demand.blocksRequired ≤ cache.freeBlocks.size +
      (evictableFor cache candidate demand.lookup).length) :
    Ensures (Refuses (engine.Fresh cache request ∧
        cache.Unpinned (evictedFor cache candidate demand)))
      (fun next => Effect cache next (engine.promptEvent candidate.requestId request) ∧ next.Sound)
      (engine.allocatePrefill cache request candidate.requestId demand.lookup
        (evictedFor cache candidate demand) (allocatedFor cache candidate demand)) := by
  unfold allocatePrefill promptEvent
  rw [evictableFor_prefill isPrefill] at room
  have evicted : evictedFor cache candidate demand = (cache.evictableOutside
      demand.lookup.physicalBlockIds).take (demand.blocksRequired - cache.freeBlocks.size) := by
    rw [evictedFor, evictableFor_prefill isPrefill]
  cases demands with
  | @exact tokens lookup _ exact current spec _ =>
      obtain ⟨enabled, prompt⟩ := cachedTokens?_eq_some exact
      rw [exact]
      refine (allocatePromptWithPrefixExact_ensures sound).mono_allowed fun error refused => ?_
      refine refused.imp_right fun unplanned clear => unplanned ⟨⟨lookup, ?_⟩, clear.2⟩
      rw [Request.promptLength_eq_length prompt] at evicted room ⊢
      exact ⟨unknown, by rw [setup]; exact enabled, current,
        spec.distinct (clear.1 tokens exact) (mem_inScope rfl), rfl, rfl, rfl,
        Nat.sub_le_iff_le_add'.mpr room, evicted, rfl⟩
  | count _ exact _ =>
      rw [exact]
      refine (allocatePromptExact_ensures sound).mono_allowed fun error refused => ?_
      refine refused.imp_right fun unplanned clear => unplanned ⟨?_, clear.2⟩
      rw [evictableOutside_nil] at room evicted
      exact ⟨unknown, Nat.sub_le_iff_le_add'.mpr room, evicted, rfl⟩
  | decode isDecode =>
      rw [isPrefill] at isDecode
      cases isDecode

/-- A decode step with room for its demand is appended on the local manager. -/
theorem appendDecode_ensures (sound : cache.Sound) (isDecode : candidate.isPrefill = false)
    (demands : engine.Demands cache candidate request demand)
    (room : demand.blocksRequired ≤ cache.freeBlocks.size +
      (evictableFor cache candidate demand.lookup).length) :
    Ensures (Refuses (cache.Unpinned (evictedFor cache candidate demand)))
      (fun next => Effect cache next (.append candidate.requestId) ∧ next.Sound)
      (cache.appendDecodeTokenExact candidate.requestId (evictedFor cache candidate demand)
        (allocatedFor cache candidate demand).head?) := by
  refine (appendDecodeTokenExact_ensures sound).mono_allowed fun error refused => ?_
  refine refused.imp_right fun unplanned clear => unplanned ⟨?_, clear⟩
  rw [evictableFor_decode isDecode] at room
  cases demands with
  | exact isPrefill | count isPrefill =>
      rw [isDecode] at isPrefill
      cases isPrefill
  | @decode newBlock table _ found _ needs =>
      refine ⟨table, found, fun need => ?_, fun stays => ?_⟩
      · rw [needs.mpr need] at room ⊢
        have evicted : evictedFor cache candidate ⟨{}, 1, if true = true then 1 else 0⟩ =
            cache.decodeVictims := by
          rw [evictedFor, evictableFor_decode isDecode, decodeVictims]
          by_cases free : cache.freeBlocks.size = 0
          · simp [free]
          · simp [free, Nat.sub_eq_zero_of_le (Nat.one_le_iff_ne_zero.mpr free)]
        refine ⟨?_, evicted, ?_⟩
        · by_contra neither
          rw [not_or, not_not, not_not] at neither
          rw [neither.1, neither.2] at room
          simp at room
        · rw [allocatedFor, lowestAvailable, evicted]
          cases (cache.freeBlocks.insertAll cache.decodeVictims).elems <;> simp
      · have no : newBlock = false := by
          rw [← Bool.not_eq_true]
          exact fun yes => stays (needs.mp yes)
        subst no
        refine ⟨?_, ?_⟩
        · rw [evictedFor]
          simp
        · rw [allocatedFor, lowestAvailable]
          simp

/-! ## The step -/

/-- What the loop body of `build_from_candidates` makes of a candidate. -/
inductive Decided (engine : ContinuousBatchingEngine) (builder : PlanBuilder)
    (candidate : Candidate) (request : Request) : PlanBuilder → Prop
  | deferred {demand : Demand} {reason : DeferralReason} :
      engine.Demands builder.cache candidate request demand →
      engine.deferralReason builder candidate demand = some reason →
      Decided engine builder candidate request
        { builder with deferred := builder.deferred ++ [⟨candidate.requestId, reason⟩] }
  | prefill {demand : Demand} {cache : KVCacheManager} : candidate.isPrefill = true →
      engine.Demands builder.cache candidate request demand →
      engine.deferralReason builder candidate demand = none →
      engine.allocatePrefill builder.cache request candidate.requestId demand.lookup
        (evictedFor builder.cache candidate demand)
        (allocatedFor builder.cache candidate demand) = .ok cache →
      Effect builder.cache cache (engine.promptEvent candidate.requestId request) → cache.Sound →
      Decided engine builder candidate request { builder.scheduled candidate demand with
        cache
        prefills := builder.prefills ++ [prefillWorkOf builder.cache candidate request demand] }
  | decode {demand : Demand} {cache : KVCacheManager} : candidate.isPrefill = false →
      engine.Demands builder.cache candidate request demand →
      engine.deferralReason builder candidate demand = none →
      builder.cache.appendDecodeTokenExact candidate.requestId
        (evictedFor builder.cache candidate demand)
        (allocatedFor builder.cache candidate demand).head? = .ok cache →
      Effect builder.cache cache (.append candidate.requestId) → cache.Sound →
      Decided engine builder candidate request { builder.scheduled candidate demand with
        cache
        decodes := builder.decodes ++ [candidate.requestId]
        decodeWork := builder.decodeWork ++ [decodeWorkOf builder.cache candidate demand] }

/-- What a candidate finds in the local manager. -/
structure Ready (engine : ContinuousBatchingEngine) (cache : KVCacheManager)
    (candidate : Candidate) : Prop where
  sound : cache.Sound
  prefixConfig : cache.prefixConfig = engine.config.prefixCacheConfig
  unknown : candidate.isPrefill = true → cache.blockTables.find? candidate.requestId = none
  listed : candidate.isPrefill = false →
    ∃ table, cache.blockTables.find? candidate.requestId = some table

/-- A ready candidate is decided: its work is scheduled, or it is deferred. -/
theorem planCandidate_ensures (ready : engine.Ready builder.cache candidate)
    (found : engine.requests.find? candidate.requestId = some request) :
    Ensures (Refuses (request.promptLength ≤ engine.config.maxBatchedTokens ∧
        engine.Fresh builder.cache request ∧
        builder.cache.Unpinned (engine.victimsOf builder candidate)))
      (engine.Decided builder candidate request) (engine.planCandidate builder candidate) := by
  have victims : engine.victimsOf builder candidate =
      match engine.demandOf builder.cache candidate request with
      | .error _ => []
      | .ok demand => if engine.deferralReason builder candidate demand = none then
          evictedFor builder.cache candidate demand else [] := by
    rw [victimsOf, requestAt_eq_ok.mpr found]
  unfold planCandidate
  rw [requestAt_eq_ok.mpr found, except_ok_bind]
  refine ((demandOf_ensures ready.sound ready.prefixConfig ready.listed).mono_allowed
    fun error refused => refused.imp_right fun long clear => long clear.1).bind_eq
      fun demand demanded demands => ?_
  rw [demanded] at victims
  dsimp only at victims
  cases reason : engine.deferralReason builder candidate demand with
  | some reason' => exact .deferred demands reason
  | none =>
      rw [if_pos reason] at victims
      rw [victims]
      obtain ⟨-, -, room⟩ := deferralReason_eq_none.mp reason
      unfold schedule
      by_cases isPrefill : candidate.isPrefill = true
      · rw [if_pos isPrefill]
        refine ((allocatePrefill_ensures ready.sound ready.prefixConfig isPrefill demands
          (ready.unknown isPrefill) room).mono_allowed fun error refused =>
            refused.imp_right fun unplanned clear => unplanned clear.2).bind_eq
              fun cache allocated spec => ?_
        exact .prefill isPrefill demands reason allocated spec.1 spec.2
      · rw [if_neg isPrefill]
        rw [Bool.not_eq_true] at isPrefill
        refine ((appendDecode_ensures ready.sound isPrefill demands room).mono_allowed
          fun error refused => refused.imp_right fun unplanned clear =>
            unplanned clear.2.2).bind_eq fun cache appended spec => ?_
        exact .decode isPrefill demands reason appended spec.1 spec.2

end ContinuousBatchingEngine

end LlmLab.Serving
