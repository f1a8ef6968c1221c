import LlmLab.Serving.ContinuousBatching.Trail

/-!
# The roles of the blocks in a plan

A block that a plan matches, evicts or allocates plays that role alone: the checks at the end of
`build_from_candidates` never fire.
-/

namespace LlmLab.Serving

open KVCacheManager

/-! ## What an allocation does to the blocks -/

namespace KVCacheManager

variable {manager next : KVCacheManager} {id : RequestId} {table : List Nat}

/-- The states and keys after `victims` made room, `fresh` was taken and `matched` acquired. -/
structure Shift (manager next : KVCacheManager) (matched victims fresh : List Nat) : Prop where
  victims_nodup : victims.Nodup
  fresh_nodup : fresh.Nodup
  victim : ∀ x ∈ victims, (manager.block x).state = .cached ∧ x ∉ matched
  idle : ∀ x ∈ fresh, (manager.block x).state ≠ .inUse ∧ x ∉ matched
  written : ∀ x ∈ fresh, (next.block x).state = .inUse ∧ (next.block x).prefixKey = none
  freed : ∀ x ∈ victims, x ∉ fresh → next.block x = { blockId := x }
  acquired : ∀ x ∈ matched, (manager.block x).prefixKey ≠ none ∧
    (next.block x).state = .inUse ∧ (next.block x).prefixKey = (manager.block x).prefixKey
  outside : ∀ x, x ∉ matched → x ∉ victims → x ∉ fresh →
    (next.block x).state = (manager.block x).state ∧
      (next.block x).prefixKey = (manager.block x).prefixKey

/-- A served grant makes room with its victims, takes its fresh blocks and acquires the matched. -/
theorem Served.shift {g : Grant} (served : manager.Served g next) (sound : manager.Sound) :
    manager.Shift next g.matched g.victims g.fresh := by
  have serves := served.serves
  refine ⟨serves.victims_nodup sound, serves.fresh_nodup, fun x member => serves.victim sound member,
    fun x member => ⟨fun inUse => ?_, serves.fresh_notMatched sound member⟩, fun x member => ?_,
    served.effect.freed, fun x member => ⟨serves.matched_keyed x member, ?_⟩,
    fun x notMatched notVictim notFresh => ?_⟩
  · rcases serves.fresh_available member with isFree | victim
    · rw [(sound.free isFree).2] at inUse
      cases inUse
    · rw [(serves.victim sound victim).1] at inUse
      cases inUse
  · obtain ⟨i, at'⟩ := List.mem_iff_getElem?.mp member
    rw [served.effect.written i x at']
    exact ⟨rfl, rfl⟩
  · rw [served.effect.acquired x member]
    exact ⟨rfl, rfl⟩
  · rw [served.effect.outside x notMatched notVictim notFresh]
    exact ⟨rfl, rfl⟩

theorem Grown.shift {last : Nat} (effect : manager.Grown id table last next)
    (sound : manager.Sound) : manager.Shift next [] [] [] := by
  refine ⟨List.nodup_nil, List.nodup_nil, nofun, nofun, nofun, nofun, nofun, fun x _ _ _ => ?_⟩
  refine ⟨?_, effect.key sound x⟩
  rw [effect.block sound]
  split
  · next same => rw [same]; rfl
  · rfl

/-- A decode append makes room with its victims and takes one block. -/
theorem Extended.shift {victims : List Nat} {y : Nat}
    (effect : manager.Extended id table victims y next) (sound : manager.Sound)
    (nodup : victims.Nodup) : manager.Shift next [] victims [y] := by
  refine ⟨nodup, List.nodup_singleton y, fun x member => ⟨effect.cached x member, List.not_mem_nil⟩,
    fun x member => ⟨fun inUse => ?_, List.not_mem_nil⟩, fun x member => ?_,
    fun x member other => effect.freed x member (by simpa using other), nofun,
    fun x _ notVictim notFresh => ?_⟩
  · rw [List.mem_singleton.mp member] at inUse
    rcases effect.available with isFree | victim
    · rw [(sound.free isFree).2] at inUse
      cases inUse
    · rw [effect.cached y victim] at inUse
      cases inUse
  · rw [List.mem_singleton.mp member, effect.written]
    exact ⟨rfl, rfl⟩
  · rw [effect.outside x notVictim (by simpa using notFresh)]
    exact ⟨rfl, rfl⟩

end KVCacheManager

namespace ContinuousBatchingEngine

variable {engine : ContinuousBatchingEngine} {arrived : OrdSet RequestId}
  {cache next : KVCacheManager} {consumed : List Candidate} {builder : PlanBuilder}
  {candidate : Candidate} {request : Request} {demand : Demand}

/-! ## The ids of a scheduled candidate -/

/-- What a prefill adds to the metrics of the manager. -/
def billed (engine : ContinuousBatchingEngine) (cache : KVCacheManager) (request : Request)
    (lookup : PrefixLookupResult) : PrefixCacheMetrics :=
  if (engine.cachedTokens? request).isSome then acquiredMetrics cache.prefixMetrics lookup
  else cache.prefixMetrics

/-- A prefill is served with exactly the ids that the plan records. -/
theorem prefill_served (isPrefill : candidate.isPrefill = true)
    (demands : engine.Demands cache candidate request demand)
    (effect : Effect cache next (engine.promptEvent candidate.requestId request)) :
    ∃ g : Grant, cache.Served g next ∧ g.owner = candidate.requestId ∧
      g.matched = demand.lookup.physicalBlockIds ∧ g.victims = evictedFor cache candidate demand ∧
      g.fresh = allocatedFor cache candidate demand ∧ g.suffix = demand.tokenCost ∧
      next.prefixMetrics = { engine.billed cache request demand.lookup with
        evictionCount := cache.prefixMetrics.evictionCount +
          (evictedFor cache candidate demand).length } := by
  unfold promptEvent at effect
  cases demands with
  | @exact tokens lookup _ exact current spec _ =>
      rw [exact] at effect
      have length := Request.promptLength_eq_length (cachedTokens?_eq_some exact).2
      cases effect with
      | @exactPrompt _ _ supplied actual evictionIds allocationIds plan _ served metrics =>
          obtain rfl : actual = lookup := by
            have same := plan.current
            rw [current, Except.ok.injEq] at same
            exact same.symm
          have evicted : evictionIds = evictedFor cache candidate ⟨actual,
              request.promptLength - actual.matchedTokenCount, cache.config.demand
                (request.promptLength - actual.matchedTokenCount)⟩ := by
            rw [plan.victims, evictedFor, evictableFor_prefill isPrefill, length]
          subst evicted
          refine ⟨_, served, rfl, rfl, rfl, ?_, ?_, ?_⟩
          · change allocationIds = _
            rw [plan.fresh, allocatedFor, length]
          · change tokens.length - _ = request.promptLength - _
            rw [length]
          · rw [metrics, billed, exact]
            rfl
  | count _ exact _ =>
      rw [exact] at effect
      cases effect with
      | @countPrompt _ _ evictionIds allocationIds plan served metrics =>
          have evicted : evictionIds = evictedFor cache candidate
              ⟨{ kind := .disabled }, request.promptLength,
                cache.config.demand request.promptLength⟩ := by
            rw [plan.victims, evictedFor, evictableFor_prefill isPrefill, evictableOutside_nil]
          subst evicted
          refine ⟨_, served, rfl, rfl, rfl, ?_, rfl, ?_⟩
          · change allocationIds = _
            rw [plan.fresh, allocatedFor]
          · rw [metrics, billed, exact]
            rfl
  | decode isDecode =>
      rw [isPrefill] at isDecode
      cases isDecode

/-- A decode is appended with exactly the ids that the plan records. -/
theorem decode_appended (isDecode : candidate.isPrefill = false)
    (demands : engine.Demands cache candidate request demand)
    (effect : Effect cache next (.append candidate.requestId)) :
    ∃ victims fresh, cache.Appended candidate.requestId victims fresh next ∧
      victims = evictedFor cache candidate demand ∧
      fresh = (allocatedFor cache candidate demand).head? ∧
      (allocatedFor cache candidate demand).length ≤ 1 := by
  cases demands with
  | exact isPrefill | count isPrefill =>
      rw [isDecode] at isPrefill
      cases isPrefill
  | @decode newBlock table _ found _ needs =>
      cases effect with
      | @appended _ table' evictionIds allocationId plan appended =>
          obtain rfl : table' = table := by
            have same := plan.found
            rw [found, Option.some.injEq] at same
            exact same.symm
          by_cases need : cache.NeedsBlock table'
          · obtain ⟨-, victims, fresh⟩ := plan.fresh need
            rw [needs.mpr need]
            have evicted : cache.decodeVictims = evictedFor cache candidate ⟨{}, 1, 1⟩ := by
              rw [evictedFor, evictableFor_decode isDecode, decodeVictims]
              by_cases free : cache.freeBlocks.size = 0
              · simp [free]
              · simp [free, Nat.sub_eq_zero_of_le (Nat.one_le_iff_ne_zero.mpr free)]
            have allocated : allocatedFor cache candidate ⟨{}, 1, 1⟩ =
                (cache.freeBlocks.insertAll cache.decodeVictims).elems.take 1 := by
              rw [allocatedFor, lowestAvailable, evicted]
            refine ⟨evictionIds, allocationId, appended, victims.trans evicted, ?_, ?_⟩
            · change allocationId = (allocatedFor cache candidate ⟨{}, 1, 1⟩).head?
              rw [fresh, victims, allocated]
              cases (cache.freeBlocks.insertAll cache.decodeVictims).elems <;> simp
            · change (allocatedFor cache candidate ⟨{}, 1, 1⟩).length ≤ 1
              rw [allocated]
              exact List.length_take_le _ _
          · have no : newBlock = false := by
              rw [← Bool.not_eq_true]
              exact fun yes => need (needs.mp yes)
            subst no
            obtain ⟨victims, fresh⟩ := plan.grows need
            refine ⟨evictionIds, allocationId, appended, ?_, ?_, ?_⟩
            · rw [victims, evictedFor]
              simp
            · rw [fresh, allocatedFor, lowestAvailable]
              simp
            · rw [allocatedFor, lowestAvailable]
              simp

/-- The blocks before and after a scheduled prefill. -/
theorem prefill_shift (sound : cache.Sound) (isPrefill : candidate.isPrefill = true)
    (demands : engine.Demands cache candidate request demand)
    (effect : Effect cache next (engine.promptEvent candidate.requestId request)) :
    cache.Shift next demand.lookup.physicalBlockIds (evictedFor cache candidate demand)
      (allocatedFor cache candidate demand) := by
  obtain ⟨g, served, -, matched, victims, fresh, -⟩ := prefill_served isPrefill demands effect
  rw [← matched, ← victims, ← fresh]
  exact served.shift sound

/-- The blocks before and after a scheduled decode. -/
theorem decode_shift (sound : cache.Sound) (isDecode : candidate.isPrefill = false)
    (demands : engine.Demands cache candidate request demand)
    (effect : Effect cache next (.append candidate.requestId)) :
    cache.Shift next [] (evictedFor cache candidate demand)
      (allocatedFor cache candidate demand) := by
  obtain ⟨victims, fresh, appended, rfl, rfl, few⟩ := decode_appended isDecode demands effect
  have nodup : (evictedFor cache candidate demand).Nodup := by
    rw [evictedFor, evictableFor_decode isDecode]
    exact (eligibleEvictionOrder_nodup sound.blockIds).sublist (List.take_sublist _ _)
  cases appended with
  | grown stays none grown =>
      have allocated : allocatedFor cache candidate demand = [] := by
        cases demands with
        | exact isPrefill | count isPrefill =>
            rw [isDecode] at isPrefill
            cases isPrefill
        | @decode newBlock table _ found _ needs =>
            cases newBlock with
            | false => simp [allocatedFor, lowestAvailable]
            | true =>
                have same := grown.found
                rw [found, Option.some.injEq] at same
                exact absurd (same ▸ needs.mp rfl) stays
      rw [none, allocated]
      exact grown.shift sound
  | @extended table y _ some' extended _ =>
      have allocated : allocatedFor cache candidate demand = [y] := by
        generalize allocatedFor cache candidate demand = fresh at some' few
        cases fresh with
        | nil => cases some'
        | cons head tail =>
            obtain rfl : head = y := Option.some.inj some'
            rw [List.length_cons] at few
            rw [List.length_eq_zero_iff.mp (show tail.length = 0 by omega)]
      rw [allocated]
      exact extended.shift sound nodup

/-! ## The roles -/

/-- What the blocks of a plan were when the iteration started and are on the local manager. -/
structure Roles (engine : ContinuousBatchingEngine) (builder : PlanBuilder) : Prop where
  evictions_nodup : builder.allEvictions.Nodup
  allocations_nodup : builder.allAllocations.Nodup
  evicted : ∀ x ∈ builder.allEvictions, (engine.kvCache.block x).state = .cached ∧
    (builder.cache.block x).state ≠ .cached ∧ (builder.cache.block x).prefixKey = none
  allocated : ∀ x ∈ builder.allAllocations, (engine.kvCache.block x).state ≠ .inUse ∧
    (builder.cache.block x).state = .inUse ∧ (builder.cache.block x).prefixKey = none
  matched : ∀ x ∈ matchedIds builder.prefills, (engine.kvCache.block x).prefixKey ≠ none ∧
    (builder.cache.block x).state = .inUse ∧ (builder.cache.block x).prefixKey ≠ none
  cached : ∀ x, (builder.cache.block x).state = .cached →
    (engine.kvCache.block x).state = .cached
  inUse : ∀ x, (engine.kvCache.block x).state = .inUse → (builder.cache.block x).state = .inUse
  keyed : ∀ x, (builder.cache.block x).prefixKey ≠ none →
    (engine.kvCache.block x).prefixKey ≠ none

namespace Roles

/-- The roles after one more scheduled candidate. -/
theorem shift (roles : engine.Roles builder)
    {matched : List Nat} {after : PlanBuilder}
    (shift : builder.cache.Shift after.cache matched (evictedFor builder.cache candidate demand)
      (allocatedFor builder.cache candidate demand))
    (evictions : after.allEvictions =
      builder.allEvictions ++ evictedFor builder.cache candidate demand)
    (allocations : after.allAllocations =
      builder.allAllocations ++ allocatedFor builder.cache candidate demand)
    (matches' : ∀ x ∈ matchedIds after.prefills, x ∈ matchedIds builder.prefills ∨ x ∈ matched) :
    engine.Roles after := by
  -- What is cached afterwards was cached, what carries a key carried it, what is in use stays so.
  have cached : ∀ x, (after.cache.block x).state = .cached →
      (builder.cache.block x).state = .cached ∧
        x ∉ evictedFor builder.cache candidate demand := fun x isCached => by
    have notMatched : x ∉ matched := fun member => by
      rw [(shift.acquired x member).2.1] at isCached
      cases isCached
    have notFresh : x ∉ allocatedFor builder.cache candidate demand := fun member => by
      rw [(shift.written x member).1] at isCached
      cases isCached
    have notVictim : x ∉ evictedFor builder.cache candidate demand := fun member => by
      rw [shift.freed x member notFresh] at isCached
      cases isCached
    rw [(shift.outside x notMatched notVictim notFresh).1] at isCached
    exact ⟨isCached, notVictim⟩
  have keyed : ∀ x, (after.cache.block x).prefixKey ≠ none →
      (builder.cache.block x).prefixKey ≠ none ∧
        x ∉ evictedFor builder.cache candidate demand := fun x carries => by
    have notFresh : x ∉ allocatedFor builder.cache candidate demand := fun member =>
      carries (shift.written x member).2
    have notVictim : x ∉ evictedFor builder.cache candidate demand := fun member => by
      rw [shift.freed x member notFresh] at carries
      exact carries rfl
    by_cases acquired : x ∈ matched
    · exact ⟨(shift.acquired x acquired).1, notVictim⟩
    · rw [(shift.outside x acquired notVictim notFresh).2] at carries
      exact ⟨carries, notVictim⟩
  have inUse : ∀ x, (builder.cache.block x).state = .inUse →
      (after.cache.block x).state = .inUse := fun x used => by
    by_cases acquired : x ∈ matched
    · exact (shift.acquired x acquired).2.1
    · rw [(shift.outside x acquired (fun member => ?_) fun member => ?_).1]
      · exact used
      · rw [(shift.victim x member).1] at used
        cases used
      · exact (shift.idle x member).1 used
  refine ⟨?_, ?_, fun x member => ?_, fun x member => ?_, fun x member => ?_,
    fun x isCached => roles.cached x (cached x isCached).1,
    fun x used => inUse x (roles.inUse x used),
    fun x carries => roles.keyed x (keyed x carries).1⟩
  · rw [evictions]
    refine roles.evictions_nodup.append shift.victims_nodup fun x old new => ?_
    exact (roles.evicted x old).2.1 (shift.victim x new).1
  · rw [allocations]
    refine roles.allocations_nodup.append shift.fresh_nodup fun x old new => ?_
    exact (shift.idle x new).1 (roles.allocated x old).2.1
  · rw [evictions] at member
    rcases List.mem_append.mp member with old | new
    · obtain ⟨before, notCached, unkeyed⟩ := roles.evicted x old
      refine ⟨before, fun isCached => notCached (cached x isCached).1, ?_⟩
      by_contra carries
      exact (keyed x carries).1 unkeyed
    · refine ⟨roles.cached x (shift.victim x new).1, fun isCached => (cached x isCached).2 new, ?_⟩
      by_contra carries
      exact (keyed x carries).2 new
  · rw [allocations] at member
    rcases List.mem_append.mp member with old | new
    · obtain ⟨before, used, unkeyed⟩ := roles.allocated x old
      refine ⟨before, inUse x used, ?_⟩
      by_contra carries
      exact (keyed x carries).1 unkeyed
    · exact ⟨fun used => (shift.idle x new).1 (roles.inUse x used), shift.written x new⟩
  · rcases matches' x member with old | new
    · obtain ⟨before, used, carries⟩ := roles.matched x old
      refine ⟨before, inUse x used, ?_⟩
      by_cases acquired : x ∈ matched
      · rw [(shift.acquired x acquired).2.2]
        exact carries
      · rw [(shift.outside x acquired (fun member => ?_) fun member => ?_).2]
        · exact carries
        · rw [(shift.victim x member).1] at used
          cases used
        · exact (shift.idle x member).1 used
    · obtain ⟨carries, used, same⟩ := shift.acquired x new
      exact ⟨roles.keyed x carries, used, by rwa [same]⟩

end Roles

/-- The blocks that a trail evicts, allocates and matches are in their roles. -/
theorem Trail.roles (trail : engine.Trail arrived consumed builder) (coherent : engine.Coherent) :
    engine.Roles builder := by
  induction trail with
  | start => exact ⟨List.nodup_nil, List.nodup_nil, nofun, nofun, nofun, fun _ => id, fun _ => id,
      fun _ => id⟩
  | @step consumed builder next candidate request trail describes _ decided ih =>
      have sound := trail.sound coherent
      cases decided with
      | deferred => exact ⟨ih.evictions_nodup, ih.allocations_nodup, ih.evicted, ih.allocated,
          ih.matched, ih.cached, ih.inUse, ih.keyed⟩
      | prefill isPrefill demands _ _ effect _ =>
          refine ih.shift (prefill_shift sound isPrefill demands effect) rfl rfl
            fun x member => ?_
          unfold matchedIds at member ⊢
          rw [List.flatMap_append, List.mem_append] at member
          exact member.imp_right fun new => by simpa [prefillWorkOf] using new
      | decode isDecode demands _ _ effect _ =>
          exact ih.shift (decode_shift sound isDecode demands effect) rfl rfl
            fun x member => Or.inl member

end ContinuousBatchingEngine

end LlmLab.Serving
