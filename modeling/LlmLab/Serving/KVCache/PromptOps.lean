import LlmLab.Serving.KVCache.AllocateSpec
import LlmLab.Serving.KVCache.Lookup

/-!
# The two prompt allocations

`allocate_prompt_exact` and `allocate_prompt_with_prefix_exact`, up to their closing check:
each raises an overflow, refuses a plan that is not its own, or serves its grant.
-/

namespace LlmLab.Serving

open KVCacheManager

/-! ## Block demand -/

namespace KVCacheConfig

variable {config : KVCacheConfig} {tokens : Nat}

theorem blocksRequired_ensures :
    Ensures Exn.IsOverflow (fun required => required = config.demand tokens)
      (config.blocksRequired tokens) := by
  unfold blocksRequired demand
  by_cases none : tokens = 0
  · subst none
    simp
  · rw [if_neg none]
    dsimp only
    by_cases large : tokens / config.blockSizeTokens +
        (if tokens % config.blockSizeTokens = 0 then 0 else 1) > sizeMax
    · rw [if_pos large]
      exact True.intro
    · rw [if_neg large]
      rfl

theorem demand_covers : tokens ≤ config.demand tokens * config.blockSizeTokens := by
  have size := config.blockSize_pos
  have split := Nat.div_add_mod tokens config.blockSizeTokens
  have small := Nat.mod_lt tokens size
  rw [Nat.mul_comm] at split
  unfold demand
  split
  · rw [Nat.add_zero]
    omega
  · rw [Nat.add_mul, Nat.one_mul]
    omega

theorem lt_demand {i : Nat} (inside : i < config.demand tokens) :
    i * config.blockSizeTokens < tokens := by
  have size := config.blockSize_pos
  have split := Nat.div_add_mod tokens config.blockSizeTokens
  rw [Nat.mul_comm] at split
  unfold demand at inside
  split at inside
  · have := Nat.mul_lt_mul_of_pos_right (show i < tokens / config.blockSizeTokens by omega) size
    omega
  · have := Nat.mul_le_mul_right config.blockSizeTokens
      (show i ≤ tokens / config.blockSizeTokens by omega)
    omega

/-- A demand counts blocks up to the last one that a token needs. -/
theorem demand_le_iff {n : Nat} : config.demand tokens ≤ n ↔ tokens ≤ n * config.blockSizeTokens := by
  constructor
  · intro le
    exact demand_covers.trans (Nat.mul_le_mul_right _ le)
  · intro le
    by_contra more
    have := lt_demand (not_le.mp more)
    omega

/-- Whole blocks taken off the front leave the rest of the demand. -/
theorem demand_sub {matched : Nat} (le : matched ≤ tokens / config.blockSizeTokens) :
    matched + config.demand (tokens - matched * config.blockSizeTokens) = config.demand tokens := by
  have size := config.blockSize_pos
  have room := (Nat.le_div_iff_mul_le size).mp le
  unfold demand
  rw [Nat.mul_comm matched, Nat.sub_mul_div, Nat.sub_mul_mod (by rwa [Nat.mul_comm])]
  omega

end KVCacheConfig

namespace KVCacheManager

variable {manager : KVCacheManager}

/-- The blocks a plan takes exist once its victims are evicted. -/
theorem Grant.serves_of_plan (sound : manager.Sound) (g : Grant)
    (unknown : manager.blockTables.find? g.owner = none) (matched_nodup : g.matched.Nodup)
    (matched_keyed : ∀ x ∈ g.matched, (manager.block x).prefixKey ≠ none)
    (enough : manager.config.demand g.suffix - manager.freeBlocks.size ≤
      (manager.evictableOutside g.matched).length)
    (victims : g.victims = (manager.evictableOutside g.matched).take
      (manager.config.demand g.suffix - manager.freeBlocks.size))
    (fresh : g.fresh = lowestAvailable manager.freeBlocks g.victims
      (manager.config.demand g.suffix))
    (label_private : ∀ i, g.label i ≠ .sharedPromptFull)
    (label_full : ∀ i < manager.config.demand g.suffix, (g.label i).cacheable = true →
      (i + 1) * manager.config.blockSizeTokens ≤ g.suffix) :
    g.Serves manager ∧ g.fresh.length = manager.config.demand g.suffix := by
  have victimCount : g.victims.length =
      manager.config.demand g.suffix - manager.freeBlocks.size := by
    rw [victims, List.length_take, Nat.min_eq_left enough]
  have evictable : ∀ x ∈ g.victims, (manager.block x).state = .cached := by
    intro x member
    rw [victims] at member
    have listed := List.mem_of_mem_filter (List.mem_of_mem_take member)
    exact (mem_eligibleEvictionOrder sound.blockIds).mp listed
  have size : (manager.freeBlocks.insertAll g.victims).size =
      manager.freeBlocks.size + g.victims.length := by
    refine OrdSet.size_insertAll ?_ fun x member isFree => ?_
    · rw [victims]
      exact ((eligibleEvictionOrder_nodup sound.blockIds).filter _).sublist
        (List.take_sublist _ _)
    · have blank := (sound.free isFree).2
      have cached := evictable x member
      rw [blank] at cached
      cases cached
  have length : g.fresh.length = manager.config.demand g.suffix := by
    rw [fresh, lowestAvailable, List.length_take]
    refine Nat.min_eq_left ?_
    change _ ≤ (manager.freeBlocks.insertAll g.victims).size
    omega
  refine ⟨⟨unknown, matched_nodup, matched_keyed, ?_, ?_, ?_, ?_, fun i inside => ?_, ?_,
    label_private, fun i inside cacheable => ?_⟩, length⟩
  · rw [victimCount, ← victims]
  · rw [victimCount]
    exact enough
  · rw [length, ← fresh]
  · rw [length, size]
    omega
  · exact KVCacheConfig.lt_demand (length ▸ inside)
  · rw [length]
    exact KVCacheConfig.demand_covers
  · exact label_full i (length ▸ inside) cacheable

theorem nextEpochIf_ensures {touched : Prop} [Decidable touched] :
    Ensures Exn.IsOverflow (fun epoch => epoch = manager.accessEpoch + if touched then 1 else 0)
      (manager.nextEpochIf touched) := by
  unfold nextEpochIf
  by_cases holds : touched
  · rw [if_pos holds, if_pos holds]
    exact inc_ensures _ _
  · rw [if_neg holds, if_neg holds]
    rfl

theorem epochs_agree (ids : List Nat) :
    (if ids.length ≠ 0 then 1 else 0) = if ids = [] then 0 else 1 := by
  cases ids <;> simp

/-- An exact plan only raises overflows; any other plan may also be refused. -/
def Refuses (plan : Prop) (error : Exn) : Prop := error.IsOverflow ∨ ¬ plan

/-- What a finished allocation guarantees. -/
structure Served (manager : KVCacheManager) (g : Grant) (next : KVCacheManager) : Prop where
  serves : g.Serves manager
  effect : manager.Allocated g next
  consistent : next.Consistent next.blockTables
  valid : next.Valid ↔ ∀ x ∈ g.victims, ¬ manager.Pinned x

/-! ## Count-only prompts -/

section CountOnly

variable {id : RequestId} {tokens : Nat} {evictionIds allocationIds : List Nat}

/-- The plan that `allocate_prompt_exact` accepts. -/
structure PromptPlan (manager : KVCacheManager) (id : RequestId) (tokens : Nat)
    (evictionIds allocationIds : List Nat) : Prop where
  unknown : manager.blockTables.find? id = none
  enough : manager.config.demand tokens - manager.freeBlocks.size ≤
    manager.eligibleEvictionOrder.length
  victims : evictionIds = manager.eligibleEvictionOrder.take
    (manager.config.demand tokens - manager.freeBlocks.size)
  fresh : allocationIds =
    lowestAvailable manager.freeBlocks evictionIds (manager.config.demand tokens)

/-- The grant of a count-only prompt. -/
def countGrant (id : RequestId) (tokens : Nat) (evictionIds allocationIds : List Nat) : Grant where
  owner := id
  matched := []
  victims := evictionIds
  fresh := allocationIds
  suffix := tokens
  label _ := .privatePromptCountOnly
  record := countOnlyProvenance id tokens allocationIds.length

theorem evictableOutside_nil (manager : KVCacheManager) :
    manager.evictableOutside [] = manager.eligibleEvictionOrder := by
  simp [evictableOutside]

theorem PromptPlan.serves (sound : manager.Sound)
    (plan : manager.PromptPlan id tokens evictionIds allocationIds) :
    (countGrant id tokens evictionIds allocationIds).Serves manager ∧
      allocationIds.length = manager.config.demand tokens := by
  refine Grant.serves_of_plan sound (countGrant id tokens evictionIds allocationIds) plan.unknown
    List.nodup_nil (by simp [countGrant]) ?_ ?_ plan.fresh (by simp [countGrant])
    (by simp [countGrant, KVBlockProvenance.cacheable])
  · rw [show (countGrant id tokens evictionIds allocationIds).matched = [] from rfl,
      evictableOutside_nil]
    exact plan.enough
  · rw [show (countGrant id tokens evictionIds allocationIds).matched = [] from rfl,
      evictableOutside_nil]
    exact plan.victims

/-- The table of a served count-only prompt is valid. -/
theorem Allocated.countEntry {next : KVCacheManager}
    (serves : (countGrant id tokens evictionIds allocationIds).Serves manager)
    (effect : manager.Allocated (countGrant id tokens evictionIds allocationIds) next)
    (bound : ∀ x ∈ allocationIds, x < manager.blocks.length)
    (counted : manager.config.blocksRequired tokens = .ok allocationIds.length) :
    EntryValid next id ([] ++ allocationIds)
      (countOnlyProvenance id tokens allocationIds.length) := by
  rw [List.nil_append]
  refine ⟨.countOnly (by rw [effect.setup.config]; exact counted), le_rfl, serves.fresh_nodup,
    fun x member => by rw [effect.length]; exact bound x member, fun position x found => ?_,
    fun tokens exact => by cases exact⟩
  obtain ⟨inside, -⟩ := List.getElem?_eq_some_iff.mp found
  rw [effect.written position x found, effect.setup.config]
  unfold PositionValid
  rw [if_pos (show (countOnlyProvenance id tokens allocationIds.length).exactPromptTokens = none
    from rfl), if_pos (show position < (countOnlyProvenance id tokens
    allocationIds.length).decodeBlockStartPosition from inside)]
  exact ⟨rfl, le_rfl⟩

/-- The body of the counted prompt serves its grant, or refuses a plan that is none. -/
theorem allocatePromptExactUnchecked_ensures (sound : manager.Sound) :
    Ensures (Refuses (manager.PromptPlan id tokens evictionIds allocationIds))
      (fun next => manager.PromptPlan id tokens evictionIds allocationIds ∧
        manager.Served (countGrant id tokens evictionIds allocationIds) next ∧
        next.prefixMetrics = { manager.prefixMetrics with
          evictionCount := manager.prefixMetrics.evictionCount + evictionIds.length })
      (manager.allocatePromptExactUnchecked id tokens evictionIds allocationIds) := by
  unfold allocatePromptExactUnchecked
  refine .throwIf_bind (fun known => Or.inr fun plan => ?_) fun unknown => ?_
  · rw [OrdMap.contains_iff, plan.unknown] at known
    obtain ⟨table, found⟩ := known
    cases found
  rw [Bool.not_eq_true, OrdMap.contains_eq_false_iff] at unknown
  refine (KVCacheConfig.blocksRequired_ensures.mono_allowed fun _ => Or.inl).bind_eq
    fun required counted equal => ?_
  subst equal
  refine .throwIf_bind (fun short => Or.inr fun plan => ?_) fun enough => ?_
  · have := plan.enough
    omega
  refine .throwIf_bind (fun bad => Or.inr fun plan => bad plan.victims) fun victims => ?_
  refine .throwIf_bind (fun bad => Or.inr fun plan => bad plan.fresh) fun fresh => ?_
  have plan : manager.PromptPlan id tokens evictionIds allocationIds :=
    ⟨unknown, not_lt.mp enough, not_not.mp victims, not_not.mp fresh⟩
  obtain ⟨serves, count⟩ := plan.serves sound
  have start : (manager.acquired []).Consistent (manager.blockTables.insert id []) :=
    sound.acquired_consistent unknown List.nodup_nil (by simp)
  have enough' := serves.enough
  have victims' := serves.victims
  rw [show (countGrant id tokens evictionIds allocationIds).matched = [] from rfl,
    evictableOutside_nil] at enough' victims'
  refine ((evictExactBlocksInPlace_ensures start enough' victims').mono_allowed
    fun _ => Or.inl).bind fun evicted spec => ?_
  obtain ⟨evictedEffect, consistent⟩ := spec
  refine ((add_ensures _ _ _).mono_allowed fun _ => Or.inl).bind fun represented sum => ?_
  refine (nextEpochIf_ensures.mono_allowed fun _ => Or.inl).bind fun epoch epoch_eq => ?_
  rw [← count, epochs_agree] at epoch_eq
  obtain ⟨effect, final⟩ := serves.install sound evictedEffect consistent
    (evicted.writeAllocated id tokens epoch (fun _ => .privatePromptCountOnly)
      allocationIds).prefixMetrics epoch_eq sum.1
  have bound : ∀ x ∈ allocationIds, x < manager.blocks.length := fun x member => by
    rcases serves.fresh_available member with isFree | victim
    · exact (sound.free isFree).1
    · exact (sound.keyed (sound.cached (serves.victim sound victim).1)).1
  have entry := Allocated.countEntry serves effect bound (by rw [count]; exact counted)
  refine ⟨plan, ⟨serves, effect, final, effect.valid_iff serves sound final entry⟩, ?_⟩
  change (evicted.writeAllocated id tokens epoch _ allocationIds).prefixMetrics = _
  rw [writeAllocated_eq]
  exact evictedEffect.metrics

end CountOnly

/-! ## Exact prompts over a cached prefix -/

section Exact

variable {id : RequestId} {tokens : List Token} {supplied actual : PrefixLookupResult}
  {evictionIds allocationIds : List Nat}

/-- The plan that `allocate_prompt_with_prefix_exact` accepts, given the current lookup. -/
structure PrefixPlan (manager : KVCacheManager) (id : RequestId) (tokens : List Token)
    (supplied actual : PrefixLookupResult) (evictionIds allocationIds : List Nat) : Prop where
  unknown : manager.blockTables.find? id = none
  enabled : manager.prefixConfig.enabled = true
  current : manager.findLongestCachedPrefix tokens = .ok actual
  distinct : actual.physicalBlockIds.Nodup
  ids : actual.physicalBlockIds = supplied.physicalBlockIds
  count : actual.matchedTokenCount = supplied.matchedTokenCount
  kind : actual.kind = supplied.kind
  enough : manager.config.demand (tokens.length - actual.matchedTokenCount) -
    manager.freeBlocks.size ≤ (manager.evictableOutside actual.physicalBlockIds).length
  victims : evictionIds = (manager.evictableOutside actual.physicalBlockIds).take
    (manager.config.demand (tokens.length - actual.matchedTokenCount) - manager.freeBlocks.size)
  fresh : allocationIds = lowestAvailable manager.freeBlocks evictionIds
    (manager.config.demand (tokens.length - actual.matchedTokenCount))

/-- The grant of an exact prompt. -/
def prefixGrant (config : KVCacheConfig) (enabled : Bool) (id : RequestId) (tokens : List Token)
    (actual : PrefixLookupResult) (evictionIds allocationIds : List Nat) : Grant where
  owner := id
  matched := actual.physicalBlockIds
  victims := evictionIds
  fresh := allocationIds
  suffix := tokens.length - actual.matchedTokenCount
  label i := if actual.matchedBlockCount + i < tokens.length / config.blockSizeTokens
    then .computedPromptFull else .privatePromptTail
  record := exactProvenance config enabled id tokens actual.matchedBlockCount false

/-- The grant of a prefix plan can be served, and covers the demand of its prompt. -/
theorem prefixGrant_serves (sound : manager.Sound)
    (lookup : manager.LookupSpec tokens manager.prefixConfig.modelNamespace
      manager.prefixConfig.cacheSalt actual)
    (plan : manager.PrefixPlan id tokens supplied actual evictionIds allocationIds) :
    (prefixGrant manager.config manager.prefixConfig.enabled id tokens actual evictionIds
        allocationIds).Serves manager ∧
      actual.physicalBlockIds.length + allocationIds.length =
        manager.config.demand tokens.length := by
  have room : actual.physicalBlockIds.length * manager.config.blockSizeTokens ≤ tokens.length :=
    (Nat.le_div_iff_mul_le manager.config.blockSize_pos).mp lookup.inside
  obtain ⟨serves, count⟩ := Grant.serves_of_plan sound
    (prefixGrant manager.config manager.prefixConfig.enabled id tokens actual evictionIds
      allocationIds) plan.unknown plan.distinct lookup.keyed plan.enough plan.victims plan.fresh
    (fun i => by unfold prefixGrant; dsimp only; split <;> simp)
    (fun i _ cacheable => by
      unfold prefixGrant at cacheable ⊢
      dsimp only at cacheable ⊢
      split at cacheable
      · next full =>
          rw [lookup.blocks] at full
          have := (Nat.le_div_iff_mul_le manager.config.blockSize_pos).mp (Nat.succ_le_of_lt full)
          rw [lookup.matchedTokens]
          rw [show (actual.physicalBlockIds.length + i).succ =
            actual.physicalBlockIds.length + (i + 1) by omega, Nat.add_mul] at this
          omega
      · cases cacheable)
  refine ⟨serves, ?_⟩
  have demand := KVCacheConfig.demand_sub lookup.inside
  rw [← demand]
  congr 1
  have suffix : (prefixGrant manager.config manager.prefixConfig.enabled id tokens actual
      evictionIds allocationIds).suffix = tokens.length -
        actual.physicalBlockIds.length * manager.config.blockSizeTokens := by
    rw [← lookup.matchedTokens]
    rfl
  rw [← suffix]
  exact count

/-- Where the prompt of an exact request ends in its table. -/
theorem decodeStart_exactProvenance (config : KVCacheConfig) (enabled : Bool) (id : RequestId)
    (tokens : List Token) (matched : Nat) (completed : Bool) :
    (exactProvenance config enabled id tokens matched completed).decodeBlockStartPosition =
      config.demand tokens.length := by
  unfold exactProvenance KVCacheConfig.demand
  dsimp only
  by_cases aligned : tokens.length % config.blockSizeTokens = 0 <;> simp [aligned]

theorem positionValid_exactProvenance {config : KVCacheConfig} {enabled : Bool} {matched : Nat}
    {completed : Bool} {position : Nat} {block : PhysicalKVBlock} :
    PositionValid config.blockSizeTokens
        (exactProvenance config enabled id tokens matched completed) position block ↔
      if position < tokens.length / config.blockSizeTokens then
        ∃ provenance, block.provenance = some provenance ∧ provenance.cacheable = true
      else if position < config.demand tokens.length then
        block.provenance = some .privatePromptTail ∧ tokens.length % config.blockSizeTokens ≠ 0 ∧
          tokens.length % config.blockSizeTokens ≤ block.validTokenCount
      else block.provenance = some .privateDecode := by
  unfold PositionValid
  rw [decodeStart_exactProvenance, if_neg (by simp [exactProvenance])]
  rfl

/-- The table of a served exact prompt is valid. -/
theorem Allocated.exactEntry {next : KVCacheManager} (sound : manager.Sound)
    (lookup : manager.LookupSpec tokens manager.prefixConfig.modelNamespace
      manager.prefixConfig.cacheSalt actual)
    (serves : (prefixGrant manager.config manager.prefixConfig.enabled id tokens actual evictionIds
      allocationIds).Serves manager)
    (count : actual.physicalBlockIds.length + allocationIds.length =
      manager.config.demand tokens.length)
    (effect : manager.Allocated (prefixGrant manager.config manager.prefixConfig.enabled id tokens
      actual evictionIds allocationIds) next) :
    EntryValid next id (actual.physicalBlockIds ++ allocationIds)
      (exactProvenance manager.config manager.prefixConfig.enabled id tokens
        actual.matchedBlockCount false) := by
  have size := manager.config.blockSize_pos
  have total : manager.config.demand tokens.length = tokens.length / manager.config.blockSizeTokens +
      if tokens.length % manager.config.blockSizeTokens = 0 then 0 else 1 := rfl
  have matchedBound : ∀ x ∈ actual.physicalBlockIds, x < manager.blocks.length := fun x member =>
    (sound.keyed (serves.matched_keyed x member)).1
  have freshBound : ∀ x ∈ allocationIds, x < manager.blocks.length := fun x member => by
    rcases serves.fresh_available member with isFree | victim
    · exact (sound.free isFree).1
    · exact (sound.keyed (sound.cached (serves.victim sound victim).1)).1
  -- The block at a position is an acquired one or a written one.
  have matchedAt : ∀ {position x}, position < actual.physicalBlockIds.length →
      (actual.physicalBlockIds ++ allocationIds)[position]? = some x →
      actual.physicalBlockIds[position]? = some x ∧
        next.block x = acquiredBlock (manager.hitEpoch actual.physicalBlockIds) (manager.block x) :=
    fun inside found => by
      rw [List.getElem?_append_left inside] at found
      exact ⟨found, effect.acquired _ (List.mem_of_getElem? found)⟩
  have writtenAt : ∀ {position x}, ¬ position < actual.physicalBlockIds.length →
      (actual.physicalBlockIds ++ allocationIds)[position]? = some x →
      position < manager.config.demand tokens.length ∧ next.block x =
        allocatedPromptBlock manager.config id (tokens.length - actual.matchedTokenCount)
          next.accessEpoch (position - actual.physicalBlockIds.length)
          (if position < tokens.length / manager.config.blockSizeTokens then .computedPromptFull
            else .privatePromptTail) { blockId := x } := by
    intro position x outside found
    rw [List.getElem?_append_right (not_lt.mp outside)] at found
    obtain ⟨inside, -⟩ := List.getElem?_eq_some_iff.mp found
    refine ⟨by omega, ?_⟩
    rw [effect.written _ x found]
    unfold prefixGrant
    dsimp only
    rw [lookup.blocks, show actual.physicalBlockIds.length +
      (position - actual.physicalBlockIds.length) = position by omega]
  refine ⟨?_, ?_, ?_, fun x member => ?_, fun position x found => ?_,
    fun tokens' exact position x inside found => ?_⟩
  · rw [effect.setup.config, effect.setup.prefixConfig]
    exact .exact (by rw [lookup.blocks]; exact lookup.inside) (by simp)
  · rw [decodeStart_exactProvenance, List.length_append, count]
  · exact List.nodup_append.mpr ⟨serves.matched_nodup, serves.fresh_nodup,
      fun x matched y fresh equal =>
        serves.fresh_notMatched sound fresh (by subst equal; exact matched)⟩
  · rw [effect.length]
    exact (List.mem_append.mp member).elim (matchedBound x) (freshBound x)
  · rw [effect.setup.config]
    rw [positionValid_exactProvenance]
    by_cases matched : position < actual.physicalBlockIds.length
    · rw [if_pos (matched.trans_le lookup.inside)]
      obtain ⟨found, block_eq⟩ := matchedAt matched found
      obtain ⟨-, -, -, p, provenance, cacheable⟩ :=
        sound.keyed (serves.matched_keyed x (List.mem_of_getElem? found))
      rw [block_eq]
      exact acquiredBlock_provenance _ _ provenance cacheable
    · obtain ⟨inside, block_eq⟩ := writtenAt matched found
      rw [block_eq]
      by_cases full : position < tokens.length / manager.config.blockSizeTokens
      · rw [if_pos full, if_pos full]
        exact ⟨_, rfl, rfl⟩
      · rw [if_neg full, if_neg full, if_pos inside]
        have tail : tokens.length % manager.config.blockSizeTokens ≠ 0 := by
          intro aligned
          rw [total, if_pos aligned] at inside
          omega
        have last : position = tokens.length / manager.config.blockSizeTokens := by
          rw [total, if_neg tail] at inside
          omega
        refine ⟨rfl, tail, ?_⟩
        change tokens.length % manager.config.blockSizeTokens ≤
          min manager.config.blockSizeTokens (tokens.length - actual.matchedTokenCount -
            (position - actual.physicalBlockIds.length) * manager.config.blockSizeTokens)
        rw [lookup.matchedTokens, last, Nat.sub_sub, ← Nat.add_mul,
          Nat.add_sub_cancel' lookup.inside]
        have split := Nat.div_add_mod tokens.length manager.config.blockSizeTokens
        have small := Nat.mod_lt tokens.length size
        rw [Nat.mul_comm] at split
        omega
  · cases exact
    rw [effect.setup.chainKey]
    by_cases matched : position < actual.physicalBlockIds.length
    · obtain ⟨found, block_eq⟩ := matchedAt matched found
      refine Or.inl ⟨?_, Or.inr (by change position < actual.matchedBlockCount; rwa [lookup.blocks])⟩
      rw [block_eq]
      exact lookup.keys position x found
    · obtain ⟨-, block_eq⟩ := writtenAt matched found
      refine Or.inr ⟨by rw [block_eq]; rfl, ?_, fun completed => by cases completed⟩
      change actual.matchedBlockCount ≤ position
      rw [lookup.blocks]
      exact not_lt.mp matched

/-- The prefix metrics after an acquisition that overflows no counter. -/
def acquiredMetrics (metrics : PrefixCacheMetrics) (lookup : PrefixLookupResult) :
    PrefixCacheMetrics :=
  let counted := { metrics with
    cacheLookupCount := metrics.cacheLookupCount + 1
    totalCacheEligiblePromptTokensLookedUp :=
      metrics.totalCacheEligiblePromptTokensLookedUp + lookup.eligibleTokenCount
    collisionVerificationCount :=
      metrics.collisionVerificationCount + lookup.collisionVerificationCount }
  if lookup.matchedBlockCount ≠ 0 then
    { counted with
      cacheHitLookupCount := metrics.cacheHitLookupCount + 1
      reusedRequestCount := metrics.reusedRequestCount + 1
      matchedBlockCount := metrics.matchedBlockCount + lookup.matchedBlockCount
      matchedTokenCount := metrics.matchedTokenCount + lookup.matchedTokenCount
      savedPrefillTokenCount := metrics.savedPrefillTokenCount + lookup.matchedTokenCount }
  else { counted with cacheMissLookupCount := metrics.cacheMissLookupCount + 1 }

/-- An acquisition adds its lookup to the metrics, unless one overflows. -/
theorem acquisitionMetrics_ensures (metrics : PrefixCacheMetrics) (lookup : PrefixLookupResult) :
    Ensures Exn.IsOverflow (fun result => result = acquiredMetrics metrics lookup)
      (acquisitionMetrics metrics lookup) := by
  unfold acquisitionMetrics acquiredMetrics
  refine (inc_ensures _ _).bind fun lookups counted => ?_
  refine (add_ensures _ _ _).bind fun eligible summed => ?_
  refine (add_ensures _ _ _).bind fun collisions verified => ?_
  obtain rfl := counted
  obtain rfl := summed.1
  obtain rfl := verified.1
  by_cases hit : lookup.matchedBlockCount ≠ 0
  · rw [if_pos hit, if_pos hit]
    refine (inc_ensures _ _).bind fun hits counted => ?_
    refine (inc_ensures _ _).bind fun reused reusedCounted => ?_
    refine (add_ensures _ _ _).bind fun blocks blocksSum => ?_
    refine (add_ensures _ _ _).bind fun matched matchedSum => ?_
    refine (add_ensures _ _ _).bind fun saved savedSum => ?_
    obtain rfl := counted
    obtain rfl := reusedCounted
    obtain rfl := blocksSum.1
    obtain rfl := matchedSum.1
    obtain rfl := savedSum.1
    rfl
  · rw [if_neg hit, if_neg hit]
    refine (inc_ensures _ _).bind fun misses counted => ?_
    obtain rfl := counted
    rfl

/-- The installed table of any successful allocation, whatever its plan. -/
theorem evictExactBlocksInPlace_tables (ids : List Nat) :
    Ensures (fun _ => True) (fun next => next.blockTables = manager.blockTables)
      (manager.evictExactBlocksInPlace ids) := by
  unfold evictExactBlocksInPlace
  refine .throwIf_bind (fun _ => trivial) fun _ => .throwIf_bind (fun _ => trivial) fun _ => ?_
  refine Ensures.foldlM
    (fun _ (next : KVCacheManager) => next.blockTables = manager.blockTables) rfl
    fun _ id _ state _ same => ?_
  unfold evictBlock
  refine (Ensures.trivial (fun _ => trivial) _).bind fun _ _ => ?_
  split
  · trivial
  · split
    · trivial
    · exact .throwIf_bind (fun _ => trivial) fun _ => .throwIf_bind (fun _ => trivial) fun _ => same

/-- The body of the prompt with a prefix serves its grant, refuses, or leaves a state that the
validator turns down. -/
theorem allocatePromptWithPrefixExactUnchecked_ensures (sound : manager.Sound) :
    Ensures
      (Refuses (∃ actual, manager.PrefixPlan id tokens supplied actual evictionIds allocationIds))
      (fun next =>
        (∃ actual, manager.PrefixPlan id tokens supplied actual evictionIds allocationIds ∧
          manager.LookupSpec tokens manager.prefixConfig.modelNamespace
            manager.prefixConfig.cacheSalt actual ∧
          manager.Served (prefixGrant manager.config manager.prefixConfig.enabled id tokens actual
            evictionIds allocationIds) next ∧
          next.prefixMetrics = { acquiredMetrics manager.prefixMetrics actual with
            evictionCount := manager.prefixMetrics.evictionCount + evictionIds.length }) ∨
        (¬ next.Valid ∧
          ¬ ∃ actual, manager.PrefixPlan id tokens supplied actual evictionIds allocationIds))
      (manager.allocatePromptWithPrefixExactUnchecked id tokens supplied evictionIds
        allocationIds) := by
  unfold allocatePromptWithPrefixExactUnchecked
  refine .throwIf_bind (fun known => Or.inr fun ⟨actual, plan⟩ => ?_) fun unknown => ?_
  · rw [OrdMap.contains_iff, plan.unknown] at known
    obtain ⟨table, found⟩ := known
    cases found
  rw [Bool.not_eq_true, OrdMap.contains_eq_false_iff] at unknown
  refine .throwIf_bind (fun disabled => Or.inr fun ⟨actual, plan⟩ => ?_) fun enabled => ?_
  · rw [plan.enabled] at disabled
    cases disabled
  rw [Bool.not_eq_false] at enabled
  refine ((findLongestCachedPrefixIn_ensures sound.valid enabled).mono_allowed
    fun _ => Or.inl).bind_eq fun actual current spec => ?_
  obtain ⟨lookup, -, -⟩ := spec
  have unique : ∀ {other}, manager.PrefixPlan id tokens supplied other evictionIds allocationIds →
      other = actual := fun plan => by
    have same := plan.current
    unfold findLongestCachedPrefix at same
    rw [current] at same
    cases same
    rfl
  refine .throwIf_bind (fun stale => Or.inr fun ⟨other, plan⟩ => ?_) fun fresh => ?_
  · obtain rfl := unique plan
    rcases stale with bad | bad | bad
    · exact bad plan.ids
    · exact bad plan.count
    · exact bad plan.kind
  have room : actual.matchedTokenCount ≤ tokens.length := by
    rw [lookup.matchedTokens]
    exact (Nat.le_div_iff_mul_le manager.config.blockSize_pos).mp lookup.inside
  refine .throwIf_bind (fun long => absurd long (not_lt.mpr room)) fun _ => ?_
  by_cases distinct : actual.physicalBlockIds.Nodup
  · refine ((@KVCacheConfig.blocksRequired_ensures manager.config _).mono_allowed
      fun _ => Or.inl).bind fun required counted => ?_
    subst counted
    refine .throwIf_bind (fun short => Or.inr fun ⟨other, plan⟩ => ?_) fun enough => ?_
    · obtain rfl := unique plan
      exact absurd plan.enough (not_le.mpr short)
    refine .throwIf_bind (fun bad => Or.inr fun ⟨other, plan⟩ => ?_) fun victims => ?_
    · obtain rfl := unique plan
      exact bad plan.victims
    refine .throwIf_bind (fun bad => Or.inr fun ⟨other, plan⟩ => ?_) fun fresh' => ?_
    · obtain rfl := unique plan
      exact bad plan.fresh
    have plan : manager.PrefixPlan id tokens supplied actual evictionIds allocationIds :=
      ⟨unknown, enabled, current, distinct, by tauto, by tauto, by tauto, not_lt.mp enough,
        not_not.mp victims, not_not.mp fresh'⟩
    obtain ⟨serves, count⟩ := prefixGrant_serves sound lookup plan
    refine ((add_ensures _ _ _).mono_allowed fun _ => Or.inl).bind fun represented sum => ?_
    refine ((acquisitionMetrics_ensures _ _).mono_allowed fun _ => Or.inl).bind
      fun metrics counted => ?_
    refine .throwIf_bind (fun _ => Or.inl trivial) fun _ => ?_
    refine (nextEpochIf_ensures.mono_allowed fun _ => Or.inl).bind fun hitEpoch hit => ?_
    have hit_eq : hitEpoch = manager.hitEpoch actual.physicalBlockIds := by
      rw [hit, KVCacheManager.hitEpoch]
      by_cases none : actual.physicalBlockIds = [] <;> simp [none]
    subst hit_eq
    have start := sound.acquired_consistent unknown distinct lookup.keyed
    have order := sound.order_acquired unknown distinct lookup.keyed
    have enough' := serves.enough
    have victims' := serves.victims
    rw [show (prefixGrant manager.config manager.prefixConfig.enabled id tokens actual evictionIds
      allocationIds).matched = actual.physicalBlockIds from rfl, ← order] at enough' victims'
    refine ((evictExactBlocksInPlace_ensures start enough' victims').mono_allowed
      fun _ => Or.inl).bind fun evicted spec => ?_
    obtain ⟨evictedEffect, consistent⟩ := spec
    refine (nextEpochIf_ensures.mono_allowed fun _ => Or.inl).bind fun epoch epoch_eq => ?_
    have taken : allocationIds.length =
        manager.config.demand (tokens.length - actual.matchedTokenCount) := by
      have demand := KVCacheConfig.demand_sub lookup.inside
      rw [← lookup.matchedTokens] at demand
      omega
    rw [← taken, epochs_agree] at epoch_eq
    have base := acquired_eq manager actual.physicalBlockIds
    have before := evictedEffect.represented
    rw [base] at before
    dsimp only at before
    have represented_eq : represented - evictionIds.length * manager.config.blockSizeTokens =
        evicted.representedTokenCount + (tokens.length - actual.matchedTokenCount) := by
      change evicted.representedTokenCount + evictionIds.length * _ = _ at before
      omega
    obtain ⟨effect, final⟩ := serves.install sound evictedEffect consistent
      { metrics with evictionCount := evicted.prefixMetrics.evictionCount } epoch_eq represented_eq
    have entry := Allocated.exactEntry sound lookup serves count effect
    refine Or.inl ⟨actual, plan, lookup, ⟨serves, ?_, ?_, ?_⟩, ?_⟩
    · exact effect
    · exact final
    · exact effect.valid_iff serves sound final entry
    · change { metrics with evictionCount := evicted.prefixMetrics.evictionCount } = _
      rw [counted, evictedEffect.metrics, base]
      rfl
  · have unplanned : ¬ ∃ actual, manager.PrefixPlan id tokens supplied actual evictionIds
        allocationIds := fun ⟨other, plan⟩ => distinct (unique plan ▸ plan.distinct)
    have any : ∀ error, Refuses (∃ actual, manager.PrefixPlan id tokens supplied actual evictionIds
        allocationIds) error := fun _ => Or.inr unplanned
    refine (Ensures.trivial any _).bind fun required _ => ?_
    refine .throwIf_bind (fun _ => any _) fun _ => .throwIf_bind (fun _ => any _) fun _ =>
      .throwIf_bind (fun _ => any _) fun _ => ?_
    refine (Ensures.trivial any _).bind fun represented _ => ?_
    refine (Ensures.trivial any _).bind fun metrics _ => ?_
    refine .throwIf_bind (fun _ => any _) fun _ => ?_
    refine (Ensures.trivial any _).bind fun hitEpoch _ => ?_
    refine ((evictExactBlocksInPlace_tables evictionIds).mono_allowed fun _ _ => any _).bind
      fun evicted tables => ?_
    refine (Ensures.trivial any _).bind fun epoch _ =>
      Or.inr ⟨fun valid => distinct ?_, unplanned⟩
    have same : evicted.blockTables = manager.blockTables := by
      rw [tables, acquireMatched_eq]
    obtain ⟨p, -, entry⟩ := valid.entries id (actual.physicalBlockIds ++ allocationIds) (by
      change (emplace evicted.blockTables id _).find? id = _
      rw [same, emplace, OrdMap.contains_eq_false_iff.mpr unknown]
      simp)
    exact (List.nodup_append.mp entry.nodup).1

end Exact

end KVCacheManager

end LlmLab.Serving
