import LlmLab.Serving.KVCache.Passes

/-!
# The counters of the manager

The prefix metrics, the peak and the failure count along the effects of the public operations.
Prompts and appended tokens feed them; publications and releases leave the metrics alone.
-/

namespace LlmLab.Serving

/-- The events that leave the prefix metrics and the peak alone. -/
def KVEvent.Unmetered : KVEvent → Prop
  | .publish _ | .release _ => True
  | _ => False

namespace KVCacheManager

variable {manager next : KVCacheManager} {event : KVEvent} {events : List KVEvent} {id : RequestId}

/-- How the counters of a manager fit together. -/
structure Metered (manager : KVCacheManager) : Prop where
  lookups : manager.prefixMetrics.cacheLookupCount =
    manager.prefixMetrics.cacheHitLookupCount + manager.prefixMetrics.cacheMissLookupCount
  saved : manager.prefixMetrics.savedPrefillTokenCount =
    manager.prefixMetrics.matchedBlockCount * manager.config.blockSizeTokens
  eligible : manager.prefixMetrics.savedPrefillTokenCount ≤
    manager.prefixMetrics.totalCacheEligiblePromptTokensLookedUp
  peak : manager.allocatedBlockCount ≤ manager.peakAllocatedBlockCount
  failures : manager.allocationFailureCount = 0

/-- The metrics of a new manager are in step with each other. -/
theorem create_metered (config : KVCacheConfig) (prefixConfig : PrefixCacheConfig)
    (hashFunction : PrefixHashFunction) : (create config prefixConfig hashFunction).Metered where
  lookups := rfl
  saved := (Nat.zero_mul _).symm
  eligible := le_rfl
  peak := by
    have size : (create config prefixConfig hashFunction).freeBlocks.size =
        config.totalNumBlocks := by
      refine (OrdSet.size_insertAll List.nodup_range fun x _ member => ?_).trans ?_
      · cases member
      · rw [List.length_range]
        exact Nat.zero_add _
    unfold allocatedBlockCount
    rw [size]
    simp [create]
  failures := rfl

/-! ## The peak -/

/-- Where blocks only become free the number of allocated blocks does not grow. -/
theorem allocatedBlockCount_le (length : next.blocks.length = manager.blocks.length)
    (free : ∀ x ∈ manager.freeBlocks, x ∈ next.freeBlocks) :
    next.allocatedBlockCount ≤ manager.allocatedBlockCount := by
  unfold allocatedBlockCount
  rw [length]
  exact Nat.sub_le_sub_left (OrdSet.size_le_size free) _

/-- An operation updates the peak, or it takes no block. -/
theorem Effect.peak_cases (effect : Effect manager next event) :
    next.peakAllocatedBlockCount =
        max manager.peakAllocatedBlockCount next.allocatedBlockCount ∨
      (next.peakAllocatedBlockCount = manager.peakAllocatedBlockCount ∧
        next.allocatedBlockCount ≤ manager.allocatedBlockCount) := by
  cases effect with
  | countPrompt _ served | exactPrompt _ _ served => exact Or.inl served.effect.peak
  | published _ _ published =>
      have rest := published.rest
      refine Or.inr ⟨congrArg (·.peakAllocatedBlockCount) rest,
        allocatedBlockCount_le published.length fun x member => ?_⟩
      rw [rest]
      exact member
  | republished _ _ same => exact Or.inr ⟨by rw [same], by rw [same]⟩
  | appended _ appended =>
      cases appended with
      | grown _ _ grown =>
          rw [grown.result]
          exact Or.inl rfl
      | extended _ _ extended => exact Or.inl extended.peak
  | released released =>
      exact Or.inr ⟨congrArg (·.peakAllocatedBlockCount) released.rest,
        allocatedBlockCount_le released.length fun x member => (released.free x).mpr (.inl member)⟩
  | evicted _ evicted =>
      exact Or.inr ⟨evicted.peak,
        allocatedBlockCount_le evicted.length fun x member => (evicted.free x).mpr (.inr member)⟩

theorem Effect.peak_le (effect : Effect manager next event) :
    manager.peakAllocatedBlockCount ≤ next.peakAllocatedBlockCount := by
  rcases effect.peak_cases with raised | ⟨kept, -⟩
  · rw [raised]
    exact le_max_left ..
  · exact kept.ge

theorem Effect.failures_eq (effect : Effect manager next event) :
    next.allocationFailureCount = manager.allocationFailureCount := by
  cases effect with
  | countPrompt _ served | exactPrompt _ _ served => exact served.effect.failures
  | published _ _ published => exact congrArg (·.allocationFailureCount) published.rest
  | republished _ _ same => rw [same]
  | appended _ appended =>
      cases appended with
      | grown _ _ grown => exact congrArg (·.allocationFailureCount) grown.result
      | extended _ _ extended => exact extended.failures
  | released released => exact congrArg (·.allocationFailureCount) released.rest
  | evicted _ evicted => exact evicted.failures

/-! ## The prefix metrics -/

theorem Effect.metrics_eq (effect : Effect manager next event) (unmetered : event.Unmetered) :
    next.prefixMetrics = manager.prefixMetrics := by
  cases effect with
  | countPrompt | exactPrompt | appended | evicted => exact unmetered.elim
  | published _ _ published => exact congrArg (·.prefixMetrics) published.rest
  | republished _ _ same => rw [same]
  | released released => exact congrArg (·.prefixMetrics) released.rest

theorem Effect.peak_eq (effect : Effect manager next event) (unmetered : event.Unmetered) :
    next.peakAllocatedBlockCount = manager.peakAllocatedBlockCount := by
  cases effect with
  | countPrompt | exactPrompt | appended | evicted => exact unmetered.elim
  | published _ _ published => exact congrArg (·.peakAllocatedBlockCount) published.rest
  | republished _ _ same => rw [same]
  | released released => exact congrArg (·.peakAllocatedBlockCount) released.rest

theorem acquiredMetrics_saved (metrics : PrefixCacheMetrics) {lookup : PrefixLookupResult}
    (unmatched : lookup.matchedBlockCount = 0 → lookup.matchedTokenCount = 0) :
    (acquiredMetrics metrics lookup).savedPrefillTokenCount =
      metrics.savedPrefillTokenCount + lookup.matchedTokenCount := by
  unfold acquiredMetrics
  split
  · rfl
  · next none =>
      rw [unmatched (not_not.mp none)]
      rfl

theorem acquiredMetrics_cacheLookupCount (metrics : PrefixCacheMetrics)
    (lookup : PrefixLookupResult) :
    (acquiredMetrics metrics lookup).cacheLookupCount = metrics.cacheLookupCount + 1 := by
  unfold acquiredMetrics
  split <;> rfl

/-- A lookup matches whole blocks, at most the full blocks of the prompt. -/
theorem acquiredMetrics_metered {tokens : List Token} {lookup : PrefixLookupResult}
    (metered : manager.Metered) (sound : manager.Sound)
    (enabled : manager.prefixConfig.enabled = true)
    (current : manager.findLongestCachedPrefix tokens = .ok lookup) :
    let metrics := acquiredMetrics manager.prefixMetrics lookup
    metrics.cacheLookupCount = metrics.cacheHitLookupCount + metrics.cacheMissLookupCount ∧
      metrics.savedPrefillTokenCount =
        metrics.matchedBlockCount * manager.config.blockSizeTokens ∧
      metrics.savedPrefillTokenCount ≤ metrics.totalCacheEligiblePromptTokensLookedUp := by
  obtain ⟨spec, eligible, -⟩ :=
    (findLongestCachedPrefixIn_ensures sound.valid enabled).of_eq_ok current
  have matched := spec.matchedTokens
  have within := Nat.mul_le_mul_right manager.config.blockSizeTokens spec.inside
  have lookups := metered.lookups
  have saved := metered.saved
  have bounded := metered.eligible
  rw [← spec.blocks] at matched
  rw [← eligible, ← spec.matchedTokens] at within
  intro metrics
  unfold metrics acquiredMetrics
  split
  · refine ⟨by dsimp only; omega, ?_, Nat.add_le_add bounded within⟩
    dsimp only
    rw [saved, matched, Nat.add_mul]
  · exact ⟨by dsimp only; omega, saved, bounded.trans (Nat.le_add_right ..)⟩

/-- The counters fit together after every operation. -/
theorem Effect.metered (effect : Effect manager next event) (sound : manager.Sound)
    (metered : manager.Metered) : next.Metered := by
  have peak : next.allocatedBlockCount ≤ next.peakAllocatedBlockCount := by
    rcases effect.peak_cases with raised | ⟨kept, fewer⟩
    · rw [raised]
      exact le_max_right ..
    · rw [kept]
      exact fewer.trans metered.peak
  have failures := effect.failures_eq.trans metered.failures
  -- Evictions are counted beside the lookups.
  have counted : ∀ {evictions : Nat}, next.prefixMetrics = { manager.prefixMetrics with
      evictionCount := evictions } → next.Metered := fun metrics => by
    refine ⟨?_, ?_, ?_, peak, failures⟩
    · rw [metrics]
      exact metered.lookups
    · rw [metrics, effect.setup.config]
      exact metered.saved
    · rw [metrics]
      exact metered.eligible
  cases effect with
  | countPrompt _ _ metrics => exact counted metrics
  | exactPrompt plan _ served metrics =>
      obtain ⟨lookups, saved, eligible⟩ :=
        acquiredMetrics_metered metered sound plan.enabled plan.current
      refine ⟨?_, ?_, ?_, peak, failures⟩
      · rw [metrics]
        exact lookups
      · rw [metrics, served.effect.setup.config]
        exact saved
      · rw [metrics]
        exact eligible
  | published _ _ published => exact counted (congrArg (·.prefixMetrics) published.rest)
  | republished _ _ same => rwa [same]
  | appended _ appended =>
      cases appended with
      | grown _ _ grown => exact counted (congrArg (·.prefixMetrics) grown.result)
      | extended _ _ extended => exact counted extended.metrics
  | released released => exact counted (congrArg (·.prefixMetrics) released.rest)
  | evicted _ evicted => exact counted evicted.metrics

namespace Passes

theorem metered (passes : Passes manager events next) (sound : manager.Sound)
    (metered : manager.Metered) : next.Metered :=
  passes.preserves Metered sound metered fun _ sound effect _ metered =>
    effect.metered sound metered

theorem peak_le (passes : Passes manager events next) (sound : manager.Sound) :
    manager.peakAllocatedBlockCount ≤ next.peakAllocatedBlockCount :=
  passes.preserves (fun state => manager.peakAllocatedBlockCount ≤ state.peakAllocatedBlockCount)
    sound le_rfl fun _ _ effect _ below => below.trans effect.peak_le

theorem metrics_eq (passes : Passes manager events next) (sound : manager.Sound)
    (unmetered : ∀ event ∈ events, event.Unmetered) :
    next.prefixMetrics = manager.prefixMetrics :=
  passes.preserves (fun state => state.prefixMetrics = manager.prefixMetrics) sound rfl
    fun member _ effect _ same => (effect.metrics_eq (unmetered _ member)).trans same

theorem peak_eq (passes : Passes manager events next) (sound : manager.Sound)
    (unmetered : ∀ event ∈ events, event.Unmetered) :
    next.peakAllocatedBlockCount = manager.peakAllocatedBlockCount :=
  passes.preserves (fun state => state.peakAllocatedBlockCount = manager.peakAllocatedBlockCount)
    sound rfl fun member _ effect _ same => (effect.peak_eq (unmetered _ member)).trans same

end Passes

end KVCacheManager

end LlmLab.Serving
