import LlmLab.Serving.KVCache.Failures

/-!
# Protected blocks

`allocate_prompt_with_prefix` picks its victims among the cached blocks that are neither matched
nor protected, and hands them to the exact form, which picks them again among all the unmatched
ones.  The two agree exactly when the first victims of the exact form are unprotected.
-/

namespace LlmLab.Serving

open KVCacheManager AllocatingCall

namespace KVCacheManager

variable {manager next : KVCacheManager} {id : RequestId} {tokens : List Token}
  {protectedBlocks : OrdSet Nat}

/-- The call with the lookup of the current state. -/
def currentCall (manager : KVCacheManager) (id : RequestId) (tokens : List Token)
    (protectedBlocks : OrdSet Nat) : AllocatingCall :=
  .allocatePromptWithPrefix id tokens (manager.currentLookup tokens) protectedBlocks

/-- The blocks the call lacks. -/
def shortage (manager : KVCacheManager) (tokens : List Token) : Nat :=
  manager.config.demand (tokens.length - (manager.currentLookup tokens).matchedTokenCount) -
    manager.freeBlocks.size

/-- The first blocks of the eviction order that are neither matched nor protected, as many as the
call lacks. -/
def unprotectedVictims (manager : KVCacheManager) (tokens : List Token)
    (protectedBlocks : OrdSet Nat) : List Nat :=
  (manager.eligibleEvictionOrder.filter fun x =>
    ¬ (x ∈ protectedBlocks ∨ x ∈ (manager.currentLookup tokens).physicalBlockIds)).take
      (manager.shortage tokens)

/-- The first unmatched blocks of the eviction order, as many as the call lacks. -/
def unmatchedVictims (manager : KVCacheManager) (tokens : List Token) : List Nat :=
  (manager.evictableOutside (manager.currentLookup tokens).physicalBlockIds).take
    (manager.shortage tokens)

/-- The protected blocks are honoured: a call that has the blocks succeeds and evicts exactly the
first unprotected, unmatched ones, as many as it lacks; any other throws `KVCapacityError`. -/
structure Honoured (manager : KVCacheManager) (id : RequestId) (tokens : List Token)
    (protectedBlocks : OrdSet Nat) : Prop where
  served : ¬ (manager.currentCall id tokens protectedBlocks).Exceeds manager →
    ∃ next, manager.apply (manager.currentCall id tokens protectedBlocks).op = (.ok (), next) ∧
      (∀ x, History.Evicts manager next x ↔
        x ∈ manager.unprotectedVictims tokens protectedBlocks) ∧
      (∀ x ∈ protectedBlocks, ¬ History.Evicts manager next x) ∧
      next.prefixMetrics.evictionCount =
        manager.prefixMetrics.evictionCount + manager.shortage tokens
  refused : (manager.currentCall id tokens protectedBlocks).Exceeds manager →
    ∃ error, error.IsCapacity ∧
      (manager.apply (manager.currentCall id tokens protectedBlocks).op).1 = .error error

/-- The first unmatched blocks, as many as the call lacks, are unprotected, and their eviction
passes the closing check. -/
def Unguarded (manager : KVCacheManager) (tokens : List Token) (protectedBlocks : OrdSet Nat) :
    Prop :=
  ∀ x ∈ manager.unmatchedVictims tokens, x ∉ protectedBlocks ∧ ¬ manager.Pinned x

/-- A success evicts the first unmatched blocks, and none of them is pinned. -/
theorem Effect.unmatched (effect : Effect manager next (.exactPrompt id tokens))
    (sound : manager.Sound) (after : next.Sound) :
    (∀ x, History.Evicts manager next x ↔ x ∈ manager.unmatchedVictims tokens) ∧
      (∀ x ∈ manager.unmatchedVictims tokens, ¬ manager.Pinned x) ∧
      next.prefixMetrics.evictionCount =
        manager.prefixMetrics.evictionCount + manager.shortage tokens := by
  cases effect with
  | @exactPrompt _ _ _ actual evictionIds _ plan _ served metrics =>
      have current := currentLookup_eq plan.current
      have victims : manager.unmatchedVictims tokens = evictionIds := by
        unfold unmatchedVictims shortage
        rw [current, plan.victims]
      have keys : ∀ x, (next.block x).prefixKey =
          if x ∈ evictionIds then none else (manager.block x).prefixKey :=
        served.effect.key served.serves sound
      rw [victims]
      refine ⟨fun x => ⟨fun evicted => ?_, fun victim => ?_⟩, served.valid.mp after.valid, ?_⟩
      · by_contra kept
        have key := keys x
        rw [if_neg kept, evicted.2] at key
        exact sound.cached evicted.1 key.symm
      · exact ⟨(served.serves.victim sound victim).1, (keys x).trans (if_pos victim)⟩
      · rw [metrics]
        change _ + evictionIds.length = _
        have enough := plan.enough
        rw [plan.victims, List.length_take, Nat.min_eq_left enough]
        unfold shortage
        rw [current]

/-- Where the first victims are unguarded, protecting the others changes nothing. -/
theorem Unguarded.victims (unguarded : manager.Unguarded tokens protectedBlocks) :
    manager.unprotectedVictims tokens protectedBlocks = manager.unmatchedVictims tokens := by
  have both : (manager.eligibleEvictionOrder.filter fun x =>
      ¬ (x ∈ protectedBlocks ∨ x ∈ (manager.currentLookup tokens).physicalBlockIds)) =
      (manager.evictableOutside (manager.currentLookup tokens).physicalBlockIds).filter
        fun x => x ∉ protectedBlocks := by
    unfold evictableOutside
    rw [List.filter_filter]
    refine List.filter_congr fun x _ => ?_
    by_cases guarded : x ∈ protectedBlocks <;> simp [guarded]
  unfold unprotectedVictims unmatchedVictims
  rw [both]
  exact take_filter fun x member => decide_eq_true (unguarded x member).1

/-- Unless a counter overflows, the current lookup exists. -/
theorem current_lookup (sound : manager.Sound) (enabled : manager.prefixConfig.enabled = true)
    (quiet : (manager.currentCall id tokens protectedBlocks).Quiet manager) :
    ∃ actual, manager.findLongestCachedPrefix tokens = .ok actual ∧
      manager.LookupSpec tokens manager.prefixConfig.modelNamespace
        manager.prefixConfig.cacheSalt actual := by
  have finds := @findLongestCachedPrefixIn_ensures manager tokens
    manager.prefixConfig.modelNamespace manager.prefixConfig.cacheSalt sound.valid enabled
  cases current : manager.findLongestCachedPrefix tokens with
  | error error =>
      have raised : (manager.apply (manager.currentCall id tokens protectedBlocks).op).1 =
          .error error := by
        change (manager.allocatePromptWithPrefix id tokens _ protectedBlocks).1 = _
        unfold KVCacheManager.allocatePromptWithPrefix
        rw [if_neg (by simp [validateInvariants_iff.mpr sound.valid]), current]
      exact absurd (finds.of_eq_error current) (quiet error raised)
  | ok actual => exact ⟨actual, rfl, (finds.of_eq_ok current).1⟩

/-- With the blocks there and the first victims unguarded, only an overflow stops the call. -/
theorem Unguarded.succeeds (unguarded : manager.Unguarded tokens protectedBlocks)
    (sound : manager.Sound) (enabled : manager.prefixConfig.enabled = true)
    (unknown : manager.blockTables.find? id = none)
    (free : manager.CollisionFree (manager.inScope {tokens}))
    (enough : ¬ (manager.currentCall id tokens protectedBlocks).Exceeds manager)
    (quiet : (manager.currentCall id tokens protectedBlocks).Quiet manager) :
    (manager.apply (manager.currentCall id tokens protectedBlocks).op).1 = .ok () := by
  obtain ⟨actual, current, spec⟩ := current_lookup sound enabled quiet
  have same := currentLookup_eq current
  have exceeds := @exceeds_iff _ sound id tokens (manager.currentLookup tokens) actual
    protectedBlocks current
  have victims := unguarded.victims
  unfold Unguarded at unguarded
  unfold unprotectedVictims unmatchedVictims shortage at victims
  unfold unmatchedVictims shortage at unguarded
  have result : manager.apply (manager.currentCall id tokens protectedBlocks).op =
      manager.allocatePromptWithPrefix id tokens (manager.currentLookup tokens) protectedBlocks := rfl
  rw [allocatePromptWithPrefix_eq sound current (by rw [same]) (by rw [same]) quiet,
    if_neg (exceeds.not.mp enough)] at result
  unfold AllocatingCall.Quiet at quiet
  rw [result] at quiet ⊢
  rw [same] at quiet victims unguarded ⊢
  rw [victims] at quiet ⊢
  exact commit_ok (allocatePromptWithPrefixExact_ensures sound)
    ⟨⟨actual, unknown, enabled, current, spec.distinct free (mem_inScope rfl), rfl, rfl, rfl,
      (not_lt.mp (exceeds.not.mp enough)).trans (length_unprotected_le protectedBlocks _), rfl,
      rfl⟩, fun x member => (unguarded x member).2⟩ quiet

/-- In every reachable state of an enabled cache, without collisions or overflows, a fresh request
with the current lookup honours the protected blocks exactly when it lacks blocks or the first
unmatched victims are all unprotected and unpinned. -/
theorem reach_honoured_iff (config : KVCacheConfig) (prefixConfig : PrefixCacheConfig)
    (enabled : prefixConfig.enabled = true) (hashFunction : PrefixHashFunction) (ops : List KVOp)
    (id : RequestId) (tokens : List Token) (protectedBlocks : OrdSet Nat)
    (unknown : (reach config prefixConfig hashFunction ops).blockTables.find? id = none)
    (free : (reach config prefixConfig hashFunction ops).CollisionFree
      ((reach config prefixConfig hashFunction ops).inScope {tokens}))
    (quiet : ((reach config prefixConfig hashFunction ops).currentCall id tokens
      protectedBlocks).Quiet (reach config prefixConfig hashFunction ops)) :
    let manager := reach config prefixConfig hashFunction ops
    manager.Honoured id tokens protectedBlocks ↔
      (manager.currentCall id tokens protectedBlocks).Exceeds manager ∨
        manager.Unguarded tokens protectedBlocks := by
  obtain ⟨sound, setup⟩ := @reach_sound config prefixConfig hashFunction ops
  have isEnabled : (reach config prefixConfig hashFunction ops).prefixConfig.enabled = true := by
    rw [setup.prefixConfig]
    exact enabled
  generalize reach config prefixConfig hashFunction ops = manager at *
  dsimp only
  -- What any success of the call evicts.
  have evicts : (manager.apply (manager.currentCall id tokens protectedBlocks).op).1 = .ok () →
      _ := fun success => (Effect.of_apply sound success).unmatched sound (next_sound sound _)
  constructor
  · intro honoured
    by_cases exceeds : (manager.currentCall id tokens protectedBlocks).Exceeds manager
    · exact Or.inl exceeds
    obtain ⟨next, result, exactly, unharmed, -⟩ := honoured.served exceeds
    rw [result] at evicts
    obtain ⟨unmatched, unpinned, -⟩ := evicts rfl
    refine Or.inr fun x member => ⟨fun guarded => ?_, unpinned x member⟩
    exact unharmed x guarded ((unmatched x).mpr member)
  · intro condition
    refine ⟨fun enough => ?_, fun exceeds => ?_⟩
    · have unguarded := condition.resolve_left enough
      have success := unguarded.succeeds sound isEnabled unknown free enough quiet
      obtain ⟨unmatched, -, count⟩ := evicts success
      refine ⟨_, Prod.ext success rfl, fun x => ?_, fun x guarded evicted => ?_, count⟩
      · rw [unguarded.victims]
        exact unmatched x
      · exact (unguarded x ((unmatched x).mp evicted)).1 guarded
    · obtain ⟨actual, current, -⟩ := current_lookup sound isEnabled quiet
      have same := currentLookup_eq current
      have checked : (manager.currentCall id tokens protectedBlocks).Checked manager :=
        ⟨actual, current, by rw [same], by rw [same]⟩
      obtain ⟨error, capacity, result⟩ :=
        (allocatePromptWithPrefix_judged sound quiet).counted checked exceeds
      exact ⟨error, capacity, congrArg Prod.fst result⟩

/-- Two blocks of one token, both cached: block 0 was published first. -/
def cachedPair : KVCacheManager :=
  reach (.small 2 1) { enabled := true } stableTokenBlockHash
    [.allocatePromptWithPrefix 1 [7] {} OrdSet.empty, .insertCompletedPromptBlocks 1,
      .releaseRequest 1, .allocatePromptWithPrefix 2 [8] {} OrdSet.empty,
      .insertCompletedPromptBlocks 2, .releaseRequest 2]

/-- The sample manager and its prompt are free of collisions. -/
theorem cachedPair_collisionFree : cachedPair.CollisionFree (cachedPair.inScope {[9]}) := by
  have setup : SameSetup _ cachedPair := (reach_sound _).2
  rw [setup.collisionFree]
  have material : ∀ key ∈ (create (.small 2 1) { enabled := true }
      stableTokenBlockHash).materials (cachedPair.inScope {[9]}),
      key = ⟨prefixCacheRootHash, [9], [], [], 0⟩ := by
    rintro key ⟨ns, salt, tokens, i, ⟨sameNs, sameSalt, member⟩, inside, rfl⟩
    rw [setup.prefixConfig] at sameNs sameSalt
    dsimp only at sameNs sameSalt
    subst sameNs sameSalt
    obtain rfl := Set.mem_singleton_iff.mp member
    obtain rfl : i = 0 := Nat.lt_one_iff.mp inside
    rfl
  refine ⟨fun a first b second _ => (material a first).trans (material b second).symm,
    fun a member => ?_⟩
  rw [material a member]
  decide +kernel

/-- With block 0 protected, a request for one block has block 1 to evict, and fails. -/
theorem protection_refused :
    cachedPair.blockTables.find? 3 = none ∧
      cachedPair.CollisionFree (cachedPair.inScope {[9]}) ∧
      (cachedPair.currentCall 3 [9] (OrdSet.empty.insert 0)).Quiet cachedPair ∧
      (cachedPair.apply (cachedPair.currentCall 3 [9] (OrdSet.empty.insert 0)).op).1 =
        .error (.logicError "planned prefix eviction IDs differ from actual IDs") ∧
      ¬ cachedPair.Honoured 3 [9] (OrdSet.empty.insert 0) := by
  have answer : (cachedPair.apply (cachedPair.currentCall 3 [9] (OrdSet.empty.insert 0)).op).1 =
      .error (.logicError "planned prefix eviction IDs differ from actual IDs") := by decide +kernel
  have enough : ¬ (cachedPair.currentCall 3 [9] (OrdSet.empty.insert 0)).Exceeds cachedPair := by
    unfold Exceeds
    decide +kernel
  refine ⟨by decide +kernel, cachedPair_collisionFree, fun error raised => ?_, answer,
    fun honoured => ?_⟩
  · rw [answer] at raised
    cases raised
    exact not_false
  · obtain ⟨next, result, -⟩ := honoured.served enough
    rw [result] at answer
    cases answer

/-- With block 1 protected, block 0 is evicted. -/
theorem reach_honoured_second : cachedPair.Honoured 3 [9] (OrdSet.empty.insert 1) ↔
    (cachedPair.currentCall 3 [9] (OrdSet.empty.insert 1)).Exceeds cachedPair ∨
      cachedPair.Unguarded [9] (OrdSet.empty.insert 1) := by
  have success : (cachedPair.apply (cachedPair.currentCall 3 [9] (OrdSet.empty.insert 1)).op).1 =
      .ok () := by decide +kernel
  refine reach_honoured_iff _ _ rfl _ _ 3 [9] (OrdSet.empty.insert 1) (by decide +kernel)
    cachedPair_collisionFree fun error raised => ?_
  have same : (Except.ok () : Except Exn Unit) = .error error := success.symm.trans raised
  cases same

end KVCacheManager

end LlmLab.Serving
