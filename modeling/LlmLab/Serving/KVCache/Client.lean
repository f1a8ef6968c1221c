import LlmLab.Serving.KVCache.Refinement
import LlmLab.Serving.KVCache.Reuse

/-!
# The manager against the reference model

A client runs the six planned operations of an enabled cache, an exact prompt always with the
lookup of the current state.  The manager answers as the reference model does exactly when the
operation evicts no pinned block: the closing check of the sources refuses to evict the block
whose key a published request's private duplicate gave way to.
-/

namespace LlmLab.Serving

open KVCacheManager

namespace KVCacheManager

variable {manager next : KVCacheManager} {shadow : ShadowCache} {id : RequestId}
  {tokens : List Token} {table : List Nat} {op : CacheOp}

/-- The lookup of the current state. -/
def currentLookup (manager : KVCacheManager) (tokens : List Token) : PrefixLookupResult :=
  (manager.findLongestCachedPrefix tokens).toOption.getD {}

end KVCacheManager

namespace CacheOp

/-- The call a client makes: it protects no block. -/
def call (manager : KVCacheManager) : CacheOp → KVOp
  | .allocatePrompt id tokens => .allocatePrompt id tokens
  | .allocatePromptWithPrefix id tokens =>
      .allocatePromptWithPrefix id tokens (manager.currentLookup tokens) OrdSet.empty
  | .insertCompletedPromptBlocks id => .insertCompletedPromptBlocks id
  | .appendDecodeToken id => .appendDecodeToken id
  | .releaseRequest id => .releaseRequest id
  | .evictUnusedBlocks count => .evictUnusedBlocks count

/-- What each operation asks of the request and of the capacity. -/
def Fits (manager : KVCacheManager) : CacheOp → Prop
  | .allocatePrompt id tokens => manager.blockTables.find? id = none ∧
      manager.config.demand tokens ≤ manager.freeBlocks.size + manager.cachedBlockCount
  | .allocatePromptWithPrefix id tokens => manager.blockTables.find? id = none ∧
      manager.config.demand (tokens.length - (manager.currentLookup tokens).matchedTokenCount) ≤
        manager.freeBlocks.size + (manager.cachedIds.filter fun x =>
          x ∉ (manager.currentLookup tokens).physicalBlockIds).length
  | .insertCompletedPromptBlocks id => ∃ table p tokens, manager.PublishPlan id table p tokens
  | .appendDecodeToken id => ∃ table, manager.blockTables.find? id = some table ∧
      (manager.NeedsBlock table → 1 ≤ manager.freeBlocks.size + manager.cachedBlockCount)
  | .releaseRequest id => ∃ table, manager.blockTables.find? id = some table
  | .evictUnusedBlocks count => count ≤ manager.cachedBlockCount

/-- The blocks an operation evicts: the first ones of the LRU order that make up for the free
blocks it lacks. -/
def victims (manager : KVCacheManager) : CacheOp → List Nat
  | .allocatePrompt _ tokens => manager.eligibleEvictionOrder.take
      (manager.config.demand tokens - manager.freeBlocks.size)
  | .allocatePromptWithPrefix _ tokens =>
      let lookup := manager.currentLookup tokens
      (manager.evictableOutside lookup.physicalBlockIds).take
        (manager.config.demand (tokens.length - lookup.matchedTokenCount) -
          manager.freeBlocks.size)
  | .appendDecodeToken id =>
      if manager.decodeRequiresNewBlock id = .ok true then manager.decodeVictims else []
  | .evictUnusedBlocks count => manager.eligibleEvictionOrder.take count
  | .insertCompletedPromptBlocks _ | .releaseRequest _ => []

/-- What the operation does to the requests. -/
def event : CacheOp → KVEvent
  | .allocatePrompt id tokens => .countPrompt id tokens
  | .allocatePromptWithPrefix id tokens => .exactPrompt id tokens
  | .insertCompletedPromptBlocks id => .publish id
  | .appendDecodeToken id => .append id
  | .releaseRequest id => .release id
  | .evictUnusedBlocks count => .evict count

theorem call_event (manager : KVCacheManager) (op : CacheOp) : (op.call manager).event = op.event := by
  cases op <;> rfl

/-- An operation that the capacity allows evicts no pinned block. -/
def Spares (manager : KVCacheManager) (op : CacheOp) : Prop :=
  op.Fits manager → manager.Unpinned (op.victims manager)

/-- The operation succeeds. -/
def Succeeds (manager : KVCacheManager) (op : CacheOp) : Prop :=
  (manager.apply (op.call manager)).1 = .ok ()

/-- No checked counter overflows. -/
def Quiet (manager : KVCacheManager) (op : CacheOp) : Prop :=
  ∀ error, (manager.apply (op.call manager)).1 = .error error → ¬ error.IsOverflow

end CacheOp

namespace KVCacheManager

variable {manager next : KVCacheManager} {shadow : ShadowCache} {id : RequestId}
  {tokens : List Token} {table : List Nat} {op : CacheOp}

/-- A planned commit only fails by an overflow. -/
theorem commit_ok {copy : Except Exn KVCacheManager} {plan : Prop} {post : KVCacheManager → Prop}
    (safe : Ensures (Refuses plan) post copy) (planned : plan)
    (quiet : ∀ error, (manager.commit copy).1 = .error error → ¬ error.IsOverflow) :
    (manager.commit copy).1 = .ok () := by
  cases copy with
  | error error => exact absurd (safe.resolve_right (not_not.mpr planned)) (quiet error rfl)
  | ok next => rfl

theorem length_evictableOutside (sound : manager.Sound) (kept : List Nat) :
    (manager.evictableOutside kept).length = (manager.cachedIds.filter fun x => x ∉ kept).length :=
  ((eligibleEvictionOrder_perm sound.blockIds).filter _).length_eq

/-! ## Success -/

theorem currentLookup_eq {actual : PrefixLookupResult}
    (current : manager.findLongestCachedPrefix tokens = .ok actual) :
    manager.currentLookup tokens = actual := by
  rw [currentLookup, current]
  rfl

theorem decodeRequiresNewBlock_iff (sound : manager.Sound)
    (found : manager.blockTables.find? id = some table) :
    manager.decodeRequiresNewBlock id = .ok true ↔ manager.NeedsBlock table := by
  obtain ⟨newBlock, decided, needs⟩ := decodeRequiresNewBlock_eq sound found
  rw [decided, ← needs, Except.ok.injEq]

/-- A success had the capacity, and no victim was pinned. -/
theorem Effect.fits (effect : Effect manager next op.event) (sound : manager.Sound)
    (after : next.Sound) : op.Fits manager ∧ manager.Unpinned (op.victims manager) := by
  have cached := length_eligibleEvictionOrder sound.blockIds
  cases op with
  | allocatePrompt id count =>
      cases effect with
      | countPrompt plan served =>
          have enough := plan.enough
          have unpinned := served.valid.mp after.valid
          dsimp only [countGrant] at unpinned
          rw [plan.victims] at unpinned
          refine ⟨⟨plan.unknown, ?_⟩, unpinned⟩
          omega
  | allocatePromptWithPrefix id tokens =>
      cases effect with
      | exactPrompt plan lookup served =>
          have current := currentLookup_eq plan.current
          have enough := plan.enough
          have unpinned := served.valid.mp after.valid
          dsimp only [prefixGrant] at unpinned
          rw [plan.victims] at unpinned
          unfold CacheOp.Fits CacheOp.victims
          dsimp only
          rw [current, ← length_evictableOutside sound]
          refine ⟨⟨plan.unknown, ?_⟩, unpinned⟩
          omega
  | insertCompletedPromptBlocks id =>
      refine ⟨?_, fun x member => by cases member⟩
      cases effect with
      | published plan => exact ⟨_, _, _, plan⟩
      | republished plan => exact ⟨_, _, _, plan⟩
  | appendDecodeToken id =>
      cases effect with
      | @appended _ table evictionIds allocationId plan effect =>
          have unpinned := (effect.valid_iff sound).mp after.valid
          refine ⟨⟨table, plan.found, fun needs => ?_⟩, ?_⟩
          · rcases (plan.fresh needs).1 with free | some'
            · omega
            · have := List.length_pos_of_ne_nil some'
              omega
          · change manager.Unpinned
              (if manager.decodeRequiresNewBlock id = .ok true then manager.decodeVictims else [])
            split
            · next needs =>
                rw [decodeRequiresNewBlock_iff sound plan.found] at needs
                rw [← (plan.fresh needs).2.1]
                exact unpinned
            · exact fun x member => by cases member
  | releaseRequest id =>
      refine ⟨?_, fun x member => by cases member⟩
      cases effect with
      | released effect => exact ⟨_, effect.found⟩
  | evictUnusedBlocks count =>
      cases effect with
      | evicted enough effect =>
          rw [cached] at enough
          refine ⟨enough, ?_⟩
          have consistent : next.Consistent manager.blockTables := effect.tables ▸ after.consistent
          exact (effect.valid_iff sound consistent fun x member =>
            (mem_eligibleEvictionOrder sound.blockIds).mp (List.mem_of_mem_take member)).mp
              after.valid

/-- Unless a counter overflows, the current lookup exists. -/
theorem quiet_lookup (sound : manager.Sound) (enabled : manager.prefixConfig.enabled = true)
    (quiet : (CacheOp.allocatePromptWithPrefix id tokens).Quiet manager) :
    ∃ actual, manager.findLongestCachedPrefix tokens = .ok actual ∧
      manager.LookupSpec tokens manager.prefixConfig.modelNamespace
        manager.prefixConfig.cacheSalt actual := by
  have finds := @findLongestCachedPrefixIn_ensures manager tokens
    manager.prefixConfig.modelNamespace manager.prefixConfig.cacheSalt sound.valid enabled
  unfold CacheOp.Quiet at quiet
  simp only [CacheOp.call, apply, allocatePromptWithPrefix] at quiet
  rw [if_neg (by simp [validateInvariants_iff.mpr sound.valid])] at quiet
  cases current : manager.findLongestCachedPrefix tokens with
  | error error =>
      rw [current] at quiet
      exact absurd (finds.of_eq_error current) (quiet error rfl)
  | ok actual => exact ⟨actual, rfl, (finds.of_eq_ok current).1⟩

/-- With the capacity there and no victim pinned, only an overflow stops an operation. -/
theorem succeeds_of_fits (sound : manager.Sound) (enabled : manager.prefixConfig.enabled = true)
    (material : OfMaterial manager.hashFunction) (fits : op.Fits manager)
    (unpinned : manager.Unpinned (op.victims manager)) (quiet : op.Quiet manager)
    (free : ∀ id tokens, op = .allocatePromptWithPrefix id tokens →
      manager.CollisionFree (manager.inScope {tokens})) : op.Succeeds manager := by
  have cached := length_eligibleEvictionOrder sound.blockIds
  have valid : ¬ manager.validateInvariants = false := by
    simp [validateInvariants_iff.mpr sound.valid]
  unfold CacheOp.Succeeds
  unfold CacheOp.Quiet at quiet
  cases op with
  | allocatePrompt id count =>
      obtain ⟨unknown, fits⟩ := fits
      simp only [CacheOp.call, apply, allocatePrompt] at quiet ⊢
      rw [if_neg valid, if_neg (by simp [OrdMap.contains_eq_false_iff.mpr unknown])] at quiet ⊢
      have demand := @KVCacheConfig.blocksRequired_ensures manager.config count
      cases counted : manager.config.blocksRequired count with
      | error error =>
          rw [counted] at quiet demand
          exact absurd demand (quiet error rfl)
      | ok required =>
          rw [counted] at quiet demand
          obtain rfl : required = manager.config.demand count := demand
          dsimp only at quiet ⊢
          rw [enabled, if_pos rfl, if_neg (by omega)] at quiet ⊢
          exact commit_ok (allocatePromptExact_ensures sound)
            ⟨⟨unknown, by omega, rfl, rfl⟩, unpinned⟩ quiet
  | allocatePromptWithPrefix id tokens =>
      obtain ⟨unknown, fits⟩ := fits
      obtain ⟨actual, current, spec⟩ := quiet_lookup sound enabled quiet
      simp only [CacheOp.victims] at unpinned
      simp only [CacheOp.call, apply, allocatePromptWithPrefix] at quiet ⊢
      rw [if_neg valid, current] at quiet ⊢
      rw [currentLookup_eq current] at fits quiet unpinned ⊢
      rw [← length_evictableOutside sound] at fits
      dsimp only at quiet ⊢
      rw [if_neg (by simp)] at quiet ⊢
      have demand := @KVCacheConfig.blocksRequired_ensures manager.config
        (tokens.length - actual.matchedTokenCount)
      have outside : (manager.eligibleEvictionOrder.filter fun x =>
          ¬ (x ∈ (OrdSet.empty : OrdSet Nat) ∨ x ∈ actual.physicalBlockIds)) =
          manager.evictableOutside actual.physicalBlockIds := by
        simp [evictableOutside]
      cases counted : manager.config.blocksRequired
          (tokens.length - actual.matchedTokenCount) with
      | error error =>
          rw [counted] at quiet demand
          exact absurd demand (quiet error rfl)
      | ok required =>
          rw [counted] at quiet demand
          obtain rfl : required = manager.config.demand _ := demand
          dsimp only at quiet ⊢
          rw [outside, if_neg (by omega)] at quiet ⊢
          exact commit_ok (allocatePromptWithPrefixExact_ensures sound) ⟨⟨actual, unknown,
            enabled, current, spec.distinct (free id tokens rfl) (mem_inScope rfl), rfl, rfl, rfl,
            by omega, rfl, rfl⟩, unpinned⟩ quiet
  | insertCompletedPromptBlocks id =>
      exact commit_ok (insertCompletedPromptBlocks_ensures sound) ⟨material, fits⟩ quiet
  | appendDecodeToken id =>
      obtain ⟨table, found, fits⟩ := fits
      obtain ⟨newBlock, decided, needs⟩ := decodeRequiresNewBlock_eq sound found
      simp only [CacheOp.victims, decided, Except.ok.injEq] at unpinned
      simp only [CacheOp.call, apply, appendDecodeToken] at quiet ⊢
      rw [if_neg valid, if_neg (by simp [OrdMap.contains_iff.mpr ⟨table, found⟩])] at quiet ⊢
      by_cases full : manager.representedTokenCount = uint64Max
      · rw [if_pos full] at quiet
        exact absurd trivial (quiet _ rfl)
      rw [if_neg full] at quiet ⊢
      have epochs : Ensures Exn.IsOverflow _ manager.nextAccessEpoch := inc_ensures _ _
      cases epoch : manager.nextAccessEpoch with
      | error error =>
          rw [epoch] at quiet epochs
          exact absurd epochs (quiet error rfl)
      | ok next =>
          rw [epoch, decided] at quiet
          rw [decided]
          dsimp only at quiet ⊢
          cases newBlock with
          | false =>
              exact commit_ok (appendDecodeTokenExact_ensures sound) ⟨⟨table, found,
                fun need => absurd (needs.mpr need) (by simp), fun _ => ⟨rfl, rfl⟩⟩,
                fun x member => by cases member⟩ quiet
          | true =>
              have room := fits (needs.mp rfl)
              have some' : ¬ (manager.freeBlocks.size = 0 ∧ manager.eligibleEvictionOrder = []) := by
                rintro ⟨noFree, noCached⟩
                rw [noCached, List.length_nil] at cached
                omega
              simp only [decodePlan, if_true] at quiet ⊢
              rw [if_neg some'] at quiet ⊢
              exact commit_ok (appendDecodeTokenExact_ensures sound) ⟨⟨table, found,
                fun _ => ⟨by tauto, rfl, rfl⟩, fun stays => absurd (needs.mp rfl) stays⟩,
                unpinned⟩ quiet
  | releaseRequest id => exact commit_ok (releaseRequest_ensures sound) fits quiet
  | evictUnusedBlocks count =>
      have fits : count ≤ manager.cachedBlockCount := fits
      rw [← cached] at fits
      simp only [CacheOp.call, apply, evictUnusedBlocks] at quiet ⊢
      rw [if_neg valid] at quiet ⊢
      have safe := @evictUnusedBlocksInPlace_ensures manager sound count
      cases result : manager.evictUnusedBlocksInPlace count with
      | error error =>
          rw [result] at quiet
          exact absurd ((safe.of_eq_error result).resolve_right (not_not.mpr ⟨fits, unpinned⟩))
            (quiet error rfl)
      | ok pair => rfl

/-! ## The reference step -/

/-- A successful operation is the step of the shadow. -/
theorem Effect.refines (effect : Effect manager next op.event) (sound : manager.Sound)
    (material : OfMaterial manager.hashFunction) (represents : manager.Represents shadow) :
    ∃ after, shadow.step op = some after ∧ next.Represents after := by
  cases op with
  | allocatePrompt id count =>
      cases effect with
      | countPrompt plan served => exact represents.allocateCount sound plan served
  | allocatePromptWithPrefix id tokens =>
      cases effect with
      | exactPrompt plan lookup served => exact represents.acquire sound plan lookup served
  | insertCompletedPromptBlocks id =>
      cases effect with
      | published plan notYet effect =>
          refine represents.publish sound material plan ?_
          rwa [if_neg (by simp [notYet])]
      | republished plan completed same =>
          refine represents.publish sound material plan ?_
          rwa [if_pos completed]
  | appendDecodeToken id =>
      cases effect with
      | appended plan effect =>
          cases effect with
          | grown stays _ grown => exact represents.grow sound stays grown
          | @extended table y needs block extended =>
              have same := plan.found
              rw [extended.found, Option.some.injEq] at same
              subst same
              obtain ⟨some', victims, head⟩ := plan.fresh needs
              rw [victims] at extended head
              rw [block] at head
              refine represents.extend sound needs (represents.reserve_decode sound some' head.symm)
                ?_ extended
              rw [decodeVictims_eq_take]
              exact (eligibleEvictionOrder_nodup sound.blockIds).sublist (List.take_sublist _ _)
  | releaseRequest id =>
      cases effect with
      | released effect => exact represents.release sound effect
  | evictUnusedBlocks count =>
      cases effect with
      | evicted enough effect =>
          refine ⟨shadow.evictIds (manager.eligibleEvictionOrder.take count), ?_,
            represents.evict sound (fun x member => (mem_eligibleEvictionOrder sound.blockIds).mp
              (List.mem_of_mem_take member)) effect⟩
          simp only [ShadowCache.step, ShadowCache.evictUnused]
          rw [represents.lru_eq sound, if_neg (not_lt.mpr enough)]

/-- The shadow refuses what does not fit. -/
theorem Represents.fits_of_step (represents : manager.Represents shadow) (sound : manager.Sound)
    (enabled : manager.prefixConfig.enabled = true) (quiet : op.Quiet manager) {after : ShadowCache}
    (step : shadow.step op = some after) : op.Fits manager := by
  have cached := length_eligibleEvictionOrder sound.blockIds
  cases op with
  | allocatePrompt id count =>
      simp only [ShadowCache.step, ShadowCache.allocateCount] at step
      split at step
      · cases step
      · next unknown =>
          rw [represents.tables, Option.not_isSome_iff_eq_none] at unknown
          rw [represents.required_eq, represents.reserve_eq sound, evictableOutside_nil] at step
          split at step
          · cases step
          · next enough =>
              split at enough
              · cases enough
              · next room => exact ⟨unknown, by omega⟩
  | allocatePromptWithPrefix id tokens =>
      obtain ⟨actual, current, spec⟩ := quiet_lookup sound enabled quiet
      simp only [ShadowCache.step, ShadowCache.acquire] at step
      split at step
      · cases step
      · next unknown =>
          rw [represents.tables, Option.not_isSome_iff_eq_none] at unknown
          rw [represents.lookup_eq enabled spec, represents.required_eq,
            represents.configured.blockSize, ← spec.matchedTokens,
            represents.reserve_eq sound] at step
          simp only [CacheOp.Fits]
          rw [currentLookup_eq current, ← length_evictableOutside sound]
          split at step
          · cases step
          · next enough =>
              split at enough
              · cases enough
              · next room => exact ⟨unknown, by omega⟩
  | insertCompletedPromptBlocks id =>
      simp only [ShadowCache.step, ShadowCache.publish] at step
      split at step
      · next table p found recorded =>
          rw [represents.tables] at found
          rw [represents.provenance] at recorded
          split at step
          · cases step
          · next tokens exact =>
              split at step
              · cases step
              · next eligible =>
                  push Not at eligible
                  exact ⟨table, p, tokens, found, recorded, exact, enabled, eligible.2.2⟩
      · cases step
  | appendDecodeToken id =>
      simp only [ShadowCache.step, ShadowCache.append] at step
      split at step
      · cases step
      · next table found =>
          rw [represents.tables] at found
          refine ⟨table, found, fun needs => ?_⟩
          rw [if_pos (represents.needsBlock_iff.mpr needs), represents.reserve_eq sound,
            evictableOutside_nil] at step
          by_contra none
          rw [if_pos (by omega)] at step
          cases step
  | releaseRequest id =>
      simp only [ShadowCache.step, ShadowCache.release] at step
      split at step
      · cases step
      · next table found => exact ⟨table, by rw [← represents.tables, found]⟩
  | evictUnusedBlocks count =>
      simp only [ShadowCache.step, ShadowCache.evictUnused] at step
      rw [represents.lru_eq sound, cached] at step
      split at step
      · cases step
      · next enough => exact not_lt.mp enough

/-! ## Runs of a client -/

/-- The manager as its clients use it. -/
def clientMachine : Machine KVCacheManager CacheOp (Except Exn Unit) :=
  ⟨fun manager op => manager.apply (op.call manager)⟩

/-- The shadow after a list of operations; what it refuses changes nothing. -/
def shadowRun (shadow : ShadowCache) (ops : List CacheOp) : ShadowCache :=
  ops.foldl (fun shadow op => (shadow.step op).getD shadow) shadow

/-- The exact prompts that a list of operations offers. -/
def offered (ops : List CacheOp) : Set (List Token) :=
  { tokens | ∃ id, .allocatePromptWithPrefix id tokens ∈ ops }

/-- The manager answers an operation as the reference model does: it succeeds when the capacity is
there, when the shadow takes a step, and then the shadow describes the result. -/
structure Answers (manager : KVCacheManager) (shadow : ShadowCache) (op : CacheOp) : Prop where
  fits : op.Succeeds manager ↔ op.Fits manager
  steps : op.Succeeds manager ↔ (shadow.step op).isSome
  result : ∀ after, shadow.step op = some after →
    (clientMachine.next manager op).Represents after

/-- An operation answers as the reference does exactly when it spares the cache. -/
theorem Represents.answers_iff (represents : manager.Represents shadow) (sound : manager.Sound)
    (enabled : manager.prefixConfig.enabled = true) (material : OfMaterial manager.hashFunction)
    (quiet : op.Quiet manager) (free : ∀ id tokens, op = .allocatePromptWithPrefix id tokens →
      manager.CollisionFree (manager.inScope {tokens})) :
    manager.Answers shadow op ↔ op.Spares manager := by
  have success : op.Succeeds manager → op.Fits manager ∧
      manager.Unpinned (op.victims manager) ∧ ∃ after, shadow.step op = some after ∧
        (clientMachine.next manager op).Represents after := fun succeeds => by
    have effect := Effect.of_apply sound succeeds
    rw [CacheOp.call_event] at effect
    obtain ⟨fits, unpinned⟩ := effect.fits sound (next_sound sound (op.call manager))
    exact ⟨fits, unpinned, effect.refines sound material represents⟩
  constructor
  · exact fun answers fits => (success (answers.fits.mpr fits)).2.1
  · intro spares
    have converse : op.Fits manager → op.Succeeds manager := fun fits =>
      succeeds_of_fits sound enabled material fits (spares fits) quiet free
    refine ⟨⟨fun succeeds => (success succeeds).1, converse⟩, ⟨fun succeeds => ?_, fun steps => ?_⟩,
      fun after step => ?_⟩
    · obtain ⟨-, -, after, step, -⟩ := success succeeds
      rw [step]
      rfl
    · obtain ⟨after, step⟩ := Option.isSome_iff_exists.mp steps
      exact converse (represents.fits_of_step sound enabled quiet step)
    · have succeeds := converse (represents.fits_of_step sound enabled quiet step)
      obtain ⟨-, -, after', step', represents'⟩ := success succeeds
      rw [step, Option.some.injEq] at step'
      rwa [step']

/-- A refused operation leaves a manager that the same shadow describes. -/
theorem Represents.refused (represents : manager.Represents shadow) (sound : manager.Sound)
    (refuses : ¬ op.Succeeds manager) : (clientMachine.next manager op).Represents shadow := by
  have outcome := apply_outcome sound (op.call manager)
  unfold CacheOp.Succeeds at refuses
  change (manager.apply (op.call manager)).2.Represents shadow
  revert refuses
  generalize manager.apply (op.call manager) = result at outcome
  intro refuses
  cases outcome with
  | succeeded => exact absurd rfl refuses
  | failed =>
      obtain ⟨configured, rest⟩ := represents
      exact ⟨⟨configured.count, configured.blockSize, configured.enabledCache, configured.model,
        configured.salt, configured.hash⟩, rest, by assumption, by assumption, by assumption,
        by assumption, by assumption, by assumption⟩

theorem SameSetup.inScope_singleton {other : KVCacheManager} (setup : other.SameSetup manager)
    {prompts : Set (List Token)} (offers : tokens ∈ prompts) :
    manager.inScope {tokens} ⊆ other.inScope prompts := by
  rintro ⟨ns, salt, same⟩ ⟨sameNs, sameSalt, single⟩
  rw [setup.prefixConfig] at sameNs sameSalt
  exact ⟨sameNs, sameSalt, Set.mem_singleton_iff.mp single ▸ offers⟩

/-- A run whose operations all spare the cache keeps representing the reference. -/
theorem clientRun_represents {config : KVCacheConfig} {prefixConfig : PrefixCacheConfig}
    {hash : PrefixHashFunction} (enabled : prefixConfig.enabled = true) (material : OfMaterial hash)
    {prompts : Set (List Token)} (free : (create config prefixConfig hash).CollisionFree
      ((create config prefixConfig hash).inScope prompts)) (ops : List CacheOp)
    (within : offered ops ⊆ prompts) {manager : KVCacheManager} {shadow : ShadowCache}
    (setup : (create config prefixConfig hash).SameSetup manager) (sound : manager.Sound)
    (represents : manager.Represents shadow)
    (along : clientMachine.Along (fun manager op => op.Quiet manager ∧ op.Spares manager)
      manager ops) :
    (clientMachine.run manager ops).Sound ∧
      (create config prefixConfig hash).SameSetup (clientMachine.run manager ops) ∧
      (clientMachine.run manager ops).Represents (shadowRun shadow ops) := by
  induction ops generalizing manager shadow with
  | nil => exact ⟨sound, setup, represents⟩
  | cons op rest ih =>
      obtain ⟨⟨quiet, spares⟩, along⟩ := along
      have answers : manager.Answers shadow op := by
        refine (represents.answers_iff sound (by rw [setup.prefixConfig]; exact enabled)
          (by rw [setup.hashFunction]; exact material) quiet fun id tokens same => ?_).mpr spares
        subst same
        have offers : tokens ∈ prompts := within ⟨id, List.mem_cons_self⟩
        exact (setup.collisionFree.mpr free).mono (setup.inScope_singleton offers)
      refine ih (fun tokens ⟨id, member⟩ => within ⟨id, List.mem_cons_of_mem _ member⟩)
        (setup.trans (next_setup sound (op.call manager))) (next_sound sound (op.call manager)) ?_
        along
      change (clientMachine.next manager op).Represents ((shadow.step op).getD shadow)
      cases step : shadow.step op with
      | none =>
          exact represents.refused sound fun succeeds => by
            have steps := answers.steps.mp succeeds
            rw [step] at steps
            cases steps
      | some after => exact answers.result after step

/-- On every run that evicts no pinned block the manager refines the reference model, and it
answers one more operation as the model does exactly when that one evicts no pinned block. -/
theorem client_refines (config : KVCacheConfig) (prefixConfig : PrefixCacheConfig)
    (hash : PrefixHashFunction) (enabled : prefixConfig.enabled = true) (material : OfMaterial hash)
    (ops : List CacheOp) (op : CacheOp)
    (free : (create config prefixConfig hash).CollisionFree
      ((create config prefixConfig hash).inScope (offered (ops ++ [op]))))
    (along : clientMachine.Along (fun manager op => op.Quiet manager ∧ op.Spares manager)
      (create config prefixConfig hash) ops)
    (quiet : op.Quiet (clientMachine.run (create config prefixConfig hash) ops)) :
    let manager := clientMachine.run (create config prefixConfig hash) ops
    let shadow := shadowRun (ShadowCache.create config prefixConfig hash) ops
    manager.Represents shadow ∧
      (∀ hash, manager.prefixIndex.find? hash =
        if shadow.bucket hash = [] then none else some (shadow.bucket hash)) ∧
      (manager.Answers shadow op ↔ op.Spares manager) := by
  have within : offered ops ⊆ offered (ops ++ [op]) := fun tokens ⟨id, member⟩ =>
    ⟨id, List.mem_append_left _ member⟩
  obtain ⟨sound, setup, represents⟩ := clientRun_represents enabled material free ops within
    (.refl _) create_sound (create_represents config prefixConfig hash) along
  refine ⟨represents, represents.index_eq sound, represents.answers_iff sound
    (by rw [setup.prefixConfig]; exact enabled) (by rw [setup.hashFunction]; exact material) quiet
    fun id tokens same => ?_⟩
  subst same
  exact (setup.collisionFree.mpr free).mono (setup.inScope_singleton ⟨id, by simp⟩)

/-- Three blocks of one token under the repository's own hash. -/
def tinyManager : KVCacheManager :=
  create (.small 3 1) { enabled := true } stableTokenBlockHash

theorem CacheOp.Succeeds.quiet (succeeds : op.Succeeds manager) : op.Quiet manager := by
  intro error fails
  rw [CacheOp.Succeeds, fails] at succeeds
  cases succeeds

theorem tinyManager_collisionFree {prompts : Set (List Token)} (only : prompts ⊆ {[7]}) :
    tinyManager.CollisionFree (tinyManager.inScope prompts) := by
  have material : ∀ key ∈ tinyManager.materials (tinyManager.inScope prompts),
      key = ⟨prefixCacheRootHash, [7], [], [], 0⟩ := by
    rintro key ⟨ns, salt, tokens, i, ⟨rfl, rfl, member⟩, inside, rfl⟩
    obtain rfl := Set.mem_singleton_iff.mp (only member)
    obtain rfl : i = 0 := Nat.lt_one_iff.mp inside
    rfl
  refine ⟨fun a first b second _ => (material a first).trans (material b second).symm,
    fun a member => ?_⟩
  rw [material a member]
  decide +kernel

/-- Two requests compute one prompt and publish it, the owner of the canonical block leaves: that
block is now cached, unreferenced and alone in the LRU order, and it cannot be evicted. -/
theorem eviction_refused :
    let ops : List CacheOp := [.allocatePromptWithPrefix 1 [7], .allocatePromptWithPrefix 2 [7],
      .insertCompletedPromptBlocks 1, .insertCompletedPromptBlocks 2, .releaseRequest 1]
    let manager := clientMachine.run tinyManager ops
    tinyManager.CollisionFree (tinyManager.inScope (offered ops)) ∧
      clientMachine.Along (fun manager op => op.Quiet manager) tinyManager ops ∧
      (CacheOp.evictUnusedBlocks 1).Fits manager ∧
      (manager.apply (.evictUnusedBlocks 1)).1 =
        .error (.logicError "invalid KV manager state after eviction") := by
  refine ⟨tinyManager_collisionFree ?_, ?_, by unfold CacheOp.Fits; decide +kernel,
    by decide +kernel⟩
  · rintro tokens ⟨id, member⟩
    simp at member
    rcases member with ⟨-, same⟩ | ⟨-, same⟩ <;> exact same
  · refine ⟨?_, ?_, ?_, ?_, ?_, trivial⟩ <;>
      exact CacheOp.Succeeds.quiet (by unfold CacheOp.Succeeds; decide +kernel)

/-- One request publishes its prompt and leaves; the block is evicted as in the model. -/
theorem client_refines_eviction :
    let ops : List CacheOp :=
      [.allocatePromptWithPrefix 1 [7], .insertCompletedPromptBlocks 1, .releaseRequest 1]
    let manager := clientMachine.run tinyManager ops
    manager.Answers (shadowRun (ShadowCache.create tinyManager.config { enabled := true }
      stableTokenBlockHash) ops) (.evictUnusedBlocks 1) ↔
        (CacheOp.evictUnusedBlocks 1).Spares manager := by
  refine (client_refines (.small 3 1) { enabled := true }
    stableTokenBlockHash rfl (fun _ => rfl) [.allocatePromptWithPrefix 1 [7],
      .insertCompletedPromptBlocks 1, .releaseRequest 1] (.evictUnusedBlocks 1)
    (tinyManager_collisionFree ?_) ⟨⟨?_, fun _ => ?_⟩, ⟨?_, fun _ => ?_⟩, ⟨?_, fun _ => ?_⟩, trivial⟩
    ?_).2.2
  · rintro tokens ⟨id, member⟩
    simp at member
    exact member.2
  · exact CacheOp.Succeeds.quiet (by unfold CacheOp.Succeeds; decide +kernel)
  · have none : (CacheOp.allocatePromptWithPrefix 1 [7]).victims tinyManager = [] := by
      decide +kernel
    intro x member
    change x ∈ (CacheOp.allocatePromptWithPrefix 1 [7]).victims tinyManager at member
    rw [none] at member
    cases member
  · exact CacheOp.Succeeds.quiet (by unfold CacheOp.Succeeds; decide +kernel)
  · exact fun x member => by cases member
  · exact CacheOp.Succeeds.quiet (by unfold CacheOp.Succeeds; decide +kernel)
  · exact fun x member => by cases member
  · exact CacheOp.Succeeds.quiet (by unfold CacheOp.Succeeds; decide +kernel)

end KVCacheManager

end LlmLab.Serving
