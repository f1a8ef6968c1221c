import LlmLab.Serving.KVCache.Decode
import LlmLab.Serving.KVCache.Publication
import LlmLab.Serving.KVCache.Release

/-!
# The effects of the public operations

`KVOp` lists the public mutators of the manager and `apply` runs one.  A failed operation
leaves the manager as it was, up to the failure count; a successful one has the `Effect` of
its event and keeps the invariant, whatever the hash function.
-/

namespace LlmLab.Serving

open KVCacheManager

/-- A public mutator with its arguments. -/
inductive KVOp where
  | allocatePrompt (id : RequestId) (tokens : Nat)
  | allocatePromptExact (id : RequestId) (tokens : Nat) (evictionIds allocationIds : List Nat)
  | allocatePromptWithPrefix (id : RequestId) (tokens : List Token) (lookup : PrefixLookupResult)
      (protectedBlocks : OrdSet Nat)
  | allocatePromptWithPrefixExact (id : RequestId) (tokens : List Token)
      (lookup : PrefixLookupResult) (evictionIds allocationIds : List Nat)
  | insertCompletedPromptBlocks (id : RequestId)
  | appendDecodeToken (id : RequestId)
  | appendDecodeTokenExact (id : RequestId) (evictionIds : List Nat) (allocationId : Option Nat)
  | releaseRequest (id : RequestId)
  | evictUnusedBlocks (count : Nat)

/-- What an operation does to the requests. -/
inductive KVEvent where
  | countPrompt (id : RequestId) (tokens : Nat)
  | exactPrompt (id : RequestId) (tokens : List Token)
  | publish (id : RequestId)
  | append (id : RequestId)
  | release (id : RequestId)
  | evict (count : Nat)

/-- The event of an operation. -/
def KVOp.event : KVOp → KVEvent
  | .allocatePrompt id tokens => .countPrompt id tokens
  | .allocatePromptExact id tokens _ _ => .countPrompt id tokens
  | .allocatePromptWithPrefix id tokens _ _ => .exactPrompt id tokens
  | .allocatePromptWithPrefixExact id tokens _ _ _ => .exactPrompt id tokens
  | .insertCompletedPromptBlocks id => .publish id
  | .appendDecodeToken id => .append id
  | .appendDecodeTokenExact id _ _ => .append id
  | .releaseRequest id => .release id
  | .evictUnusedBlocks count => .evict count

namespace KVCacheManager

variable {manager next : KVCacheManager} {id : RequestId}

/-- Run one public operation: its outcome and the manager it leaves behind. -/
def apply (manager : KVCacheManager) : KVOp → Except Exn Unit × KVCacheManager
  | .allocatePrompt id tokens => manager.allocatePrompt id tokens
  | .allocatePromptExact id tokens evictionIds allocationIds =>
      manager.commit (manager.allocatePromptExact id tokens evictionIds allocationIds)
  | .allocatePromptWithPrefix id tokens lookup protectedBlocks =>
      manager.allocatePromptWithPrefix id tokens lookup protectedBlocks
  | .allocatePromptWithPrefixExact id tokens lookup evictionIds allocationIds =>
      manager.commit
        (manager.allocatePromptWithPrefixExact id tokens lookup evictionIds allocationIds)
  | .insertCompletedPromptBlocks id => manager.commit (manager.insertCompletedPromptBlocks id)
  | .appendDecodeToken id => manager.appendDecodeToken id
  | .appendDecodeTokenExact id evictionIds allocationId =>
      manager.commit (manager.appendDecodeTokenExact id evictionIds allocationId)
  | .releaseRequest id => manager.commit (manager.releaseRequest id)
  | .evictUnusedBlocks count =>
      ((manager.evictUnusedBlocks count).1.map fun _ => (), (manager.evictUnusedBlocks count).2)

/-- The effect of a successful operation. -/
inductive Effect (manager next : KVCacheManager) : KVEvent → Prop
  | countPrompt {id : RequestId} {tokens : Nat} {evictionIds allocationIds : List Nat} :
      manager.PromptPlan id tokens evictionIds allocationIds →
      manager.Served (countGrant id tokens evictionIds allocationIds) next →
      next.prefixMetrics = { manager.prefixMetrics with
        evictionCount := manager.prefixMetrics.evictionCount + evictionIds.length } →
      Effect manager next (.countPrompt id tokens)
  | exactPrompt {id : RequestId} {tokens : List Token} {supplied actual : PrefixLookupResult}
      {evictionIds allocationIds : List Nat} :
      manager.PrefixPlan id tokens supplied actual evictionIds allocationIds →
      manager.LookupSpec tokens manager.prefixConfig.modelNamespace
        manager.prefixConfig.cacheSalt actual →
      manager.Served (prefixGrant manager.config manager.prefixConfig.enabled id tokens actual
        evictionIds allocationIds) next →
      next.prefixMetrics = { acquiredMetrics manager.prefixMetrics actual with
        evictionCount := manager.prefixMetrics.evictionCount + evictionIds.length } →
      Effect manager next (.exactPrompt id tokens)
  | published {id : RequestId} {table : List Nat} {p : RequestKVPromptProvenance}
      {tokens : List Token} :
      manager.PublishPlan id table p tokens → p.publicationCompleted = false →
      manager.Published id tokens table p next → Effect manager next (.publish id)
  | republished {id : RequestId} {table : List Nat} {p : RequestKVPromptProvenance}
      {tokens : List Token} :
      manager.PublishPlan id table p tokens → p.publicationCompleted = true → next = manager →
      Effect manager next (.publish id)
  | appended {id : RequestId} {table evictionIds : List Nat} {allocationId : Option Nat} :
      manager.DecodePlan id table evictionIds allocationId →
      manager.Appended id evictionIds allocationId next → Effect manager next (.append id)
  | released {id : RequestId} {table : List Nat} :
      manager.Released id table next → Effect manager next (.release id)
  | evicted {count : Nat} : count ≤ manager.eligibleEvictionOrder.length →
      manager.Evicted (manager.eligibleEvictionOrder.take count) next →
      Effect manager next (.evict count)

/-! ## Eviction on request -/

/-- An eviction of cached blocks leaves a valid manager exactly when none was pinned. -/
theorem Evicted.valid_iff {victims : List Nat} (sound : manager.Sound)
    (effect : manager.Evicted victims next) (consistent : next.Consistent manager.blockTables)
    (cached : ∀ x ∈ victims, (manager.block x).state = .cached) :
    next.Valid ↔ ∀ x ∈ victims, ¬ manager.Pinned x := by
  have keys : ∀ x, (next.block x).prefixKey =
      if x ∈ victims then none else (manager.block x).prefixKey := fun x => by
    rw [effect.block]
    split <;> rfl
  have old : ∀ {other : RequestId} {held : List Nat} {p : RequestKVPromptProvenance},
      manager.blockTables.find? other = some held →
      manager.requestProvenance.find? other = some p →
      (EntryValid next other held p ↔ ∀ x ∈ victims, ¬ PinnedBy manager held p x) := by
    intro other held p found recorded
    obtain ⟨p', recorded', entry⟩ := sound.valid.entries other held found
    rw [recorded, Option.some.injEq] at recorded'
    subst recorded'
    have step : EntryValid next other (held ++ []) p ↔ _ :=
      entry.advance sound.valid.index effect.setup effect.length keys
        (fun x member => by
          have notVictim : x ∉ victims := fun victim => by
            have inUse := (sound.live found member).2.2
            rw [cached x victim] at inUse
            cases inUse
          rw [effect.block, if_neg notVictim]
          exact ⟨notVictim, rfl, le_rfl⟩)
        (by rw [List.append_nil]; exact entry.nodup) (by simp) (by simp)
    rwa [List.append_nil] at step
  constructor
  · rintro valid x victim ⟨other, held, p, found, recorded, pinned⟩
    obtain ⟨p', recorded', after⟩ := valid.entries other held (by rw [effect.tables, found])
    rw [effect.provenance, recorded, Option.some.injEq] at recorded'
    subst recorded'
    exact (old found recorded).mp after x victim pinned
  · intro unpinned
    refine ⟨?_, fun other p recorded => ?_, fun other held found => ?_, ?_, consistent.index⟩
    · rw [effect.peak, effect.length]
      exact sound.valid.peak
    · rw [effect.provenance] at recorded
      rw [effect.tables]
      exact sound.valid.tables other p recorded
    · rw [effect.tables] at found
      rw [effect.provenance]
      obtain ⟨p, recorded, -⟩ := sound.valid.entries other held found
      exact ⟨p, recorded, (old found recorded).mpr fun x victim pinned =>
        unpinned x victim ⟨other, held, p, found, recorded, pinned⟩⟩
    · rw [effect.tables]
      exact consistent.blocks

/-- The eviction of the first `count` victims. -/
theorem evictFirst_ensures (sound : manager.Sound) {count : Nat}
    (enough : count ≤ manager.eligibleEvictionOrder.length) :
    Ensures Exn.IsOverflow
      (fun next => manager.Evicted (manager.eligibleEvictionOrder.take count) next ∧
        next.Ordered ∧
        (next.Valid ↔ ∀ x ∈ manager.eligibleEvictionOrder.take count, ¬ manager.Pinned x))
      (manager.evictExactBlocksInPlace (manager.eligibleEvictionOrder.take count)) := by
  have length : (manager.eligibleEvictionOrder.take count).length = count := by
    rw [List.length_take, Nat.min_eq_left enough]
  refine (evictExactBlocksInPlace_ensures sound.consistent (by rw [length]; exact enough)
    (by rw [length])).mono fun next spec => ⟨spec.1, spec.2.ordered, ?_⟩
  exact spec.1.valid_iff sound spec.2 fun x member =>
    (mem_eligibleEvictionOrder sound.blockIds).mp (List.mem_of_mem_take member)

/-! ## The checked operations -/

/-- No victim is pinned. -/
def Unpinned (manager : KVCacheManager) (victims : List Nat) : Prop :=
  ∀ x ∈ victims, ¬ manager.Pinned x

/-- The closing check after an operation whose result is valid on a condition. -/
theorem checked_ensures {action : Except Exn KVCacheManager} {plan condition : Prop}
    {post : KVCacheManager → Prop} {message : String} (safe : Ensures (Refuses plan) post action)
    (valid : ∀ next, post next → (next.Valid → condition) ∧ (plan → condition → next.Valid)) :
    Ensures (Refuses (plan ∧ condition)) (fun next => post next ∧ next.Valid ∧ condition)
      (action >>= fun next => next.ensureValid message) := by
  refine (safe.mono_allowed fun error refused => refused.imp_right fun unplanned planned =>
    unplanned planned.1).bind fun next holds => ?_
  unfold ensureValid
  refine .throwIf_bind (fun invalid => Or.inr fun ⟨planned, met⟩ => ?_) fun accepted => ?_
  · rw [validateInvariants_iff.mpr ((valid next holds).2 planned met)] at invalid
    cases invalid
  · rw [Bool.not_eq_false] at accepted
    have isValid := validateInvariants_iff.mp accepted
    exact ⟨holds, isValid, (valid next holds).1 isValid⟩

theorem allocatePromptExact_ensures (sound : manager.Sound) {tokens : Nat}
    {evictionIds allocationIds : List Nat} :
    Ensures (Refuses (manager.PromptPlan id tokens evictionIds allocationIds ∧
        manager.Unpinned evictionIds))
      (fun next => Effect manager next (.countPrompt id tokens) ∧ next.Sound)
      (manager.allocatePromptExact id tokens evictionIds allocationIds) := by
  unfold allocatePromptExact
  rw [throwIf_of_not (by simp [validateInvariants_iff.mpr sound.valid]), except_ok_bind]
  refine (checked_ensures (allocatePromptExactUnchecked_ensures sound)
    fun next spec => ⟨spec.2.1.valid.mp, fun _ => spec.2.1.valid.mpr⟩).mono fun next spec => ?_
  obtain ⟨⟨plan, served, metrics⟩, valid, -⟩ := spec
  exact ⟨.countPrompt plan served metrics, valid, served.consistent.ordered⟩

/-- A prompt with a prefix has its effect, or its plan is refused. -/
theorem allocatePromptWithPrefixExact_ensures (sound : manager.Sound) {tokens : List Token}
    {supplied : PrefixLookupResult} {evictionIds allocationIds : List Nat} :
    Ensures (Refuses
        ((∃ actual, manager.PrefixPlan id tokens supplied actual evictionIds allocationIds) ∧
          manager.Unpinned evictionIds))
      (fun next => Effect manager next (.exactPrompt id tokens) ∧ next.Sound)
      (manager.allocatePromptWithPrefixExact id tokens supplied evictionIds allocationIds) := by
  unfold allocatePromptWithPrefixExact
  rw [throwIf_of_not (by simp [validateInvariants_iff.mpr sound.valid]), except_ok_bind]
  refine (checked_ensures (allocatePromptWithPrefixExactUnchecked_ensures sound)
    fun next spec => ?_).mono fun next spec => ?_
  · rcases spec with ⟨actual, -, -, served, -⟩ | ⟨invalid, unplanned⟩
    · exact ⟨served.valid.mp, fun _ => served.valid.mpr⟩
    · exact ⟨fun valid => absurd valid invalid, fun planned => absurd planned unplanned⟩
  · obtain ⟨⟨actual, plan, lookup, served, metrics⟩ | ⟨invalid, -⟩, valid, -⟩ := spec
    · exact ⟨.exactPrompt plan lookup served metrics, valid, served.consistent.ordered⟩
    · exact absurd valid invalid

theorem insertCompletedPromptBlocks_ensures (sound : manager.Sound) :
    Ensures (Refuses (OfMaterial manager.hashFunction ∧
        ∃ table p tokens, manager.PublishPlan id table p tokens))
      (fun next => Effect manager next (.publish id) ∧ next.Sound)
      (manager.insertCompletedPromptBlocks id) := by
  unfold insertCompletedPromptBlocks
  rw [throwIf_of_not (by simp [validateInvariants_iff.mpr sound.valid]), except_ok_bind]
  refine (insertCompletedPromptBlocksInPlace_ensures sound).mono fun next spec => ?_
  obtain ⟨after, table, p, tokens, plan, effect⟩ := spec
  by_cases completed : p.publicationCompleted = true
  · rw [if_pos completed] at effect
    exact ⟨.republished plan completed effect, after⟩
  · rw [if_neg completed] at effect
    exact ⟨.published plan (by simpa using completed) effect, after⟩

theorem appendDecodeTokenExact_ensures (sound : manager.Sound) {evictionIds : List Nat}
    {allocationId : Option Nat} :
    Ensures (Refuses ((∃ table, manager.DecodePlan id table evictionIds allocationId) ∧
        manager.Unpinned evictionIds))
      (fun next => Effect manager next (.append id) ∧ next.Sound)
      (manager.appendDecodeTokenExact id evictionIds allocationId) := by
  unfold appendDecodeTokenExact
  rw [throwIf_of_not (by simp [validateInvariants_iff.mpr sound.valid]), except_ok_bind]
  refine (checked_ensures (appendDecodeTokenExactUnchecked_ensures sound) fun next spec =>
    ⟨(spec.2.valid_iff sound).mp, fun _ => (spec.2.valid_iff sound).mpr⟩).mono fun next spec => ?_
  obtain ⟨⟨⟨table, plan⟩, effect⟩, valid, -⟩ := spec
  exact ⟨.appended plan effect, valid, effect.ordered sound⟩

theorem releaseRequest_ensures (sound : manager.Sound) :
    Ensures (Refuses (∃ table, manager.blockTables.find? id = some table))
      (fun next => Effect manager next (.release id) ∧ next.Sound)
      (manager.releaseRequest id) := by
  unfold releaseRequest
  rw [throwIf_of_not (by simp [validateInvariants_iff.mpr sound.valid]), except_ok_bind]
  refine (releaseRequestUnchecked_ensures sound).bind fun next spec => ?_
  obtain ⟨table, effect⟩ := spec
  have after := effect.sound sound
  unfold ensureValid
  rw [throwIf_of_not (by simp [validateInvariants_iff.mpr after.valid]), except_ok_bind]
  exact ⟨.released effect, after⟩

/-- An eviction takes the first blocks of its order, or is refused. -/
theorem evictUnusedBlocksInPlace_ensures (sound : manager.Sound) {count : Nat} :
    Ensures (Refuses (count ≤ manager.eligibleEvictionOrder.length ∧
        manager.Unpinned (manager.eligibleEvictionOrder.take count)))
      (fun result => result.1 = manager.eligibleEvictionOrder.take count ∧
        Effect manager result.2 (.evict count) ∧ result.2.Sound)
      (manager.evictUnusedBlocksInPlace count) := by
  simp only [evictUnusedBlocksInPlace]
  refine .throwIf_bind (fun short => Or.inr fun planned => ?_) fun enough => ?_
  · exact absurd planned.1 (not_le.mpr short)
  have enough := not_lt.mp enough
  refine ((evictFirst_ensures sound enough).mono_allowed fun _ => Or.inl).bind
    fun evicted spec => ?_
  obtain ⟨effect, ordered, valid⟩ := spec
  unfold ensureValid
  by_cases unpinned : manager.Unpinned (manager.eligibleEvictionOrder.take count)
  · have after := valid.mpr unpinned
    rw [throwIf_of_not (by simp [validateInvariants_iff.mpr after]), except_ok_bind]
    exact ⟨rfl, .evicted enough effect, after, ordered⟩
  · have invalid : evicted.validateInvariants = false := by
      rw [Bool.eq_false_iff]
      exact fun accepted => unpinned (valid.mp (validateInvariants_iff.mp accepted))
    rw [throwIf_of invalid]
    exact Or.inr fun planned => unpinned planned.2

/-! ## Any operation -/

/-- A success has its effect and keeps the invariant; a failure changes at most the failure
count. -/
inductive Outcome (manager : KVCacheManager) (event : KVEvent) :
    Except Exn Unit × KVCacheManager → Prop
  | succeeded {next : KVCacheManager} : Effect manager next event → next.Sound →
      Outcome manager event (.ok (), next)
  | failed {error : Exn} {count : Nat} :
      Outcome manager event (.error error, { manager with allocationFailureCount := count })

variable {event : KVEvent}

theorem Outcome.unchanged {error : Exn} : Outcome manager event (.error error, manager) :=
  @Outcome.failed manager event error manager.allocationFailureCount

theorem commit_outcome {allowed : Exn → Prop} {copy : Except Exn KVCacheManager}
    (safe : Ensures allowed (fun next => Effect manager next event ∧ next.Sound) copy) :
    Outcome manager event (manager.commit copy) := by
  cases copy with
  | error error => exact .unchanged
  | ok next => exact .succeeded safe.1 safe.2

theorem failAllocation_outcome (message : String) :
    Outcome manager event (manager.failAllocation message) := by
  unfold failAllocation
  split
  · exact .unchanged
  · exact .failed

/-- Every public operation, from any state that satisfies the invariant. -/
theorem apply_outcome (sound : manager.Sound) (op : KVOp) :
    Outcome manager op.event (manager.apply op) := by
  cases op with
  | allocatePrompt id tokens =>
      simp only [apply, allocatePrompt]
      split
      · exact .unchanged
      split
      · exact .unchanged
      split
      · exact .unchanged
      generalize (if manager.prefixConfig.enabled = true then
        manager.eligibleEvictionOrder.length else 0) = evictable
      split
      · exact failAllocation_outcome _
      · exact commit_outcome (allocatePromptExact_ensures sound)
  | allocatePromptExact id tokens evictionIds allocationIds =>
      exact commit_outcome (allocatePromptExact_ensures sound)
  | allocatePromptWithPrefix id tokens lookup protectedBlocks =>
      simp only [apply, allocatePromptWithPrefix]
      split
      · exact .unchanged
      split
      · exact .unchanged
      split
      · exact .unchanged
      split
      · exact .unchanged
      split
      · exact failAllocation_outcome _
      · exact commit_outcome (allocatePromptWithPrefixExact_ensures sound)
  | allocatePromptWithPrefixExact id tokens lookup evictionIds allocationIds =>
      exact commit_outcome (allocatePromptWithPrefixExact_ensures sound)
  | insertCompletedPromptBlocks id => exact commit_outcome (insertCompletedPromptBlocks_ensures sound)
  | appendDecodeToken id =>
      simp only [apply, appendDecodeToken]
      split
      · exact .unchanged
      split
      · exact .unchanged
      split
      · exact .unchanged
      split
      · exact .unchanged
      split
      · exact .unchanged
      split
      · exact failAllocation_outcome _
      · exact commit_outcome (appendDecodeTokenExact_ensures sound)
  | appendDecodeTokenExact id evictionIds allocationId =>
      exact commit_outcome (appendDecodeTokenExact_ensures sound)
  | releaseRequest id => exact commit_outcome (releaseRequest_ensures sound)
  | evictUnusedBlocks count =>
      simp only [apply, evictUnusedBlocks]
      split
      · exact .unchanged
      cases result : manager.evictUnusedBlocksInPlace count with
      | error error => exact .unchanged
      | ok pair =>
          have spec := (evictUnusedBlocksInPlace_ensures sound).of_eq_ok result
          exact .succeeded spec.2.1 spec.2.2

end KVCacheManager

end LlmLab.Serving
