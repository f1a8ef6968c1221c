import LlmLab.Serving.KVCache.BlockSteps
import LlmLab.Serving.KVCache.IndexSteps

/-!
# Eviction

The eviction order lists the cached blocks, each once, and `evict_exact_blocks_in_place` frees
a prefix of it.  `Consistent` is the part of the invariant that holds throughout an operation,
under the tables that the operation is about to install.
-/

namespace LlmLab.Serving

namespace KVCacheManager

/-- What the sources maintain and `validate_invariants` does not check. -/
structure Ordered (manager : KVCacheManager) : Prop where
  free : ∀ x ∈ manager.freeBlocks, x < manager.config.totalNumBlocks
  buckets : IndexOrdered manager.prefixIndex
  shared : ∀ x, (manager.block x).provenance = some .sharedPromptFull →
    (manager.block x).prefixKey ≠ none

/-- Blocks and index are consistent under the given tables. -/
structure Consistent (manager : KVCacheManager) (tables : OrdMap RequestId (List Nat)) :
    Prop where
  blocks : BlocksValid manager.config manager.blocks manager.freeBlocks manager.accessEpoch tables
    manager.representedTokenCount
  index : IndexValid manager.config manager.prefixConfig manager.hashFunction manager.blocks
    manager.prefixIndex
  ordered : manager.Ordered

variable {manager : KVCacheManager} {tables : OrdMap RequestId (List Nat)}

/-! ## The eviction order -/

/-- The cached blocks in id order. -/
def cachedIds (manager : KVCacheManager) : List Nat :=
  (List.range manager.blocks.length).filter (fun id => (manager.block id).state = .cached)

theorem blocks_eq_map_range (manager : KVCacheManager) :
    manager.blocks = (List.range manager.blocks.length).map manager.block := by
  apply List.ext_getElem
  · simp
  · intro i inside _
    simp [block, inside]

theorem cachedBlockCount_eq (manager : KVCacheManager) :
    manager.cachedBlockCount = manager.cachedIds.length := by
  unfold cachedBlockCount cachedIds
  conv_lhs => rw [blocks_eq_map_range]
  rw [List.countP_map, List.countP_eq_length_filter]
  rfl

theorem eligibleEvictionOrder_eq
    (ids : ∀ x < manager.blocks.length, (manager.block x).blockId = x) :
    manager.eligibleEvictionOrder =
      sortBy (fun id => toLex ((manager.block id).lastAccessEpoch, id)) manager.cachedIds := by
  unfold eligibleEvictionOrder
  congr 1
  conv_lhs => rw [blocks_eq_map_range]
  rw [List.filter_map, List.map_map]
  conv_rhs => rw [← List.map_id manager.cachedIds]
  refine List.map_congr_left fun x member => ?_
  exact ids x (List.mem_range.mp (List.mem_of_mem_filter member))

theorem BlocksValid.ids (valid : BlocksValid manager.config manager.blocks manager.freeBlocks
      manager.accessEpoch tables manager.representedTokenCount) :
    ∀ x < manager.blocks.length, (manager.block x).blockId = x := fun x inside =>
  (valid.block x (valid.length ▸ inside)).id_eq

theorem mem_cachedIds {x : Nat} :
    x ∈ manager.cachedIds ↔ (manager.block x).state = .cached := by
  unfold cachedIds
  rw [List.mem_filter, List.mem_range, decide_eq_true_eq]
  refine and_iff_right_of_imp fun cached => ?_
  by_contra outside
  simp [block, outside] at cached

theorem eligibleEvictionOrder_perm
    (ids : ∀ x < manager.blocks.length, (manager.block x).blockId = x) :
    manager.eligibleEvictionOrder.Perm manager.cachedIds := by
  rw [eligibleEvictionOrder_eq ids]
  exact sortBy_perm _ _

theorem mem_eligibleEvictionOrder
    (ids : ∀ x < manager.blocks.length, (manager.block x).blockId = x) {x : Nat} :
    x ∈ manager.eligibleEvictionOrder ↔ (manager.block x).state = .cached :=
  (eligibleEvictionOrder_perm ids).mem_iff.trans mem_cachedIds

theorem eligibleEvictionOrder_nodup
    (ids : ∀ x < manager.blocks.length, (manager.block x).blockId = x) :
    manager.eligibleEvictionOrder.Nodup :=
  (eligibleEvictionOrder_perm ids).nodup_iff.mpr (List.nodup_range.filter _)

theorem length_eligibleEvictionOrder
    (ids : ∀ x < manager.blocks.length, (manager.block x).blockId = x) :
    manager.eligibleEvictionOrder.length = manager.cachedBlockCount := by
  rw [(eligibleEvictionOrder_perm ids).length_eq, cachedBlockCount_eq]

/-! ## Evicting blocks -/

/-- The effect of evicting `ids`. -/
structure Evicted (manager : KVCacheManager) (ids : List Nat) (next : KVCacheManager) :
    Prop where
  setup : manager.SameSetup next
  length : next.blocks.length = manager.blocks.length
  block : ∀ x, next.block x = if x ∈ ids then { blockId := x } else manager.block x
  free : ∀ x, x ∈ next.freeBlocks ↔ x ∈ ids ∨ x ∈ manager.freeBlocks
  tables : next.blockTables = manager.blockTables
  provenance : next.requestProvenance = manager.requestProvenance
  represented : next.representedTokenCount + ids.length * manager.config.blockSizeTokens =
    manager.representedTokenCount
  metrics : next.prefixMetrics = { manager.prefixMetrics with
    evictionCount := manager.prefixMetrics.evictionCount + ids.length }
  peak : next.peakAllocatedBlockCount = manager.peakAllocatedBlockCount
  failures : next.allocationFailureCount = manager.allocationFailureCount
  epoch : next.accessEpoch = manager.accessEpoch

theorem Evicted.refl (manager : KVCacheManager) : manager.Evicted [] manager where
  setup := .refl manager
  length := rfl
  block x := by simp
  free x := by simp
  tables := rfl
  provenance := rfl
  represented := by simp
  metrics := rfl
  peak := rfl
  failures := rfl
  epoch := rfl

/-- An eviction followed by that of one more block. -/
theorem Evicted.snoc {ids : List Nat} {id : Nat} {middle next : KVCacheManager}
    (first : manager.Evicted ids middle) (second : middle.Evicted [id] next) :
    manager.Evicted (ids ++ [id]) next where
  setup := first.setup.trans second.setup
  length := second.length.trans first.length
  block x := by
    rw [second.block, first.block]
    by_cases last : x = id <;> by_cases member : x ∈ ids <;> simp [last, member]
  free x := by
    rw [second.free, first.free, List.mem_append, or_assoc]
    exact or_left_comm
  tables := second.tables.trans first.tables
  provenance := second.provenance.trans first.provenance
  represented := by
    have one := second.represented
    have all := first.represented
    rw [first.setup.config, List.length_singleton, Nat.one_mul] at one
    rw [List.length_append, List.length_singleton, Nat.add_mul, Nat.one_mul]
    omega
  metrics := by
    rw [second.metrics, first.metrics, List.length_append, Nat.add_assoc]
  peak := second.peak.trans first.peak
  failures := second.failures.trans first.failures
  epoch := second.epoch.trans first.epoch

/-- A cached block is evicted, and the manager stays consistent. -/
theorem evictBlock_ensures (consistent : manager.Consistent tables) {id : Nat}
    (cached : (manager.block id).state = .cached) :
    Ensures Exn.IsOverflow (fun next => manager.Evicted [id] next ∧ next.Consistent tables)
      (manager.evictBlock id) := by
  have inside : id < manager.blocks.length := by
    by_contra outside
    simp [KVCacheManager.block, outside] at cached
  have bound : id < manager.config.totalNumBlocks := consistent.blocks.length ▸ inside
  obtain ⟨e, key, p, shape, -⟩ := consistent.blocks.cached_shape bound cached
  have carries : (manager.block id).prefixKey = some key := by
    unfold KVCacheManager.block
    rw [shape]
  have size : (manager.block id).validTokenCount = manager.config.blockSizeTokens := by
    unfold KVCacheManager.block
    rw [shape]
  obtain ⟨bucket, present, member⟩ := consistent.index.keyed id key carries
  unfold evictBlock
  refine (inc_ensures _ _).bind fun count counted => ?_
  subst counted
  rw [carries]
  simp only [present]
  rw [throwIf_of_not (by simpa using member), except_ok_bind]
  obtain ⟨valid, enough⟩ := consistent.blocks.evict bound cached
    (f := fun block => { block with
      state := .free, owner := none, referenceCount := 0, validTokenCount := 0
      lastAccessEpoch := 0, prefixKey := none, provenance := none })
    (by rw [shape])
  rw [throwIf_of_not (by omega), except_ok_bind]
  have written : ∀ x, (manager.blocks.modify id fun block => { block with
      state := .free, owner := none, referenceCount := 0, validTokenCount := 0
      lastAccessEpoch := 0, prefixKey := none, provenance := none }).getD x { blockId := x } =
      if x = id then { blockId := x } else manager.block x := by
    intro x
    rw [getD_modify]
    by_cases same : x = id
    · subst same
      rw [if_pos ⟨rfl, inside⟩, if_pos rfl, shape]
    · rw [if_neg fun both => same both.1.symm, if_neg same]
      rfl
  refine ⟨⟨⟨rfl, rfl, rfl⟩, List.length_modify .., fun x => ?_, fun x => ?_, rfl, rfl, ?_, rfl,
    rfl, rfl, rfl⟩, ⟨?_, ?_, ⟨fun x member => ?_, ?_, fun x shared => ?_⟩⟩⟩
  · simp only [List.mem_singleton]
    exact written x
  · rw [OrdSet.mem_insert, List.mem_singleton]
  · dsimp only
    rw [size, List.length_singleton, Nat.one_mul]
    exact Nat.sub_add_cancel enough
  · dsimp only
    rw [size]
    exact valid
  · exact consistent.index.evict carries present fun _ => rfl
  · rcases OrdSet.mem_insert.mp member with rfl | member
    · exact bound
    · exact consistent.ordered.free x member
  · exact consistent.ordered.buckets.without present id
  · simp only [KVCacheManager.block] at shared ⊢
    rw [written] at shared ⊢
    split at shared
    · cases shared
    · next different =>
        rw [if_neg different]
        exact consistent.ordered.shared x shared

/-- Evicting a prefix of the eviction order. -/
theorem evictExactBlocksInPlace_ensures (consistent : manager.Consistent tables)
    {ids : List Nat} (length_le : ids.length ≤ manager.eligibleEvictionOrder.length)
    (first : ids = manager.eligibleEvictionOrder.take ids.length) :
    Ensures Exn.IsOverflow (fun next => manager.Evicted ids next ∧ next.Consistent tables)
      (manager.evictExactBlocksInPlace ids) := by
  have blockIds := BlocksValid.ids consistent.blocks
  simp only [evictExactBlocksInPlace]
  rw [throwIf_of_not (not_lt_of_ge length_le : ¬ ids.length > _), except_ok_bind,
    throwIf_of_not (not_not.mpr first : ¬ ids ≠ _), except_ok_bind]
  have nodup : ids.Nodup := by
    rw [first]
    exact (eligibleEvictionOrder_nodup blockIds).sublist (List.take_sublist _ _)
  have cached : ∀ x ∈ ids, (manager.block x).state = .cached := by
    intro x member
    rw [first] at member
    exact (mem_eligibleEvictionOrder blockIds).mp (List.mem_of_mem_take member)
  refine Ensures.foldlM
    (fun consumed next => manager.Evicted consumed next ∧ next.Consistent tables)
    ⟨.refl manager, consistent⟩ fun consumed id rest state split holds => ?_
  obtain ⟨evicted, consistent⟩ := holds
  have fresh : id ∉ consumed := by
    rw [split] at nodup
    have apart := (List.nodup_append.mp nodup).2.2
    exact fun member => apart id member id List.mem_cons_self rfl
  have stillCached : (state.block id).state = .cached := by
    rw [evicted.block, if_neg fresh]
    exact cached id (by rw [split]; simp)
  exact (evictBlock_ensures consistent stillCached).mono fun next step =>
    ⟨evicted.snoc step.1, step.2⟩

end KVCacheManager

end LlmLab.Serving
