import LlmLab.Serving.KVCache.Eviction

/-!
# Acquiring and writing blocks

The two loops of an allocation: the matched blocks gain a reference, and the allocated ones
are written and leave the free set.  Both keep `BlocksValid` while the claim of the new
request grows along.
-/

namespace LlmLab.Serving

namespace KVCacheManager

variable {manager : KVCacheManager} {tables : OrdMap RequestId (List Nat)}

theorem block_modifyBlock {id : Nat} (inside : id < manager.blocks.length)
    (f : PhysicalKVBlock → PhysicalKVBlock) (x : Nat) :
    (manager.modifyBlock id f).block x =
      if x = id then f (manager.block id) else manager.block x := by
  unfold modifyBlock block
  rw [getD_modify]
  by_cases same : x = id
  · subst same
    rw [if_pos ⟨rfl, inside⟩, if_pos rfl]
  · rw [if_neg fun both => same both.1.symm, if_neg same]

/-! ## Acquiring the matched blocks -/

theorem acquireMatched_cons (epoch id : Nat) (ids : List Nat) :
    manager.acquireMatched epoch (id :: ids) =
      (manager.modifyBlock id (acquiredBlock epoch)).acquireMatched epoch ids := rfl

theorem acquireMatched_eq (epoch : Nat) (ids : List Nat) :
    manager.acquireMatched epoch ids =
      { manager with blocks := (manager.acquireMatched epoch ids).blocks } := by
  induction ids generalizing manager with
  | nil => rfl
  | cons id ids ih =>
      rw [acquireMatched_cons, ih]
      rfl

theorem length_acquireMatched (epoch : Nat) (ids : List Nat) :
    (manager.acquireMatched epoch ids).blocks.length = manager.blocks.length := by
  induction ids generalizing manager with
  | nil => rfl
  | cons id ids ih =>
      rw [acquireMatched_cons, ih]
      exact List.length_modify ..

/-- Acquiring matched blocks writes these and no others. -/
theorem block_acquireMatched {epoch : Nat} {ids : List Nat} (nodup : ids.Nodup)
    (inside : ∀ x ∈ ids, x < manager.blocks.length) (x : Nat) :
    (manager.acquireMatched epoch ids).block x =
      if x ∈ ids then acquiredBlock epoch (manager.block x) else manager.block x := by
  induction ids generalizing manager with
  | nil => rfl
  | cons id ids ih =>
      obtain ⟨fresh, nodup⟩ := List.nodup_cons.mp nodup
      have bound := inside id List.mem_cons_self
      rw [acquireMatched_cons, ih nodup fun y member => by
        rw [modifyBlock, List.length_modify]
        exact inside y (List.mem_cons_of_mem _ member), block_modifyBlock bound]
      by_cases same : x = id
      · subst same
        rw [if_neg fresh, if_pos rfl, if_pos List.mem_cons_self]
      · rw [if_neg same]
        simp [same]

theorem key_acquiredBlock (epoch : Nat) (block : PhysicalKVBlock) :
    (acquiredBlock epoch block).prefixKey = block.prefixKey := rfl

theorem key_modifyBlock {id : Nat} {f : PhysicalKVBlock → PhysicalKVBlock}
    (same : ∀ block, (f block).prefixKey = block.prefixKey) (x : Nat) :
    ((manager.modifyBlock id f).block x).prefixKey = (manager.block x).prefixKey := by
  unfold modifyBlock block
  rw [getD_modify]
  split
  · rw [same]
  · rfl

/-- Acquiring matched blocks keeps the blocks valid. -/
theorem BlocksValid.acquireMatched {owner : RequestId} {held ids : List Nat} {epoch later : Nat}
    (valid : BlocksValid manager.config manager.blocks manager.freeBlocks epoch
      (tables.insert owner held) manager.representedTokenCount)
    (keyed : ∀ x ∈ ids, (manager.block x).prefixKey ≠ none) (pos : 0 < later)
    (le : epoch ≤ later) :
    BlocksValid manager.config (manager.acquireMatched later ids).blocks manager.freeBlocks later
      (tables.insert owner (held ++ ids)) manager.representedTokenCount := by
  induction ids generalizing manager held epoch with
  | nil =>
      rw [List.append_nil]
      exact valid.mono_epoch le
  | cons id ids ih =>
      obtain ⟨key, carries⟩ := Option.ne_none_iff_exists'.mp (keyed id List.mem_cons_self)
      have step := valid.acquire carries (List.perm_append_singleton id held) pos le_rfl le
      rw [acquireMatched_cons]
      have rest := @ih (manager.modifyBlock id (acquiredBlock later)) _ _ step
        (fun x member => by
          rw [key_modifyBlock (key_acquiredBlock later)]
          exact keyed x (List.mem_cons_of_mem _ member)) le_rfl
      rw [List.append_assoc, List.singleton_append] at rest
      exact rest

/-! ## Writing the allocated blocks -/

/-- The effect of writing the allocated blocks from position `k` on. -/
structure Written (manager : KVCacheManager) (owner : RequestId) (tokens epoch : Nat)
    (provenance : Nat → KVBlockProvenance) (k : Nat) (ids : List Nat) (next : KVCacheManager) :
    Prop where
  length : next.blocks.length = manager.blocks.length
  outside : ∀ x ∉ ids, next.block x = manager.block x
  inside : ∀ i x, ids[i]? = some x → next.block x =
    allocatedPromptBlock manager.config owner tokens epoch (k + i) (provenance (k + i))
      (manager.block x)
  free : ∀ x, x ∈ next.freeBlocks ↔ x ∈ manager.freeBlocks ∧ x ∉ ids

section Written

variable {owner : RequestId} {tokens epoch k : Nat} {provenance : Nat → KVBlockProvenance}
  {ids : List Nat}

theorem writeAllocatedBlock_block {id i : Nat} (inside : id < manager.blocks.length) (x : Nat) :
    (writeAllocatedBlock owner tokens epoch provenance manager (id, i)).block x =
      if x = id then allocatedPromptBlock manager.config owner tokens epoch i (provenance i)
        (manager.block id) else manager.block x :=
  block_modifyBlock inside _ x

/-- Writing touches the blocks and the free set only. -/
theorem writeFrom_eq (ids : List Nat) (k : Nat) :
    (ids.zipIdx k).foldl (writeAllocatedBlock owner tokens epoch provenance) manager =
      { manager with
        blocks := ((ids.zipIdx k).foldl (writeAllocatedBlock owner tokens epoch provenance)
          manager).blocks
        freeBlocks := ((ids.zipIdx k).foldl (writeAllocatedBlock owner tokens epoch provenance)
          manager).freeBlocks } := by
  induction ids generalizing manager k with
  | nil => rfl
  | cons id ids ih =>
      rw [List.zipIdx_cons, List.foldl_cons, ih]
      rfl

/-- The blocks written one after the other are each written as their position says. -/
theorem written_from (nodup : ids.Nodup) (bound : ∀ x ∈ ids, x < manager.blocks.length) :
    Written manager owner tokens epoch provenance k ids
      ((ids.zipIdx k).foldl (writeAllocatedBlock owner tokens epoch provenance) manager) := by
  induction ids generalizing manager k with
  | nil => exact ⟨rfl, fun _ _ => rfl, fun i x found => by simp at found, fun x => by simp⟩
  | cons id ids ih =>
      obtain ⟨fresh, nodup⟩ := List.nodup_cons.mp nodup
      have here := bound id List.mem_cons_self
      rw [List.zipIdx_cons, List.foldl_cons]
      have tail := @ih (writeAllocatedBlock owner tokens epoch provenance manager (id, k)) (k + 1)
        nodup fun x member => by
          simp only [writeAllocatedBlock, List.length_modify]
          exact bound x (List.mem_cons_of_mem _ member)
      refine ⟨tail.length.trans (List.length_modify ..), fun x apart => ?_,
        fun i x found => ?_, fun x => ?_⟩
      · rw [List.mem_cons, not_or] at apart
        rw [tail.outside x apart.2, writeAllocatedBlock_block here, if_neg apart.1]
      · cases i with
        | zero =>
            simp only [List.getElem?_cons_zero, Option.some.injEq] at found
            subst found
            rw [tail.outside id fresh, writeAllocatedBlock_block here, if_pos rfl, Nat.add_zero]
        | succ i =>
            rw [List.getElem?_cons_succ] at found
            have different : x ≠ id := by
              rintro rfl
              exact fresh (List.mem_of_getElem? found)
            rw [tail.inside i x found, writeAllocatedBlock_block here, if_neg different,
              Nat.add_assoc, Nat.add_comm 1 i]
            rfl
      · rw [tail.free, writeAllocatedBlock, OrdSet.mem_erase, List.mem_cons, not_or]
        tauto

theorem writeAllocated_eq (owner : RequestId) (tokens epoch : Nat)
    (provenance : Nat → KVBlockProvenance) (ids : List Nat) :
    manager.writeAllocated owner tokens epoch provenance ids =
      { manager with
        blocks := (manager.writeAllocated owner tokens epoch provenance ids).blocks
        freeBlocks := (manager.writeAllocated owner tokens epoch provenance ids).freeBlocks } :=
  writeFrom_eq ids 0

theorem writeAllocated_written (nodup : ids.Nodup)
    (bound : ∀ x ∈ ids, x < manager.blocks.length) :
    Written manager owner tokens epoch provenance 0 ids
      (manager.writeAllocated owner tokens epoch provenance ids) :=
  written_from nodup bound

/-- The tokens that the blocks from position `k` on hold. -/
theorem BlocksValid.write_from {held : List Nat} {before count : Nat}
    (valid : BlocksValid manager.config manager.blocks manager.freeBlocks before
      (tables.insert owner held) count)
    (nodup : ids.Nodup) (free : ∀ x ∈ ids, x ∈ manager.freeBlocks)
    (bound : ∀ x ∈ ids, x < manager.config.totalNumBlocks)
    (nonempty : ∀ i < ids.length, (k + i) * manager.config.blockSizeTokens < tokens)
    (full : ∀ i < ids.length, (provenance (k + i)).cacheable = true →
      (k + i + 1) * manager.config.blockSizeTokens ≤ tokens)
    (pos : ids ≠ [] → 0 < epoch) (le : before ≤ epoch) :
    BlocksValid manager.config
      ((ids.zipIdx k).foldl (writeAllocatedBlock owner tokens epoch provenance) manager).blocks
      ((ids.zipIdx k).foldl (writeAllocatedBlock owner tokens epoch provenance) manager).freeBlocks
      epoch (tables.insert owner (held ++ ids))
      (count + (min tokens ((k + ids.length) * manager.config.blockSizeTokens) -
        k * manager.config.blockSizeTokens)) := by
  induction ids generalizing manager k held before count with
  | nil =>
      have none : min tokens ((k + ([] : List Nat).length) * manager.config.blockSizeTokens) -
          k * manager.config.blockSizeTokens = 0 := by
        rw [List.length_nil, Nat.add_zero]
        omega
      rw [none, Nat.add_zero, List.append_nil]
      exact valid.mono_epoch le
  | cons id ids ih =>
      obtain ⟨fresh, nodup⟩ := List.nodup_cons.mp nodup
      have size := manager.config.blockSize_pos
      have first := nonempty 0 (by simp)
      have firstFull := full 0 (by simp)
      rw [Nat.add_zero] at first firstFull
      rw [Nat.add_mul, Nat.one_mul] at firstFull
      have step := valid.take (bound id List.mem_cons_self) (free id List.mem_cons_self)
        (List.perm_append_singleton id held)
        (f := allocatedPromptBlock manager.config owner tokens epoch k (provenance k))
        (e := epoch) rfl (by omega) (by omega) (fun cacheable => by
          have := firstFull cacheable
          omega) (pos (by simp)) le_rfl le
      have tail := @ih (writeAllocatedBlock owner tokens epoch provenance manager (id, k)) (k + 1)
        (held ++ [id]) epoch _ step nodup
        (fun x member => OrdSet.mem_erase.mpr
          ⟨by rintro rfl; exact fresh member, free x (List.mem_cons_of_mem _ member)⟩)
        (fun x member => bound x (List.mem_cons_of_mem _ member))
        (fun i inside => by
          have := nonempty (i + 1) (by simpa using inside)
          rwa [Nat.add_assoc, Nat.add_comm 1 i])
        (fun i inside => by
          have := full (i + 1) (by simpa using inside)
          rwa [Nat.add_assoc k 1 i, Nat.add_comm 1 i])
        (fun _ => pos (by simp)) le_rfl
      have total : min manager.config.blockSizeTokens (tokens - k * manager.config.blockSizeTokens) +
          (min tokens ((k + 1 + ids.length) * manager.config.blockSizeTokens) -
            (k + 1) * manager.config.blockSizeTokens) =
          min tokens ((k + (id :: ids).length) * manager.config.blockSizeTokens) -
            k * manager.config.blockSizeTokens := by
        rw [List.length_cons, show k + (ids.length + 1) = k + 1 + ids.length by omega]
        have next : (k + 1) * manager.config.blockSizeTokens =
            k * manager.config.blockSizeTokens + manager.config.blockSizeTokens := by
          rw [Nat.add_mul, Nat.one_mul]
        have last : (k + 1) * manager.config.blockSizeTokens ≤
            (k + 1 + ids.length) * manager.config.blockSizeTokens :=
          Nat.mul_le_mul_right _ (Nat.le_add_right _ _)
        cases ids with
        | nil =>
            rw [List.length_nil, Nat.add_zero, next]
            omega
        | cons second rest =>
            have filled := nonempty 1 (by simp)
            omega
      rw [List.zipIdx_cons, List.foldl_cons, ← total, ← Nat.add_assoc]
      rw [List.append_assoc, List.singleton_append] at tail
      exact tail

end Written

end KVCacheManager

end LlmLab.Serving
