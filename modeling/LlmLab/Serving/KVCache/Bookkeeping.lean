import LlmLab.Serving.KVCache.Accounting
import LlmLab.Serving.KVCache.ReleaseOrder

/-!
# Double-entry bookkeeping of the block pool

Every reference count and every represented token is entered twice, once with the blocks and once
with the request tables.  Summed over the pool the two sides agree, and what the allocated blocks
leave unfilled is less than one block for each live request, however prefixes are shared.
-/

namespace LlmLab.Serving

open KVCacheManager

namespace KVCacheManager

variable {manager : KVCacheManager}

/-- The blocks that are in use. -/
def usedIds (manager : KVCacheManager) : List Nat :=
  (List.range manager.blocks.length).filter fun x => (manager.block x).state = .inUse

/-- The token slots that an allocated block leaves unfilled. -/
def spareSlots (manager : KVCacheManager) (x : Nat) : Nat :=
  if x ∈ manager.freeBlocks then 0
  else manager.config.blockSizeTokens - (manager.block x).validTokenCount

/-! ## References -/

namespace Sound

theorem shape (sound : manager.Sound) {x : Nat} (inside : x < manager.blocks.length) :
    BlockValid manager.config.blockSizeTokens manager.accessEpoch (x ∈ manager.freeBlocks)
      (manager.occurrences x) (manager.Holds · x) x (manager.block x) :=
  sound.valid.blocks.block x (sound.valid.blocks.length ▸ inside)

/-- A block counts the tables that hold it. -/
theorem referenceCount_eq (sound : manager.Sound) {x : Nat} (inside : x < manager.blocks.length) :
    (manager.block x).referenceCount = manager.occurrences x := by
  have shape := sound.shape inside
  revert shape
  generalize manager.block x = block
  intro shape
  cases shape with
  | free _ unclaimed => exact unclaimed.symm
  | cached _ unclaimed => exact unclaimed.symm
  | shared => rfl
  | owned _ once => exact once.symm

/-- The entries of the request tables. -/
theorem sum_occurrences (sound : manager.Sound) :
    ((List.range manager.blocks.length).map manager.occurrences).sum =
      manager.blockTables.total List.length := by
  have exchanged := OrdMap.sum_total (fun x (table : List Nat) => table.count x)
    (List.range manager.blocks.length) manager.blockTables
  refine exchanged.trans (OrdMap.total_congr fun id table found => ?_)
  exact sum_count_range fun x member => (sound.live found member).1

theorem sum_references (sound : manager.Sound) :
    (manager.blocks.map (·.referenceCount)).sum = manager.blockTables.total List.length := by
  conv_lhs => rw [blocks_eq_map_range, List.map_map]
  rw [← sound.sum_occurrences]
  refine congrArg List.sum (List.map_congr_left fun x member => ?_)
  exact sound.referenceCount_eq (List.mem_range.mp member)

/-! ## States -/

theorem freeBlocks_size (sound : manager.Sound) : manager.freeBlocks.size =
    ((List.range manager.blocks.length).filter fun x => (manager.block x).state = .free).length := by
  refine OrdSet.size_eq_length (List.nodup_range.filter _) fun x => ?_
  rw [List.mem_filter, List.mem_range, decide_eq_true_eq, sound.mem_free_iff]

/-- Every block is free, in use or cached. -/
theorem partition (sound : manager.Sound) :
    manager.freeBlocks.size + manager.usedIds.length + manager.cachedBlockCount =
      manager.blocks.length := by
  have counted (xs : List Nat) :
      (xs.filter fun x => (manager.block x).state = .free).length +
        (xs.filter fun x => (manager.block x).state = .inUse).length +
        (xs.filter fun x => (manager.block x).state = .cached).length = xs.length := by
    induction xs with
    | nil => rfl
    | cons x rest ih =>
        cases state : (manager.block x).state <;> simp [state, ← ih] <;> omega
  rw [sound.freeBlocks_size, cachedBlockCount_eq, cachedIds, usedIds, counted, List.length_range]

/-- A block in use is in some table. -/
theorem usedIds_le (sound : manager.Sound) :
    manager.usedIds.length ≤ manager.blockTables.total List.length := by
  have bound (xs : List Nat) (inside : ∀ x ∈ xs, x < manager.blocks.length) :
      (xs.filter fun x => (manager.block x).state = .inUse).length ≤
        (xs.map manager.occurrences).sum := by
    induction xs with
    | nil => exact le_rfl
    | cons x rest ih =>
        have tail := ih fun y member => inside y (List.mem_cons_of_mem x member)
        have shape := sound.shape (inside x List.mem_cons_self)
        rw [List.map_cons, List.sum_cons, List.filter_cons]
        split
        · next used =>
            rw [decide_eq_true_eq] at used
            have claimed : 0 < manager.occurrences x := by
              revert shape used
              generalize manager.block x = block
              intro shape used
              cases shape with
              | free | cached => cases used
              | shared _ claimed => exact claimed
              | owned _ once => omega
            rw [List.length_cons]
            omega
        · omega
  rw [← sound.sum_occurrences]
  exact bound _ fun x member => List.mem_range.mp member

end Sound

/-! ## Tokens -/

/-- The slots of the allocated blocks hold tokens or are spare. -/
theorem Sound.sum_spareSlots (sound : manager.Sound) :
    manager.representedTokenCount +
        ((List.range manager.blocks.length).map manager.spareSlots).sum =
      manager.allocatedBlockCount * manager.config.blockSizeTokens := by
  have slots (xs : List Nat) (inside : ∀ x ∈ xs, x < manager.blocks.length) :
      (xs.map fun x => (manager.block x).validTokenCount).sum +
          (xs.map manager.spareSlots).sum +
          (xs.filter fun x => (manager.block x).state = .free).length *
            manager.config.blockSizeTokens =
        xs.length * manager.config.blockSizeTokens := by
    induction xs with
    | nil => simp
    | cons x rest ih =>
        have tail := ih fun y member => inside y (List.mem_cons_of_mem x member)
        have here := inside x List.mem_cons_self
        have free : x ∈ manager.freeBlocks ↔ (manager.block x).state = .free :=
          sound.mem_free_iff.trans (and_iff_right here)
        have room := sound.valid.blocks.capacity (manager.block x) (by
          rw [blocks_eq_map_range]
          exact List.mem_map.mpr ⟨x, List.mem_range.mpr here, rfl⟩)
        rw [List.map_cons, List.sum_cons, List.map_cons, List.sum_cons, List.filter_cons,
          List.length_cons, Nat.succ_mul, ← tail, spareSlots]
        by_cases isFree : (manager.block x).state = .free
        · have blank := room.2 isFree
          rw [if_pos (free.mpr isFree), if_pos (decide_eq_true isFree), List.length_cons,
            Nat.succ_mul]
          omega
        · rw [if_neg fun member => isFree (free.mp member), if_neg (by simpa using isFree)]
          have := room.1
          omega
  have all := slots _ fun x member => List.mem_range.mp member
  have represented := sound.valid.blocks.represented
  conv_lhs at represented => rw [blocks_eq_map_range, List.map_map]
  rw [List.length_range, ← sound.freeBlocks_size] at all
  rw [allocatedBlockCount, Nat.sub_mul, ← represented]
  change _ + _ = _ at all
  have same : ((List.range manager.blocks.length).map
      ((fun block => block.validTokenCount) ∘ manager.block)).sum =
    ((List.range manager.blocks.length).map fun x => (manager.block x).validTokenCount).sum := rfl
  rw [same]
  omega

theorem Sound.represented_add_fragmentation (sound : manager.Sound) :
    manager.representedTokenCount + manager.internalFragmentationTokens =
      manager.allocatedBlockCount * manager.config.blockSizeTokens := by
  have slots := sound.sum_spareSlots
  unfold internalFragmentationTokens
  omega

/-- A block that is not full is the last one of its owner's table. -/
theorem Sound.spareSlots_le {ledger : Ledger} (sound : manager.Sound)
    (accounted : Accounted ledger manager) {x : Nat} (inside : x < manager.blocks.length) :
    manager.spareSlots x ≤ manager.blockTables.total fun table =>
      if table.getLast? = some x then manager.config.blockSizeTokens - 1 else 0 := by
  have shape := sound.shape inside
  unfold spareSlots
  split
  · exact Nat.zero_le _
  next notFree =>
  by_cases full : (manager.block x).validTokenCount = manager.config.blockSizeTokens
  · rw [full, Nat.sub_self]
    exact Nat.zero_le _
  obtain ⟨owner, ⟨table, found, member⟩, filled⟩ : ∃ owner, manager.Holds owner x ∧
      0 < (manager.block x).validTokenCount := by
    revert shape full
    generalize manager.block x = block
    intro shape full
    cases shape with
    | free isFree => exact absurd isFree notFree
    | cached | shared => exact absurd rfl full
    | owned _ _ holds positive => exact ⟨_, holds, positive⟩
  obtain ⟨usage, -, fills⟩ := accounted owner table found
  obtain ⟨i, here⟩ := List.mem_iff_getElem?.mp member
  have last : table.getLast? = some x := by
    rw [List.getLast?_eq_getElem?]
    by_cases isLast : i + 1 < table.length
    · exact absurd (fills.full isLast here) full
    · have bound := (List.getElem?_eq_some_iff.mp here).1
      rwa [show table.length - 1 = i by omega]
  refine le_trans ?_ (OrdMap.le_total _ found)
  rw [if_pos last]
  omega

/-- What the allocated blocks leave unfilled is less than one block for each live request. -/
theorem Sound.fragmentation_le {ledger : Ledger} (sound : manager.Sound)
    (accounted : Accounted ledger manager) : manager.internalFragmentationTokens ≤
      manager.blockTables.size * (manager.config.blockSizeTokens - 1) := by
  have slots := sound.sum_spareSlots
  have each : ((List.range manager.blocks.length).map manager.spareSlots).sum ≤
      ((List.range manager.blocks.length).map fun x => manager.blockTables.total fun table =>
        if table.getLast? = some x then manager.config.blockSizeTokens - 1 else 0).sum :=
    List.sum_le_sum fun x member => sound.spareSlots_le accounted (List.mem_range.mp member)
  have exchanged := OrdMap.sum_total (fun x (table : List Nat) =>
      if table.getLast? = some x then manager.config.blockSizeTokens - 1 else 0)
    (List.range manager.blocks.length) manager.blockTables
  have once (table : List Nat) : ((List.range manager.blocks.length).map fun x =>
      if table.getLast? = some x then manager.config.blockSizeTokens - 1 else 0).sum ≤
        manager.config.blockSizeTokens - 1 := by
    cases last : table.getLast? with
    | none => simp
    | some y =>
        rw [List.sum_map_eq_nsmul_single y _ fun x other _ =>
          if_neg fun same => other (Option.some.inj same).symm, if_pos rfl, List.count_range]
        split
        · exact (one_nsmul _).le
        · exact (zero_nsmul _).le.trans (Nat.zero_le _)
  have bounded := manager.blockTables.total_le_size_mul _ once
  unfold internalFragmentationTokens
  omega

/-- In every reachable state, under any hash function and after any successes and failures: the
reference counts add up to the entries of the request tables, the blocks are free, in use or
cached, no more blocks are in use than the tables have entries, the slots of the allocated blocks
are represented tokens or internal fragmentation, and the fragmentation is less than one block for
each live request. -/
theorem reach_bookkeeping (config : KVCacheConfig) (prefixConfig : PrefixCacheConfig)
    (hashFunction : PrefixHashFunction) (ops : List KVOp) :
    let manager := reach config prefixConfig hashFunction ops
    (manager.blocks.map (·.referenceCount)).sum = manager.blockTables.total List.length ∧
      manager.freeBlocks.size + manager.usedIds.length + manager.cachedBlockCount =
        config.totalNumBlocks ∧
      manager.usedIds.length ≤ manager.blockTables.total List.length ∧
      manager.representedTokenCount + manager.internalFragmentationTokens =
        manager.allocatedBlockCount * config.blockSizeTokens ∧
      manager.internalFragmentationTokens ≤
        manager.blockTables.size * (config.blockSizeTokens - 1) := by
  have holds := reachLedger_tallied config prefixConfig hashFunction ops
  rw [reachLedger_snd] at holds
  obtain ⟨sound, accounted, -⟩ := holds
  have setup : (reach config prefixConfig hashFunction ops).config = config :=
    (@reach_sound config prefixConfig hashFunction ops).2.config
  have partition := sound.partition
  have slots := sound.represented_add_fragmentation
  have fragmentation := sound.fragmentation_le accounted
  rw [sound.valid.blocks.length, setup] at partition
  rw [setup] at slots fragmentation
  exact ⟨sound.sum_references, partition, sound.usedIds_le, slots, fragmentation⟩

end KVCacheManager

end LlmLab.Serving
