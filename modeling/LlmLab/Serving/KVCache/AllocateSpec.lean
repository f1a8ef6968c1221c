import LlmLab.Serving.KVCache.Entries
import LlmLab.Serving.KVCache.ValidateExact

/-!
# Prompt allocation

Both prompt allocations acquire the matched blocks (none for a count-only prompt), evict,
write the allocated blocks and install the new table.  `Allocated` is that effect; the two
operations reach it unless a counter overflows, and the result is valid exactly when no
victim was pinned.
-/

namespace LlmLab.Serving

namespace KVCacheManager

variable {manager : KVCacheManager} {owner : RequestId} {matched victims fresh : List Nat}

/-- The invariant of a manager between operations. -/
structure Sound (manager : KVCacheManager) : Prop where
  valid : manager.Valid
  ordered : manager.Ordered

theorem Sound.consistent (sound : manager.Sound) : manager.Consistent manager.blockTables :=
  ⟨sound.valid.blocks, sound.valid.index, sound.ordered⟩

theorem Sound.blockIds (sound : manager.Sound) :
    ∀ x < manager.blocks.length, (manager.block x).blockId = x :=
  BlocksValid.ids sound.valid.blocks

/-- A keyed block is in range and not free. -/
theorem Sound.keyed (sound : manager.Sound) {x : Nat}
    (carries : (manager.block x).prefixKey ≠ none) :
    x < manager.blocks.length ∧ x ∉ manager.freeBlocks ∧
      (manager.block x).validTokenCount = manager.config.blockSizeTokens ∧
      ∃ p, (manager.block x).provenance = some p ∧ p.cacheable = true := by
  obtain ⟨key, carries⟩ := Option.ne_none_iff_exists'.mp carries
  obtain ⟨inside, notFree, e, p, -, -, cacheable, shape⟩ := sound.valid.blocks.keyed_shape carries
  refine ⟨sound.valid.blocks.length ▸ inside, notFree, ?_, p, ?_, cacheable⟩
  · unfold block
    rw [shape]
  · unfold block
    rw [shape]

/-- A free block is blank. -/
theorem Sound.free (sound : manager.Sound) {x : Nat} (isFree : x ∈ manager.freeBlocks) :
    x < manager.blocks.length ∧ manager.block x = { blockId := x } := by
  have inside := sound.ordered.free x isFree
  exact ⟨sound.valid.blocks.length ▸ inside, ((sound.valid.blocks.block x inside).eq_free isFree).1⟩

/-- A cached block carries a key. -/
theorem Sound.cached (sound : manager.Sound) {x : Nat}
    (cached : (manager.block x).state = .cached) : (manager.block x).prefixKey ≠ none := by
  have inside : x < manager.blocks.length := by
    by_contra outside
    simp [block, outside] at cached
  obtain ⟨e, key, p, shape, -⟩ :=
    sound.valid.blocks.cached_shape (sound.valid.blocks.length ▸ inside) cached
  unfold block
  rw [shape]
  simp

/-- A block of a live table is in use: neither free nor cached. -/
theorem Sound.live (sound : manager.Sound) {id : RequestId} {table : List Nat}
    (found : manager.blockTables.find? id = some table) {x : Nat} (member : x ∈ table) :
    x < manager.blocks.length ∧ x ∉ manager.freeBlocks ∧ (manager.block x).state = .inUse := by
  obtain ⟨p, -, entry⟩ := sound.valid.entries id table found
  have inside := entry.inside x member
  have bound : x < manager.config.totalNumBlocks := sound.valid.blocks.length ▸ inside
  have claimed : 0 < occurrencesIn manager.blockTables x :=
    HoldsIn.occurrences_pos ⟨table, found, member⟩
  refine ⟨inside, fun isFree => ?_, ?_⟩
  · have unclaimed := ((sound.valid.blocks.block x bound).eq_free isFree).2
    omega
  · unfold block
    rcases sound.valid.blocks.claimed_shape bound claimed with
      ⟨e, key, p, -, -, -, shape⟩ | ⟨-, e, count, holder, p, -, shape⟩ <;> rw [shape]

theorem Sound.nodup (sound : manager.Sound) {id : RequestId} {table : List Nat}
    (found : manager.blockTables.find? id = some table) : table.Nodup := by
  obtain ⟨p, -, entry⟩ := sound.valid.entries id table found
  exact entry.nodup

/-- A block with several references is full. -/
theorem Sound.full_of_shared (sound : manager.Sound) {x : Nat}
    (shared : 1 < (manager.block x).referenceCount) :
    (manager.block x).validTokenCount = manager.config.blockSizeTokens := by
  have inside : x < manager.blocks.length := by
    by_contra outside
    simp [block, outside] at shared
  have shape := sound.valid.blocks.block x (sound.valid.blocks.length ▸ inside)
  change BlockValid _ _ _ _ _ x (manager.block x) at shape
  revert shared shape
  generalize manager.block x = block
  intro shared shape
  cases shape with
  | free => exact absurd shared (Nat.not_lt_zero 1)
  | cached => exact absurd shared (Nat.not_lt_zero 1)
  | shared => rfl
  | owned => exact absurd shared (lt_irrefl 1)

/-- An unkeyed block of a live table is in no other table. -/
theorem Sound.unshared (sound : manager.Sound) {id other : RequestId} {table held : List Nat}
    (found : manager.blockTables.find? id = some table) {x : Nat} (member : x ∈ table)
    (unkeyed : (manager.block x).prefixKey = none)
    (present : manager.blockTables.find? other = some held) (also : x ∈ held) : other = id := by
  have inside := (sound.live found member).1
  obtain ⟨-, once, -⟩ := sound.valid.blocks.owned_shape (sound.valid.blocks.length ▸ inside)
    ⟨table, found, member⟩ unkeyed
  by_contra apart
  have twice := HoldsIn.two_le ⟨table, found, member⟩ ⟨held, present, also⟩ apart
  omega

/-! ## Acquisition -/

/-- The epoch after the matched blocks, if any, were touched. -/
def hitEpoch (manager : KVCacheManager) (matched : List Nat) : Nat :=
  manager.accessEpoch + if matched = [] then 0 else 1

/-- The manager once the matched blocks are acquired. -/
def acquired (manager : KVCacheManager) (matched : List Nat) : KVCacheManager :=
  { manager.acquireMatched (manager.hitEpoch matched) matched with
    accessEpoch := manager.hitEpoch matched }

theorem acquired_eq (manager : KVCacheManager) (matched : List Nat) :
    manager.acquired matched = { manager with
      blocks := (manager.acquired matched).blocks, accessEpoch := manager.hitEpoch matched } := by
  unfold acquired
  rw [acquireMatched_eq]

theorem length_acquired : (manager.acquired matched).blocks.length = manager.blocks.length :=
  length_acquireMatched _ _

theorem Sound.block_acquired (sound : manager.Sound) (nodup : matched.Nodup)
    (keyed : ∀ x ∈ matched, (manager.block x).prefixKey ≠ none) (x : Nat) :
    (manager.acquired matched).block x =
      if x ∈ matched then acquiredBlock (manager.hitEpoch matched) (manager.block x)
      else manager.block x :=
  block_acquireMatched nodup (fun x member => (sound.keyed (keyed x member)).1) x

theorem Sound.key_acquired (sound : manager.Sound) (nodup : matched.Nodup)
    (keyed : ∀ x ∈ matched, (manager.block x).prefixKey ≠ none) (x : Nat) :
    ((manager.acquired matched).block x).prefixKey = (manager.block x).prefixKey := by
  rw [sound.block_acquired nodup keyed]
  split <;> rfl

/-- Matched blocks are consistently held by their new owner. -/
theorem Sound.acquired_consistent (sound : manager.Sound)
    (unknown : manager.blockTables.find? owner = none) (nodup : matched.Nodup)
    (keyed : ∀ x ∈ matched, (manager.block x).prefixKey ≠ none) :
    (manager.acquired matched).Consistent (manager.blockTables.insert owner matched) := by
  have entered := sound.valid.blocks.enter unknown
  rw [acquired_eq]
  refine ⟨?_, sound.valid.index.congrKeys length_acquired (sound.key_acquired nodup keyed),
    sound.ordered.free, sound.ordered.buckets, fun x shared => ?_⟩
  · by_cases none : matched = []
    · subst none
      exact entered
    · have touched := BlocksValid.acquireMatched entered keyed
        (show 0 < manager.hitEpoch matched by simp [hitEpoch, none])
        (by simp [hitEpoch, none])
      exact touched
  · change ((manager.acquired matched).block x).provenance = _ at shared
    change ((manager.acquired matched).block x).prefixKey ≠ none
    rw [sound.key_acquired nodup keyed]
    rw [sound.block_acquired nodup keyed] at shared
    split at shared
    · next member => exact keyed x member
    · exact sound.ordered.shared x shared

/-- Acquiring takes the matched blocks out of the eviction order and keeps the rest. -/
theorem Sound.order_acquired (sound : manager.Sound)
    (unknown : manager.blockTables.find? owner = none) (nodup : matched.Nodup)
    (keyed : ∀ x ∈ matched, (manager.block x).prefixKey ≠ none) :
    (manager.acquired matched).eligibleEvictionOrder = manager.evictableOutside matched := by
  have ids := BlocksValid.ids (sound.acquired_consistent unknown nodup keyed).blocks
  have cachedIds : (manager.acquired matched).cachedIds =
      manager.cachedIds.filter (fun id => id ∉ matched) := by
    unfold KVCacheManager.cachedIds
    rw [length_acquired, List.filter_filter]
    refine List.filter_congr fun x _ => ?_
    rw [sound.block_acquired nodup keyed]
    by_cases member : x ∈ matched <;> simp [member, acquiredBlock]
  unfold evictableOutside
  rw [eligibleEvictionOrder_eq ids, eligibleEvictionOrder_eq sound.blockIds, cachedIds]
  refine (sortBy_filter _ (fun a _ b _ same => ?_) fun a _ kept => ?_).symm
  · exact congrArg (fun pair => (ofLex pair).2) same
  · rw [sound.block_acquired nodup keyed, if_neg (by simpa using kept)]

/-! ## The effect of an allocation -/

/-- What an allocation is asked for: its request, the matched blocks, the victims and the
blocks it takes, and how these are labelled. -/
structure Grant where
  owner : RequestId
  matched : List Nat
  victims : List Nat
  fresh : List Nat
  suffix : Nat
  label : Nat → KVBlockProvenance
  record : RequestKVPromptProvenance

/-- A grant that the manager can serve. -/
structure Grant.Serves (g : Grant) (manager : KVCacheManager) : Prop where
  unknown : manager.blockTables.find? g.owner = none
  matched_nodup : g.matched.Nodup
  matched_keyed : ∀ x ∈ g.matched, (manager.block x).prefixKey ≠ none
  victims : g.victims = (manager.evictableOutside g.matched).take g.victims.length
  enough : g.victims.length ≤ (manager.evictableOutside g.matched).length
  fresh : g.fresh = lowestAvailable manager.freeBlocks g.victims g.fresh.length
  available : g.fresh.length ≤ (manager.freeBlocks.insertAll g.victims).size
  nonempty : ∀ i < g.fresh.length, i * manager.config.blockSizeTokens < g.suffix
  covered : g.suffix ≤ g.fresh.length * manager.config.blockSizeTokens
  label_private : ∀ i, g.label i ≠ .sharedPromptFull
  label_full : ∀ i < g.fresh.length, (g.label i).cacheable = true →
    (i + 1) * manager.config.blockSizeTokens ≤ g.suffix

/-- The effect of a served grant. -/
structure Allocated (manager : KVCacheManager) (g : Grant) (next : KVCacheManager) : Prop where
  setup : manager.SameSetup next
  length : next.blocks.length = manager.blocks.length
  tables : next.blockTables = manager.blockTables.insert g.owner (g.matched ++ g.fresh)
  provenance : next.requestProvenance = manager.requestProvenance.insert g.owner g.record
  outside : ∀ x, x ∉ g.matched → x ∉ g.victims → x ∉ g.fresh → next.block x = manager.block x
  acquired : ∀ x ∈ g.matched,
    next.block x = acquiredBlock (manager.hitEpoch g.matched) (manager.block x)
  freed : ∀ x ∈ g.victims, x ∉ g.fresh → next.block x = { blockId := x }
  written : ∀ i x, g.fresh[i]? = some x → next.block x =
    allocatedPromptBlock manager.config g.owner g.suffix next.accessEpoch i (g.label i)
      { blockId := x }
  free : ∀ x, x ∈ next.freeBlocks ↔ (x ∈ manager.freeBlocks ∨ x ∈ g.victims) ∧ x ∉ g.fresh
  represented : next.representedTokenCount + g.victims.length * manager.config.blockSizeTokens =
    manager.representedTokenCount + g.suffix
  epoch : next.accessEpoch = manager.hitEpoch g.matched + if g.fresh = [] then 0 else 1
  peak : next.peakAllocatedBlockCount =
    max manager.peakAllocatedBlockCount next.allocatedBlockCount
  failures : next.allocationFailureCount = manager.allocationFailureCount

/-- The last stage of an allocation, once the victims are gone. -/
def install (evicted : KVCacheManager) (g : Grant) (epoch represented : Nat)
    (metrics : PrefixCacheMetrics) : KVCacheManager :=
  updatePeak { evicted.writeAllocated g.owner g.suffix epoch g.label g.fresh with
    accessEpoch := epoch
    requestProvenance := emplace evicted.requestProvenance g.owner g.record
    blockTables := emplace evicted.blockTables g.owner (g.matched ++ g.fresh)
    representedTokenCount := represented
    prefixMetrics := metrics }

namespace Grant.Serves

variable {g : Grant}

theorem victim (serves : g.Serves manager) (sound : manager.Sound) {x : Nat}
    (member : x ∈ g.victims) : (manager.block x).state = .cached ∧ x ∉ g.matched := by
  rw [serves.victims] at member
  have evictable := List.mem_of_mem_take member
  unfold evictableOutside at evictable
  rw [List.mem_filter, mem_eligibleEvictionOrder sound.blockIds, decide_eq_true_eq] at evictable
  exact evictable

theorem victims_nodup (serves : g.Serves manager) (sound : manager.Sound) : g.victims.Nodup := by
  rw [serves.victims]
  exact ((eligibleEvictionOrder_nodup sound.blockIds).filter _).sublist (List.take_sublist _ _)

theorem fresh_nodup (serves : g.Serves manager) : g.fresh.Nodup := by
  rw [serves.fresh]
  exact (OrdSet.nodup _).sublist (List.take_sublist _ _)

theorem fresh_available (serves : g.Serves manager) {x : Nat} (member : x ∈ g.fresh) :
    x ∈ manager.freeBlocks ∨ x ∈ g.victims := by
  rw [serves.fresh] at member
  have available : x ∈ manager.freeBlocks.insertAll g.victims := List.mem_of_mem_take member
  exact (OrdSet.mem_insertAll.mp available).symm

theorem fresh_notMatched (serves : g.Serves manager) (sound : manager.Sound) {x : Nat}
    (member : x ∈ g.fresh) : x ∉ g.matched := by
  intro matched
  rcases serves.fresh_available member with isFree | victim
  · exact (sound.keyed (serves.matched_keyed x matched)).2.1 isFree
  · exact (serves.victim sound victim).2 matched

end Grant.Serves

/-- The last stage reaches the effect of the grant and keeps blocks and index consistent. -/
theorem Grant.Serves.install {g : Grant} (serves : g.Serves manager) (sound : manager.Sound)
    {evicted : KVCacheManager} (effect : (manager.acquired g.matched).Evicted g.victims evicted)
    (consistent : evicted.Consistent (manager.blockTables.insert g.owner g.matched))
    {epoch represented : Nat} (metrics : PrefixCacheMetrics)
    (epoch_eq : epoch = evicted.accessEpoch + if g.fresh = [] then 0 else 1)
    (represented_eq : represented = evicted.representedTokenCount + g.suffix) :
    Allocated manager g (evicted.install g epoch represented metrics) ∧
      (evicted.install g epoch represented metrics).Consistent
        (evicted.install g epoch represented metrics).blockTables := by
  have base := acquired_eq manager g.matched
  have config : evicted.config = manager.config := by rw [effect.setup.config, base]
  have length : evicted.blocks.length = manager.blocks.length := by
    rw [effect.length, length_acquired]
  have freeIff : ∀ x, x ∈ evicted.freeBlocks ↔ x ∈ g.victims ∨ x ∈ manager.freeBlocks := by
    intro x
    rw [effect.free, base]
  have tables : evicted.blockTables = manager.blockTables := by rw [effect.tables, base]
  have records : evicted.requestProvenance = manager.requestProvenance := by
    rw [effect.provenance, base]
  have freshFree : ∀ x ∈ g.fresh, x ∈ evicted.freeBlocks := fun x member =>
    (freeIff x).mpr (serves.fresh_available member).symm
  have bound : ∀ x ∈ g.fresh, x < evicted.config.totalNumBlocks := fun x member =>
    consistent.ordered.free x (freshFree x member)
  have blank : ∀ x ∈ g.fresh, evicted.block x = { blockId := x } := fun x member =>
    ((consistent.blocks.block x (bound x member)).eq_free (freshFree x member)).1
  have written : Written evicted g.owner g.suffix epoch g.label 0 g.fresh
      (evicted.writeAllocated g.owner g.suffix epoch g.label g.fresh) :=
    writeAllocated_written serves.fresh_nodup fun x member =>
      consistent.blocks.length.symm ▸ bound x member
  have unknown : manager.requestProvenance.find? g.owner = none := by
    cases found : manager.requestProvenance.find? g.owner with
    | none => rfl
    | some p =>
        obtain ⟨table, present⟩ := sound.valid.tables _ p found
        rw [serves.unknown] at present
        cases present
  have keys : ∀ x, ((evicted.writeAllocated g.owner g.suffix epoch g.label g.fresh).block x).prefixKey
      = (evicted.block x).prefixKey := by
    intro x
    by_cases member : x ∈ g.fresh
    · obtain ⟨i, found⟩ := List.mem_iff_getElem?.mp member
      rw [written.inside i x found, blank x member]
      rfl
    · rw [written.outside x member]
  have tables_eq : (evicted.install g epoch represented metrics).blockTables =
      manager.blockTables.insert g.owner (g.matched ++ g.fresh) := by
    change emplace evicted.blockTables g.owner _ = _
    rw [tables, emplace, OrdMap.contains_eq_false_iff.mpr serves.unknown]
    rfl
  refine ⟨⟨?_, written.length.trans length, tables_eq, ?_, fun x notMatched notVictim notFresh => ?_,
    fun x matched => ?_, fun x victim notFresh => ?_, fun i x found => ?_, fun x => ?_, ?_, ?_, ?_,
    ?_⟩, ?_⟩
  · have setup := effect.setup
    rw [base] at setup
    have rest := @writeAllocated_eq evicted g.owner g.suffix epoch g.label g.fresh
    exact ⟨by rw [← setup.config]; exact congrArg (·.config) rest,
      by rw [← setup.prefixConfig]; exact congrArg (·.prefixConfig) rest,
      by rw [← setup.hashFunction]; exact congrArg (·.hashFunction) rest⟩
  · change emplace evicted.requestProvenance g.owner _ = _
    rw [records, emplace, OrdMap.contains_eq_false_iff.mpr unknown]
    rfl
  · change (evicted.writeAllocated g.owner g.suffix epoch g.label g.fresh).block x = _
    rw [written.outside x notFresh, effect.block, if_neg notVictim,
      sound.block_acquired serves.matched_nodup serves.matched_keyed, if_neg notMatched]
  · change (evicted.writeAllocated g.owner g.suffix epoch g.label g.fresh).block x = _
    rw [written.outside x fun fresh => serves.fresh_notMatched sound fresh matched, effect.block,
      if_neg fun victim => (serves.victim sound victim).2 matched,
      sound.block_acquired serves.matched_nodup serves.matched_keyed, if_pos matched]
  · change (evicted.writeAllocated g.owner g.suffix epoch g.label g.fresh).block x = _
    rw [written.outside x notFresh, effect.block, if_pos victim]
  · change (evicted.writeAllocated g.owner g.suffix epoch g.label g.fresh).block x = _
    rw [written.inside i x found, blank x (List.mem_of_getElem? found), Nat.zero_add, config]
    rfl
  · change x ∈ (evicted.writeAllocated g.owner g.suffix epoch g.label g.fresh).freeBlocks ↔ _
    rw [written.free, freeIff, or_comm]
  · change represented + _ = _
    have before := effect.represented
    rw [base] at before
    dsimp only at before
    omega
  · change epoch = _
    rw [epoch_eq, effect.epoch, base]
  · change max (evicted.writeAllocated g.owner g.suffix epoch g.label g.fresh).peakAllocatedBlockCount
      _ = _
    have peak := congrArg (·.peakAllocatedBlockCount)
      (@writeAllocated_eq evicted g.owner g.suffix epoch g.label g.fresh)
    dsimp only at peak
    rw [peak, effect.peak, base]
    rfl
  · change (evicted.writeAllocated g.owner g.suffix epoch g.label g.fresh).allocationFailureCount = _
    have failures := congrArg (·.allocationFailureCount)
      (@writeAllocated_eq evicted g.owner g.suffix epoch g.label g.fresh)
    dsimp only at failures
    rw [failures, effect.failures, base]
  · rw [tables_eq]
    have total : min g.suffix ((0 + g.fresh.length) * evicted.config.blockSizeTokens) -
        0 * evicted.config.blockSizeTokens = g.suffix := by
      rw [Nat.zero_add, Nat.zero_mul, Nat.sub_zero, config, Nat.min_eq_left serves.covered]
    have filled : BlocksValid evicted.config
        (evicted.writeAllocated g.owner g.suffix epoch g.label g.fresh).blocks
        (evicted.writeAllocated g.owner g.suffix epoch g.label g.fresh).freeBlocks epoch
        (manager.blockTables.insert g.owner (g.matched ++ g.fresh))
        (evicted.representedTokenCount + (min g.suffix
          ((0 + g.fresh.length) * evicted.config.blockSizeTokens) -
            0 * evicted.config.blockSizeTokens)) :=
      BlocksValid.write_from consistent.blocks serves.fresh_nodup freshFree
        bound (fun i inside => by rw [Nat.zero_add, config]; exact serves.nonempty i inside)
        (fun i inside cacheable => by
          rw [Nat.zero_add] at cacheable ⊢
          rw [config]
          exact serves.label_full i inside cacheable)
        (fun some => by rw [epoch_eq, if_neg some]; omega) (by omega)
    rw [total, ← represented_eq] at filled
    have rest := @writeAllocated_eq evicted g.owner g.suffix epoch g.label g.fresh
    refine ⟨?_, ?_, ⟨fun x member => ?_, ?_, fun x shared => ?_⟩⟩
    · have sameConfig := congrArg (·.config) rest
      dsimp only at sameConfig
      change BlocksValid (evicted.writeAllocated g.owner g.suffix epoch g.label g.fresh).config
        _ _ epoch _ represented
      rw [sameConfig]
      exact filled
    · have sameConfig := congrArg (·.config) rest
      have samePrefix := congrArg (·.prefixConfig) rest
      have sameHash := congrArg (·.hashFunction) rest
      have sameIndex := congrArg (·.prefixIndex) rest
      dsimp only at sameConfig samePrefix sameHash sameIndex
      change IndexValid (evicted.writeAllocated g.owner g.suffix epoch g.label g.fresh).config
        (evicted.writeAllocated g.owner g.suffix epoch g.label g.fresh).prefixConfig
        (evicted.writeAllocated g.owner g.suffix epoch g.label g.fresh).hashFunction _
        (evicted.writeAllocated g.owner g.suffix epoch g.label g.fresh).prefixIndex
      rw [sameConfig, samePrefix, sameHash, sameIndex]
      exact consistent.index.congrKeys written.length keys
    · change x ∈ (evicted.writeAllocated g.owner g.suffix epoch g.label g.fresh).freeBlocks at member
      have sameConfig := congrArg (·.config) rest
      dsimp only at sameConfig
      change x < (evicted.writeAllocated g.owner g.suffix epoch g.label g.fresh).config.totalNumBlocks
      rw [sameConfig]
      exact consistent.ordered.free x ((written.free x).mp member).1
    · have sameIndex := congrArg (·.prefixIndex) rest
      dsimp only at sameIndex
      change IndexOrdered
        (evicted.writeAllocated g.owner g.suffix epoch g.label g.fresh).prefixIndex
      rw [sameIndex]
      exact consistent.ordered.buckets
    · change ((evicted.writeAllocated g.owner g.suffix epoch g.label g.fresh).block x).provenance = _
        at shared
      change ((evicted.writeAllocated g.owner g.suffix epoch g.label g.fresh).block x).prefixKey ≠ none
      rw [keys]
      by_cases member : x ∈ g.fresh
      · obtain ⟨i, found⟩ := List.mem_iff_getElem?.mp member
        rw [written.inside i x found] at shared
        exact absurd (Option.some.inj shared) (serves.label_private _)
      · rw [written.outside x member] at shared
        exact consistent.ordered.shared x shared

namespace Allocated

variable {g : Grant} {next : KVCacheManager}

/-- An allocation clears the keys of its victims and no others. -/
theorem key (effect : manager.Allocated g next) (serves : g.Serves manager)
    (sound : manager.Sound) (x : Nat) :
    (next.block x).prefixKey = if x ∈ g.victims then none else (manager.block x).prefixKey := by
  by_cases fresh : x ∈ g.fresh
  · obtain ⟨i, found⟩ := List.mem_iff_getElem?.mp fresh
    rw [effect.written i x found]
    split
    · rfl
    · next notVictim =>
        rw [(sound.free ((serves.fresh_available fresh).resolve_right notVictim)).2]
        rfl
  · by_cases victim : x ∈ g.victims
    · rw [effect.freed x victim fresh, if_pos victim]
    · rw [if_neg victim]
      by_cases matched : x ∈ g.matched
      · rw [effect.acquired x matched]
        rfl
      · rw [effect.outside x matched victim fresh]

/-- A block of a live table: not a victim, not taken, and unchanged up to its references. -/
theorem live (effect : manager.Allocated g next) (serves : g.Serves manager)
    (sound : manager.Sound) {id : RequestId} {table : List Nat}
    (found : manager.blockTables.find? id = some table) {x : Nat} (member : x ∈ table) :
    x ∉ g.victims ∧ x ∉ g.fresh ∧ (next.block x).provenance = (manager.block x).provenance ∧
      (next.block x).validTokenCount = (manager.block x).validTokenCount := by
  obtain ⟨-, notFree, inUse⟩ := sound.live found member
  have notVictim : x ∉ g.victims := fun victim => by
    have cached := (serves.victim sound victim).1
    rw [inUse] at cached
    cases cached
  have notFresh : x ∉ g.fresh := fun fresh =>
    (serves.fresh_available fresh).elim notFree notVictim
  refine ⟨notVictim, notFresh, ?_⟩
  by_cases matched : x ∈ g.matched
  · rw [effect.acquired x matched]
    exact ⟨by simp [acquiredBlock, inUse], rfl⟩
  · rw [effect.outside x matched notVictim notFresh]
    exact ⟨rfl, rfl⟩

/-- With a valid table for the new request, the result is valid exactly when no victim was
pinned. -/
theorem valid_iff (effect : manager.Allocated g next) (serves : g.Serves manager)
    (sound : manager.Sound) (consistent : next.Consistent next.blockTables)
    (entry : EntryValid next g.owner (g.matched ++ g.fresh) g.record) :
    next.Valid ↔ ∀ x ∈ g.victims, ¬ manager.Pinned x := by
  have old : ∀ {id : RequestId} {table : List Nat} {p : RequestKVPromptProvenance},
      manager.blockTables.find? id = some table → manager.requestProvenance.find? id = some p →
      (EntryValid next id table p ↔ ∀ x ∈ g.victims, ¬ PinnedBy manager table p x) := by
    intro id table p found recorded
    obtain ⟨p', recorded', valid⟩ := sound.valid.entries id table found
    rw [recorded, Option.some.injEq] at recorded'
    subst recorded'
    have step : EntryValid next id (table ++ []) p ↔ _ :=
      valid.advance sound.valid.index effect.setup effect.length (effect.key serves sound) (fun x member => by
        obtain ⟨notVictim, -, provenance, count⟩ := effect.live serves sound found member
        exact ⟨notVictim, provenance, count.ge⟩)
      (by rw [List.append_nil]; exact valid.nodup) (by simp) (by simp)
    rwa [List.append_nil] at step
  have different : ∀ {id : RequestId} {table : List Nat},
      manager.blockTables.find? id = some table → id ≠ g.owner := by
    rintro id table found rfl
    rw [serves.unknown] at found
    cases found
  constructor
  · rintro valid x victim ⟨id, table, p, found, recorded, pinned⟩
    have apart := different found
    obtain ⟨p', recorded', after⟩ := valid.entries id table (by
      rw [effect.tables, OrdMap.find?_insert, if_neg apart, found])
    rw [effect.provenance, OrdMap.find?_insert, if_neg apart, recorded, Option.some.injEq]
      at recorded'
    subst recorded'
    exact (old found recorded).mp after x victim pinned
  · intro unpinned
    refine ⟨?_, fun id p recorded => ?_, fun id table found => ?_, consistent.blocks,
      consistent.index⟩
    · rw [effect.peak, effect.length]
      refine max_le sound.valid.peak ?_
      rw [← effect.length]
      exact Nat.sub_le _ _
    · rw [effect.provenance, OrdMap.find?_insert] at recorded
      rw [effect.tables, OrdMap.find?_insert]
      split at recorded
      · next same => exact ⟨_, by rw [if_pos same]⟩
      · next apart =>
          rw [if_neg apart]
          exact sound.valid.tables id p recorded
    · rw [effect.tables, OrdMap.find?_insert] at found
      rw [effect.provenance, OrdMap.find?_insert]
      split at found
      · next same =>
          cases found
          subst same
          exact ⟨_, by rw [if_pos rfl], entry⟩
      · next apart =>
          rw [if_neg apart]
          obtain ⟨p, recorded, -⟩ := sound.valid.entries id table found
          exact ⟨p, recorded, (old found recorded).mpr fun x victim pinned =>
            unpinned x victim ⟨id, table, p, found, recorded, pinned⟩⟩

end Allocated

end KVCacheManager

end LlmLab.Serving
