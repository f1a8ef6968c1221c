import LlmLab.Serving.KVCache.PromptOps

/-!
# Decode growth

`append_decode_token_exact` either grows the last block of a table, which it alone holds and
which is neither keyed nor full, or extends the table by a new block.
-/

namespace LlmLab.Serving

open KVCacheManager

namespace KVCacheManager

variable {manager next : KVCacheManager} {id : RequestId} {table victims : List Nat} {y : Nat}

/-! ## Which of the two -/

/-- The test of `decode_requires_new_block` on a table. -/
def NeedsBlock (manager : KVCacheManager) (table : List Nat) : Prop :=
  ∀ last, table.getLast? = some last → (manager.block last).prefixKey ≠ none ∨
    1 < (manager.block last).referenceCount ∨
    (manager.block last).validTokenCount = manager.config.blockSizeTokens

/-- The test for a new block decides `NeedsBlock`. -/
theorem decodeRequiresNewBlock_eq (sound : manager.Sound)
    (found : manager.blockTables.find? id = some table) :
    ∃ newBlock, manager.decodeRequiresNewBlock id = .ok newBlock ∧
      (newBlock = true ↔ manager.NeedsBlock table) := by
  unfold decodeRequiresNewBlock NeedsBlock
  rw [throwIf_of_not (by simp [validateInvariants_iff.mpr sound.valid]), except_ok_bind, found]
  dsimp only
  cases last : table.getLast? with
  | none => exact ⟨true, rfl, by simp⟩
  | some x =>
      have member := List.mem_of_getLast? last
      obtain ⟨inside, notFree, inUse⟩ := sound.live found member
      have bound : x < manager.config.totalNumBlocks := sound.valid.blocks.length ▸ inside
      have claimed : 0 < occurrencesIn manager.blockTables x :=
        HoldsIn.occurrences_pos ⟨table, found, member⟩
      have shape := sound.valid.blocks.block x bound
      have wellFormed : ¬ ((manager.block x).state ≠ .inUse ∨
          (manager.block x).referenceCount = 0 ∨ (manager.block x).validTokenCount = 0 ∨
          (manager.block x).validTokenCount > manager.config.blockSizeTokens) := by
        have size := manager.config.blockSize_pos
        change BlockValid _ _ _ _ _ x (manager.block x) at shape
        revert inUse shape
        generalize manager.block x = block
        intro inUse shape
        cases shape with
        | free => cases inUse
        | cached => cases inUse
        | shared => simp; omega
        | owned _ _ _ valid_pos valid_le => simp; omega
      dsimp only
      rw [throwIf_of_not (by omega), except_ok_bind, throwIf_of_not wellFormed, except_ok_bind]
      refine ⟨_, rfl, ?_⟩
      simp only [Bool.or_eq_true, decide_eq_true_eq, Option.isSome_iff_ne_none,
        Option.some.injEq, forall_eq', or_assoc, gt_iff_lt]

/-! ## Growing the last block -/

/-- The last block of the table takes one more token. -/
structure Grown (manager : KVCacheManager) (id : RequestId) (table : List Nat) (last : Nat)
    (next : KVCacheManager) : Prop where
  found : manager.blockTables.find? id = some table
  isLast : table.getLast? = some last
  unkeyed : (manager.block last).prefixKey = none
  single : (manager.block last).referenceCount ≤ 1
  room : (manager.block last).validTokenCount ≠ manager.config.blockSizeTokens
  result : next = KVCacheManager.updatePeak { manager with
    blocks := manager.blocks.modify last (grownBlock (manager.accessEpoch + 1))
    representedTokenCount := manager.representedTokenCount + 1
    accessEpoch := manager.accessEpoch + 1 }

namespace Grown

variable {last : Nat}

theorem member (effect : manager.Grown id table last next) : last ∈ table :=
  List.mem_of_getLast? effect.isLast

theorem block (effect : manager.Grown id table last next) (sound : manager.Sound) (x : Nat) :
    next.block x = if x = last then grownBlock (manager.accessEpoch + 1) (manager.block last)
      else manager.block x := by
  rw [effect.result]
  exact block_modifyBlock (sound.live effect.found effect.member).1 _ x

theorem setup (effect : manager.Grown id table last next) : manager.SameSetup next := by
  rw [effect.result]
  exact ⟨rfl, rfl, rfl⟩

theorem key (effect : manager.Grown id table last next) (sound : manager.Sound) (x : Nat) :
    (next.block x).prefixKey = (manager.block x).prefixKey := by
  rw [effect.block sound]
  split
  · next same => rw [same]; rfl
  · rfl

/-- Growing a block needs no eviction, so it always passes the closing check. -/
theorem sound (effect : manager.Grown id table last next) (sound : manager.Sound) :
    next.Sound := by
  have block_eq := effect.block sound
  have inside := (sound.live effect.found effect.member).1
  have keys := effect.key sound
  have provenance : ∀ x, (next.block x).provenance = (manager.block x).provenance ∧
      (manager.block x).validTokenCount ≤ (next.block x).validTokenCount := fun x => by
    rw [block_eq]
    split
    · next same => rw [same]; exact ⟨rfl, Nat.le_succ _⟩
    · exact ⟨rfl, le_rfl⟩
  have length : next.blocks.length = manager.blocks.length := by
    rw [effect.result]
    exact List.length_modify ..
  have setup := effect.setup
  have tables : next.blockTables = manager.blockTables := by rw [effect.result]; rfl
  have records : next.requestProvenance = manager.requestProvenance := by rw [effect.result]; rfl
  have blocks := sound.valid.blocks.grow (sound.valid.blocks.length ▸ inside)
    ⟨table, effect.found, effect.member⟩ effect.unkeyed effect.room
  refine ⟨⟨?_, fun other p recorded => ?_, fun other held found => ?_, ?_, ?_⟩, fun x isFree => ?_,
    ?_, fun x shared => ?_⟩
  · rw [length, effect.result]
    exact max_le sound.valid.peak ((Nat.sub_le _ _).trans (List.length_modify ..).le)
  · rw [tables]
    rw [records] at recorded
    exact sound.valid.tables other p recorded
  · rw [tables] at found
    rw [records]
    obtain ⟨p, recorded, entry⟩ := sound.valid.entries other held found
    have step : EntryValid next other (held ++ []) p ↔ ∀ x ∈ ([] : List Nat), _ :=
      entry.advance sound.valid.index setup length (fun x => by simpa using keys x)
        (fun x _ => ⟨List.not_mem_nil, provenance x⟩)
        (by rw [List.append_nil]; exact entry.nodup) (by simp) (by simp)
    rw [List.append_nil] at step
    exact ⟨p, recorded, step.mpr (by simp)⟩
  · rw [effect.result]
    exact blocks
  · have index := sound.valid.index.congrKeys length keys
    rw [setup.config, setup.prefixConfig, setup.hashFunction]
    have sameIndex : next.prefixIndex = manager.prefixIndex := by rw [effect.result]; rfl
    rw [sameIndex]
    exact index
  · rw [effect.result] at isFree ⊢
    exact sound.ordered.free x isFree
  · rw [effect.result]
    exact sound.ordered.buckets
  · rw [(provenance x).1] at shared
    rw [keys]
    exact sound.ordered.shared x shared

end Grown

/-! ## Extending the table -/

/-- The table gains a new block `y`, after the victims are evicted. -/
structure Extended (manager : KVCacheManager) (id : RequestId) (table victims : List Nat) (y : Nat)
    (next : KVCacheManager) : Prop where
  found : manager.blockTables.find? id = some table
  cached : ∀ x ∈ victims, (manager.block x).state = .cached
  available : y ∈ manager.freeBlocks ∨ y ∈ victims
  setup : manager.SameSetup next
  length : next.blocks.length = manager.blocks.length
  tables : next.blockTables = manager.blockTables.insert id (table ++ [y])
  provenance : next.requestProvenance = manager.requestProvenance
  outside : ∀ x, x ∉ victims → x ≠ y → next.block x = manager.block x
  freed : ∀ x ∈ victims, x ≠ y → next.block x = { blockId := x }
  written : next.block y = decodeBlock id (manager.accessEpoch + 1) { blockId := y }
  free : ∀ x, x ∈ next.freeBlocks ↔ (x ∈ manager.freeBlocks ∨ x ∈ victims) ∧ x ≠ y
  represented : next.representedTokenCount + victims.length * manager.config.blockSizeTokens =
    manager.representedTokenCount + 1
  epoch : next.accessEpoch = manager.accessEpoch + 1
  peak : next.peakAllocatedBlockCount =
    max manager.peakAllocatedBlockCount next.allocatedBlockCount
  failures : next.allocationFailureCount = manager.allocationFailureCount
  metrics : next.prefixMetrics = { manager.prefixMetrics with
    evictionCount := manager.prefixMetrics.evictionCount + victims.length }

/-- The new block is written once the victims are gone. -/
theorem extended_of_evicted {evicted : KVCacheManager}
    (found : manager.blockTables.find? id = some table)
    (victims_cached : ∀ x ∈ victims, (manager.block x).state = .cached)
    (available : y ∈ manager.freeBlocks ∨ y ∈ victims)
    (effect : manager.Evicted victims evicted)
    (consistent : evicted.Consistent manager.blockTables)
    (result : next = KVCacheManager.updatePeak { evicted with
      freeBlocks := evicted.freeBlocks.erase y
      blockTables := evicted.blockTables.insert id (table ++ [y])
      blocks := evicted.blocks.modify y (decodeBlock id (evicted.accessEpoch + 1))
      representedTokenCount := evicted.representedTokenCount + 1
      accessEpoch := evicted.accessEpoch + 1 }) :
    manager.Extended id table victims y next ∧ next.Consistent next.blockTables := by
  have isFree : y ∈ evicted.freeBlocks := (effect.free y).mpr available.symm
  have bound := consistent.ordered.free y isFree
  have inside : y < evicted.blocks.length := consistent.blocks.length.symm ▸ bound
  have blank : evicted.block y = { blockId := y } :=
    ((consistent.blocks.block y bound).eq_free isFree).1
  have block_eq : ∀ x, next.block x = if x = y then
      decodeBlock id (evicted.accessEpoch + 1) { blockId := y } else evicted.block x := fun x => by
    rw [result, ← blank]
    exact block_modifyBlock inside _ x
  have tables : next.blockTables = manager.blockTables.insert id (table ++ [y]) := by
    rw [result, ← effect.tables]
    rfl
  have size := evicted.config.blockSize_pos
  have taken : BlocksValid evicted.config (evicted.blocks.modify y
      (decodeBlock id (evicted.accessEpoch + 1))) (evicted.freeBlocks.erase y)
      (evicted.accessEpoch + 1) (manager.blockTables.insert id (table ++ [y]))
      (evicted.representedTokenCount + 1) := by
    have start := consistent.blocks
    rw [← OrdMap.insert_of_find? found] at start
    exact start.take bound isFree (List.perm_append_singleton y table) rfl Nat.one_pos size
      (fun cacheable => by cases cacheable) (Nat.succ_pos _) le_rfl (Nat.le_succ _)
  refine ⟨⟨found, victims_cached, available, ?_, ?_, tables, ?_, fun x notVictim apart => ?_,
    fun x victim apart => ?_, ?_, fun x => ?_, ?_, ?_, ?_, ?_, ?_⟩, ?_⟩
  · rw [result]
    exact ⟨effect.setup.config, effect.setup.prefixConfig, effect.setup.hashFunction⟩
  · rw [result]
    exact (List.length_modify ..).trans effect.length
  · rw [result]
    exact effect.provenance
  · rw [block_eq, if_neg apart, effect.block, if_neg notVictim]
  · rw [block_eq, if_neg apart, effect.block, if_pos victim]
  · rw [block_eq, if_pos rfl, effect.epoch]
  · rw [result]
    change x ∈ evicted.freeBlocks.erase y ↔ _
    rw [OrdSet.mem_erase, effect.free]
    tauto
  · have before := effect.represented
    rw [result]
    change evicted.representedTokenCount + 1 + _ = _
    omega
  · rw [result, ← effect.epoch]
    rfl
  · rw [result, ← effect.peak]
    rfl
  · rw [result, ← effect.failures]
    rfl
  · rw [result]
    exact effect.metrics
  · rw [tables]
    have keys : ∀ x, (next.block x).prefixKey = (evicted.block x).prefixKey := fun x => by
      rw [block_eq]
      split
      · next same => rw [same, blank]; rfl
      · rfl
    refine ⟨?_, ?_, fun x member => ?_, ?_, fun x shared => ?_⟩
    · rw [result]
      exact taken
    · have sameLength : next.blocks.length = evicted.blocks.length := by
        rw [result]
        exact List.length_modify ..
      have index := consistent.index.congrKeys sameLength keys
      rw [result] at index ⊢
      exact index
    · rw [result] at member ⊢
      exact consistent.ordered.free x (OrdSet.mem_erase.mp member).2
    · rw [result]
      exact consistent.ordered.buckets
    · rw [keys]
      rw [block_eq] at shared
      split at shared
      · cases shared
      · exact consistent.ordered.shared x shared

namespace Extended

theorem key (effect : manager.Extended id table victims y next) (sound : manager.Sound) (x : Nat) :
    (next.block x).prefixKey = if x ∈ victims then none else (manager.block x).prefixKey := by
  by_cases same : x = y
  · subst same
    rw [effect.written]
    split
    · rfl
    · next notVictim =>
        rw [(sound.free (effect.available.resolve_right notVictim)).2]
        rfl
  · by_cases victim : x ∈ victims
    · rw [effect.freed x victim same, if_pos victim]
    · rw [effect.outside x victim same, if_neg victim]

/-- A block of a live table stays as it is. -/
theorem live (effect : manager.Extended id table victims y next) (sound : manager.Sound)
    {other : RequestId} {held : List Nat} (found : manager.blockTables.find? other = some held)
    {x : Nat} (member : x ∈ held) : x ∉ victims ∧ x ≠ y ∧ next.block x = manager.block x := by
  obtain ⟨-, notFree, inUse⟩ := sound.live found member
  have notVictim : x ∉ victims := fun victim => by
    have cached := effect.cached x victim
    rw [inUse] at cached
    cases cached
  have apart : x ≠ y := by
    rintro rfl
    exact effect.available.elim notFree notVictim
  exact ⟨notVictim, apart, effect.outside x notVictim apart⟩

/-- The new block is in range. -/
theorem inside (effect : manager.Extended id table victims y next) (sound : manager.Sound) :
    y < manager.blocks.length := by
  rcases effect.available with isFree | victim
  · exact (sound.free isFree).1
  · exact (sound.keyed (sound.cached (effect.cached y victim))).1

/-- A decode append in a new block leaves a valid manager exactly when it evicts no pinned block. -/
theorem valid_iff (effect : manager.Extended id table victims y next) (sound : manager.Sound)
    (consistent : next.Consistent next.blockTables) :
    next.Valid ↔ ∀ x ∈ victims, ¬ manager.Pinned x := by
  have old : ∀ {other : RequestId} {held : List Nat} {p : RequestKVPromptProvenance},
      manager.blockTables.find? other = some held →
      manager.requestProvenance.find? other = some p →
      (EntryValid next other (held ++ if other = id then [y] else []) p ↔
        ∀ x ∈ victims, ¬ PinnedBy manager held p x) := by
    intro other held p found recorded
    obtain ⟨p', recorded', entry⟩ := sound.valid.entries other held found
    rw [recorded, Option.some.injEq] at recorded'
    subst recorded'
    have kept : ∀ x ∈ held, x ∉ victims ∧
        (next.block x).provenance = (manager.block x).provenance ∧
        (manager.block x).validTokenCount ≤ (next.block x).validTokenCount := fun x member => by
      obtain ⟨notVictim, -, same⟩ := effect.live sound found member
      rw [same]
      exact ⟨notVictim, rfl, le_rfl⟩
    refine entry.advance sound.valid.index effect.setup effect.length (effect.key sound) kept
      ?_ ?_ ?_
    · split
      · refine List.nodup_append.mpr ⟨entry.nodup, List.nodup_singleton y, ?_⟩
        rintro x member z single rfl
        rw [List.mem_singleton] at single
        exact (effect.live sound found member).2.1 single
      · rw [List.append_nil]
        exact entry.nodup
    · intro x member
      split at member
      · rw [List.mem_singleton] at member
        subst member
        exact effect.inside sound
      · cases member
    · intro x member
      split at member
      · rw [List.mem_singleton] at member
        subst member
        rw [effect.written]
        rfl
      · cases member
  have table_eq : ∀ {other : RequestId} {held : List Nat},
      manager.blockTables.find? other = some held → next.blockTables.find? other =
        some (held ++ if other = id then [y] else []) := fun {other held} found => by
    rw [effect.tables, OrdMap.find?_insert]
    split
    · next same =>
        subst same
        rw [effect.found, Option.some.injEq] at found
        rw [found]
    · rw [List.append_nil, found]
  constructor
  · rintro valid x victim ⟨other, held, p, found, recorded, pinned⟩
    obtain ⟨p', recorded', after⟩ := valid.entries other _ (table_eq found)
    rw [effect.provenance, recorded, Option.some.injEq] at recorded'
    subst recorded'
    exact (old found recorded).mp after x victim pinned
  · intro unpinned
    refine ⟨?_, fun other p recorded => ?_, fun other held found => ?_, consistent.blocks,
      consistent.index⟩
    · rw [effect.peak, effect.length]
      refine max_le sound.valid.peak ?_
      rw [← effect.length]
      exact Nat.sub_le _ _
    · rw [effect.provenance] at recorded
      obtain ⟨held, found⟩ := sound.valid.tables other p recorded
      exact ⟨_, table_eq found⟩
    · obtain ⟨before, present⟩ : ∃ before, manager.blockTables.find? other = some before := by
        rw [effect.tables, OrdMap.find?_insert] at found
        split at found
        · next same => exact ⟨table, same ▸ effect.found⟩
        · exact ⟨held, found⟩
      rw [table_eq present, Option.some.injEq] at found
      obtain ⟨p, recorded, -⟩ := sound.valid.entries other before present
      rw [effect.provenance, ← found]
      exact ⟨p, recorded, (old present recorded).mpr fun x victim pinned =>
        unpinned x victim ⟨other, before, p, present, recorded, pinned⟩⟩

end Extended

/-! ## The operation -/

/-- The victims of a decode append that needs a block. -/
def decodeVictims (manager : KVCacheManager) : List Nat :=
  if manager.freeBlocks.size = 0 then manager.eligibleEvictionOrder.take 1 else []

theorem decodeVictims_eq_take (manager : KVCacheManager) :
    manager.decodeVictims =
      manager.eligibleEvictionOrder.take manager.decodeVictims.length := by
  unfold decodeVictims
  split
  · cases manager.eligibleEvictionOrder <;> simp
  · simp

theorem length_decodeVictims_le (manager : KVCacheManager) :
    manager.decodeVictims.length ≤ manager.eligibleEvictionOrder.length := by
  unfold decodeVictims
  split
  · simp
  · simp

/-- With a free or a cached block there is one to take. -/
theorem exists_decodeBlock (some' : manager.freeBlocks.size ≠ 0 ∨
      manager.eligibleEvictionOrder ≠ []) :
    ∃ y, (manager.freeBlocks.insertAll manager.decodeVictims).elems.head? = some y ∧
      (y ∈ manager.freeBlocks ∨ y ∈ manager.decodeVictims) := by
  have nonempty : ∃ y, y ∈ manager.freeBlocks.insertAll manager.decodeVictims := by
    by_cases none : manager.freeBlocks.size = 0
    · obtain ⟨v, rest, order⟩ := List.exists_cons_of_ne_nil (some'.resolve_left (not_not.mpr none))
      exact ⟨v, OrdSet.mem_insertAll.mpr (Or.inl (by simp [decodeVictims, none, order]))⟩
    · obtain ⟨y, rest, elems⟩ := List.exists_cons_of_ne_nil
        (fun empty => none (by rw [OrdSet.size, empty]; rfl) : manager.freeBlocks.elems ≠ [])
      exact ⟨y, OrdSet.mem_insertAll.mpr (Or.inr (by rw [OrdSet.mem_def, elems]; simp))⟩
  obtain ⟨x, member⟩ := nonempty
  obtain ⟨y, rest, elems⟩ := List.exists_cons_of_ne_nil (List.ne_nil_of_mem member)
  refine ⟨y, by rw [elems]; rfl, ?_⟩
  have first : y ∈ manager.freeBlocks.insertAll manager.decodeVictims := by
    rw [OrdSet.mem_def, elems]
    exact List.mem_cons_self
  exact (OrdSet.mem_insertAll.mp first).symm

/-- The plan that `append_decode_token_exact` accepts for a live table. -/
structure DecodePlan (manager : KVCacheManager) (id : RequestId) (table : List Nat)
    (evictionIds : List Nat) (allocationId : Option Nat) : Prop where
  found : manager.blockTables.find? id = some table
  fresh : manager.NeedsBlock table →
    (manager.freeBlocks.size ≠ 0 ∨ manager.eligibleEvictionOrder ≠ []) ∧
      evictionIds = manager.decodeVictims ∧
      allocationId = (manager.freeBlocks.insertAll evictionIds).elems.head?
  grows : ¬ manager.NeedsBlock table → evictionIds = [] ∧ allocationId = none

/-- The effect of an accepted decode append. -/
inductive Appended (manager : KVCacheManager) (id : RequestId) (evictionIds : List Nat)
    (allocationId : Option Nat) (next : KVCacheManager) : Prop
  | grown {table : List Nat} {last : Nat} : ¬ manager.NeedsBlock table → evictionIds = [] →
      manager.Grown id table last next → Appended manager id evictionIds allocationId next
  | extended {table : List Nat} {y : Nat} : manager.NeedsBlock table → allocationId = some y →
      manager.Extended id table evictionIds y next → next.Consistent next.blockTables →
      Appended manager id evictionIds allocationId next

theorem Appended.valid_iff {evictionIds : List Nat} {allocationId : Option Nat}
    (effect : manager.Appended id evictionIds allocationId next) (sound : manager.Sound) :
    next.Valid ↔ ∀ x ∈ evictionIds, ¬ manager.Pinned x := by
  cases effect with
  | grown _ none grown =>
      subst none
      refine ⟨fun _ x member => ?_, fun _ => (grown.sound sound).valid⟩
      cases member
  | extended _ _ extended consistent => exact extended.valid_iff sound consistent

theorem Appended.setup {evictionIds : List Nat} {allocationId : Option Nat}
    (effect : manager.Appended id evictionIds allocationId next) : manager.SameSetup next := by
  cases effect with
  | grown _ _ grown => exact grown.setup
  | extended _ _ extended _ => exact extended.setup

theorem Appended.ordered {evictionIds : List Nat} {allocationId : Option Nat}
    (effect : manager.Appended id evictionIds allocationId next) (sound : manager.Sound) :
    next.Ordered := by
  cases effect with
  | grown _ _ grown => exact (grown.sound sound).ordered
  | extended _ _ _ consistent => exact consistent.ordered

/-- The body of the decode append carries its plan out, or refuses one that is none. -/
theorem appendDecodeTokenExactUnchecked_ensures (sound : manager.Sound) {evictionIds : List Nat}
    {allocationId : Option Nat} :
    Ensures (Refuses (∃ table, manager.DecodePlan id table evictionIds allocationId))
      (fun next => (∃ table, manager.DecodePlan id table evictionIds allocationId) ∧
        manager.Appended id evictionIds allocationId next)
      (manager.appendDecodeTokenExactUnchecked id evictionIds allocationId) := by
  unfold appendDecodeTokenExactUnchecked
  cases found : manager.blockTables.find? id with
  | none =>
      refine Or.inr fun ⟨table, plan⟩ => ?_
      rw [plan.found] at found
      cases found
  | some table =>
      have unique : ∀ {other}, manager.DecodePlan id other evictionIds allocationId →
          other = table := fun plan => by
        have same := plan.found
        rw [found, Option.some.injEq] at same
        exact same.symm
      refine .throwIf_bind (fun _ => Or.inl trivial) fun _ => ?_
      obtain ⟨newBlock, decided, needs⟩ := decodeRequiresNewBlock_eq sound found
      rw [decided, except_ok_bind]
      cases newBlock with
      | false =>
          have stays : ¬ manager.NeedsBlock table := fun need => by simpa using needs.mpr need
          rw [decodePlan, if_neg (by simp), except_ok_bind]
          dsimp only
          refine .throwIf_bind (fun bad => Or.inr fun ⟨other, plan⟩ => ?_) fun same => ?_
          · obtain rfl := unique plan
            obtain ⟨none, noBlock⟩ := plan.grows stays
            exact bad.elim (fun bad => bad none) fun bad => bad noBlock
          obtain ⟨rfl, rfl⟩ : evictionIds = [] ∧ allocationId = none := by
            constructor
            · by_contra bad
              exact same (Or.inl bad)
            · by_contra bad
              exact same (Or.inr bad)
          change Ensures _ _ (Except.ok manager >>= _)
          rw [except_ok_bind]
          refine ((inc_ensures _ _).mono_allowed fun _ => Or.inl).bind fun epoch epoch_eq => ?_
          subst epoch_eq
          rw [writeDecoded, if_neg (by simp), except_ok_bind]
          obtain ⟨last, isLast, full⟩ : ∃ last, table.getLast? = some last ∧
              ¬ ((manager.block last).prefixKey ≠ none ∨
                1 < (manager.block last).referenceCount ∨
                (manager.block last).validTokenCount = manager.config.blockSizeTokens) := by
            unfold NeedsBlock at stays
            push Not at stays
            obtain ⟨last, isLast, rest⟩ := stays
            exact ⟨last, isLast, by push Not; exact rest⟩
          push Not at full
          have last_eq : table.getLastD 0 = last := by
            rw [List.getLastD_eq_getLast?, isLast]
            rfl
          rw [last_eq]
          exact ⟨⟨table, found, fun need => absurd need stays, fun _ => ⟨rfl, rfl⟩⟩,
            .grown stays rfl ⟨found, isLast, full.1, full.2.1, full.2.2, rfl⟩⟩
      | true =>
          have need := needs.mp rfl
          rw [decodePlan, if_pos rfl]
          by_cases empty : manager.freeBlocks.size = 0 ∧ manager.eligibleEvictionOrder = []
          · rw [if_pos empty]
            refine Or.inr fun ⟨other, plan⟩ => ?_
            obtain rfl := unique plan
            exact (plan.fresh need).1.elim (fun some => some empty.1) fun some => some empty.2
          rw [if_neg empty, except_ok_bind]
          dsimp only
          refine .throwIf_bind (fun bad => Or.inr fun ⟨other, plan⟩ => ?_) fun same => ?_
          · obtain rfl := unique plan
            obtain ⟨-, victims, block⟩ := plan.fresh need
            refine bad.elim (fun bad => bad victims) fun bad => bad ?_
            rw [block, victims]
            rfl
          obtain ⟨victims, block⟩ : evictionIds = manager.decodeVictims ∧
              allocationId = (manager.freeBlocks.insertAll manager.decodeVictims).elems.head? := by
            constructor
            · by_contra bad
              exact same (Or.inl bad)
            · by_contra bad
              exact same (Or.inr bad)
          subst victims
          have some' : manager.freeBlocks.size ≠ 0 ∨ manager.eligibleEvictionOrder ≠ [] := by
            tauto
          obtain ⟨y, first, available⟩ := exists_decodeBlock some'
          have cached : ∀ x ∈ manager.decodeVictims, (manager.block x).state = .cached := by
            intro x member
            rw [decodeVictims_eq_take] at member
            exact (mem_eligibleEvictionOrder sound.blockIds).mp (List.mem_of_mem_take member)
          refine ((evictExactBlocksInPlace_ensures sound.consistent
            manager.length_decodeVictims_le manager.decodeVictims_eq_take).mono_allowed
            fun _ => Or.inl).bind fun evicted spec => ?_
          refine ((inc_ensures _ _).mono_allowed fun _ => Or.inl).bind fun epoch epoch_eq => ?_
          subst epoch_eq
          rw [block, first, writeDecoded, if_pos rfl, except_ok_bind]
          obtain ⟨effect, consistent⟩ :=
            extended_of_evicted found cached available spec.1 spec.2 rfl
          exact ⟨⟨table, found, fun _ => ⟨some', rfl, first.symm⟩, fun stays => absurd need stays⟩,
            .extended need rfl effect consistent⟩

end KVCacheManager

end LlmLab.Serving
