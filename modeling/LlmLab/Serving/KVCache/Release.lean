import LlmLab.Serving.KVCache.PromptOps

/-!
# Release

`release_request` drops one reference from each block of a table: a block that is still
referenced stays, the last reference leaves a keyed block cached and frees a private one.
-/

namespace LlmLab.Serving

open KVCacheManager

namespace KVCacheManager

variable {manager next : KVCacheManager} {id : RequestId} {table : List Nat}

/-- What `release_request` leaves of one block. -/
def droppedBlock (block : PhysicalKVBlock) : PhysicalKVBlock :=
  if block.referenceCount - 1 ≠ 0 then
    { block with referenceCount := block.referenceCount - 1, state := .inUse, owner := none }
  else if block.prefixKey.isSome then
    { block with referenceCount := block.referenceCount - 1, state := .cached, owner := none }
  else
    { block with
      referenceCount := block.referenceCount - 1, state := .free, owner := none
      validTokenCount := 0, lastAccessEpoch := 0, provenance := none }

/-- The state of the loop once `done` is released and `rest` is not. -/
structure Releasing (manager : KVCacheManager) (id : RequestId) (done rest : List Nat)
    (state : KVCacheManager) : Prop where
  others : state = { manager with
    blocks := state.blocks, freeBlocks := state.freeBlocks
    representedTokenCount := state.representedTokenCount }
  length : state.blocks.length = manager.blocks.length
  block : ∀ x, state.block x =
    if x ∈ done then droppedBlock (manager.block x) else manager.block x
  free : ∀ x, x ∈ state.freeBlocks ↔
    x ∈ manager.freeBlocks ∨ (x ∈ done ∧ (state.block x).state = .free)
  valid : BlocksValid manager.config state.blocks state.freeBlocks manager.accessEpoch
    (manager.blockTables.insert id rest) state.representedTokenCount

/-- One turn of the release loop. -/
theorem releaseBlock_ensures {done rest : List Nat} {x : Nat} {state : KVCacheManager}
    (loop : manager.Releasing id done (x :: rest) state) (fresh : x ∉ done)
    (inside : x < manager.blocks.length) :
    Ensures (fun _ => False) (manager.Releasing id (done ++ [x]) rest)
      (state.releaseBlock x) := by
  have bound : x < state.blocks.length := loop.length.symm ▸ inside
  have bound' : x < manager.config.totalNumBlocks := loop.valid.length ▸ bound
  have same : state.block x = manager.block x := by rw [loop.block, if_neg fresh]
  have claimed : 0 < occurrencesIn (manager.blockTables.insert id (x :: rest)) x := by
    rw [occurrencesIn_insert, List.count_cons_self]
    omega
  have blocks : ∀ f : PhysicalKVBlock → PhysicalKVBlock,
      f (manager.block x) = droppedBlock (manager.block x) → ∀ y,
        (state.modifyBlock x f).block y = if y ∈ done ++ [x] then droppedBlock (manager.block y)
          else manager.block y := fun f written y => by
    rw [block_modifyBlock bound, same, written, loop.block]
    by_cases here : y = x
    · subst here
      simp
    · simp [here]
  unfold releaseBlock
  rcases loop.valid.claimed_shape bound' claimed with
    ⟨e, key, p, pos, le, cacheable, shape⟩ | ⟨once, e, count, holder, p, small, shape⟩
  · obtain ⟨k, references⟩ : ∃ k,
        occurrencesIn (manager.blockTables.insert id (x :: rest)) x = k + 1 :=
      ⟨_, (Nat.succ_pred_eq_of_pos claimed).symm⟩
    rw [references] at shape
    have shape' : state.block x = _ := shape
    have keeps : ∀ {f : PhysicalKVBlock → PhysicalKVBlock},
        f (state.block x) = droppedBlock (state.block x) →
        manager.Releasing id (done ++ [x]) rest (state.modifyBlock x f) := fun {f} written => by
      have block_eq := blocks f (by rw [← same]; exact written)
      have dropped : droppedBlock (state.block x) =
          { blockId := x, state := if k = 0 then .cached else .inUse, referenceCount := k
            validTokenCount := manager.config.blockSizeTokens, lastAccessEpoch := e
            prefixKey := some key, provenance := some p } := by
        rw [shape']
        unfold droppedBlock
        by_cases last : k = 0 <;> simp [last]
      refine ⟨by rw [modifyBlock, loop.others], (List.length_modify ..).trans loop.length, block_eq,
        fun y => ?_, ?_⟩
      · change y ∈ state.freeBlocks ↔ _
        rw [loop.free, block_eq, loop.block]
        by_cases here : y = x
        · subst here
          rw [if_neg fresh, ← same, dropped]
          by_cases last : k = 0 <;> simp [fresh, last]
        · simp [here]
      · exact loop.valid.dropShared bound' references pos le cacheable shape
          (written.trans dropped)
    simp only [shape']
    rw [throwIf_of_not (by simp), except_ok_bind]
    by_cases last : k = 0
    · subst last
      rw [if_neg (by simp), if_pos (by simp)]
      exact keeps (by rw [shape']; rfl)
    · rw [if_pos (by simpa using last)]
      exact keeps (by rw [shape', droppedBlock, if_pos (by simpa using last)])
  · have shape' : state.block x = _ := shape
    have dropped : droppedBlock (state.block x) = { blockId := x } := by
      rw [shape']
      rfl
    simp only [shape']
    rw [throwIf_of_not (by simp), except_ok_bind, if_neg (by simp), if_neg (by simp),
      throwIf_of_not (by omega), except_ok_bind]
    have block_eq := blocks (fun block => { block with
      referenceCount := block.referenceCount - 1, state := .free, owner := none
      validTokenCount := 0, lastAccessEpoch := 0, provenance := none })
      (by rw [← same, dropped, shape']; rfl)
    refine ⟨by rw [loop.others], (List.length_modify ..).trans loop.length, block_eq,
      fun y => ?_, ?_⟩
    · have here : ((state.modifyBlock x fun block => { block with
          referenceCount := block.referenceCount - 1, state := .free, owner := none
          validTokenCount := 0, lastAccessEpoch := 0, provenance := none }).block y).state =
          if y = x then .free else (state.block y).state := by
        rw [block_modifyBlock bound]
        split <;> rfl
      change y ∈ state.freeBlocks.insert x ↔ _ ∨ _ ∧ ((state.modifyBlock x _).block y).state = _
      rw [OrdSet.mem_insert, loop.free, here]
      by_cases equal : y = x
      · simp [equal]
      · simp [equal]
    · have step := loop.valid.dropOwned bound' once
        (f := fun block => { block with
          referenceCount := block.referenceCount - 1, state := .free, owner := none
          validTokenCount := 0, lastAccessEpoch := 0, provenance := none })
        (by rw [shape]; rfl) (by rw [shape]; exact small)
      rw [shape] at step
      exact step

/-- The release loop goes through the whole table. -/
theorem releaseLoop_ensures (sound : manager.Sound)
    (found : manager.blockTables.find? id = some table) :
    Ensures (fun _ => False) (manager.Releasing id table []) (table.foldlM releaseBlock manager) := by
  obtain ⟨p, -, entry⟩ := sound.valid.entries id table found
  have start : manager.Releasing id [] table manager := by
    refine ⟨rfl, rfl, fun x => by simp, fun x => by simp, ?_⟩
    rw [OrdMap.insert_of_find? found]
    exact sound.valid.blocks
  have loop := @Ensures.foldlM _ _ _ (fun _ => False)
    (fun done state => ∃ rest, table = done ++ rest ∧ manager.Releasing id done rest state)
    releaseBlock table manager ⟨table, rfl, start⟩ fun done x rest state split holds => by
      obtain ⟨rest', split', loop⟩ := holds
      obtain rfl : rest' = x :: rest := List.append_cancel_left (split'.symm.trans split)
      have fresh : x ∉ done := fun member => by
        have nodup := entry.nodup
        rw [split] at nodup
        exact (List.nodup_append.mp nodup).2.2 x member x List.mem_cons_self rfl
      exact (releaseBlock_ensures loop fresh (entry.inside x (by rw [split]; simp))).mono
        fun next step => ⟨rest, by rw [split]; simp, step⟩
  refine loop.mono fun state holds => ?_
  obtain ⟨rest, split, loop⟩ := holds
  obtain rfl : rest = [] := by simpa using split
  exact loop

/-- The effect of a release. -/
structure Released (manager : KVCacheManager) (id : RequestId) (table : List Nat)
    (next : KVCacheManager) : Prop where
  found : manager.blockTables.find? id = some table
  rest : next = { manager with
    blocks := next.blocks, freeBlocks := next.freeBlocks
    representedTokenCount := next.representedTokenCount
    blockTables := manager.blockTables.erase id
    requestProvenance := manager.requestProvenance.erase id }
  length : next.blocks.length = manager.blocks.length
  block : ∀ x, next.block x =
    if x ∈ table then droppedBlock (manager.block x) else manager.block x
  free : ∀ x, x ∈ next.freeBlocks ↔
    x ∈ manager.freeBlocks ∨ (x ∈ table ∧ (next.block x).state = .free)
  valid : BlocksValid manager.config next.blocks next.freeBlocks manager.accessEpoch
    (manager.blockTables.erase id) next.representedTokenCount

namespace Released

theorem setup (effect : manager.Released id table next) : manager.SameSetup next := by
  have rest := effect.rest
  exact ⟨congrArg (·.config) rest, congrArg (·.prefixConfig) rest,
    congrArg (·.hashFunction) rest⟩

theorem key (effect : manager.Released id table next) (x : Nat) :
    (next.block x).prefixKey = (manager.block x).prefixKey := by
  rw [effect.block]
  split
  · unfold droppedBlock
    split
    · rfl
    · split
      · rfl
      · next unkeyed => simp_all
  · rfl

/-- A block that another table holds keeps its tokens and its label. -/
theorem live (effect : manager.Released id table next) (sound : manager.Sound)
    {other : RequestId} {held : List Nat} (found : manager.blockTables.find? other = some held)
    (different : other ≠ id) {x : Nat} (member : x ∈ held) :
    (next.block x).provenance = (manager.block x).provenance ∧
      (next.block x).validTokenCount = (manager.block x).validTokenCount := by
  rw [effect.block]
  split
  · next mine =>
      have inside := (sound.live found member).1
      have twice := HoldsIn.two_le ⟨table, effect.found, mine⟩ ⟨held, found, member⟩ different
      rcases sound.valid.blocks.claimed_shape (sound.valid.blocks.length ▸ inside) (by omega) with
        ⟨e, key, p, -, -, -, shape⟩ | ⟨once, -⟩
      · have shape' : manager.block x = _ := shape
        unfold droppedBlock
        rw [shape']
        dsimp only
        split
        · exact ⟨rfl, rfl⟩
        · exact ⟨rfl, rfl⟩
      · omega
  · exact ⟨rfl, rfl⟩

/-- A release keeps the invariant. -/
theorem sound (effect : manager.Released id table next) (sound : manager.Sound) : next.Sound := by
  have setup := effect.setup
  have tables : next.blockTables = manager.blockTables.erase id := by rw [effect.rest]
  have records : next.requestProvenance = manager.requestProvenance.erase id := by
    rw [effect.rest]
  refine ⟨⟨?_, fun other p recorded => ?_, fun other held found => ?_, ?_, ?_⟩, fun x isFree => ?_,
    ?_, fun x shared => ?_⟩
  · rw [effect.length, effect.rest]
    exact sound.valid.peak
  · rw [records, OrdMap.find?_erase] at recorded
    rw [tables, OrdMap.find?_erase]
    split at recorded
    · cases recorded
    · next different =>
        rw [if_neg different]
        exact sound.valid.tables other p recorded
  · rw [tables, OrdMap.find?_erase] at found
    rw [records, OrdMap.find?_erase]
    split at found
    · cases found
    · next different =>
        rw [if_neg different]
        obtain ⟨p, recorded, entry⟩ := sound.valid.entries other held found
        have step : EntryValid next other (held ++ []) p ↔ ∀ x ∈ ([] : List Nat), _ :=
          entry.advance sound.valid.index setup effect.length
            (fun x => by simpa using effect.key x)
            (fun x member => ⟨List.not_mem_nil, (effect.live sound found different member).1,
              (effect.live sound found different member).2.ge⟩)
            (by rw [List.append_nil]; exact entry.nodup) (by simp) (by simp)
        rw [List.append_nil] at step
        exact ⟨p, recorded, step.mpr (by simp)⟩
  · rw [tables]
    have valid := effect.valid
    rw [effect.rest]
    exact valid
  · have index := sound.valid.index.congrKeys effect.length effect.key
    have sameIndex : next.prefixIndex = manager.prefixIndex := by rw [effect.rest]
    rw [setup.config, setup.prefixConfig, setup.hashFunction, sameIndex]
    exact index
  · rw [setup.config]
    rcases (effect.free x).mp isFree with isFree | ⟨mine, -⟩
    · exact sound.ordered.free x isFree
    · exact sound.valid.blocks.length ▸ (sound.live effect.found mine).1
  · rw [effect.rest]
    exact sound.ordered.buckets
  · rw [effect.key]
    refine sound.ordered.shared x ?_
    rw [effect.block] at shared
    split at shared
    · unfold droppedBlock at shared
      split at shared
      · exact shared
      · split at shared
        · exact shared
        · cases shared
    · exact shared

end Released

theorem releaseRequestUnchecked_ensures (sound : manager.Sound) :
    Ensures (Refuses (∃ table, manager.blockTables.find? id = some table))
      (fun next => ∃ table, manager.Released id table next)
      (manager.releaseRequestUnchecked id) := by
  unfold releaseRequestUnchecked
  cases found : manager.blockTables.find? id with
  | none =>
      refine Or.inr fun ⟨table, present⟩ => ?_
      cases present
  | some table =>
      refine ((releaseLoop_ensures sound found).mono_allowed fun _ => False.elim).bind
        fun state loop => ⟨table, found, ?_, loop.length, loop.block, loop.free, loop.valid.leave⟩
      rw [loop.others]

end KVCacheManager

end LlmLab.Serving
