import LlmLab.Serving.KVCache.Allocation

/-!
# Request tables across an operation

An operation leaves the table of a live request valid, with one exception: a published request
whose block stayed private because another block already carried its key relies on that
other block.  `Pinned` names the blocks that some live request relies on in this way; an
eviction keeps the invariant exactly when it avoids them.
-/

namespace LlmLab.Serving

open KVCacheManager

/-! ## Pinned blocks -/

/-- Block `x` carries the key that a published request's private block gave way to. -/
def PinnedBy (manager : KVCacheManager) (table : List Nat) (p : RequestKVPromptProvenance)
    (x : Nat) : Prop :=
  ∃ tokens i y, p.exactPromptTokens = some tokens ∧ p.publicationCompleted = true ∧
    i < p.cacheEligibleFullPromptBlocks ∧ table[i]? = some y ∧
    (manager.block y).prefixKey = none ∧
    (manager.block x).prefixKey = some (manager.chainKey tokens i)

/-- Some live request relies on the key of block `x`. -/
def KVCacheManager.Pinned (manager : KVCacheManager) (x : Nat) : Prop :=
  ∃ id table p, manager.blockTables.find? id = some table ∧
    manager.requestProvenance.find? id = some p ∧ PinnedBy manager table p x

/-! ## Positions and key chains -/

/-- A block that only gains tokens stays valid at its position. -/
theorem PositionValid.mono {blockSize position : Nat} {p : RequestKVPromptProvenance}
    {block block' : PhysicalKVBlock} (valid : PositionValid blockSize p position block)
    (provenance : block'.provenance = block.provenance)
    (grows : block.validTokenCount ≤ block'.validTokenCount) :
    PositionValid blockSize p position block' := by
  unfold PositionValid at valid ⊢
  rw [provenance]
  split
  · next countOnly =>
      rw [if_pos countOnly] at valid
      split
      · next inPrompt =>
          rw [if_pos inPrompt] at valid
          exact ⟨valid.1, valid.2.trans grows⟩
      · next decode => rwa [if_neg decode] at valid
  · next exact' =>
      rw [if_neg exact'] at valid
      split
      · next full => rwa [if_pos full] at valid
      · next notFull =>
          rw [if_neg notFull] at valid
          split
          · next inPrompt =>
              rw [if_pos inPrompt] at valid
              exact ⟨valid.1, valid.2.1, valid.2.2.trans grows⟩
          · next decode => rwa [if_neg decode] at valid

section Advance

variable {manager next : KVCacheManager} {victims : List Nat}

/-- The keys that survive an eviction. -/
theorem keyed_iff_of_evicted
    (keys : ∀ x, (next.block x).prefixKey =
      if x ∈ victims then none else (manager.block x).prefixKey) {key : TokenBlockKey} :
    next.Keyed key ↔ ∃ x, x ∉ victims ∧ (manager.block x).prefixKey = some key := by
  constructor
  · rintro ⟨x, carries⟩
    rw [keys] at carries
    split at carries
    · cases carries
    · next kept => exact ⟨x, kept, carries⟩
  · rintro ⟨x, kept, carries⟩
    exact ⟨x, by rw [keys, if_neg kept, carries]⟩

/-- A live table that keeps its blocks, and possibly gains some behind its prompt, stays valid
exactly when no victim was pinned by it. -/
theorem EntryValid.advance {id : RequestId} {table extra : List Nat}
    {p : RequestKVPromptProvenance} (entry : EntryValid manager id table p)
    (index : IndexValid manager.config manager.prefixConfig manager.hashFunction manager.blocks
      manager.prefixIndex)
    (setup : manager.SameSetup next) (length : next.blocks.length = manager.blocks.length)
    (keys : ∀ x, (next.block x).prefixKey =
      if x ∈ victims then none else (manager.block x).prefixKey)
    (kept : ∀ x ∈ table, x ∉ victims ∧ (next.block x).provenance = (manager.block x).provenance ∧
      (manager.block x).validTokenCount ≤ (next.block x).validTokenCount)
    (nodup : (table ++ extra).Nodup) (bound : ∀ x ∈ extra, x < manager.blocks.length)
    (decode : ∀ x ∈ extra, (next.block x).provenance = some .privateDecode) :
    EntryValid next id (table ++ extra) p ↔ ∀ x ∈ victims, ¬ PinnedBy manager table p x := by
  have lookup : ∀ {i x}, i < p.decodeBlockStartPosition → (table ++ extra)[i]? = some x →
      table[i]? = some x := fun inside found => by
    rwa [List.getElem?_append_left (inside.trans_le entry.start)] at found
  constructor
  · rintro after x evicted ⟨tokens, i, y, exact, completed, inside, found, unkeyed, carries⟩
    have member := List.mem_of_getElem? found
    have unkeyed' : (next.block y).prefixKey = none := by
      rw [keys, if_neg (kept y member).1, unkeyed]
    have found' : (table ++ extra)[i]? = some y := by
      rw [List.getElem?_append_left (inside.trans_le (entry.record.full_le.trans entry.start)),
        found]
    rcases after.chain tokens exact i y inside found' with ⟨keyed, -⟩ | ⟨-, -, twin⟩
    · rw [unkeyed'] at keyed
      cases keyed
    · obtain ⟨z, remains, carries'⟩ := (keyed_iff_of_evicted keys).mp (twin completed)
      rw [setup.chainKey] at carries'
      exact remains (index.canonical x z _ _ carries carries' rfl ▸ evicted)
  · intro unpinned
    refine ⟨?_, ?_, nodup, fun x member => ?_, fun position x found => ?_,
      fun tokens exact position x inside found => ?_⟩
    · rw [setup.config, setup.prefixConfig]
      exact entry.record
    · rw [List.length_append]
      exact entry.start.trans (Nat.le_add_right _ _)
    · rw [length]
      rcases List.mem_append.mp member with member | member
      · exact entry.inside x member
      · exact bound x member
    · rw [setup.config]
      by_cases inTable : position < table.length
      · rw [List.getElem?_append_left inTable] at found
        obtain ⟨-, provenance, grows⟩ := kept x (List.mem_of_getElem? found)
        exact (entry.position position x found).mono provenance grows
      · rw [List.getElem?_append_right (not_lt.mp inTable)] at found
        have beyond : ¬ position < p.decodeBlockStartPosition :=
          fun inside => inTable (inside.trans_le entry.start)
        have beyondFull : ¬ position < p.cacheEligibleFullPromptBlocks :=
          fun inside => beyond (inside.trans_le entry.record.full_le)
        have provenance := decode x (List.mem_of_getElem? found)
        unfold PositionValid
        rw [if_neg beyond, if_neg beyondFull, if_neg beyond]
        split <;> exact provenance
    · rw [setup.chainKey]
      have found := lookup (inside.trans_le entry.record.full_le) found
      have member := List.mem_of_getElem? found
      have sameKey : (next.block x).prefixKey = (manager.block x).prefixKey := by
        rw [keys, if_neg (kept x member).1]
      rcases entry.chain tokens exact position x inside found with
        ⟨keyed, allowed⟩ | ⟨unkeyed, begins, twin⟩
      · exact Or.inl ⟨sameKey.trans keyed, allowed⟩
      · refine Or.inr ⟨sameKey.trans unkeyed, begins, fun completed => ?_⟩
        obtain ⟨z, carries⟩ := twin completed
        exact (keyed_iff_of_evicted keys).mpr ⟨z, fun evicted =>
          unpinned z evicted ⟨tokens, position, x, exact, completed, inside, found, unkeyed,
            carries⟩, carries⟩

end Advance

end LlmLab.Serving
