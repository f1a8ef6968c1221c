import LlmLab.Serving.KVCache.Bookkeeping
import LlmLab.Serving.KVCache.WordOperations

/-!
# The operations over machine words are exact

Whatever the arithmetic does with a result that does not fit, every operation is the one over
`Nat`: its checks and the invariant it validates first keep every unchecked result in range.
-/

namespace LlmLab.Serving

open KVCacheManager

/-- A vector of tokens is no longer than `size_t` can say. -/
def KVOp.Sized : KVOp → Prop
  | .allocatePromptWithPrefix _ tokens _ _ => tokens.length ≤ sizeMax
  | .allocatePromptWithPrefixExact _ tokens _ _ _ => tokens.length ≤ sizeMax
  | _ => True

namespace KVCacheManager

variable {manager next : KVCacheManager} {id : RequestId}

/-- Updates that agree on a block change it alike. -/
theorem modifyBlock_congr {f g : PhysicalKVBlock → PhysicalKVBlock} {id : Nat}
    (same : f (manager.block id) = g (manager.block id)) :
    manager.modifyBlock id f = manager.modifyBlock id g := by
  have blocks : manager.blocks.modify id f = manager.blocks.modify id g := by
    refine List.ext_getElem? fun x => ?_
    rw [List.getElem?_modify, List.getElem?_modify]
    by_cases here : id = x
    · subst here
      cases found : manager.blocks[id]? with
      | none => rfl
      | some block =>
          have read : manager.block id = block := by
            rw [KVCacheManager.block, List.getD_eq_getElem?_getD, found]
            rfl
          rw [read] at same
          simp [same]
    · simp [here]
  rw [modifyBlock, modifyBlock, blocks]

/-- A keyed block of a valid manager is full. -/
theorem Valid.full_of_keyed (valid : manager.Valid) {x : Nat}
    (keyed : (manager.block x).prefixKey ≠ none) :
    (manager.block x).validTokenCount = manager.config.blockSizeTokens := by
  obtain ⟨key, carries⟩ := Option.ne_none_iff_exists'.mp keyed
  obtain ⟨-, -, e, p, -, -, -, shape⟩ := valid.blocks.keyed_shape carries
  rw [KVCacheManager.block, shape]

/-- The tokens of a valid manager fit its blocks, so they are a word. -/
theorem Valid.represented_le (valid : manager.Valid) :
    manager.representedTokenCount ≤ uint64Max := by
  have bounded := List.sum_le_card_nsmul (manager.blocks.map (·.validTokenCount))
    manager.config.blockSizeTokens fun count member => by
      obtain ⟨block, present, rfl⟩ := List.mem_map.mp member
      exact (valid.blocks.capacity block present).1
  rw [valid.blocks.represented, List.length_map, valid.blocks.length] at bounded
  exact bounded.trans manager.config.capacity_le

/-- What an eviction of full blocks keeps and takes off. -/
structure EvictedFull (manager : KVCacheManager) (count : Nat) (next : KVCacheManager) : Prop where
  config : next.config = manager.config
  represented : next.representedTokenCount + count * manager.config.blockSizeTokens =
    manager.representedTokenCount
  full : ∀ x, (next.block x).prefixKey ≠ none →
    (next.block x).validTokenCount = manager.config.blockSizeTokens

/-- A block is evicted with the tokens of a full one. -/
theorem evictBlock_full {id : Nat} (full : ∀ x, (manager.block x).prefixKey ≠ none →
      (manager.block x).validTokenCount = manager.config.blockSizeTokens) :
    Ensures (fun _ => True) (manager.EvictedFull 1) (manager.evictBlock id) := by
  unfold evictBlock
  refine (Ensures.trivial (fun _ => trivial) _).bind fun count _ => ?_
  cases carries : (manager.block id).prefixKey with
  | none => trivial
  | some key =>
      cases present : manager.prefixIndex.find? key.blockHash with
      | none => simp [present]
      | some bucket =>
          simp only [present]
          refine .throwIf_bind (fun _ => trivial) fun _ => .throwIf_bind (fun _ => trivial)
            fun enough => ?_
          have size := full id (by simp [carries])
          refine ⟨rfl, ?_, fun x keyed => ?_⟩
          · dsimp only
            omega
          · simp only [KVCacheManager.block, getD_modify] at keyed ⊢
            split at keyed
            · exact absurd rfl keyed
            · next other =>
                rw [if_neg other]
                exact full x keyed

/-- Every evicted block is keyed, so it takes a full block of tokens along. -/
theorem evictExactBlocksInPlace_full (full : ∀ x, (manager.block x).prefixKey ≠ none →
      (manager.block x).validTokenCount = manager.config.blockSizeTokens) (ids : List Nat) :
    Ensures (fun _ => True) (manager.EvictedFull ids.length)
      (manager.evictExactBlocksInPlace ids) := by
  unfold evictExactBlocksInPlace
  refine .throwIf_bind (fun _ => trivial) fun _ => .throwIf_bind (fun _ => trivial) fun _ => ?_
  refine Ensures.foldlM (fun consumed next => manager.EvictedFull consumed.length next)
    ⟨rfl, by simp, full⟩ fun consumed id rest state _ evicted => ?_
  have step := @evictBlock_full state id (by rw [evicted.config]; exact evicted.full)
  refine step.mono fun next last => ⟨last.config.trans evicted.config, ?_, fun x keyed => ?_⟩
  · have before := evicted.represented
    have after := last.represented
    rw [evicted.config, Nat.one_mul] at after
    rw [List.length_append, List.length_singleton, Nat.add_mul, Nat.one_mul]
    omega
  · rw [← evicted.config]
    exact last.full x keyed

/-- Acquiring matched blocks changes neither a key nor a token count. -/
theorem acquireMatched_full {epoch : Nat} {ids : List Nat} (full : ∀ x,
      (manager.block x).prefixKey ≠ none →
      (manager.block x).validTokenCount = manager.config.blockSizeTokens) :
    ∀ x, ((manager.acquireMatched epoch ids).block x).prefixKey ≠ none →
      ((manager.acquireMatched epoch ids).block x).validTokenCount =
        manager.config.blockSizeTokens := by
  induction ids generalizing manager with
  | nil => exact full
  | cons id ids ih =>
      rw [acquireMatched_cons]
      refine ih fun x keyed => ?_
      simp only [modifyBlock, KVCacheManager.block, getD_modify] at keyed ⊢
      split
      · next here =>
          rw [if_pos here] at keyed
          exact full x keyed
      · next other =>
          rw [if_neg other] at keyed
          exact full x keyed

/-- The victims of a prompt are evicted once its matched blocks are acquired. -/
theorem evictAcquired_full (valid : manager.Valid) {epoch later : Nat} {matched victims : List Nat}
    (result : KVCacheManager.evictExactBlocksInPlace
      { manager.acquireMatched epoch matched with accessEpoch := later } victims = .ok next) :
    manager.EvictedFull victims.length next := by
  have config : (manager.acquireMatched epoch matched).config = manager.config := by
    rw [acquireMatched_eq]
  have before : (manager.acquireMatched epoch matched).representedTokenCount =
      manager.representedTokenCount := by
    rw [acquireMatched_eq]
  have evicted := (@evictExactBlocksInPlace_full
    { manager.acquireMatched epoch matched with accessEpoch := later } (fun x keyed =>
      (acquireMatched_full (fun _ => valid.full_of_keyed) x keyed).trans
        (congrArg KVCacheConfig.blockSizeTokens config.symm)) victims).of_eq_ok result
  refine ⟨evicted.config.trans config, ?_, fun x keyed => ?_⟩
  · rw [← before, ← config]
    exact evicted.represented
  · rw [← config]
    exact evicted.full x keyed

/-- A decode that needs no block finds room in the last one. -/
theorem room_of_decodeRequiresNewBlock {table : List Nat}
    (found : manager.blockTables.find? id = some table)
    (decided : manager.decodeRequiresNewBlock id = .ok false) :
    (manager.block (table.getLastD 0)).validTokenCount < manager.config.blockSizeTokens := by
  unfold decodeRequiresNewBlock at decided
  obtain ⟨-, -, decided⟩ := except_bind_eq_ok.mp decided
  rw [found] at decided
  cases last : table.getLast? with
  | none =>
      simp only [last] at decided
      cases decided
  | some x =>
      simp only [last] at decided
      obtain ⟨-, -, decided⟩ := except_bind_eq_ok.mp decided
      obtain ⟨_, checked, decided⟩ := except_bind_eq_ok.mp decided
      have shape := throwIf_eq_ok.mp checked
      have answer := Except.ok.inj decided
      rw [List.getLastD_eq_getLast?, last, Option.getD_some]
      simp only [Bool.or_eq_false_iff, decide_eq_false_iff_not] at answer
      rw [not_or, not_or, not_or] at shape
      exact lt_of_le_of_ne (not_lt.mp shape.2.2.2) answer.2

theorem Valid.of_decodeRequiresNewBlock {newBlock : Bool}
    (decided : manager.decodeRequiresNewBlock id = .ok newBlock) : manager.Valid := by
  unfold decodeRequiresNewBlock at decided
  obtain ⟨_, checked, -⟩ := except_bind_eq_ok.mp decided
  exact validateInvariants_iff.mp (by simpa using throwIf_eq_ok.mp checked)

end KVCacheManager

namespace WordArithmetic

variable {words : WordArithmetic} {manager : KVCacheManager} {id : RequestId}
  {tokens : List Token}

/-- The fragmentation of a reachable manager is the difference of two words. -/
theorem internalFragmentationTokens_eq (sound : manager.Sound) :
    words.internalFragmentationTokens manager = .ok manager.internalFragmentationTokens := by
  have free : manager.freeBlocks.size ≤ manager.blocks.length := by
    rw [sound.freeBlocks_size]
    exact (List.length_filter_le _ _).trans (List.length_range ▸ le_rfl)
  have slots := sound.represented_add_fragmentation
  have fits : manager.allocatedBlockCount * manager.config.blockSizeTokens ≤ uint64Max := by
    refine (Nat.mul_le_mul_right _ ?_).trans manager.config.capacity_le
    rw [← sound.valid.blocks.length]
    exact Nat.sub_le _ _
  unfold allocatedBlockCount at slots fits
  rw [internalFragmentationTokens, words.sub_eq free, except_ok_bind, words.mul_eq fits,
    except_ok_bind]
  exact words.sub_eq (by omega)

/-! ## Lookup -/

/-- The loop counts up to the length of the prompt at most. -/
theorem lookupFrom_eq {ns salt : Bytes} (sized : tokens.length ≤ sizeMax) (remaining i : Nat)
    (result : PrefixLookupResult)
    (total : i + remaining = tokens.length / manager.config.blockSizeTokens)
    (blocks : result.matchedBlockCount = i)
    (matched : result.matchedTokenCount = i * manager.config.blockSizeTokens) :
    words.lookupFrom manager tokens ns salt remaining i result =
      manager.lookupFrom tokens ns salt remaining i result := by
  induction remaining generalizing i result with
  | zero => rfl
  | succ remaining ih =>
      have size := manager.config.blockSize_pos
      have next : (i + 1) * manager.config.blockSizeTokens ≤ uint64Max :=
        ((Nat.le_div_iff_mul_le size).mp (by omega)).trans sized
      have small : i + 1 ≤ (i + 1) * manager.config.blockSizeTokens :=
        Nat.le_mul_of_pos_right _ size
      have split : (i + 1) * manager.config.blockSizeTokens =
          i * manager.config.blockSizeTokens + manager.config.blockSizeTokens := by
        rw [Nat.add_mul, Nat.one_mul]
      unfold lookupFrom KVCacheManager.lookupFrom
      rw [words.mul_eq (by omega), except_ok_bind]
      refine except_bind_congr fun key _ => except_bind_congr fun scanned _ => ?_
      obtain ⟨found, collisions⟩ := scanned
      cases found with
      | none => rfl
      | some id =>
          dsimp only
          rw [words.add_eq (by omega), except_ok_bind, words.add_eq (by omega), except_ok_bind]
          exact ih (i + 1) _ (by omega) (by rw [blocks]) (by rw [matched, split])

theorem findLongestCachedPrefixIn_eq {ns salt : Bytes} (sized : tokens.length ≤ sizeMax) :
    words.findLongestCachedPrefixIn manager tokens ns salt =
      manager.findLongestCachedPrefixIn tokens ns salt := by
  have fits : tokens.length / manager.config.blockSizeTokens * manager.config.blockSizeTokens ≤
      uint64Max := (Nat.div_mul_le_self _ _).trans sized
  unfold findLongestCachedPrefixIn KVCacheManager.findLongestCachedPrefixIn
  refine except_bind_congr fun _ _ => ?_
  split
  · rfl
  · dsimp only
    rw [words.mul_eq fits, except_ok_bind,
      lookupFrom_eq sized _ 0 _ (Nat.zero_add _) rfl (Nat.zero_mul _).symm]

/-- A lookup matches no more tokens than the prompt has. -/
theorem matched_le {lookup : PrefixLookupResult}
    (found : manager.findLongestCachedPrefix tokens = .ok lookup) :
    lookup.matchedTokenCount ≤ tokens.length := by
  obtain ⟨_, checked, rest⟩ := except_bind_eq_ok.mp found
  have valid := validateInvariants_iff.mp (by simpa using throwIf_eq_ok.mp checked)
  by_cases enabled : manager.prefixConfig.enabled = true
  · have spec := ((findLongestCachedPrefixIn_ensures valid enabled).of_eq_ok found).1
    rw [spec.matchedTokens]
    exact (Nat.le_div_iff_mul_le manager.config.blockSize_pos).mp spec.inside
  · rw [if_pos (by simpa using enabled)] at rest
    obtain rfl := Except.ok.inj rest
    exact Nat.zero_le _

/-! ## Eviction -/

theorem evictBlock_eq (manager : KVCacheManager) (id : Nat) :
    words.evictBlock manager id = manager.evictBlock id := by
  unfold evictBlock KVCacheManager.evictBlock
  refine except_bind_congr fun count _ => ?_
  cases (manager.block id).prefixKey with
  | none => rfl
  | some key =>
      dsimp only
      cases manager.prefixIndex.find? key.blockHash with
      | none => rfl
      | some bucket =>
          refine except_bind_congr fun _ _ => except_bind_congr fun _ guarded => ?_
          rw [words.sub_eq (not_lt.mp (throwIf_eq_ok.mp guarded)), except_ok_bind]

theorem evictExactBlocksInPlace_eq (manager : KVCacheManager) (ids : List Nat) :
    words.evictExactBlocksInPlace manager ids = manager.evictExactBlocksInPlace ids := by
  have body : words.evictBlock = KVCacheManager.evictBlock :=
    funext fun manager => funext fun id => evictBlock_eq manager id
  unfold evictExactBlocksInPlace KVCacheManager.evictExactBlocksInPlace
  rw [body]

theorem evictUnusedBlocks_eq (manager : KVCacheManager) (count : Nat) :
    words.evictUnusedBlocks manager count = manager.evictUnusedBlocks count := by
  unfold evictUnusedBlocks KVCacheManager.evictUnusedBlocks evictUnusedBlocksInPlace
    KVCacheManager.evictUnusedBlocksInPlace
  simp only [evictExactBlocksInPlace_eq]
  all_goals rfl

/-! ## Prompt allocation -/

/-- The positions written start inside the tokens, so neither product nor difference wraps. -/
theorem writeFrom_eq {amount epoch k : Nat} {provenance : Nat → KVBlockProvenance}
    {ids : List Nat} (sized : amount ≤ uint64Max)
    (inside : ∀ i < ids.length, (k + i) * manager.config.blockSizeTokens < amount) :
    (ids.zipIdx k).foldlM (words.writeAllocatedBlock id amount epoch provenance) manager =
      .ok ((ids.zipIdx k).foldl
        (KVCacheManager.writeAllocatedBlock id amount epoch provenance) manager) := by
  induction ids generalizing manager k with
  | nil => rfl
  | cons first rest ih =>
      have start : k * manager.config.blockSizeTokens < amount := inside 0 (by simp)
      have step : words.writeAllocatedBlock id amount epoch provenance manager (first, k) =
          .ok (KVCacheManager.writeAllocatedBlock id amount epoch provenance manager
            (first, k)) := by
        rw [writeAllocatedBlock, words.mul_eq (start.le.trans sized), except_ok_bind,
          words.sub_eq start.le]
        rfl
      rw [List.zipIdx_cons, List.foldlM_cons, step, except_ok_bind, List.foldl_cons]
      refine ih fun i before => ?_
      have later := inside (i + 1) (by simpa using before)
      rwa [Nat.add_assoc, Nat.add_comm 1 i]

theorem writeAllocated_eq {amount epoch : Nat} {provenance : Nat → KVBlockProvenance}
    {ids : List Nat} (sized : amount ≤ uint64Max)
    (few : ids.length ≤ manager.config.demand amount) :
    words.writeAllocated manager id amount epoch provenance ids =
      .ok (manager.writeAllocated id amount epoch provenance ids) :=
  writeFrom_eq sized fun i before => by
    rw [Nat.zero_add]
    exact KVCacheConfig.lt_demand (before.trans_le few)

theorem length_lowestAvailable_le (free : OrdSet Nat) (ids : List Nat) (required : Nat) :
    (lowestAvailable free ids required).length ≤ required := by
  rw [lowestAvailable, List.length_take]
  exact Nat.min_le_left _ _

/-- An allocation takes no more blocks than its tokens demand, so its counts fit. -/
theorem allocatePromptExactUnchecked_eq (valid : manager.Valid) {amount : Nat}
    {evictionIds allocationIds : List Nat} :
    words.allocatePromptExactUnchecked manager id amount evictionIds allocationIds =
      manager.allocatePromptExactUnchecked id amount evictionIds allocationIds := by
  unfold allocatePromptExactUnchecked KVCacheManager.allocatePromptExactUnchecked
  refine except_bind_congr fun _ _ => except_bind_congr fun required counted =>
    except_bind_congr fun _ _ => except_bind_congr fun _ _ =>
      except_bind_congr fun _ planned => ?_
  have few : allocationIds.length ≤ manager.config.demand amount := by
    rw [← KVCacheConfig.blocksRequired_ensures.of_eq_ok counted,
      not_not.mp (throwIf_eq_ok.mp planned)]
    exact length_lowestAvailable_le _ _ _
  rw [evictExactBlocksInPlace_eq]
  refine except_bind_congr fun evicted result => except_bind_congr fun represented sum =>
    except_bind_congr fun epoch _ => ?_
  have kept := (evictExactBlocksInPlace_full (fun _ => valid.full_of_keyed) _).of_eq_ok result
  have fits := ((add_ensures _ _ _).of_eq_ok sum).2
  rw [writeAllocated_eq (by omega) (kept.config ▸ few), except_ok_bind]

theorem allocatePromptExact_eq {amount : Nat} {evictionIds allocationIds : List Nat} :
    words.allocatePromptExact manager id amount evictionIds allocationIds =
      manager.allocatePromptExact id amount evictionIds allocationIds := by
  unfold allocatePromptExact KVCacheManager.allocatePromptExact
  refine except_bind_congr fun _ checked => ?_
  have valid := validateInvariants_iff.mp (by simpa using throwIf_eq_ok.mp checked)
  rw [allocatePromptExactUnchecked_eq valid]

theorem allocatePrompt_eq {amount : Nat} :
    words.allocatePrompt manager id amount = manager.allocatePrompt id amount := by
  unfold allocatePrompt KVCacheManager.allocatePrompt
  simp only [allocatePromptExact_eq]
  all_goals rfl

/-- The blocks behind a prefix hold what is left of a prompt whose length fits. -/
theorem allocatePromptWithPrefixExactUnchecked_eq (valid : manager.Valid)
    (sized : tokens.length ≤ sizeMax) {supplied : PrefixLookupResult}
    {evictionIds allocationIds : List Nat} :
    words.allocatePromptWithPrefixExactUnchecked manager id tokens supplied evictionIds
        allocationIds =
      manager.allocatePromptWithPrefixExactUnchecked id tokens supplied evictionIds
        allocationIds := by
  unfold allocatePromptWithPrefixExactUnchecked
    KVCacheManager.allocatePromptWithPrefixExactUnchecked
  refine except_bind_congr fun _ _ => except_bind_congr fun _ _ => ?_
  rw [findLongestCachedPrefix, findLongestCachedPrefixIn_eq sized]
  refine except_bind_congr fun actual _ => except_bind_congr fun _ _ =>
    except_bind_congr fun _ room => ?_
  rw [words.sub_eq (not_lt.mp (throwIf_eq_ok.mp room)), except_ok_bind]
  refine except_bind_congr fun required counted => except_bind_congr fun _ _ =>
    except_bind_congr fun _ _ => except_bind_congr fun _ planned => ?_
  have few : allocationIds.length ≤
      manager.config.demand (tokens.length - actual.matchedTokenCount) := by
    rw [← KVCacheConfig.blocksRequired_ensures.of_eq_ok counted,
      not_not.mp (throwIf_eq_ok.mp planned)]
    exact length_lowestAvailable_le _ _ _
  refine except_bind_congr fun represented sum => except_bind_congr fun metrics _ =>
    except_bind_congr fun _ _ => except_bind_congr fun hitEpoch _ => ?_
  dsimp only
  rw [evictExactBlocksInPlace_eq]
  refine except_bind_congr fun evicted result => ?_
  obtain ⟨total, fits⟩ := (add_ensures _ _ _).of_eq_ok sum
  have kept := evictAcquired_full valid result
  have off := kept.represented
  rw [words.mul_eq (by omega), except_ok_bind, words.sub_eq (by omega), except_ok_bind]
  refine except_bind_congr fun epoch _ => ?_
  rw [writeAllocated_eq (by omega) (kept.config ▸ few), except_ok_bind]

theorem allocatePromptWithPrefixExact_eq (sized : tokens.length ≤ sizeMax)
    {supplied : PrefixLookupResult} {evictionIds allocationIds : List Nat} :
    words.allocatePromptWithPrefixExact manager id tokens supplied evictionIds allocationIds =
      manager.allocatePromptWithPrefixExact id tokens supplied evictionIds allocationIds := by
  unfold allocatePromptWithPrefixExact KVCacheManager.allocatePromptWithPrefixExact
  refine except_bind_congr fun _ checked => ?_
  have valid := validateInvariants_iff.mp (by simpa using throwIf_eq_ok.mp checked)
  rw [allocatePromptWithPrefixExactUnchecked_eq valid sized]

/-- The lookups agree, and so do the exact allocations over them. -/
theorem allocatePromptWithPrefix_eq (sized : tokens.length ≤ sizeMax)
    {lookup : PrefixLookupResult} {protectedBlocks : OrdSet Nat} :
    words.allocatePromptWithPrefix manager id tokens lookup protectedBlocks =
      manager.allocatePromptWithPrefix id tokens lookup protectedBlocks := by
  have lookups : words.findLongestCachedPrefix manager tokens =
      manager.findLongestCachedPrefix tokens := by
    rw [findLongestCachedPrefix, findLongestCachedPrefixIn_eq sized]
    rfl
  unfold allocatePromptWithPrefix KVCacheManager.allocatePromptWithPrefix
  rw [lookups]
  split
  · rfl
  · cases found : manager.findLongestCachedPrefix tokens with
    | error error => rfl
    | ok actual =>
        dsimp only
        rw [words.sub_eq (matched_le found), except_ok_bind]
        simp only [allocatePromptWithPrefixExact_eq sized]
        all_goals rfl

/-! ## Publication -/

/-- The blocks published fill a table of the pool. -/
theorem publishFrom_eq {p : RequestKVPromptProvenance} {table : List Nat} {config : KVCacheConfig}
    (remaining i : Nat) (parent : UInt64) (setup : manager.config = config)
    (inside : i + remaining ≤ config.totalNumBlocks) :
    words.publishFrom p tokens table remaining i parent manager =
      KVCacheManager.publishFrom p tokens table remaining i parent manager := by
  induction remaining generalizing manager i parent with
  | zero => rfl
  | succ remaining ih =>
      have fits : i * manager.config.blockSizeTokens ≤ uint64Max := by
        rw [setup]
        exact (Nat.mul_le_mul_right _ (by omega)).trans config.capacity_le
      unfold publishFrom KVCacheManager.publishFrom
      rw [words.mul_eq fits, except_ok_bind]
      refine except_bind_congr fun key _ => ?_
      dsimp only
      split
      · exact except_bind_congr fun _ _ => ih (i + 1) _ setup (by omega)
      · refine except_bind_congr fun _ _ => ?_
        split
        · exact except_bind_congr fun epoch _ => ih (i + 1) _ setup (by omega)
        · exact ih (i + 1) _ setup (by omega)

/-- A publication reads a table that its own check has found valid. -/
theorem insertCompletedPromptBlocks_eq :
    words.insertCompletedPromptBlocks manager id = manager.insertCompletedPromptBlocks id := by
  unfold insertCompletedPromptBlocks KVCacheManager.insertCompletedPromptBlocks
  refine except_bind_congr fun _ checked => ?_
  have valid := validateInvariants_iff.mp (by simpa using throwIf_eq_ok.mp checked)
  unfold insertCompletedPromptBlocksInPlace KVCacheManager.insertCompletedPromptBlocksInPlace
  cases found : manager.blockTables.find? id with
  | none => rfl
  | some table =>
      obtain ⟨p, recorded, entry⟩ := valid.entries id table found
      have few : p.cacheEligibleFullPromptBlocks ≤ manager.config.totalNumBlocks := by
        refine (entry.record.full_le.trans entry.start).trans ?_
        rw [← valid.blocks.length, ← List.length_range (n := manager.blocks.length)]
        exact (List.subperm_of_subset entry.nodup fun x member =>
          List.mem_range.mpr (entry.inside x member)).length_le
      rw [recorded]
      dsimp only
      cases p.exactPromptTokens with
      | none => rfl
      | some tokens =>
          refine except_bind_congr fun _ _ => except_bind_congr fun _ _ => ?_
          split
          · rfl
          · rw [publishFrom_eq _ 0 _ rfl (by omega)]

/-! ## Decode growth -/

/-- A block with room for one more token counts it without overflow. -/
theorem writeDecoded_eq {table : List Nat} {newBlock : Bool} {allocationId : Option Nat}
    {epoch : Nat} (room : newBlock = false →
      (manager.block (table.getLastD 0)).validTokenCount < manager.config.blockSizeTokens) :
    words.writeDecoded manager id table newBlock allocationId epoch =
      manager.writeDecoded id table newBlock allocationId epoch := by
  cases newBlock with
  | true => rfl
  | false =>
      have size : manager.config.blockSizeTokens ≤ uint64Max :=
        (Nat.le_mul_of_pos_left _ manager.config.blocks_pos).trans manager.config.capacity_le
      have less := room rfl
      unfold writeDecoded KVCacheManager.writeDecoded
      rw [if_neg Bool.false_ne_true, if_neg Bool.false_ne_true]
      dsimp only
      rw [words.add_eq (by omega), except_ok_bind]
      exact congrArg Except.ok (modifyBlock_congr rfl)

/-- An append extends a table that its own check has found valid. -/
theorem appendDecodeTokenExactUnchecked_eq {evictionIds : List Nat}
    {allocationId : Option Nat} :
    words.appendDecodeTokenExactUnchecked manager id evictionIds allocationId =
      manager.appendDecodeTokenExactUnchecked id evictionIds allocationId := by
  unfold appendDecodeTokenExactUnchecked KVCacheManager.appendDecodeTokenExactUnchecked
  cases found : manager.blockTables.find? id with
  | none => rfl
  | some table =>
      refine except_bind_congr fun _ bounded => except_bind_congr fun newBlock decided =>
        except_bind_congr fun plan planned => ?_
      obtain ⟨expectedEvictions, expectedAllocation⟩ := plan
      refine except_bind_congr fun _ followed => ?_
      rw [evictExactBlocksInPlace_eq]
      refine except_bind_congr fun evicted result => except_bind_congr fun epoch _ => ?_
      have valid := Valid.of_decodeRequiresNewBlock decided
      have kept := (evictExactBlocksInPlace_full (fun _ => valid.full_of_keyed) _).of_eq_ok result
      have word : manager.representedTokenCount < uint64Max :=
        lt_of_le_of_ne valid.represented_le (throwIf_eq_ok.mp bounded)
      have count := kept.represented
      have room : newBlock = false → (evicted.block (table.getLastD 0)).validTokenCount <
          evicted.config.blockSizeTokens := by
        rintro rfl
        obtain ⟨rfl, -⟩ := Prod.mk.inj (Except.ok.inj planned)
        obtain ⟨rfl, -⟩ := by simpa only [not_or, not_not] using throwIf_eq_ok.mp followed
        obtain rfl := Except.ok.inj result
        exact room_of_decodeRequiresNewBlock found decided
      rw [writeDecoded_eq room]
      refine except_bind_congr fun written _ => ?_
      rw [words.add_eq (by omega), except_ok_bind]

theorem appendDecodeTokenExact_eq {evictionIds : List Nat} {allocationId : Option Nat} :
    words.appendDecodeTokenExact manager id evictionIds allocationId =
      manager.appendDecodeTokenExact id evictionIds allocationId := by
  unfold appendDecodeTokenExact KVCacheManager.appendDecodeTokenExact
  rw [appendDecodeTokenExactUnchecked_eq]

theorem appendDecodeToken_eq : words.appendDecodeToken manager id = manager.appendDecodeToken id := by
  unfold appendDecodeToken KVCacheManager.appendDecodeToken
  simp only [appendDecodeTokenExact_eq]
  all_goals rfl

/-! ## Release -/

/-- The checks of a release come before its subtractions. -/
theorem releaseBlock_eq (manager : KVCacheManager) (id : Nat) :
    words.releaseBlock manager id = manager.releaseBlock id := by
  unfold releaseBlock KVCacheManager.releaseBlock
  refine except_bind_congr fun _ referenced => ?_
  rw [words.sub_eq (Nat.one_le_iff_ne_zero.mpr (throwIf_eq_ok.mp referenced)), except_ok_bind]
  split
  · exact congrArg Except.ok (modifyBlock_congr rfl)
  · split
    · exact congrArg Except.ok (modifyBlock_congr rfl)
    · refine except_bind_congr fun _ guarded => ?_
      rw [words.sub_eq (not_lt.mp (throwIf_eq_ok.mp guarded)), except_ok_bind]
      refine congrArg (fun (modified : KVCacheManager) => Except.ok { manager with
        representedTokenCount :=
          manager.representedTokenCount - (manager.block id).validTokenCount
        blocks := modified.blocks, freeBlocks := manager.freeBlocks.insert id })
        (@modifyBlock_congr manager _ _ id ?_)
      rfl

theorem releaseRequest_eq : words.releaseRequest manager id = manager.releaseRequest id := by
  have body : words.releaseBlock = KVCacheManager.releaseBlock :=
    funext fun manager => funext fun id => releaseBlock_eq manager id
  unfold releaseRequest KVCacheManager.releaseRequest releaseRequestUnchecked
    KVCacheManager.releaseRequestUnchecked
  rw [body]
  all_goals rfl

/-! ## The machine -/

/-- Every operation on any manager is the one over `Nat`, whatever the arithmetic. -/
theorem apply_eq (manager : KVCacheManager) {op : KVOp} (sized : op.Sized) :
    words.apply manager op = manager.apply op := by
  cases op with
  | allocatePrompt => exact allocatePrompt_eq
  | allocatePromptExact => exact congrArg manager.commit allocatePromptExact_eq
  | allocatePromptWithPrefix => exact allocatePromptWithPrefix_eq sized
  | allocatePromptWithPrefixExact =>
      exact congrArg manager.commit (allocatePromptWithPrefixExact_eq sized)
  | insertCompletedPromptBlocks => exact congrArg manager.commit insertCompletedPromptBlocks_eq
  | appendDecodeToken => exact appendDecodeToken_eq
  | appendDecodeTokenExact => exact congrArg manager.commit appendDecodeTokenExact_eq
  | releaseRequest => exact congrArg manager.commit releaseRequest_eq
  | evictUnusedBlocks count =>
      exact congrArg (fun answer => (answer.1.map fun _ => (), answer.2))
        (evictUnusedBlocks_eq manager count)

end WordArithmetic

end LlmLab.Serving
