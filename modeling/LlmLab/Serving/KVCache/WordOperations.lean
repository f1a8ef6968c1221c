import LlmLab.Serving.KVCache.Runs

/-!
# The operations over machine words

`kv_cache.cpp` checks some of its unsigned results and relies on its invariants for the others.
Here the others go through a `WordArithmetic`, which is exact inside 64 bits and does anything
beyond: wrap around, as C++ does, or stop.  The operations are otherwise those of `Operations`.
-/

namespace LlmLab.Serving

open KVCacheManager

/-- Unsigned arithmetic that is exact as long as the result fits; `a` and `b` are words. -/
structure WordArithmetic where
  add : Nat → Nat → Except Exn Nat
  sub : Nat → Nat → Except Exn Nat
  mul : Nat → Nat → Except Exn Nat
  add_eq {a b : Nat} : a + b ≤ uint64Max → add a b = .ok (a + b)
  sub_eq {a b : Nat} : b ≤ a → sub a b = .ok (a - b)
  mul_eq {a b : Nat} : a * b ≤ uint64Max → mul a b = .ok (a * b)

namespace WordArithmetic

/-- The arithmetic of C++: a result that does not fit wraps around. -/
def wrapping : WordArithmetic where
  add a b := .ok ((a + b) % (uint64Max + 1))
  sub a b := .ok (if b ≤ a then a - b else uint64Max + 1 + a - b)
  mul a b := .ok ((a * b) % (uint64Max + 1))
  add_eq fits := congrArg Except.ok (Nat.mod_eq_of_lt (Nat.lt_succ_of_le fits))
  sub_eq fits := congrArg Except.ok (if_pos fits)
  mul_eq fits := congrArg Except.ok (Nat.mod_eq_of_lt (Nat.lt_succ_of_le fits))

/-- The arithmetic of a sanitizer: a result that does not fit stops the run. -/
def trapping : WordArithmetic where
  add a b := if a + b ≤ uint64Max then .ok (a + b) else .error (.undefinedBehavior "unsigned +")
  sub a b := if b ≤ a then .ok (a - b) else .error (.undefinedBehavior "unsigned -")
  mul a b := if a * b ≤ uint64Max then .ok (a * b) else .error (.undefinedBehavior "unsigned *")
  add_eq fits := if_pos fits
  sub_eq fits := if_pos fits
  mul_eq fits := if_pos fits

variable (words : WordArithmetic)

/-- `internal_fragmentation_tokens`. -/
def internalFragmentationTokens (manager : KVCacheManager) : Except Exn Nat := do
  let allocated ← words.sub manager.blocks.length manager.freeBlocks.size
  let slots ← words.mul allocated manager.config.blockSizeTokens
  words.sub slots manager.representedTokenCount

/-! ## Lookup -/

/-- The loop of `find_longest_cached_prefix` over the full blocks from position `i` on. -/
def lookupFrom (manager : KVCacheManager) (tokens : List Token) (ns salt : Bytes) :
    Nat → Nat → PrefixLookupResult → Except Exn PrefixLookupResult
  | 0, _, result => .ok result
  | remaining + 1, i, result => do
      let offset ← words.mul i manager.config.blockSizeTokens
      let key ← manager.makeKey result.nextParentHash tokens offset ns salt
      let (found, collisions) ← manager.findKey key result.collisionVerificationCount
      let result := { result with collisionVerificationCount := collisions }
      match found with
      | none => .ok result
      | some id => do
          let matchedBlockCount ← words.add result.matchedBlockCount 1
          let matchedTokenCount ← words.add result.matchedTokenCount
            manager.config.blockSizeTokens
          lookupFrom manager tokens ns salt remaining (i + 1)
            { result with
              physicalBlockIds := result.physicalBlockIds ++ [id]
              matchedBlockCount
              matchedTokenCount
              nextParentHash := key.blockHash }

/-- `find_longest_cached_prefix` under a given namespace and salt. -/
def findLongestCachedPrefixIn (manager : KVCacheManager) (tokens : List Token)
    (ns salt : Bytes) : Except Exn PrefixLookupResult := do
  throwIf (manager.validateInvariants = false)
    (.logicError "invalid KV manager state before prefix lookup")
  if manager.prefixConfig.enabled = false then
    return { kind := .disabled }
  else
    let full := tokens.length / manager.config.blockSizeTokens
    let eligibleTokenCount ← words.mul full manager.config.blockSizeTokens
    let result ← words.lookupFrom manager tokens ns salt full 0 { eligibleTokenCount }
    return { result with kind := lookupKind result.matchedBlockCount full }

/-- `find_longest_cached_prefix` under the manager's own namespace and salt. -/
def findLongestCachedPrefix (manager : KVCacheManager) (tokens : List Token) :
    Except Exn PrefixLookupResult :=
  words.findLongestCachedPrefixIn manager tokens manager.prefixConfig.modelNamespace
    manager.prefixConfig.cacheSalt

/-! ## Eviction -/

/-- The loop body of `evict_exact_blocks_in_place`. -/
def evictBlock (manager : KVCacheManager) (id : Nat) : Except Exn KVCacheManager := do
  let evictionCount ← inc manager.prefixMetrics.evictionCount "prefix eviction count overflow"
  match (manager.block id).prefixKey with
  | none => .error (.undefinedBehavior "*block.prefix_key")
  | some key =>
      match manager.prefixIndex.find? key.blockHash with
      | none => .error (.logicError "missing prefix index entry")
      | some bucket => do
          throwIf (id ∉ bucket) (.logicError "missing prefix index block")
          throwIf ((manager.block id).validTokenCount > manager.representedTokenCount)
            (.logicError "represented KV token count underflow")
          let representedTokenCount ← words.sub manager.representedTokenCount
            (manager.block id).validTokenCount
          return { manager with
            prefixMetrics := { manager.prefixMetrics with evictionCount }
            prefixIndex :=
              if bucket.erase id = [] then manager.prefixIndex.erase key.blockHash
              else manager.prefixIndex.insert key.blockHash (bucket.erase id)
            representedTokenCount
            blocks := manager.blocks.modify id fun block =>
              { block with
                state := .free, owner := none, referenceCount := 0, validTokenCount := 0
                lastAccessEpoch := 0, prefixKey := none, provenance := none }
            freeBlocks := manager.freeBlocks.insert id }

/-- `evict_exact_blocks_in_place`. -/
def evictExactBlocksInPlace (manager : KVCacheManager) (ids : List Nat) :
    Except Exn KVCacheManager := do
  let order := manager.eligibleEvictionOrder
  throwIf (ids.length > order.length)
    (.runtimeError "insufficient evictable prefix-cache blocks")
  throwIf (ids ≠ order.take ids.length)
    (.logicError "planned eviction IDs differ from deterministic LRU IDs")
  ids.foldlM words.evictBlock manager

/-- `evict_unused_blocks_in_place`, which also returns the evicted ids. -/
def evictUnusedBlocksInPlace (manager : KVCacheManager) (count : Nat) :
    Except Exn (List Nat × KVCacheManager) := do
  let order := manager.eligibleEvictionOrder
  throwIf (count > order.length)
    (.runtimeError "insufficient evictable prefix-cache blocks")
  let order := order.take count
  let evicted ← words.evictExactBlocksInPlace manager order
  let evicted ← evicted.ensureValid "invalid KV manager state after eviction"
  return (order, evicted)

/-- `evict_unused_blocks`. -/
def evictUnusedBlocks (manager : KVCacheManager) (count : Nat) :
    Except Exn (List Nat) × KVCacheManager :=
  if manager.validateInvariants = false then
    (.error (.logicError "invalid KV manager state before prefix eviction"), manager)
  else
    match words.evictUnusedBlocksInPlace manager count with
    | .ok (ids, next) => (.ok ids, next)
    | .error error => (.error error, manager)

/-! ## Prompt allocation -/

/-- Write one allocated block, given with its position, and take it out of the free set. -/
def writeAllocatedBlock (id : RequestId) (tokens epoch : Nat)
    (provenance : Nat → KVBlockProvenance) (manager : KVCacheManager) (entry : Nat × Nat) :
    Except Exn KVCacheManager := do
  let used ← words.mul entry.2 manager.config.blockSizeTokens
  let rest ← words.sub tokens used
  return { manager with
    blocks := manager.blocks.modify entry.1 fun block =>
      { block with
        state := .inUse
        owner := some id
        referenceCount := 1
        validTokenCount := min manager.config.blockSizeTokens rest
        lastAccessEpoch := epoch
        prefixKey := none
        provenance := some (provenance entry.2) }
    freeBlocks := manager.freeBlocks.erase entry.1 }

/-- Write the allocated blocks in order. -/
def writeAllocated (manager : KVCacheManager) (id : RequestId) (tokens epoch : Nat)
    (provenance : Nat → KVBlockProvenance) (allocationIds : List Nat) :
    Except Exn KVCacheManager :=
  allocationIds.zipIdx.foldlM (words.writeAllocatedBlock id tokens epoch provenance) manager

/-- `allocate_prompt_exact_in_place` up to its closing check. -/
def allocatePromptExactUnchecked (manager : KVCacheManager) (id : RequestId) (tokens : Nat)
    (evictionIds allocationIds : List Nat) : Except Exn KVCacheManager := do
  throwIf (manager.blockTables.contains id = true)
    (.invalidArgument "duplicate KV request ID")
  let required ← manager.config.blocksRequired tokens
  let order := manager.eligibleEvictionOrder
  let needed := required - manager.freeBlocks.size
  throwIf (needed > order.length) (.kvCapacityError "insufficient KV capacity for prompt")
  throwIf (evictionIds ≠ order.take needed)
    (.logicError "planned prompt eviction IDs differ from actual IDs")
  throwIf (allocationIds ≠ lowestAvailable manager.freeBlocks evictionIds required)
    (.logicError "planned prompt allocation IDs differ from actual IDs")
  let manager ← words.evictExactBlocksInPlace manager evictionIds
  let represented ← Serving.add manager.representedTokenCount tokens
    "represented KV token count overflow"
  let epoch ← manager.nextEpochIf (required ≠ 0)
  let written ← words.writeAllocated manager id tokens epoch (fun _ => .privatePromptCountOnly)
    allocationIds
  return KVCacheManager.updatePeak { written with
    blockTables := emplace manager.blockTables id allocationIds
    requestProvenance := emplace manager.requestProvenance id
      (countOnlyProvenance id tokens allocationIds.length)
    representedTokenCount := represented
    accessEpoch := epoch }

/-- `allocate_prompt_exact`, on a copy. -/
def allocatePromptExact (manager : KVCacheManager) (id : RequestId) (tokens : Nat)
    (evictionIds allocationIds : List Nat) : Except Exn KVCacheManager := do
  throwIf (manager.validateInvariants = false)
    (.logicError "invalid KV manager state before exact prompt allocation")
  let next ← words.allocatePromptExactUnchecked manager id tokens evictionIds allocationIds
  next.ensureValid "invalid KV manager state after exact prompt allocation"

/-- `allocate_prompt`. -/
def allocatePrompt (manager : KVCacheManager) (id : RequestId) (tokens : Nat) :
    Except Exn Unit × KVCacheManager :=
  if manager.validateInvariants = false then
    (.error (.logicError "invalid KV manager state before prompt allocation"), manager)
  else if manager.blockTables.contains id = true then
    (.error (.invalidArgument "duplicate KV request ID"), manager)
  else
    match manager.config.blocksRequired tokens with
    | .error error => (.error error, manager)
    | .ok required =>
        let order := manager.eligibleEvictionOrder
        let evictable := if manager.prefixConfig.enabled then order.length else 0
        if required > manager.freeBlocks.size + evictable then
          manager.failAllocation "insufficient KV capacity for prompt"
        else
          let evictions := order.take (required - manager.freeBlocks.size)
          manager.commit (words.allocatePromptExact manager id tokens evictions
            (lowestAvailable manager.freeBlocks evictions required))

/-- `allocate_prompt_with_prefix_exact_in_place` up to its closing check. -/
def allocatePromptWithPrefixExactUnchecked (manager : KVCacheManager) (id : RequestId)
    (tokens : List Token) (supplied : PrefixLookupResult)
    (evictionIds allocationIds : List Nat) : Except Exn KVCacheManager := do
  throwIf (manager.blockTables.contains id = true)
    (.invalidArgument "duplicate KV request ID")
  throwIf (manager.prefixConfig.enabled = false)
    (.logicError "exact prefix allocation requires an enabled cache")
  let actual ← words.findLongestCachedPrefix manager tokens
  throwIf (actual.physicalBlockIds ≠ supplied.physicalBlockIds ∨
      actual.matchedTokenCount ≠ supplied.matchedTokenCount ∨ actual.kind ≠ supplied.kind)
    (.logicError "stale prefix lookup snapshot")
  throwIf (actual.matchedTokenCount > tokens.length)
    (.invalidArgument "invalid matched prefix length")
  let suffix ← words.sub tokens.length actual.matchedTokenCount
  let required ← manager.config.blocksRequired suffix
  let evictable := manager.evictableOutside actual.physicalBlockIds
  let needed := required - manager.freeBlocks.size
  throwIf (needed > evictable.length)
    (.kvCapacityError "insufficient KV capacity for prefix suffix")
  throwIf (evictionIds ≠ evictable.take needed)
    (.logicError "planned prefix eviction IDs differ from actual IDs")
  throwIf (allocationIds ≠ lowestAvailable manager.freeBlocks evictionIds required)
    (.logicError "planned prefix allocation IDs differ from actual IDs")
  let represented ← Serving.add manager.representedTokenCount suffix
    "represented KV token count overflow"
  let metrics ← acquisitionMetrics manager.prefixMetrics actual
  throwIf (actual.physicalBlockIds.any
      (fun block => (manager.block block).referenceCount = uint64Max) = true)
    (.overflowError "prefix block reference count overflow")
  let hitEpoch ← manager.nextEpochIf (actual.physicalBlockIds ≠ [])
  let acquired := manager.acquireMatched hitEpoch actual.physicalBlockIds
  let evicted ← words.evictExactBlocksInPlace { acquired with accessEpoch := hitEpoch }
    evictionIds
  -- The suffix was added before the evicted tokens are taken off.
  let evictedTokens ← words.mul evictionIds.length manager.config.blockSizeTokens
  let represented ← words.sub represented evictedTokens
  let metrics := { metrics with evictionCount := evicted.prefixMetrics.evictionCount }
  let epoch ← evicted.nextEpochIf (required ≠ 0)
  let full := tokens.length / manager.config.blockSizeTokens
  let written ← words.writeAllocated evicted id suffix epoch
    (fun i => if actual.matchedBlockCount + i < full then .computedPromptFull
      else .privatePromptTail) allocationIds
  return KVCacheManager.updatePeak { written with
    accessEpoch := epoch
    requestProvenance := emplace evicted.requestProvenance id
      (exactProvenance manager.config manager.prefixConfig.enabled id tokens
        actual.matchedBlockCount false)
    blockTables := emplace evicted.blockTables id (actual.physicalBlockIds ++ allocationIds)
    representedTokenCount := represented
    prefixMetrics := metrics }

/-- `allocate_prompt_with_prefix_exact`, on a copy. -/
def allocatePromptWithPrefixExact (manager : KVCacheManager) (id : RequestId)
    (tokens : List Token) (supplied : PrefixLookupResult)
    (evictionIds allocationIds : List Nat) : Except Exn KVCacheManager := do
  throwIf (manager.validateInvariants = false)
    (.logicError "invalid KV manager state before exact prefix acquisition")
  let next ← words.allocatePromptWithPrefixExactUnchecked manager id tokens supplied evictionIds
    allocationIds
  next.ensureValid "invalid KV manager state after prefix acquisition"

/-- `allocate_prompt_with_prefix`. -/
def allocatePromptWithPrefix (manager : KVCacheManager) (id : RequestId) (tokens : List Token)
    (lookup : PrefixLookupResult) (protectedBlocks : OrdSet Nat) :
    Except Exn Unit × KVCacheManager :=
  if manager.validateInvariants = false then
    (.error (.logicError "invalid KV manager state before prefix acquisition"), manager)
  else
    match words.findLongestCachedPrefix manager tokens with
    | .error error => (.error error, manager)
    | .ok actual =>
        if actual.physicalBlockIds ≠ lookup.physicalBlockIds ∨
            actual.matchedTokenCount ≠ lookup.matchedTokenCount then
          (.error (.logicError "stale prefix lookup snapshot"), manager)
        else
          match words.sub tokens.length actual.matchedTokenCount >>=
              manager.config.blocksRequired with
          | .error error => (.error error, manager)
          | .ok required =>
              let evictable := manager.eligibleEvictionOrder.filter
                (fun id => ¬ (id ∈ protectedBlocks ∨ id ∈ actual.physicalBlockIds))
              let evictionCount := required - manager.freeBlocks.size
              if evictionCount > evictable.length then
                manager.failAllocation "insufficient KV capacity for prefix suffix"
              else
                let evictions := evictable.take evictionCount
                manager.commit (words.allocatePromptWithPrefixExact manager id tokens lookup
                  evictions (lowestAvailable manager.freeBlocks evictions required))

/-! ## Publication -/

/-- The loop of `insert_completed_prompt_blocks_in_place`, `remaining` full blocks from
position `i` on. -/
def publishFrom (p : RequestKVPromptProvenance) (tokens : List Token) (table : List Nat) :
    Nat → Nat → UInt64 → KVCacheManager → Except Exn KVCacheManager
  | 0, _, _, manager => .ok manager
  | remaining + 1, i, parent, manager => do
      let offset ← words.mul i manager.config.blockSizeTokens
      let key ← manager.makeKey parent tokens offset manager.prefixConfig.modelNamespace
        manager.prefixConfig.cacheSalt
      let id := table.getD i 0
      if i < p.computedFullBegin then
        throwIf (((manager.block id).prefixKey.any
            fun stored => exactKeyMaterialEqual stored key) = false)
          (.logicError "shared prompt block does not match stored provenance")
        publishFrom p tokens table remaining (i + 1) key.blockHash manager
      else
        let canonical := manager.canonicalExists key
        throwIf ((manager.block id).provenance ≠ some .computedPromptFull)
          (.logicError "non-computed prompt block cannot be published")
        if canonical = false ∧ (manager.block id).prefixKey = none then
          let epoch ← manager.nextAccessEpoch
          let ids := (manager.prefixIndex.find? key.blockHash).getD []
          publishFrom p tokens table remaining (i + 1) key.blockHash
            { manager with
              blocks := manager.blocks.modify id fun block =>
                { block with prefixKey := some key, owner := none, lastAccessEpoch := epoch }
              prefixIndex := manager.prefixIndex.insert key.blockHash
                (sortBy (fun id => id) (ids ++ [id]))
              accessEpoch := epoch }
        else publishFrom p tokens table remaining (i + 1) key.blockHash manager

/-- `insert_completed_prompt_blocks_in_place`. -/
def insertCompletedPromptBlocksInPlace (manager : KVCacheManager) (id : RequestId) :
    Except Exn KVCacheManager :=
  match manager.blockTables.find? id, manager.requestProvenance.find? id with
  | none, _ => .error (.outOfRange "unknown KV request ID")
  | some _, none => .error (.logicError "missing request prompt provenance")
  | some table, some p =>
      match p.exactPromptTokens with
      | none => .error (.logicError "request prompt is ineligible for prefix publication")
      | some tokens => do
          throwIf (manager.prefixConfig.enabled = false ∨ p.publicationEligible = false)
            (.logicError "request prompt is ineligible for prefix publication")
          throwIf (p.computedFullBegin = p.computedFullEnd)
            (.logicError "request has no computed full prompt blocks to publish")
          if p.publicationCompleted then
            return manager
          else
            let published ← words.publishFrom p tokens table p.cacheEligibleFullPromptBlocks 0
              prefixCacheRootHash manager
            (published.markPublished id).ensureValid
              "invalid KV manager state after prefix insertion"

/-- `insert_completed_prompt_blocks`, on a copy. -/
def insertCompletedPromptBlocks (manager : KVCacheManager) (id : RequestId) :
    Except Exn KVCacheManager := do
  throwIf (manager.validateInvariants = false)
    (.logicError "invalid KV manager state before prefix insertion")
  words.insertCompletedPromptBlocksInPlace manager id

/-! ## Decode growth -/

/-- The write of one decoded token: into a new block, or into the last one. -/
def writeDecoded (manager : KVCacheManager) (id : RequestId) (table : List Nat) (newBlock : Bool)
    (allocationId : Option Nat) (epoch : Nat) : Except Exn KVCacheManager :=
  if newBlock then manager.writeDecoded id table newBlock allocationId epoch
  else do
    let last := table.getLastD 0
    let validTokenCount ← words.add (manager.block last).validTokenCount 1
    return manager.modifyBlock last fun block =>
      { block with validTokenCount, lastAccessEpoch := epoch }

/-- `append_decode_token_exact_in_place` up to its closing check. -/
def appendDecodeTokenExactUnchecked (manager : KVCacheManager) (id : RequestId)
    (evictionIds : List Nat) (allocationId : Option Nat) : Except Exn KVCacheManager :=
  match manager.blockTables.find? id with
  | none => .error (.outOfRange "unknown KV request ID")
  | some table => do
      throwIf (manager.representedTokenCount = uint64Max)
        (.overflowError "represented KV token count overflow")
      let newBlock ← manager.decodeRequiresNewBlock id
      let (expectedEvictions, expectedAllocation) ← manager.decodePlan newBlock
      throwIf (evictionIds ≠ expectedEvictions ∨ allocationId ≠ expectedAllocation)
        (.logicError "planned decode physical IDs differ from actual IDs")
      let evicted ← words.evictExactBlocksInPlace manager evictionIds
      let epoch ← evicted.nextAccessEpoch
      let written ← words.writeDecoded evicted id table newBlock allocationId epoch
      let representedTokenCount ← words.add evicted.representedTokenCount 1
      return KVCacheManager.updatePeak { written with
        representedTokenCount
        accessEpoch := epoch }

/-- `append_decode_token_exact`, on a copy. -/
def appendDecodeTokenExact (manager : KVCacheManager) (id : RequestId)
    (evictionIds : List Nat) (allocationId : Option Nat) : Except Exn KVCacheManager := do
  throwIf (manager.validateInvariants = false)
    (.logicError "invalid KV manager state before exact decode append")
  let next ← words.appendDecodeTokenExactUnchecked manager id evictionIds allocationId
  next.ensureValid "invalid KV manager state after decode append"

/-- `append_decode_token`. -/
def appendDecodeToken (manager : KVCacheManager) (id : RequestId) :
    Except Exn Unit × KVCacheManager :=
  if manager.validateInvariants = false then
    (.error (.logicError "invalid KV manager state before decode append"), manager)
  else if manager.blockTables.contains id = false then
    (.error (.outOfRange "unknown KV request ID"), manager)
  else if manager.representedTokenCount = uint64Max then
    (.error (.overflowError "represented KV token count overflow"), manager)
  else
    match manager.nextAccessEpoch with
    | .error error => (.error error, manager)
    | .ok _ =>
        match manager.decodeRequiresNewBlock id with
        | .error error => (.error error, manager)
        | .ok newBlock =>
            match manager.decodePlan newBlock with
            | .error _ => manager.failAllocation "insufficient KV capacity for decode token"
            | .ok (evictions, allocation) =>
                manager.commit (words.appendDecodeTokenExact manager id evictions allocation)

/-! ## Release -/

/-- The loop body of `release_request_in_place`. -/
def releaseBlock (manager : KVCacheManager) (id : Nat) : Except Exn KVCacheManager := do
  let block := manager.block id
  throwIf (block.referenceCount = 0) (.logicError "KV reference count underflow")
  let referenceCount ← words.sub block.referenceCount 1
  if referenceCount ≠ 0 then
    return manager.modifyBlock id fun block =>
      { block with referenceCount, state := .inUse, owner := none }
  else if block.prefixKey.isSome then
    return manager.modifyBlock id fun block =>
      { block with referenceCount, state := .cached, owner := none }
  else
    throwIf (block.validTokenCount > manager.representedTokenCount)
      (.logicError "represented KV token count underflow")
    let representedTokenCount ← words.sub manager.representedTokenCount block.validTokenCount
    return { manager with
      representedTokenCount
      blocks := manager.blocks.modify id fun block =>
        { block with
          referenceCount, state := .free, owner := none
          validTokenCount := 0, lastAccessEpoch := 0, provenance := none }
      freeBlocks := manager.freeBlocks.insert id }

/-- `release_request_in_place` up to its closing check. -/
def releaseRequestUnchecked (manager : KVCacheManager) (id : RequestId) :
    Except Exn KVCacheManager :=
  match manager.blockTables.find? id with
  | none => .error (.outOfRange "unknown KV request ID")
  | some table => do
      let released ← table.foldlM words.releaseBlock manager
      return { released with
        blockTables := released.blockTables.erase id
        requestProvenance := released.requestProvenance.erase id }

/-- `release_request`, on a copy. -/
def releaseRequest (manager : KVCacheManager) (id : RequestId) : Except Exn KVCacheManager := do
  throwIf (manager.validateInvariants = false)
    (.logicError "invalid KV manager state before request release")
  let next ← words.releaseRequestUnchecked manager id
  next.ensureValid "invalid KV manager state after release"

/-! ## The machine -/

/-- Run one public operation: its outcome and the manager it leaves behind. -/
def apply (manager : KVCacheManager) : KVOp → Except Exn Unit × KVCacheManager
  | .allocatePrompt id tokens => words.allocatePrompt manager id tokens
  | .allocatePromptExact id tokens evictionIds allocationIds =>
      manager.commit (words.allocatePromptExact manager id tokens evictionIds allocationIds)
  | .allocatePromptWithPrefix id tokens lookup protectedBlocks =>
      words.allocatePromptWithPrefix manager id tokens lookup protectedBlocks
  | .allocatePromptWithPrefixExact id tokens lookup evictionIds allocationIds =>
      manager.commit
        (words.allocatePromptWithPrefixExact manager id tokens lookup evictionIds allocationIds)
  | .insertCompletedPromptBlocks id =>
      manager.commit (words.insertCompletedPromptBlocks manager id)
  | .appendDecodeToken id => words.appendDecodeToken manager id
  | .appendDecodeTokenExact id evictionIds allocationId =>
      manager.commit (words.appendDecodeTokenExact manager id evictionIds allocationId)
  | .releaseRequest id => manager.commit (words.releaseRequest manager id)
  | .evictUnusedBlocks count =>
      ((words.evictUnusedBlocks manager count).1.map fun _ => (),
        (words.evictUnusedBlocks manager count).2)

/-- The manager as a machine over its public operations. -/
def cacheMachine : Machine KVCacheManager KVOp (Except Exn Unit) := ⟨words.apply⟩

end WordArithmetic

end LlmLab.Serving
