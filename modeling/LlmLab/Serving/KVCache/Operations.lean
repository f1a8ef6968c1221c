import LlmLab.Serving.KVCache.Validate

/-!
# Operations of the KV-cache manager

The public operations of `KVCacheManager` and their `_in_place` forms.  An `_in_place` form
works on a copy, so a throw drops every change it made: it returns `Except Exn`.  A public
operation returns its outcome together with the manager it leaves behind, which differs from
the one it was given only after a success or a counted capacity failure.
-/

namespace LlmLab.Serving

namespace KVCacheManager

/-- The closing check of every mutation. -/
def ensureValid (manager : KVCacheManager) (message : String) : Except Exn KVCacheManager := do
  throwIf (manager.validateInvariants = false) (.logicError message)
  return manager

/-- Copy, mutate the copy, and swap it in unless the mutation threw. -/
def commit (manager : KVCacheManager) (copy : Except Exn KVCacheManager) :
    Except Exn Unit × KVCacheManager :=
  match copy with
  | .ok next => (.ok (), next)
  | .error error => (.error error, manager)

/-- `note_allocation_failure`, then throw `KVCapacityError`. -/
def failAllocation (manager : KVCacheManager) (message : String) :
    Except Exn Unit × KVCacheManager :=
  match inc manager.allocationFailureCount "KV allocation failure count overflow" with
  | .error error => (.error error, manager)
  | .ok count => (.error (.kvCapacityError message), { manager with allocationFailureCount := count })

/-- A new access epoch if some block is touched. -/
def nextEpochIf (manager : KVCacheManager) (touched : Prop) [Decidable touched] :
    Except Exn Nat :=
  if touched then manager.nextAccessEpoch else .ok manager.accessEpoch

/-- The first `required` ids of the free set enlarged by the evicted ids. -/
def lowestAvailable (free : OrdSet Nat) (evictionIds : List Nat) (required : Nat) : List Nat :=
  (free.insertAll evictionIds).elems.take required

/-! ## Lookup -/

/-- The scan of one bucket for a block with exactly the wanted key material. -/
def scanBucket (manager : KVCacheManager) (key : TokenBlockKey) :
    List Nat → Nat → Except Exn (Option Nat × Nat)
  | [], collisions => .ok (none, collisions)
  | id :: rest, collisions =>
      match manager.blocks[id]? with
      | none => .error (.outOfRange "vector::at")
      | some block =>
          if (block.prefixKey.any fun stored => exactKeyMaterialEqual stored key) then
            .ok (some id, collisions)
          else do
            let collisions ← inc collisions "collision verification count overflow"
            scanBucket manager key rest collisions

/-- The search of one loop step: the bucket of the key, if there is one. -/
def findKey (manager : KVCacheManager) (key : TokenBlockKey) (collisions : Nat) :
    Except Exn (Option Nat × Nat) :=
  match manager.prefixIndex.find? key.blockHash with
  | none => .ok (none, collisions)
  | some bucket => manager.scanBucket key bucket collisions

/-- The loop of `find_longest_cached_prefix` over the full blocks from position `i` on. -/
def lookupFrom (manager : KVCacheManager) (tokens : List Token) (ns salt : Bytes) :
    Nat → Nat → PrefixLookupResult → Except Exn PrefixLookupResult
  | 0, _, result => .ok result
  | remaining + 1, i, result => do
      let key ← manager.makeKey result.nextParentHash tokens
        (i * manager.config.blockSizeTokens) ns salt
      let (found, collisions) ← manager.findKey key result.collisionVerificationCount
      let result := { result with collisionVerificationCount := collisions }
      match found with
      | none => .ok result
      | some id =>
          lookupFrom manager tokens ns salt remaining (i + 1)
            { result with
              physicalBlockIds := result.physicalBlockIds ++ [id]
              matchedBlockCount := result.matchedBlockCount + 1
              matchedTokenCount := result.matchedTokenCount + manager.config.blockSizeTokens
              nextParentHash := key.blockHash }

/-- The classification of a finished lookup over `full` blocks. -/
def lookupKind (matched full : Nat) : PrefixLookupKind :=
  if matched = full ∧ full ≠ 0 then .allEligibleBlocksHit
  else if matched ≠ 0 then .partialHit
  else .miss

/-- `find_longest_cached_prefix` under a given namespace and salt. -/
def findLongestCachedPrefixIn (manager : KVCacheManager) (tokens : List Token)
    (ns salt : Bytes) : Except Exn PrefixLookupResult := do
  throwIf (manager.validateInvariants = false)
    (.logicError "invalid KV manager state before prefix lookup")
  if manager.prefixConfig.enabled = false then
    return { kind := .disabled }
  else
    let full := tokens.length / manager.config.blockSizeTokens
    let result ← manager.lookupFrom tokens ns salt full 0
      { eligibleTokenCount := full * manager.config.blockSizeTokens }
    return { result with kind := lookupKind result.matchedBlockCount full }

/-- `find_longest_cached_prefix` under the manager's own namespace and salt. -/
def findLongestCachedPrefix (manager : KVCacheManager) (tokens : List Token) :
    Except Exn PrefixLookupResult :=
  manager.findLongestCachedPrefixIn tokens manager.prefixConfig.modelNamespace
    manager.prefixConfig.cacheSalt

/-! ## Eviction -/

/-- The loop body of `evict_exact_blocks_in_place`. -/
def evictBlock (manager : KVCacheManager) (id : Nat) : Except Exn KVCacheManager := do
  let evictionCount ← inc manager.prefixMetrics.evictionCount "prefix eviction count overflow"
  match (manager.block id).prefixKey with
  | none => .error (.undefinedBehavior "*block.prefix_key")
  | some key =>
      match manager.prefixIndex.find? key.blockHash with
      | none => .error (.logicError "missing prefix index entry")
      | some bucket => do
          throwIf (id ∉ bucket) (.logicError "missing prefix index block")
          throwIf ((manager.block id).validTokenCount > manager.representedTokenCount)
            (.logicError "represented KV token count underflow")
          return { manager with
            prefixMetrics := { manager.prefixMetrics with evictionCount }
            prefixIndex :=
              if bucket.erase id = [] then manager.prefixIndex.erase key.blockHash
              else manager.prefixIndex.insert key.blockHash (bucket.erase id)
            representedTokenCount :=
              manager.representedTokenCount - (manager.block id).validTokenCount
            blocks := manager.blocks.modify id fun block =>
              { block with
                state := .free, owner := none, referenceCount := 0, validTokenCount := 0
                lastAccessEpoch := 0, prefixKey := none, provenance := none }
            freeBlocks := manager.freeBlocks.insert id }

/-- `evict_exact_blocks_in_place`. -/
def evictExactBlocksInPlace (manager : KVCacheManager) (ids : List Nat) :
    Except Exn KVCacheManager := do
  let order := manager.eligibleEvictionOrder
  throwIf (ids.length > order.length)
    (.runtimeError "insufficient evictable prefix-cache blocks")
  throwIf (ids ≠ order.take ids.length)
    (.logicError "planned eviction IDs differ from deterministic LRU IDs")
  ids.foldlM evictBlock manager

/-- `evict_unused_blocks_in_place`, which also returns the evicted ids. -/
def evictUnusedBlocksInPlace (manager : KVCacheManager) (count : Nat) :
    Except Exn (List Nat × KVCacheManager) := do
  let order := manager.eligibleEvictionOrder
  throwIf (count > order.length)
    (.runtimeError "insufficient evictable prefix-cache blocks")
  let order := order.take count
  let evicted ← manager.evictExactBlocksInPlace order
  let evicted ← evicted.ensureValid "invalid KV manager state after eviction"
  return (order, evicted)

/-- `evict_unused_blocks`. -/
def evictUnusedBlocks (manager : KVCacheManager) (count : Nat) :
    Except Exn (List Nat) × KVCacheManager :=
  if manager.validateInvariants = false then
    (.error (.logicError "invalid KV manager state before prefix eviction"), manager)
  else
    match manager.evictUnusedBlocksInPlace count with
    | .ok (ids, next) => (.ok ids, next)
    | .error error => (.error error, manager)

/-! ## Prompt allocation -/

/-- One newly allocated prompt block, the `i`-th of an allocation of `tokens` tokens. -/
def allocatedPromptBlock (config : KVCacheConfig) (id : RequestId) (tokens epoch i : Nat)
    (provenance : KVBlockProvenance) (block : PhysicalKVBlock) : PhysicalKVBlock :=
  { block with
    state := .inUse
    owner := some id
    referenceCount := 1
    validTokenCount := min config.blockSizeTokens (tokens - i * config.blockSizeTokens)
    lastAccessEpoch := epoch
    prefixKey := none
    provenance := some provenance }

/-- Write one allocated block, given with its position, and take it out of the free set. -/
def writeAllocatedBlock (id : RequestId) (tokens epoch : Nat)
    (provenance : Nat → KVBlockProvenance) (manager : KVCacheManager) (entry : Nat × Nat) :
    KVCacheManager :=
  { manager with
    blocks := manager.blocks.modify entry.1
      (allocatedPromptBlock manager.config id tokens epoch entry.2 (provenance entry.2))
    freeBlocks := manager.freeBlocks.erase entry.1 }

/-- Write the allocated blocks in order. -/
def writeAllocated (manager : KVCacheManager) (id : RequestId) (tokens epoch : Nat)
    (provenance : Nat → KVBlockProvenance) (allocationIds : List Nat) : KVCacheManager :=
  allocationIds.zipIdx.foldl (writeAllocatedBlock id tokens epoch provenance) manager

/-- The provenance record of a count-only prompt. -/
def countOnlyProvenance (id : RequestId) (tokens blocks : Nat) : RequestKVPromptProvenance where
  requestId := id
  publicationEligible := false
  exactPromptTokens := none
  totalPromptTokenCount := tokens
  cacheEligibleFullPromptBlocks := 0
  matchedSharedPrefixBlocks := 0
  computedFullBegin := 0
  computedFullEnd := 0
  privatePromptTailPosition := none
  decodeBlockStartPosition := blocks
  publicationCompleted := false

/-- `emplace`: the first record under a key stays. -/
def emplace {α : Type} (map : OrdMap RequestId α) (id : RequestId) (value : α) :
    OrdMap RequestId α :=
  if map.contains id then map else map.insert id value

/-- `allocate_prompt_exact_in_place` up to its closing check. -/
def allocatePromptExactUnchecked (manager : KVCacheManager) (id : RequestId) (tokens : Nat)
    (evictionIds allocationIds : List Nat) : Except Exn KVCacheManager := do
  throwIf (manager.blockTables.contains id = true)
    (.invalidArgument "duplicate KV request ID")
  let required ← manager.config.blocksRequired tokens
  let order := manager.eligibleEvictionOrder
  let needed := required - manager.freeBlocks.size
  throwIf (needed > order.length) (.kvCapacityError "insufficient KV capacity for prompt")
  throwIf (evictionIds ≠ order.take needed)
    (.logicError "planned prompt eviction IDs differ from actual IDs")
  throwIf (allocationIds ≠ lowestAvailable manager.freeBlocks evictionIds required)
    (.logicError "planned prompt allocation IDs differ from actual IDs")
  let manager ← manager.evictExactBlocksInPlace evictionIds
  let represented ← add manager.representedTokenCount tokens "represented KV token count overflow"
  let epoch ← manager.nextEpochIf (required ≠ 0)
  let written := manager.writeAllocated id tokens epoch (fun _ => .privatePromptCountOnly)
    allocationIds
  return KVCacheManager.updatePeak { written with
    blockTables := emplace manager.blockTables id allocationIds
    requestProvenance := emplace manager.requestProvenance id
      (countOnlyProvenance id tokens allocationIds.length)
    representedTokenCount := represented
    accessEpoch := epoch }

/-- `allocate_prompt_exact`, on a copy. -/
def allocatePromptExact (manager : KVCacheManager) (id : RequestId) (tokens : Nat)
    (evictionIds allocationIds : List Nat) : Except Exn KVCacheManager := do
  throwIf (manager.validateInvariants = false)
    (.logicError "invalid KV manager state before exact prompt allocation")
  let next ← manager.allocatePromptExactUnchecked id tokens evictionIds allocationIds
  next.ensureValid "invalid KV manager state after exact prompt allocation"

/-- `allocate_prompt`. -/
def allocatePrompt (manager : KVCacheManager) (id : RequestId) (tokens : Nat) :
    Except Exn Unit × KVCacheManager :=
  if manager.validateInvariants = false then
    (.error (.logicError "invalid KV manager state before prompt allocation"), manager)
  else if manager.blockTables.contains id = true then
    (.error (.invalidArgument "duplicate KV request ID"), manager)
  else
    match manager.config.blocksRequired tokens with
    | .error error => (.error error, manager)
    | .ok required =>
        let order := manager.eligibleEvictionOrder
        let evictable := if manager.prefixConfig.enabled then order.length else 0
        if required > manager.freeBlocks.size + evictable then
          manager.failAllocation "insufficient KV capacity for prompt"
        else
          let evictions := order.take (required - manager.freeBlocks.size)
          manager.commit (manager.allocatePromptExact id tokens evictions
            (lowestAvailable manager.freeBlocks evictions required))

/-! ## Prompt allocation over a cached prefix -/

/-- The prefix metrics after one acquisition. -/
def acquisitionMetrics (metrics : PrefixCacheMetrics) (lookup : PrefixLookupResult) :
    Except Exn PrefixCacheMetrics := do
  let lookups ← inc metrics.cacheLookupCount "cache lookup count overflow"
  let eligible ← add metrics.totalCacheEligiblePromptTokensLookedUp lookup.eligibleTokenCount
    "eligible prefix token count overflow"
  let collisions ← add metrics.collisionVerificationCount lookup.collisionVerificationCount
    "collision verification count overflow"
  let metrics := { metrics with
    cacheLookupCount := lookups
    totalCacheEligiblePromptTokensLookedUp := eligible
    collisionVerificationCount := collisions }
  if lookup.matchedBlockCount ≠ 0 then
    let hits ← inc metrics.cacheHitLookupCount "cache hit count overflow"
    let reused ← inc metrics.reusedRequestCount "reused request count overflow"
    let blocks ← add metrics.matchedBlockCount lookup.matchedBlockCount
      "matched block count overflow"
    let tokens ← add metrics.matchedTokenCount lookup.matchedTokenCount
      "matched token count overflow"
    let saved ← add metrics.savedPrefillTokenCount lookup.matchedTokenCount
      "saved prefill token count overflow"
    return { metrics with
      cacheHitLookupCount := hits
      reusedRequestCount := reused
      matchedBlockCount := blocks
      matchedTokenCount := tokens
      savedPrefillTokenCount := saved }
  else
    let misses ← inc metrics.cacheMissLookupCount "cache miss count overflow"
    return { metrics with cacheMissLookupCount := misses }

/-- A matched block gains a reference; a cached computed block becomes a shared one. -/
def acquiredBlock (epoch : Nat) (block : PhysicalKVBlock) : PhysicalKVBlock :=
  { block with
    referenceCount := block.referenceCount + 1
    state := .inUse
    owner := none
    lastAccessEpoch := epoch
    provenance :=
      if block.state = .cached ∧ block.provenance = some .computedPromptFull then
        some .sharedPromptFull
      else block.provenance }

/-- Acquire the matched blocks in order. -/
def acquireMatched (manager : KVCacheManager) (epoch : Nat) (ids : List Nat) : KVCacheManager :=
  ids.foldl (fun manager id => manager.modifyBlock id (acquiredBlock epoch)) manager

/-- The provenance record of an exact prompt. -/
def exactProvenance (config : KVCacheConfig) (enabled : Bool) (id : RequestId)
    (tokens : List Token) (matched : Nat) (completed : Bool) : RequestKVPromptProvenance :=
  let full := tokens.length / config.blockSizeTokens
  let hasTail := tokens.length % config.blockSizeTokens ≠ 0
  { requestId := id
    publicationEligible := enabled
    exactPromptTokens := some tokens
    totalPromptTokenCount := tokens.length
    cacheEligibleFullPromptBlocks := full
    matchedSharedPrefixBlocks := matched
    computedFullBegin := matched
    computedFullEnd := full
    privatePromptTailPosition := if hasTail then some full else none
    decodeBlockStartPosition := full + if hasTail then 1 else 0
    publicationCompleted := completed }

/-- The eviction order without the matched blocks. -/
def evictableOutside (manager : KVCacheManager) (kept : List Nat) : List Nat :=
  manager.eligibleEvictionOrder.filter (fun id => id ∉ kept)

/-- `allocate_prompt_with_prefix_exact_in_place` up to its closing check. -/
def allocatePromptWithPrefixExactUnchecked (manager : KVCacheManager) (id : RequestId)
    (tokens : List Token) (supplied : PrefixLookupResult)
    (evictionIds allocationIds : List Nat) : Except Exn KVCacheManager := do
  throwIf (manager.blockTables.contains id = true)
    (.invalidArgument "duplicate KV request ID")
  throwIf (manager.prefixConfig.enabled = false)
    (.logicError "exact prefix allocation requires an enabled cache")
  let actual ← manager.findLongestCachedPrefix tokens
  throwIf (actual.physicalBlockIds ≠ supplied.physicalBlockIds ∨
      actual.matchedTokenCount ≠ supplied.matchedTokenCount ∨ actual.kind ≠ supplied.kind)
    (.logicError "stale prefix lookup snapshot")
  throwIf (actual.matchedTokenCount > tokens.length)
    (.invalidArgument "invalid matched prefix length")
  let suffix := tokens.length - actual.matchedTokenCount
  let required ← manager.config.blocksRequired suffix
  let evictable := manager.evictableOutside actual.physicalBlockIds
  let needed := required - manager.freeBlocks.size
  throwIf (needed > evictable.length)
    (.kvCapacityError "insufficient KV capacity for prefix suffix")
  throwIf (evictionIds ≠ evictable.take needed)
    (.logicError "planned prefix eviction IDs differ from actual IDs")
  throwIf (allocationIds ≠ lowestAvailable manager.freeBlocks evictionIds required)
    (.logicError "planned prefix allocation IDs differ from actual IDs")
  let represented ← add manager.representedTokenCount suffix "represented KV token count overflow"
  let metrics ← acquisitionMetrics manager.prefixMetrics actual
  throwIf (actual.physicalBlockIds.any
      (fun block => (manager.block block).referenceCount = uint64Max) = true)
    (.overflowError "prefix block reference count overflow")
  let hitEpoch ← manager.nextEpochIf (actual.physicalBlockIds ≠ [])
  let acquired := manager.acquireMatched hitEpoch actual.physicalBlockIds
  let evicted ← KVCacheManager.evictExactBlocksInPlace { acquired with accessEpoch := hitEpoch }
    evictionIds
  let represented := represented - evictionIds.length * manager.config.blockSizeTokens
  let metrics := { metrics with evictionCount := evicted.prefixMetrics.evictionCount }
  let epoch ← evicted.nextEpochIf (required ≠ 0)
  let full := tokens.length / manager.config.blockSizeTokens
  let written := evicted.writeAllocated id suffix epoch
    (fun i => if actual.matchedBlockCount + i < full then .computedPromptFull
      else .privatePromptTail) allocationIds
  return KVCacheManager.updatePeak { written with
    accessEpoch := epoch
    requestProvenance := emplace evicted.requestProvenance id
      (exactProvenance manager.config manager.prefixConfig.enabled id tokens
        actual.matchedBlockCount false)
    blockTables := emplace evicted.blockTables id (actual.physicalBlockIds ++ allocationIds)
    representedTokenCount := represented
    prefixMetrics := metrics }

/-- `allocate_prompt_with_prefix_exact`, on a copy. -/
def allocatePromptWithPrefixExact (manager : KVCacheManager) (id : RequestId)
    (tokens : List Token) (supplied : PrefixLookupResult)
    (evictionIds allocationIds : List Nat) : Except Exn KVCacheManager := do
  throwIf (manager.validateInvariants = false)
    (.logicError "invalid KV manager state before exact prefix acquisition")
  let next ← manager.allocatePromptWithPrefixExactUnchecked id tokens supplied evictionIds
    allocationIds
  next.ensureValid "invalid KV manager state after prefix acquisition"

/-- `allocate_prompt_with_prefix`. -/
def allocatePromptWithPrefix (manager : KVCacheManager) (id : RequestId) (tokens : List Token)
    (lookup : PrefixLookupResult) (protectedBlocks : OrdSet Nat) :
    Except Exn Unit × KVCacheManager :=
  if manager.validateInvariants = false then
    (.error (.logicError "invalid KV manager state before prefix acquisition"), manager)
  else
    match manager.findLongestCachedPrefix tokens with
    | .error error => (.error error, manager)
    | .ok actual =>
        if actual.physicalBlockIds ≠ lookup.physicalBlockIds ∨
            actual.matchedTokenCount ≠ lookup.matchedTokenCount then
          (.error (.logicError "stale prefix lookup snapshot"), manager)
        else
          match manager.config.blocksRequired (tokens.length - actual.matchedTokenCount) with
          | .error error => (.error error, manager)
          | .ok required =>
              let evictable := manager.eligibleEvictionOrder.filter
                (fun id => ¬ (id ∈ protectedBlocks ∨ id ∈ actual.physicalBlockIds))
              let evictionCount := required - manager.freeBlocks.size
              if evictionCount > evictable.length then
                manager.failAllocation "insufficient KV capacity for prefix suffix"
              else
                let evictions := evictable.take evictionCount
                manager.commit (manager.allocatePromptWithPrefixExact id tokens lookup evictions
                  (lowestAvailable manager.freeBlocks evictions required))

/-! ## Publication -/

/-- The loop of `insert_completed_prompt_blocks_in_place`, `remaining` full blocks from
position `i` on. -/
def publishFrom (p : RequestKVPromptProvenance) (tokens : List Token) (table : List Nat) :
    Nat → Nat → UInt64 → KVCacheManager → Except Exn KVCacheManager
  | 0, _, _, manager => .ok manager
  | remaining + 1, i, parent, manager => do
      let key ← manager.makeKey parent tokens (i * manager.config.blockSizeTokens)
        manager.prefixConfig.modelNamespace manager.prefixConfig.cacheSalt
      let id := table.getD i 0
      if i < p.computedFullBegin then
        throwIf (((manager.block id).prefixKey.any
            fun stored => exactKeyMaterialEqual stored key) = false)
          (.logicError "shared prompt block does not match stored provenance")
        publishFrom p tokens table remaining (i + 1) key.blockHash manager
      else
        let canonical := manager.canonicalExists key
        throwIf ((manager.block id).provenance ≠ some .computedPromptFull)
          (.logicError "non-computed prompt block cannot be published")
        if canonical = false ∧ (manager.block id).prefixKey = none then
          let epoch ← manager.nextAccessEpoch
          let ids := (manager.prefixIndex.find? key.blockHash).getD []
          publishFrom p tokens table remaining (i + 1) key.blockHash
            { manager with
              blocks := manager.blocks.modify id fun block =>
                { block with prefixKey := some key, owner := none, lastAccessEpoch := epoch }
              prefixIndex := manager.prefixIndex.insert key.blockHash
                (sortBy (fun id => id) (ids ++ [id]))
              accessEpoch := epoch }
        else publishFrom p tokens table remaining (i + 1) key.blockHash manager

/-- Record that a request's prompt is published. -/
def markPublished (manager : KVCacheManager) (id : RequestId) : KVCacheManager :=
  { manager with
    requestProvenance := manager.requestProvenance.modify id fun p =>
      { p with publicationCompleted := true } }

/-- `insert_completed_prompt_blocks_in_place`. -/
def insertCompletedPromptBlocksInPlace (manager : KVCacheManager) (id : RequestId) :
    Except Exn KVCacheManager :=
  match manager.blockTables.find? id, manager.requestProvenance.find? id with
  | none, _ => .error (.outOfRange "unknown KV request ID")
  | some _, none => .error (.logicError "missing request prompt provenance")
  | some table, some p =>
      match p.exactPromptTokens with
      | none => .error (.logicError "request prompt is ineligible for prefix publication")
      | some tokens => do
          throwIf (manager.prefixConfig.enabled = false ∨ p.publicationEligible = false)
            (.logicError "request prompt is ineligible for prefix publication")
          throwIf (p.computedFullBegin = p.computedFullEnd)
            (.logicError "request has no computed full prompt blocks to publish")
          if p.publicationCompleted then
            return manager
          else
            let published ← publishFrom p tokens table p.cacheEligibleFullPromptBlocks 0
              prefixCacheRootHash manager
            (published.markPublished id).ensureValid
              "invalid KV manager state after prefix insertion"

/-- `insert_completed_prompt_blocks`, on a copy. -/
def insertCompletedPromptBlocks (manager : KVCacheManager) (id : RequestId) :
    Except Exn KVCacheManager := do
  throwIf (manager.validateInvariants = false)
    (.logicError "invalid KV manager state before prefix insertion")
  manager.insertCompletedPromptBlocksInPlace id

/-! ## Decode growth -/

/-- `decode_requires_new_block`. -/
def decodeRequiresNewBlock (manager : KVCacheManager) (id : RequestId) : Except Exn Bool := do
  throwIf (manager.validateInvariants = false)
    (.logicError "invalid KV manager state before decode capacity query")
  match manager.blockTables.find? id with
  | none => .error (.outOfRange "unknown KV request ID")
  | some table =>
      match table.getLast? with
      | none => return true
      | some last => do
          let block := manager.block last
          throwIf (last ≥ manager.blocks.length) (.outOfRange "vector::at")
          throwIf (block.state ≠ .inUse ∨ block.referenceCount = 0 ∨ block.validTokenCount = 0 ∨
              block.validTokenCount > manager.config.blockSizeTokens)
            (.logicError "invalid final KV block metadata")
          return block.prefixKey.isSome || block.referenceCount > 1 ||
            block.validTokenCount = manager.config.blockSizeTokens

/-- The victims and the block a decode append takes, given whether it needs a block. -/
def decodePlan (manager : KVCacheManager) (newBlock : Bool) :
    Except Exn (List Nat × Option Nat) :=
  if newBlock then
    let order := manager.eligibleEvictionOrder
    if manager.freeBlocks.size = 0 ∧ order = [] then
      .error (.kvCapacityError "insufficient KV capacity for decode token")
    else
      let evictions := if manager.freeBlocks.size = 0 then order.take 1 else []
      .ok (evictions, (manager.freeBlocks.insertAll evictions).elems.head?)
  else .ok ([], none)

/-- A block newly allocated for one decoded token. -/
def decodeBlock (id : RequestId) (epoch : Nat) (block : PhysicalKVBlock) : PhysicalKVBlock :=
  { block with
    state := .inUse
    owner := some id
    referenceCount := 1
    validTokenCount := 1
    lastAccessEpoch := epoch
    prefixKey := none
    provenance := some .privateDecode }

/-- A partially filled last block takes one more token. -/
def grownBlock (epoch : Nat) (block : PhysicalKVBlock) : PhysicalKVBlock :=
  { block with validTokenCount := block.validTokenCount + 1, lastAccessEpoch := epoch }

/-- The write of one decoded token: into a new block, or into the last one. -/
def writeDecoded (manager : KVCacheManager) (id : RequestId) (table : List Nat) (newBlock : Bool)
    (allocationId : Option Nat) (epoch : Nat) : Except Exn KVCacheManager :=
  if newBlock then
    match allocationId with
    | none => .error (.undefinedBehavior "*allocation_id")
    | some blockId => .ok { manager with
        freeBlocks := manager.freeBlocks.erase blockId
        blockTables := manager.blockTables.insert id (table ++ [blockId])
        blocks := manager.blocks.modify blockId (decodeBlock id epoch) }
  else .ok (manager.modifyBlock (table.getLastD 0) (grownBlock epoch))

/-- `append_decode_token_exact_in_place` up to its closing check. -/
def appendDecodeTokenExactUnchecked (manager : KVCacheManager) (id : RequestId)
    (evictionIds : List Nat) (allocationId : Option Nat) : Except Exn KVCacheManager :=
  match manager.blockTables.find? id with
  | none => .error (.outOfRange "unknown KV request ID")
  | some table => do
      throwIf (manager.representedTokenCount = uint64Max)
        (.overflowError "represented KV token count overflow")
      let newBlock ← manager.decodeRequiresNewBlock id
      let (expectedEvictions, expectedAllocation) ← manager.decodePlan newBlock
      throwIf (evictionIds ≠ expectedEvictions ∨ allocationId ≠ expectedAllocation)
        (.logicError "planned decode physical IDs differ from actual IDs")
      let evicted ← manager.evictExactBlocksInPlace evictionIds
      let epoch ← evicted.nextAccessEpoch
      let written ← evicted.writeDecoded id table newBlock allocationId epoch
      return KVCacheManager.updatePeak { written with
        representedTokenCount := evicted.representedTokenCount + 1
        accessEpoch := epoch }

/-- `append_decode_token_exact`, on a copy. -/
def appendDecodeTokenExact (manager : KVCacheManager) (id : RequestId)
    (evictionIds : List Nat) (allocationId : Option Nat) : Except Exn KVCacheManager := do
  throwIf (manager.validateInvariants = false)
    (.logicError "invalid KV manager state before exact decode append")
  let next ← manager.appendDecodeTokenExactUnchecked id evictionIds allocationId
  next.ensureValid "invalid KV manager state after decode append"

/-- `append_decode_token`. -/
def appendDecodeToken (manager : KVCacheManager) (id : RequestId) :
    Except Exn Unit × KVCacheManager :=
  if manager.validateInvariants = false then
    (.error (.logicError "invalid KV manager state before decode append"), manager)
  else if manager.blockTables.contains id = false then
    (.error (.outOfRange "unknown KV request ID"), manager)
  else if manager.representedTokenCount = uint64Max then
    (.error (.overflowError "represented KV token count overflow"), manager)
  else
    match manager.nextAccessEpoch with
    | .error error => (.error error, manager)
    | .ok _ =>
        match manager.decodeRequiresNewBlock id with
        | .error error => (.error error, manager)
        | .ok newBlock =>
            match manager.decodePlan newBlock with
            | .error _ => manager.failAllocation "insufficient KV capacity for decode token"
            | .ok (evictions, allocation) =>
                manager.commit (manager.appendDecodeTokenExact id evictions allocation)

/-! ## Release -/

/-- The loop body of `release_request_in_place`. -/
def releaseBlock (manager : KVCacheManager) (id : Nat) : Except Exn KVCacheManager := do
  let block := manager.block id
  throwIf (block.referenceCount = 0) (.logicError "KV reference count underflow")
  if block.referenceCount - 1 ≠ 0 then
    return manager.modifyBlock id fun block =>
      { block with referenceCount := block.referenceCount - 1, state := .inUse, owner := none }
  else if block.prefixKey.isSome then
    return manager.modifyBlock id fun block =>
      { block with referenceCount := block.referenceCount - 1, state := .cached, owner := none }
  else
    throwIf (block.validTokenCount > manager.representedTokenCount)
      (.logicError "represented KV token count underflow")
    return { manager with
      representedTokenCount := manager.representedTokenCount - block.validTokenCount
      blocks := manager.blocks.modify id fun block =>
        { block with
          referenceCount := block.referenceCount - 1, state := .free, owner := none
          validTokenCount := 0, lastAccessEpoch := 0, provenance := none }
      freeBlocks := manager.freeBlocks.insert id }

/-- `release_request_in_place` up to its closing check. -/
def releaseRequestUnchecked (manager : KVCacheManager) (id : RequestId) :
    Except Exn KVCacheManager :=
  match manager.blockTables.find? id with
  | none => .error (.outOfRange "unknown KV request ID")
  | some table => do
      let released ← table.foldlM releaseBlock manager
      return { released with
        blockTables := released.blockTables.erase id
        requestProvenance := released.requestProvenance.erase id }

/-- `release_request`, on a copy. -/
def releaseRequest (manager : KVCacheManager) (id : RequestId) : Except Exn KVCacheManager := do
  throwIf (manager.validateInvariants = false)
    (.logicError "invalid KV manager state before request release")
  let next ← manager.releaseRequestUnchecked id
  next.ensureValid "invalid KV manager state after release"

end KVCacheManager

end LlmLab.Serving
