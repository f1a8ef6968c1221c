import LlmLab.Lib.OrdMap
import LlmLab.Lib.Lists
import LlmLab.Serving.Request

/-!
# Data model of the KV-cache manager

The records of `kv_cache.h`: the two configurations, block keys, physical blocks, request
prompt provenance, the prefix index, metrics, and the manager that holds them.

The manager's test-only failure seam is `None` in every state its public interface can
produce and is left out, as are the derived floating-point ratios.
-/

namespace LlmLab.Serving

/-- A `std::string`, by its bytes. -/
abbrev Bytes := List UInt8

/-- Bucket hashes are ordered by value, as in `std::map<std::uint64_t, _>`. -/
instance instLinearOrderUInt64 : LinearOrder UInt64 :=
  LinearOrder.lift' UInt64.toNat fun _ _ same => UInt64.toNat_inj.mp same

/-! ## Configuration -/

/-- `KVCacheConfig`; the fields after the two sizes are what its constructor checks. -/
structure KVCacheConfig where
  totalNumBlocks : Nat
  blockSizeTokens : Nat
  blocks_pos : 0 < totalNumBlocks
  blockSize_pos : 0 < blockSizeTokens
  capacity_le : totalNumBlocks * blockSizeTokens ≤ uint64Max

namespace KVCacheConfig

/-- The constructor of `KVCacheConfig`. -/
def create (blocks blockSize : Nat) : Except Exn KVCacheConfig :=
  if noBlocks : blocks = 0 then
    .error (.invalidArgument "total_num_blocks must be at least 1")
  else if noSize : blockSize = 0 then
    .error (.invalidArgument "block_size_tokens must be at least 1")
  else if blockSize > sizeMax then
    .error (.overflowError "block_size_tokens is not representable as size_t")
  else if capacity : blocks > uint64Max / blockSize then
    .error (.overflowError "KV token capacity is not representable")
  else
    .ok { totalNumBlocks := blocks
          blockSizeTokens := blockSize
          blocks_pos := Nat.pos_of_ne_zero noBlocks
          blockSize_pos := Nat.pos_of_ne_zero noSize
          capacity_le := (Nat.le_div_iff_mul_le (Nat.pos_of_ne_zero noSize)).mp
            (not_lt.mp capacity) }

/-- A pool of a few blocks of a few tokens: both sizes are brought between 1 and 100. -/
def small (blocks blockSize : Nat) : KVCacheConfig where
  totalNumBlocks := max 1 (min blocks 100)
  blockSizeTokens := max 1 (min blockSize 100)
  blocks_pos := Nat.le_max_left 1 _
  blockSize_pos := Nat.le_max_left 1 _
  capacity_le := by
    have few : max 1 (min blocks 100) ≤ 100 := by omega
    have short : max 1 (min blockSize 100) ≤ 100 := by omega
    exact (Nat.mul_le_mul few short).trans (by decide)

/-- `blocks_required`: the number of blocks that hold `tokens` tokens. -/
def blocksRequired (config : KVCacheConfig) (tokens : Nat) : Except Exn Nat :=
  if tokens = 0 then .ok 0
  else
    let required := tokens / config.blockSizeTokens +
      if tokens % config.blockSizeTokens = 0 then 0 else 1
    if required > sizeMax then
      .error (.overflowError "required KV block count is not representable")
    else .ok required

/-- The block demand `blocksRequired` computes when it is representable. -/
def demand (config : KVCacheConfig) (tokens : Nat) : Nat :=
  tokens / config.blockSizeTokens + if tokens % config.blockSizeTokens = 0 then 0 else 1

end KVCacheConfig

/-- `PrefixCacheConfig`; its only eviction policy is `DeterministicLRU`. -/
structure PrefixCacheConfig where
  enabled : Bool := false
  cacheSalt : Bytes := []
  modelNamespace : Bytes := []
deriving DecidableEq

/-! ## Keys and lookups -/

structure TokenBlockKey where
  parentHash : UInt64
  tokenIds : List Token
  modelNamespace : Bytes
  cacheSalt : Bytes
  blockHash : UInt64
deriving DecidableEq

/-- `exact_key_material_equal`: every field but the hash itself. -/
def exactKeyMaterialEqual (a b : TokenBlockKey) : Bool :=
  a.parentHash = b.parentHash && a.tokenIds = b.tokenIds &&
    a.modelNamespace = b.modelNamespace && a.cacheSalt = b.cacheSalt

/-- `kPrefixCacheRootHash`. -/
def prefixCacheRootHash : UInt64 := 0xcbf29ce484222325

abbrev PrefixHashFunction := TokenBlockKey → UInt64

/-- `fnv_byte`. -/
def fnvByte (hash : UInt64) (byte : UInt8) : UInt64 :=
  (hash ^^^ byte.toUInt64) * 1099511628211

/-- `fnv_u64`: the eight bytes of a value, least significant first. -/
def fnvU64 (hash value : UInt64) : UInt64 :=
  (List.range 8).foldl (fun hash i => fnvByte hash (value >>> (8 * i.toUInt64)).toUInt8) hash

/-- `fnv_string`: the length, then the bytes. -/
def fnvString (hash : UInt64) (value : Bytes) : UInt64 :=
  value.foldl fnvByte (fnvU64 hash value.length.toUInt64)

/-- The four bytes of a token's two's-complement bits, least significant first. -/
def fnvToken (hash : UInt64) (token : Token) : UInt64 :=
  (List.range 4).foldl
    (fun hash i => fnvByte hash (token.toUInt32 >>> (8 * i.toUInt32)).toUInt8) hash

/-- `stable_token_block_hash`: FNV-1a 64 over the tagged key material. -/
def stableTokenBlockHash (key : TokenBlockKey) : UInt64 :=
  let hash := fnvU64 (fnvByte prefixCacheRootHash 1) key.parentHash
  let hash := fnvString (fnvByte hash 2) key.modelNamespace
  let hash := fnvString (fnvByte hash 3) key.cacheSalt
  let hash := fnvU64 (fnvByte hash 4) key.tokenIds.length.toUInt64
  key.tokenIds.foldl fnvToken hash

inductive PrefixLookupKind where
  | disabled
  | miss
  | partialHit
  | allEligibleBlocksHit
deriving DecidableEq, Repr

structure PrefixLookupResult where
  matchedBlockCount : Nat := 0
  matchedTokenCount : Nat := 0
  physicalBlockIds : List Nat := []
  nextParentHash : UInt64 := prefixCacheRootHash
  kind : PrefixLookupKind := .miss
  eligibleTokenCount : Nat := 0
  collisionVerificationCount : Nat := 0
deriving DecidableEq

structure PrefixCacheMetrics where
  cacheLookupCount : Nat := 0
  cacheHitLookupCount : Nat := 0
  cacheMissLookupCount : Nat := 0
  matchedBlockCount : Nat := 0
  matchedTokenCount : Nat := 0
  totalCacheEligiblePromptTokensLookedUp : Nat := 0
  reusedRequestCount : Nat := 0
  savedPrefillTokenCount : Nat := 0
  collisionVerificationCount : Nat := 0
  evictionCount : Nat := 0
deriving DecidableEq

/-! ## Blocks and requests -/

inductive PhysicalKVBlockState where
  | free
  | inUse
  | cached
deriving DecidableEq, Repr

inductive KVBlockProvenance where
  | sharedPromptFull
  | computedPromptFull
  | privatePromptTail
  | privatePromptCountOnly
  | privateDecode
deriving DecidableEq, Repr

/-- Only the two full-prompt forms may carry a key. -/
def KVBlockProvenance.cacheable : KVBlockProvenance → Bool
  | .sharedPromptFull => true
  | .computedPromptFull => true
  | _ => false

structure PhysicalKVBlock where
  blockId : Nat
  state : PhysicalKVBlockState := .free
  owner : Option RequestId := none
  referenceCount : Nat := 0
  validTokenCount : Nat := 0
  lastAccessEpoch : Nat := 0
  prefixKey : Option TokenBlockKey := none
  provenance : Option KVBlockProvenance := none
deriving DecidableEq

structure RequestKVPromptProvenance where
  requestId : RequestId
  publicationEligible : Bool
  exactPromptTokens : Option (List Token)
  totalPromptTokenCount : Nat
  cacheEligibleFullPromptBlocks : Nat
  matchedSharedPrefixBlocks : Nat
  computedFullBegin : Nat
  computedFullEnd : Nat
  privatePromptTailPosition : Option Nat
  decodeBlockStartPosition : Nat
  publicationCompleted : Bool
deriving DecidableEq

structure KVCacheManager where
  config : KVCacheConfig
  prefixConfig : PrefixCacheConfig
  hashFunction : PrefixHashFunction
  blocks : List PhysicalKVBlock
  freeBlocks : OrdSet Nat
  blockTables : OrdMap RequestId (List Nat)
  requestProvenance : OrdMap RequestId RequestKVPromptProvenance
  prefixIndex : OrdMap UInt64 (List Nat)
  prefixMetrics : PrefixCacheMetrics
  representedTokenCount : Nat
  peakAllocatedBlockCount : Nat
  allocationFailureCount : Nat
  accessEpoch : Nat

namespace KVCacheManager

/-- The constructor: every block is free. -/
def create (config : KVCacheConfig) (prefixConfig : PrefixCacheConfig)
    (hashFunction : PrefixHashFunction) : KVCacheManager where
  config := config
  prefixConfig := prefixConfig
  hashFunction := hashFunction
  blocks := (List.range config.totalNumBlocks).map fun id => { blockId := id }
  freeBlocks := OrdSet.empty.insertAll (List.range config.totalNumBlocks)
  blockTables := OrdMap.empty
  requestProvenance := OrdMap.empty
  prefixIndex := OrdMap.empty
  prefixMetrics := {}
  representedTokenCount := 0
  peakAllocatedBlockCount := 0
  allocationFailureCount := 0
  accessEpoch := 0

/-- The block with a given id; ids in use are always in range. -/
def block (manager : KVCacheManager) (id : Nat) : PhysicalKVBlock :=
  manager.blocks.getD id { blockId := id }

/-- Write one block. -/
def modifyBlock (manager : KVCacheManager) (id : Nat)
    (f : PhysicalKVBlock → PhysicalKVBlock) : KVCacheManager :=
  { manager with blocks := manager.blocks.modify id f }

/-- `allocated_block_count`. -/
def allocatedBlockCount (manager : KVCacheManager) : Nat :=
  manager.blocks.length - manager.freeBlocks.size

/-- `cached_block_count`. -/
def cachedBlockCount (manager : KVCacheManager) : Nat :=
  manager.blocks.countP (fun block => block.state = .cached)

/-- `referenced_shared_block_count`. -/
def referencedSharedBlockCount (manager : KVCacheManager) : Nat :=
  manager.blocks.countP (fun block => block.prefixKey.isSome && block.referenceCount > 0)

/-- `internal_fragmentation_tokens`. -/
def internalFragmentationTokens (manager : KVCacheManager) : Nat :=
  manager.allocatedBlockCount * manager.config.blockSizeTokens - manager.representedTokenCount

/-- `update_peak`. -/
def updatePeak (manager : KVCacheManager) : KVCacheManager :=
  { manager with
    peakAllocatedBlockCount := max manager.peakAllocatedBlockCount manager.allocatedBlockCount }

/-- `next_access_epoch`. -/
def nextAccessEpoch (manager : KVCacheManager) : Except Exn Nat :=
  inc manager.accessEpoch "KV access epoch overflow"

/-- `eligible_eviction_order`: the cached blocks by `(last_access_epoch, block_id)`. -/
def eligibleEvictionOrder (manager : KVCacheManager) : List Nat :=
  sortBy (fun id => toLex ((manager.block id).lastAccessEpoch, id))
    ((manager.blocks.filter (fun block => block.state = .cached)).map (·.blockId))

end KVCacheManager

end LlmLab.Serving
