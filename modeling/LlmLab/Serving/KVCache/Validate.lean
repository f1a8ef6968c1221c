import LlmLab.Serving.KVCache.Types

/-!
# `KVCacheManager::validate_invariants`

The manager's own consistency check, as the Boolean function the sources run before and
after every operation.  The loops with early `return false` are conjunctions here; the
enumeration checks `valid_state` and `valid_provenance` hold by typing.
-/

namespace LlmLab.Serving

namespace KVCacheManager

/-- The key of one full block under a parent hash. -/
def keyFor (manager : KVCacheManager) (parent : UInt64) (blockTokens : List Token)
    (modelNamespace cacheSalt : Bytes) : TokenBlockKey :=
  let key : TokenBlockKey :=
    { parentHash := parent, tokenIds := blockTokens, modelNamespace, cacheSalt, blockHash := 0 }
  { key with blockHash := manager.hashFunction key }

/-- `make_key`. -/
def makeKey (manager : KVCacheManager) (parent : UInt64) (tokens : List Token) (offset : Nat)
    (modelNamespace cacheSalt : Bytes) : Except Exn TokenBlockKey := do
  let size := manager.config.blockSizeTokens
  throwIf (offset > tokens.length ∨ size > tokens.length - offset)
    (.invalidArgument "prefix key requires one complete token block")
  return manager.keyFor parent ((tokens.drop offset).take size) modelNamespace cacheSalt

/-- Whether an indexed block other than the request's own carries this key material. -/
def canonicalExists (manager : KVCacheManager) (key : TokenBlockKey) : Bool :=
  match manager.prefixIndex.find? key.blockHash with
  | none => false
  | some bucket => bucket.any fun candidate =>
      match (manager.block candidate).prefixKey with
      | none => false
      | some stored => exactKeyMaterialEqual stored key

/-! ## Request tables -/

/-- The checks on a request's prompt provenance that do not look at its blocks. -/
def validateProvenance (manager : KVCacheManager) (id : RequestId) (table : List Nat)
    (p : RequestKVPromptProvenance) : Bool :=
  let blockSize := manager.config.blockSizeTokens
  let promptBlocks := p.decodeBlockStartPosition
  p.requestId = id &&
  (promptBlocks ≤ table.length &&
    p.matchedSharedPrefixBlocks ≤ p.cacheEligibleFullPromptBlocks &&
    p.computedFullBegin = p.matchedSharedPrefixBlocks &&
    p.computedFullEnd = p.cacheEligibleFullPromptBlocks) &&
  (match p.privatePromptTailPosition with
    | some tail => tail = p.cacheEligibleFullPromptBlocks && promptBlocks = tail + 1
    | none => promptBlocks = p.cacheEligibleFullPromptBlocks || p.exactPromptTokens.isNone) &&
  (match p.exactPromptTokens with
    | some tokens =>
        p.totalPromptTokenCount = tokens.length &&
        p.cacheEligibleFullPromptBlocks = tokens.length / blockSize &&
        p.publicationEligible = manager.prefixConfig.enabled &&
        (tokens.length % blockSize ≠ 0 : Bool) = p.privatePromptTailPosition.isSome &&
        (!p.publicationCompleted ||
          (p.publicationEligible && p.computedFullBegin ≠ p.computedFullEnd))
    | none =>
        !p.publicationEligible && !p.publicationCompleted &&
        p.cacheEligibleFullPromptBlocks = 0 && p.matchedSharedPrefixBlocks = 0 &&
        p.computedFullBegin = 0 && p.computedFullEnd = 0 &&
        p.privatePromptTailPosition.isNone &&
        (match manager.config.blocksRequired p.totalPromptTokenCount with
          | .ok required => promptBlocks = required
          | .error _ => false))

/-- The checks on the block at one position of a request's table. -/
def validatePosition (manager : KVCacheManager) (p : RequestKVPromptProvenance)
    (position id : Nat) : Bool :=
  let blockSize := manager.config.blockSizeTokens
  let promptBlocks := p.decodeBlockStartPosition
  id < manager.blocks.length &&
  match (manager.block id).provenance with
  | none => false
  | some blockProvenance =>
      if p.exactPromptTokens.isNone then
        if position < promptBlocks then
          blockProvenance = .privatePromptCountOnly &&
          (manager.block id).validTokenCount ≥
            min blockSize (p.totalPromptTokenCount - position * blockSize)
        else blockProvenance = .privateDecode
      else if position < p.matchedSharedPrefixBlocks then
        blockProvenance = .sharedPromptFull || blockProvenance = .computedPromptFull
      else if position < p.cacheEligibleFullPromptBlocks then
        blockProvenance = .computedPromptFull || blockProvenance = .sharedPromptFull
      else if position < promptBlocks then
        blockProvenance = .privatePromptTail &&
        p.totalPromptTokenCount % blockSize ≠ 0 &&
        (manager.block id).validTokenCount ≥ p.totalPromptTokenCount % blockSize
      else blockProvenance = .privateDecode

/-- The key checks on one full prompt block, against the key its tokens call for. -/
def validateKeyAt (manager : KVCacheManager) (p : RequestKVPromptProvenance) (position : Nat)
    (block : PhysicalKVBlock) (expected : TokenBlockKey) : Bool :=
  match block.prefixKey with
  | some stored =>
      exactKeyMaterialEqual stored expected && stored.blockHash = expected.blockHash &&
      (p.publicationCompleted || position < p.computedFullBegin)
  | none =>
      ¬ position < p.matchedSharedPrefixBlocks &&
      (!p.publicationCompleted || position < p.computedFullBegin ||
        manager.canonicalExists expected)

/-- The walk down a prompt's key chain, `remaining` full blocks from `position` on. -/
def validateChain (manager : KVCacheManager) (p : RequestKVPromptProvenance)
    (tokens : List Token) (table : List Nat) : Nat → Nat → UInt64 → Bool
  | 0, _, _ => true
  | remaining + 1, position, parent =>
      match manager.makeKey parent tokens (position * manager.config.blockSizeTokens)
          manager.prefixConfig.modelNamespace manager.prefixConfig.cacheSalt with
      | .error _ => false
      | .ok expected =>
          manager.validateKeyAt p position (manager.block (table.getD position 0)) expected &&
          validateChain manager p tokens table remaining (position + 1) expected.blockHash

/-- All checks on one entry of `block_tables_`. -/
def validateEntry (manager : KVCacheManager) (id : RequestId) (table : List Nat) : Bool :=
  match manager.requestProvenance.find? id with
  | none => false
  | some p =>
      manager.validateProvenance id table p &&
      (decide table.Nodup &&
        table.zipIdx.all (fun entry => manager.validatePosition p entry.2 entry.1)) &&
      match p.exactPromptTokens with
      | none => true
      | some tokens =>
          manager.validateChain p tokens table p.cacheEligibleFullPromptBlocks 0
            prefixCacheRootHash

/-! ## Blocks -/

/-- How often a block occurs in the request tables. -/
def occurrences (manager : KVCacheManager) (id : Nat) : Nat :=
  manager.blockTables.total (·.count id)

/-- The first request, in id order, whose table holds a block. -/
def soleRequest (manager : KVCacheManager) (id : Nat) : Option RequestId :=
  (manager.blockTables.entries.find? (fun entry => entry.2.contains id)).map Prod.fst

/-- Whether a block sits exactly once in the bucket of its key. -/
def indexed (manager : KVCacheManager) (id : Nat) (block : PhysicalKVBlock) : Bool :=
  match block.prefixKey with
  | none => false
  | some key =>
      match manager.prefixIndex.find? key.blockHash with
      | none => false
      | some bucket => bucket.count id = 1

/-- All checks on one physical block. -/
def validateBlock (manager : KVCacheManager) (id : Nat) : Bool :=
  let b := manager.block id
  let free : Bool := id ∈ manager.freeBlocks
  let indexed := manager.indexed id b
  b.blockId = id && b.validTokenCount ≤ manager.config.blockSizeTokens &&
  match b.state with
  | .free =>
      free && manager.occurrences id = 0 && b.owner.isNone && b.referenceCount = 0 &&
      b.validTokenCount = 0 && b.lastAccessEpoch = 0 && b.prefixKey.isNone && !indexed &&
      b.provenance.isNone
  | state =>
      !free && b.validTokenCount ≠ 0 && b.lastAccessEpoch ≠ 0 &&
      b.lastAccessEpoch ≤ manager.accessEpoch &&
      match b.provenance with
      | none => false
      | some provenance =>
          let cacheable := provenance.cacheable
          (!cacheable || b.validTokenCount = manager.config.blockSizeTokens) &&
          (cacheable || (b.prefixKey.isNone && !indexed)) &&
          if state = .cached then
            manager.occurrences id = 0 && b.referenceCount = 0 && b.owner.isNone &&
            b.prefixKey.isSome && indexed && cacheable
          else
            b.referenceCount ≠ 0 && manager.occurrences id = b.referenceCount &&
            if b.prefixKey.isSome then indexed && b.owner.isNone && cacheable
            else manager.occurrences id = 1 && b.owner.isSome &&
              (manager.soleRequest id).isSome && b.owner = manager.soleRequest id

/-- The represented tokens summed with the loop's overflow test. -/
def representedTotal (manager : KVCacheManager) : Option Nat :=
  (manager.blocks.filter (fun b => b.state ≠ .free)).foldlM
    (fun represented b =>
      if represented > uint64Max - b.validTokenCount then none
      else some (represented + b.validTokenCount)) 0

/-! ## The prefix index -/

/-- The checks on one indexed block id of the bucket under `hash`. -/
def validateIndexed (manager : KVCacheManager) (hash : UInt64) (id : Nat) : Bool :=
  id < manager.blocks.length &&
  match (manager.block id).prefixKey with
  | none => false
  | some key =>
      key.blockHash = hash && (manager.block id).state ≠ .free &&
      key.tokenIds.length = manager.config.blockSizeTokens &&
      key.modelNamespace = manager.prefixConfig.modelNamespace &&
      key.cacheSalt = manager.prefixConfig.cacheSalt &&
      manager.hashFunction key = key.blockHash

/-- The ids of all buckets, in bucket order. -/
def allIndexed (manager : KVCacheManager) : List Nat :=
  manager.prefixIndex.entries.flatMap Prod.snd

/-- Whether two blocks carry equal key material. -/
def sameMaterial (manager : KVCacheManager) (a b : Nat) : Bool :=
  match (manager.block a).prefixKey, (manager.block b).prefixKey with
  | some left, some right => exactKeyMaterialEqual left right
  | _, _ => false

/-- `validate_invariants`. -/
def validateInvariants (manager : KVCacheManager) : Bool :=
  (manager.blocks.length = manager.config.totalNumBlocks &&
    manager.peakAllocatedBlockCount ≤ manager.blocks.length &&
    manager.blockTables.size = manager.requestProvenance.size) &&
  manager.blockTables.entries.all (fun entry => manager.validateEntry entry.1 entry.2) &&
  (List.range manager.blocks.length).all manager.validateBlock &&
  manager.representedTotal = some manager.representedTokenCount &&
  manager.prefixIndex.entries.all (fun bucket =>
    !bucket.2.isEmpty && decide bucket.2.Nodup &&
    bucket.2.all (manager.validateIndexed bucket.1)) &&
  decide (manager.allIndexed.Pairwise fun a b => a ≠ b ∧ manager.sameMaterial a b = false)

end KVCacheManager

end LlmLab.Serving
