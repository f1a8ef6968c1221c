import LlmLab.Serving.KVCache.Operations

/-!
# The reference model

`ShadowCache` of `test_prefix_cache_fix_c.cpp`: the set of free ids, the request tables, a map
from keys to canonical blocks, and eviction by `(last access epoch, id)`.  It checks nothing but
capacity and the request id, so what it does is what the manager is meant to do.

Blocks, tables and canonical entries are functions here; an update of several distinct entries
is one function update instead of a loop.  The shadow's buckets follow from its canonical map
(`bucket`), and its metrics, peak and failure count are left out.
-/

namespace LlmLab.Serving

/-- `ShadowCache`, with the parameters of the cache it shadows. -/
structure ShadowCache where
  count : Nat
  blockSize : Nat
  enabledCache : Bool
  model : Bytes
  salt : Bytes
  hash : PrefixHashFunction
  blocks : Nat → PhysicalKVBlock
  free : OrdSet Nat
  tables : RequestId → Option (List Nat)
  provenance : RequestId → Option RequestKVPromptProvenance
  canonical : TokenBlockKey → Option Nat
  represented : Nat
  epoch : Nat

namespace ShadowCache

/-- The constructor. -/
def create (config : KVCacheConfig) (prefixConfig : PrefixCacheConfig)
    (hash : PrefixHashFunction) : ShadowCache where
  count := config.totalNumBlocks
  blockSize := config.blockSizeTokens
  enabledCache := prefixConfig.enabled
  model := prefixConfig.modelNamespace
  salt := prefixConfig.cacheSalt
  hash := hash
  blocks x := { blockId := x }
  free := OrdSet.empty.insertAll (List.range config.totalNumBlocks)
  tables _ := none
  provenance _ := none
  canonical _ := none
  represented := 0
  epoch := 0

/-- `key`. -/
def key (shadow : ShadowCache) (parent : UInt64) (tokens : List Token) (offset : Nat) :
    TokenBlockKey :=
  let result : TokenBlockKey :=
    { parentHash := parent, tokenIds := (tokens.drop offset).take shadow.blockSize
      modelNamespace := shadow.model, cacheSalt := shadow.salt, blockHash := 0 }
  { result with blockHash := shadow.hash result }

/-- `required`. -/
def required (shadow : ShadowCache) (tokens : Nat) : Nat :=
  if tokens = 0 then 0
  else tokens / shadow.blockSize + if tokens % shadow.blockSize ≠ 0 then 1 else 0

/-- The loop of `lookup`: the canonical blocks of the chain, up to the first miss. -/
def lookupFrom (shadow : ShadowCache) (tokens : List Token) : Nat → Nat → UInt64 → List Nat
  | 0, _, _ => []
  | remaining + 1, i, parent =>
      let wanted := shadow.key parent tokens (i * shadow.blockSize)
      match shadow.canonical wanted with
      | none => []
      | some found => found :: lookupFrom shadow tokens remaining (i + 1) wanted.blockHash

/-- `lookup`: the matched physical blocks. -/
def lookup (shadow : ShadowCache) (tokens : List Token) : List Nat :=
  if shadow.enabledCache = false then []
  else shadow.lookupFrom tokens (tokens.length / shadow.blockSize) 0 prefixCacheRootHash

/-- `lru`: the cached blocks by epoch and id. -/
def lru (shadow : ShadowCache) : List Nat :=
  sortBy (fun id => toLex ((shadow.blocks id).lastAccessEpoch, id))
    ((List.range shadow.count).filter fun id => (shadow.blocks id).state = .cached)

/-- The bucket of a hash: the canonical blocks with a key of that hash, in id order. -/
def bucket (shadow : ShadowCache) (hash : UInt64) : List Nat :=
  (List.range shadow.count).filter fun id =>
    (shadow.blocks id).prefixKey.any fun key =>
      key.blockHash = hash ∧ shadow.canonical key = some id

/-- `evict_ids`. -/
def evictIds (shadow : ShadowCache) (ids : List Nat) : ShadowCache :=
  { shadow with
    blocks := fun x => if x ∈ ids then { blockId := x } else shadow.blocks x
    canonical := fun key =>
      if ∃ x ∈ ids, (shadow.blocks x).prefixKey = some key then none else shadow.canonical key
    represented := shadow.represented - (ids.map fun x => (shadow.blocks x).validTokenCount).sum
    free := shadow.free.insertAll ids }

/-- `reserve`: the victims and the blocks to allocate, if there are enough. -/
def reserve (shadow : ShadowCache) (needed : Nat) (protectedIds : List Nat) :
    Option (List Nat × List Nat) :=
  let victims := shadow.lru.filter fun id => id ∉ protectedIds
  let evictions := needed - shadow.free.size
  if evictions > victims.length then none
  else
    let victims := victims.take evictions
    some (victims, (shadow.free.insertAll victims).elems.take needed)

/-- Hand the allocated blocks to a request. -/
def write (shadow : ShadowCache) (id : RequestId) (tokens epoch : Nat)
    (label : Nat → KVBlockProvenance) (allocations : List Nat) : ShadowCache :=
  { shadow with
    epoch
    blocks := fun x =>
      if x ∈ allocations then
        { shadow.blocks x with
          state := .inUse
          owner := some id
          referenceCount := 1
          validTokenCount :=
            min shadow.blockSize (tokens - allocations.idxOf x * shadow.blockSize)
          lastAccessEpoch := epoch
          provenance := some (label (allocations.idxOf x)) }
      else shadow.blocks x
    free := allocations.foldl OrdSet.erase shadow.free }

/-- Enter a request with its table and its prompt record. -/
def enter (shadow : ShadowCache) (id : RequestId) (table : List Nat)
    (record : RequestKVPromptProvenance) (tokens : Nat) : ShadowCache :=
  { shadow with
    tables := Function.update shadow.tables id (some table)
    provenance := Function.update shadow.provenance id (some record)
    represented := shadow.represented + tokens }

/-- The matched blocks gain a reference and a new epoch. -/
def touch (shadow : ShadowCache) (matched : List Nat) : ShadowCache :=
  if matched = [] then shadow
  else
    { shadow with
      epoch := shadow.epoch + 1
      blocks := fun x =>
        if x ∈ matched then
          { shadow.blocks x with
            referenceCount := (shadow.blocks x).referenceCount + 1
            state := .inUse
            owner := none
            lastAccessEpoch := shadow.epoch + 1
            provenance :=
              if (shadow.blocks x).state = .cached ∧
                  (shadow.blocks x).provenance = some .computedPromptFull then
                some .sharedPromptFull
              else (shadow.blocks x).provenance }
        else shadow.blocks x }

/-- The epoch after an allocation. -/
def allocationEpoch (shadow : ShadowCache) (allocations : List Nat) : Nat :=
  if allocations = [] then shadow.epoch else shadow.epoch + 1

/-- `acquire`, with the lookup of the current state. -/
def acquire (shadow : ShadowCache) (id : RequestId) (tokens : List Token) : Option ShadowCache :=
  if (shadow.tables id).isSome then none
  else
    let matched := shadow.lookup tokens
    let suffix := tokens.length - matched.length * shadow.blockSize
    match shadow.reserve (shadow.required suffix) matched with
    | none => none
    | some (victims, allocations) =>
        let evicted := (shadow.touch matched).evictIds victims
        let full := tokens.length / shadow.blockSize
        let written := evicted.write id suffix (evicted.allocationEpoch allocations)
          (fun i => if matched.length + i < full then .computedPromptFull else .privatePromptTail)
          allocations
        some (written.enter id (matched ++ allocations)
          { requestId := id
            publicationEligible := true
            exactPromptTokens := some tokens
            totalPromptTokenCount := tokens.length
            cacheEligibleFullPromptBlocks := full
            matchedSharedPrefixBlocks := matched.length
            computedFullBegin := matched.length
            computedFullEnd := full
            privatePromptTailPosition :=
              if tokens.length % shadow.blockSize ≠ 0 then some full else none
            decodeBlockStartPosition :=
              full + if tokens.length % shadow.blockSize ≠ 0 then 1 else 0
            publicationCompleted := false } suffix)

/-- `allocate_count`. -/
def allocateCount (shadow : ShadowCache) (id : RequestId) (tokens : Nat) : Option ShadowCache :=
  if (shadow.tables id).isSome then none
  else
    match shadow.reserve (shadow.required tokens) [] with
    | none => none
    | some (victims, allocations) =>
        let evicted := shadow.evictIds victims
        let written := evicted.write id tokens (evicted.allocationEpoch allocations)
          (fun _ => .privatePromptCountOnly) allocations
        some (written.enter id allocations
          { requestId := id
            publicationEligible := false
            exactPromptTokens := none
            totalPromptTokenCount := tokens
            cacheEligibleFullPromptBlocks := 0
            matchedSharedPrefixBlocks := 0
            computedFullBegin := 0
            computedFullEnd := 0
            privatePromptTailPosition := none
            decodeBlockStartPosition := allocations.length
            publicationCompleted := false } tokens)

/-- One computed position of `publish`: its block becomes canonical unless one exists. -/
def publishPosition (shadow : ShadowCache) (wanted : TokenBlockKey) (x : Nat) : ShadowCache :=
  { shadow with
    epoch := shadow.epoch + 1
    blocks := Function.update shadow.blocks x
      { shadow.blocks x with
        prefixKey := some wanted, owner := none, lastAccessEpoch := shadow.epoch + 1 }
    canonical := Function.update shadow.canonical wanted (some x) }

/-- The loop of `publish` over `remaining` full blocks from position `i` on. -/
def publishFrom (tokens : List Token) (table : List Nat) (computedBegin : Nat) :
    Nat → Nat → UInt64 → ShadowCache → ShadowCache
  | 0, _, _, shadow => shadow
  | remaining + 1, i, parent, shadow =>
      let wanted := shadow.key parent tokens (i * shadow.blockSize)
      publishFrom tokens table computedBegin remaining (i + 1) wanted.blockHash
        (if computedBegin ≤ i ∧ shadow.canonical wanted = none then
          shadow.publishPosition wanted (table.getD i 0)
        else shadow)

/-- `publish`. -/
def publish (shadow : ShadowCache) (id : RequestId) : Option ShadowCache :=
  match shadow.tables id, shadow.provenance id with
  | some table, some p =>
      match p.exactPromptTokens with
      | none => none
      | some tokens =>
          if shadow.enabledCache = false ∨ p.publicationEligible = false ∨
              p.computedFullBegin = p.computedFullEnd then none
          else if p.publicationCompleted then some shadow
          else
            let published := publishFrom tokens table p.computedFullBegin
              p.cacheEligibleFullPromptBlocks 0 prefixCacheRootHash shadow
            some { published with
              provenance := Function.update published.provenance id
                (some { p with publicationCompleted := true }) }
  | _, _ => none

/-- Whether the next decoded token of a table needs a block. -/
def needsBlock (shadow : ShadowCache) (table : List Nat) : Bool :=
  match table.getLast? with
  | none => true
  | some last =>
      (shadow.blocks last).prefixKey.isSome || (shadow.blocks last).referenceCount > 1 ||
        (shadow.blocks last).validTokenCount = shadow.blockSize

/-- `append`. -/
def append (shadow : ShadowCache) (id : RequestId) : Option ShadowCache :=
  match shadow.tables id with
  | none => none
  | some table =>
      if shadow.needsBlock table then
        match shadow.reserve 1 [] with
        | some (victims, block :: _) =>
            let evicted := shadow.evictIds victims
            some { evicted with
              epoch := evicted.epoch + 1
              blocks := Function.update evicted.blocks block
                { evicted.blocks block with
                  state := .inUse, owner := some id, referenceCount := 1, validTokenCount := 1
                  lastAccessEpoch := evicted.epoch + 1, provenance := some .privateDecode }
              free := evicted.free.erase block
              tables := Function.update evicted.tables id (some (table ++ [block]))
              represented := evicted.represented + 1 }
        | _ => none
      else
        let last := table.getLastD 0
        some { shadow with
          epoch := shadow.epoch + 1
          blocks := Function.update shadow.blocks last
            { shadow.blocks last with
              validTokenCount := (shadow.blocks last).validTokenCount + 1
              lastAccessEpoch := shadow.epoch + 1 }
          represented := shadow.represented + 1 }

/-- A block after one of its references is dropped. -/
def drop (block : PhysicalKVBlock) : PhysicalKVBlock :=
  if block.referenceCount - 1 ≠ 0 then
    { block with referenceCount := block.referenceCount - 1, owner := none }
  else if block.prefixKey.isSome then
    { block with referenceCount := 0, state := .cached, owner := none }
  else { blockId := block.blockId }

/-- Whether dropping a reference frees the block. -/
def Frees (block : PhysicalKVBlock) : Prop :=
  block.referenceCount - 1 = 0 ∧ block.prefixKey = none

instance : DecidablePred Frees := fun block => by
  unfold Frees
  infer_instance

/-- `release`. -/
def release (shadow : ShadowCache) (id : RequestId) : Option ShadowCache :=
  match shadow.tables id with
  | none => none
  | some table =>
      let freed := table.filter fun x => Frees (shadow.blocks x)
      some { shadow with
        blocks := fun x => if x ∈ table then drop (shadow.blocks x) else shadow.blocks x
        represented := shadow.represented -
          (freed.map fun x => (shadow.blocks x).validTokenCount).sum
        free := shadow.free.insertAll freed
        tables := Function.update shadow.tables id none
        provenance := Function.update shadow.provenance id none }

/-- Eviction of the first `count` blocks of the LRU order. -/
def evictUnused (shadow : ShadowCache) (count : Nat) : Option ShadowCache :=
  if count > shadow.lru.length then none else some (shadow.evictIds (shadow.lru.take count))

end ShadowCache

/-- The operations both models run; an exact prompt is offered with the current lookup. -/
inductive CacheOp where
  | allocatePrompt (id : RequestId) (tokens : Nat)
  | allocatePromptWithPrefix (id : RequestId) (tokens : List Token)
  | insertCompletedPromptBlocks (id : RequestId)
  | appendDecodeToken (id : RequestId)
  | releaseRequest (id : RequestId)
  | evictUnusedBlocks (count : Nat)

/-- The operation on the reference model; `none` where it throws. -/
def ShadowCache.step (shadow : ShadowCache) : CacheOp → Option ShadowCache
  | .allocatePrompt id tokens => shadow.allocateCount id tokens
  | .allocatePromptWithPrefix id tokens => shadow.acquire id tokens
  | .insertCompletedPromptBlocks id => shadow.publish id
  | .appendDecodeToken id => shadow.append id
  | .releaseRequest id => shadow.release id
  | .evictUnusedBlocks count => shadow.evictUnused count

end LlmLab.Serving
