import LlmLab.Serving.KVCache.Operations

/-!
# The manager invariant

`KVCacheManager.Valid` states what `validate_invariants` checks, in the form proofs use:
`BlocksValid` is about the physical blocks relative to the request tables that claim them,
`IndexValid` about the prefix index, and `EntryValid` about one request table.
`validateInvariants_iff` connects the two.

The first two take their components apart from the manager, so they also describe the states
inside an operation, where the manager's tables lag behind its blocks.
-/

namespace LlmLab.Serving

open KVCacheManager

/-! ## Key chains -/

/-- The key material of a key, with the hash field as `make_key` sets it before hashing. -/
def TokenBlockKey.material (key : TokenBlockKey) : TokenBlockKey := { key with blockHash := 0 }

theorem exactKeyMaterialEqual_iff {a b : TokenBlockKey} :
    exactKeyMaterialEqual a b = true ↔ a.material = b.material := by
  cases a; cases b
  simp [exactKeyMaterialEqual, TokenBlockKey.material, and_assoc]

theorem TokenBlockKey.eq_of_material {a b : TokenBlockKey} (material : a.material = b.material)
    (hash : a.blockHash = b.blockHash) : a = b := by
  cases a; cases b
  simp_all [TokenBlockKey.material]

/-- The tokens of the `i`-th full block. -/
def blockTokens (blockSize : Nat) (tokens : List Token) (i : Nat) : List Token :=
  (tokens.drop (i * blockSize)).take blockSize

namespace KVCacheManager

/-- The hash a prompt's chain has reached before its `i`-th block. -/
def parentHashIn (manager : KVCacheManager) (ns salt : Bytes) (tokens : List Token) :
    Nat → UInt64
  | 0 => prefixCacheRootHash
  | i + 1 =>
      (manager.keyFor (parentHashIn manager ns salt tokens i)
        (blockTokens manager.config.blockSizeTokens tokens i) ns salt).blockHash

/-- The key of a prompt's `i`-th full block under a namespace and salt. -/
def chainKeyIn (manager : KVCacheManager) (ns salt : Bytes) (tokens : List Token) (i : Nat) :
    TokenBlockKey :=
  manager.keyFor (manager.parentHashIn ns salt tokens i)
    (blockTokens manager.config.blockSizeTokens tokens i) ns salt

/-- The key of a prompt's `i`-th full block. -/
def chainKey (manager : KVCacheManager) (tokens : List Token) (i : Nat) : TokenBlockKey :=
  manager.chainKeyIn manager.prefixConfig.modelNamespace manager.prefixConfig.cacheSalt tokens i

@[simp] theorem parentHashIn_zero (manager : KVCacheManager) (ns salt : Bytes)
    (tokens : List Token) : manager.parentHashIn ns salt tokens 0 = prefixCacheRootHash := rfl

theorem parentHashIn_succ (manager : KVCacheManager) (ns salt : Bytes) (tokens : List Token)
    (i : Nat) : manager.parentHashIn ns salt tokens (i + 1) =
      (manager.chainKeyIn ns salt tokens i).blockHash := rfl

/-- A full block is long enough for `make_key`. -/
theorem makeKey_eq {manager : KVCacheManager} {tokens : List Token} {i : Nat} {ns salt : Bytes}
    (inside : i < tokens.length / manager.config.blockSizeTokens) (parent : UInt64) :
    manager.makeKey parent tokens (i * manager.config.blockSizeTokens) ns salt =
      .ok (manager.keyFor parent (blockTokens manager.config.blockSizeTokens tokens i) ns salt) := by
  have room : (i + 1) * manager.config.blockSizeTokens ≤ tokens.length :=
    (Nat.le_div_iff_mul_le manager.config.blockSize_pos).mp inside
  rw [Nat.add_mul, Nat.one_mul] at room
  simp only [makeKey]
  rw [throwIf_of_not (by omega)]
  rfl

/-- The configuration parts an operation never changes. -/
structure SameSetup (manager other : KVCacheManager) : Prop where
  config : other.config = manager.config
  prefixConfig : other.prefixConfig = manager.prefixConfig
  hashFunction : other.hashFunction = manager.hashFunction

theorem SameSetup.refl (manager : KVCacheManager) : manager.SameSetup manager := ⟨rfl, rfl, rfl⟩

theorem SameSetup.trans {first second third : KVCacheManager}
    (left : first.SameSetup second) (right : second.SameSetup third) : first.SameSetup third :=
  ⟨right.config.trans left.config, right.prefixConfig.trans left.prefixConfig,
    right.hashFunction.trans left.hashFunction⟩

theorem SameSetup.parentHashIn {manager other : KVCacheManager} (same : manager.SameSetup other)
    (ns salt : Bytes) (tokens : List Token) (i : Nat) :
    other.parentHashIn ns salt tokens i = manager.parentHashIn ns salt tokens i := by
  induction i with
  | zero => rfl
  | succ i ih =>
      simp only [KVCacheManager.parentHashIn, keyFor, ih, same.config, same.hashFunction]

theorem SameSetup.chainKeyIn {manager other : KVCacheManager} (same : manager.SameSetup other)
    (ns salt : Bytes) (tokens : List Token) (i : Nat) :
    other.chainKeyIn ns salt tokens i = manager.chainKeyIn ns salt tokens i := by
  simp only [KVCacheManager.chainKeyIn, keyFor, same.parentHashIn, same.config, same.hashFunction]

theorem SameSetup.chainKey {manager other : KVCacheManager} (same : manager.SameSetup other)
    (tokens : List Token) (i : Nat) : other.chainKey tokens i = manager.chainKey tokens i := by
  simp only [KVCacheManager.chainKey, same.chainKeyIn, same.prefixConfig]

end KVCacheManager

/-! ## Blocks -/

/-- What `validate_invariants` accepts for one physical block, by state. -/
inductive BlockValid (blockSize epoch : Nat) (free : Prop) (occ : Nat)
    (holds : RequestId → Prop) (id : Nat) : PhysicalKVBlock → Prop
  | free : free → occ = 0 →
      BlockValid blockSize epoch free occ holds id { blockId := id }
  | cached {e : Nat} {key : TokenBlockKey} {p : KVBlockProvenance} : ¬ free → occ = 0 →
      0 < e → e ≤ epoch → p.cacheable = true →
      BlockValid blockSize epoch free occ holds id
        { blockId := id, state := .cached, validTokenCount := blockSize, lastAccessEpoch := e
          prefixKey := some key, provenance := some p }
  | shared {e : Nat} {key : TokenBlockKey} {p : KVBlockProvenance} : ¬ free → 0 < occ →
      0 < e → e ≤ epoch → p.cacheable = true →
      BlockValid blockSize epoch free occ holds id
        { blockId := id, state := .inUse, referenceCount := occ, validTokenCount := blockSize
          lastAccessEpoch := e, prefixKey := some key, provenance := some p }
  | owned {e valid : Nat} {owner : RequestId} {p : KVBlockProvenance} : ¬ free → occ = 1 →
      holds owner → 0 < valid → valid ≤ blockSize → (p.cacheable = true → valid = blockSize) →
      0 < e → e ≤ epoch →
      BlockValid blockSize epoch free occ holds id
        { blockId := id, state := .inUse, owner := some owner, referenceCount := 1
          validTokenCount := valid, lastAccessEpoch := e, provenance := some p }

/-- How often a block occurs in request tables. -/
def occurrencesIn (tables : OrdMap RequestId (List Nat)) (id : Nat) : Nat :=
  tables.total (·.count id)

/-- A request's table holds a block. -/
def HoldsIn (tables : OrdMap RequestId (List Nat)) (request : RequestId) (id : Nat) : Prop :=
  ∃ table, tables.find? request = some table ∧ id ∈ table

/-- The block list together with the free set, under the claims of request tables. -/
structure BlocksValid (config : KVCacheConfig) (blocks : List PhysicalKVBlock)
    (free : OrdSet Nat) (epoch : Nat) (tables : OrdMap RequestId (List Nat))
    (tokens : Nat) : Prop where
  length : blocks.length = config.totalNumBlocks
  block : ∀ id < config.totalNumBlocks,
    BlockValid config.blockSizeTokens epoch (id ∈ free) (occurrencesIn tables id)
      (HoldsIn tables · id) id (blocks.getD id { blockId := id })
  represented : (blocks.map (·.validTokenCount)).sum = tokens

namespace BlocksValid

variable {config : KVCacheConfig} {blocks : List PhysicalKVBlock} {free : OrdSet Nat}
  {epoch : Nat} {tables : OrdMap RequestId (List Nat)} {tokens : Nat}

/-- A keyed block is one of the pool and not free. -/
theorem occupied
    (valid : BlocksValid config blocks free epoch tables tokens) {id : Nat}
    {key : TokenBlockKey} (carries : (blocks.getD id { blockId := id }).prefixKey = some key) :
    id < blocks.length ∧ (blocks.getD id { blockId := id }).state ≠ .free := by
  have inside : id < blocks.length := by
    by_contra outside
    simp [outside] at carries
  refine ⟨inside, ?_⟩
  have shape := valid.block id (valid.length ▸ inside)
  revert carries shape
  generalize blocks.getD id { blockId := id } = block
  rintro carries shape
  cases shape with
  | free _ _ => cases carries
  | cached => simp
  | shared => simp
  | owned => cases carries

/-- No block holds more tokens than fit, and a free one none. -/
theorem capacity
    (valid : BlocksValid config blocks free epoch tables tokens) :
    ∀ block ∈ blocks, block.validTokenCount ≤ config.blockSizeTokens ∧
      (block.state = .free → block.validTokenCount = 0) := by
  intro block member
  obtain ⟨id, inside, rfl⟩ := List.mem_iff_getElem.mp member
  have shape := valid.block id (valid.length ▸ inside)
  rw [List.getD_eq_getElem?_getD, List.getElem?_eq_getElem inside] at shape
  revert shape
  generalize blocks[id] = block
  intro shape
  cases shape with
  | free _ _ => simp
  | cached => simp
  | shared => simp
  | owned _ _ _ _ valid_le => exact ⟨valid_le, by simp⟩

end BlocksValid

/-! ## Index -/

/-- The prefix index lists exactly the keyed blocks, each key material once. -/
structure IndexValid (config : KVCacheConfig) (prefixConfig : PrefixCacheConfig)
    (hashFunction : PrefixHashFunction) (blocks : List PhysicalKVBlock)
    (index : OrdMap UInt64 (List Nat)) : Prop where
  bucket : ∀ hash ids, index.find? hash = some ids → ids ≠ [] ∧ ids.Nodup ∧ ∀ id ∈ ids,
    id < blocks.length ∧
      ∃ key, (blocks.getD id { blockId := id }).prefixKey = some key ∧ key.blockHash = hash
  keyed : ∀ id key, (blocks.getD id { blockId := id }).prefixKey = some key →
    ∃ ids, index.find? key.blockHash = some ids ∧ id ∈ ids
  key : ∀ id key, (blocks.getD id { blockId := id }).prefixKey = some key →
    key.tokenIds.length = config.blockSizeTokens ∧
      key.modelNamespace = prefixConfig.modelNamespace ∧
      key.cacheSalt = prefixConfig.cacheSalt ∧ hashFunction key = key.blockHash
  canonical : ∀ a b keyA keyB, (blocks.getD a { blockId := a }).prefixKey = some keyA →
    (blocks.getD b { blockId := b }).prefixKey = some keyB →
    keyA.material = keyB.material → a = b

/-! ## Request tables -/

/-- The shapes of a prompt provenance record. -/
inductive ProvenanceValid (config : KVCacheConfig) (enabled : Bool) (id : RequestId) :
    RequestKVPromptProvenance → Prop
  | countOnly {tokens blocks : Nat} : config.blocksRequired tokens = .ok blocks →
      ProvenanceValid config enabled id (countOnlyProvenance id tokens blocks)
  | exact {tokens : List Token} {matched : Nat} {completed : Bool} :
      matched ≤ tokens.length / config.blockSizeTokens →
      (completed = true → enabled = true ∧ matched ≠ tokens.length / config.blockSizeTokens) →
      ProvenanceValid config enabled id
        (exactProvenance config enabled id tokens matched completed)

namespace ProvenanceValid

variable {config : KVCacheConfig} {enabled : Bool} {id : RequestId}
  {p : RequestKVPromptProvenance}

theorem matched_le (shape : ProvenanceValid config enabled id p) :
    p.matchedSharedPrefixBlocks ≤ p.cacheEligibleFullPromptBlocks := by
  cases shape with
  | countOnly _ => exact le_rfl
  | exact matched_le _ => exact matched_le

theorem begin_eq (shape : ProvenanceValid config enabled id p) :
    p.computedFullBegin = p.matchedSharedPrefixBlocks := by
  cases shape <;> rfl

theorem full_eq (shape : ProvenanceValid config enabled id p)
    {tokens : List Token} (exact : p.exactPromptTokens = some tokens) :
    p.cacheEligibleFullPromptBlocks = tokens.length / config.blockSizeTokens := by
  cases shape with
  | countOnly _ => cases exact
  | exact _ _ =>
      cases exact
      rfl

theorem full_le (shape : ProvenanceValid config enabled id p) :
    p.cacheEligibleFullPromptBlocks ≤ p.decodeBlockStartPosition := by
  cases shape with
  | countOnly _ => exact Nat.zero_le _
  | exact _ _ => exact Nat.le_add_right _ _

end ProvenanceValid

/-- What the provenance record says about the block at a table position. -/
def PositionValid (blockSize : Nat) (p : RequestKVPromptProvenance) (position : Nat)
    (block : PhysicalKVBlock) : Prop :=
  if p.exactPromptTokens = none then
    if position < p.decodeBlockStartPosition then
      block.provenance = some .privatePromptCountOnly ∧
        min blockSize (p.totalPromptTokenCount - position * blockSize) ≤ block.validTokenCount
    else block.provenance = some .privateDecode
  else if position < p.cacheEligibleFullPromptBlocks then
    ∃ provenance, block.provenance = some provenance ∧ provenance.cacheable = true
  else if position < p.decodeBlockStartPosition then
    block.provenance = some .privatePromptTail ∧
      p.totalPromptTokenCount % blockSize ≠ 0 ∧
      p.totalPromptTokenCount % blockSize ≤ block.validTokenCount
  else block.provenance = some .privateDecode

/-- Some block carries a key. -/
def KVCacheManager.Keyed (manager : KVCacheManager) (key : TokenBlockKey) : Prop :=
  ∃ x, (manager.block x).prefixKey = some key

/-- A full prompt block carries its chain key, or is private; after publication a private one
has a canonical twin. -/
def KeyValidAt (manager : KVCacheManager) (p : RequestKVPromptProvenance) (position : Nat)
    (block : PhysicalKVBlock) (expected : TokenBlockKey) : Prop :=
  (block.prefixKey = some expected ∧
      (p.publicationCompleted = true ∨ position < p.matchedSharedPrefixBlocks)) ∨
    (block.prefixKey = none ∧ p.matchedSharedPrefixBlocks ≤ position ∧
      (p.publicationCompleted = true → manager.Keyed expected))

/-- What holds of one request table and its provenance record. -/
structure EntryValid (manager : KVCacheManager) (id : RequestId) (table : List Nat)
    (p : RequestKVPromptProvenance) : Prop where
  record : ProvenanceValid manager.config manager.prefixConfig.enabled id p
  start : p.decodeBlockStartPosition ≤ table.length
  nodup : table.Nodup
  inside : ∀ x ∈ table, x < manager.blocks.length
  position : ∀ position x, table[position]? = some x →
    PositionValid manager.config.blockSizeTokens p position (manager.block x)
  chain : ∀ tokens, p.exactPromptTokens = some tokens → ∀ position x,
    position < p.cacheEligibleFullPromptBlocks → table[position]? = some x →
    KeyValidAt manager p position (manager.block x) (manager.chainKey tokens position)

namespace KVCacheManager

/-- A request's table holds a block. -/
def Holds (manager : KVCacheManager) (request : RequestId) (id : Nat) : Prop :=
  HoldsIn manager.blockTables request id

/-- What `validate_invariants` checks. -/
structure Valid (manager : KVCacheManager) : Prop where
  peak : manager.peakAllocatedBlockCount ≤ manager.blocks.length
  tables : ∀ id p, manager.requestProvenance.find? id = some p →
    ∃ table, manager.blockTables.find? id = some table
  entries : ∀ id table, manager.blockTables.find? id = some table →
    ∃ p, manager.requestProvenance.find? id = some p ∧ EntryValid manager id table p
  blocks : BlocksValid manager.config manager.blocks manager.freeBlocks manager.accessEpoch
    manager.blockTables manager.representedTokenCount
  index : IndexValid manager.config manager.prefixConfig manager.hashFunction manager.blocks
    manager.prefixIndex

end KVCacheManager

end LlmLab.Serving
