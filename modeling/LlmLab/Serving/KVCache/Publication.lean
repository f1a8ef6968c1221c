import LlmLab.Serving.KVCache.PromptOps

/-!
# Publication

`insert_completed_prompt_blocks` gives each computed full prompt block its chain key, unless
another block already carries it.  The walk itself needs nothing of the hash function; that
the result passes the closing check needs the hash to be a function of the key material.
-/

namespace LlmLab.Serving

open KVCacheManager

namespace KVCacheManager

variable {manager : KVCacheManager} {id : RequestId} {tokens : List Token} {table : List Nat}
  {p : RequestKVPromptProvenance}

/-- A block that publication gave its chain key, or left alone. -/
def PublishedBlock (manager : KVCacheManager) (p : RequestKVPromptProvenance)
    (tokens : List Token) (table : List Nat) (full epoch x : Nat) (block : PhysicalKVBlock) :
    Prop :=
  block = manager.block x ∨
    ∃ j e, p.matchedSharedPrefixBlocks ≤ j ∧ j < full ∧ table[j]? = some x ∧
      (manager.block x).prefixKey = none ∧ manager.accessEpoch < e ∧ e ≤ epoch ∧
      block = { manager.block x with
        prefixKey := some (manager.chainKey tokens j), owner := none, lastAccessEpoch := e }

/-- The state of the walk after the first `i` full blocks. -/
structure Publishing (manager : KVCacheManager) (p : RequestKVPromptProvenance)
    (tokens : List Token) (table : List Nat) (i : Nat) (state : KVCacheManager) : Prop where
  rest : state = { manager with
    blocks := state.blocks, prefixIndex := state.prefixIndex, accessEpoch := state.accessEpoch }
  length : state.blocks.length = manager.blocks.length
  epoch : manager.accessEpoch ≤ state.accessEpoch
  block : ∀ x, PublishedBlock manager p tokens table i state.accessEpoch x (state.block x)
  valid : BlocksValid manager.config state.blocks manager.freeBlocks state.accessEpoch
    manager.blockTables manager.representedTokenCount
  ordered : IndexOrdered state.prefixIndex
  listed : ∀ hash ids, state.prefixIndex.find? hash = some ids → ∀ x ∈ ids,
    (state.block x).prefixKey ≠ none
  index : OfMaterial manager.hashFunction →
    IndexValid manager.config manager.prefixConfig manager.hashFunction state.blocks
        state.prefixIndex ∧
      ∀ j, p.matchedSharedPrefixBlocks ≤ j → j < i → state.Keyed (manager.chainKey tokens j)

theorem Publishing.setup {i : Nat} {state : KVCacheManager}
    (walk : manager.Publishing p tokens table i state) : manager.SameSetup state := by
  have rest := walk.rest
  exact ⟨congrArg (·.config) rest, congrArg (·.prefixConfig) rest,
    congrArg (·.hashFunction) rest⟩

theorem Publishing.start (sound : manager.Sound) :
    manager.Publishing p tokens table 0 manager where
  rest := rfl
  length := rfl
  epoch := le_rfl
  block _ := Or.inl rfl
  valid := sound.valid.blocks
  ordered := sound.ordered.buckets
  listed hash ids found x member := by
    obtain ⟨-, -, members⟩ := sound.valid.index.bucket hash ids found
    obtain ⟨-, key, carries, -⟩ := members x member
    have carries' : (manager.block x).prefixKey = some key := carries
    rw [carries']
    simp
  index _ := ⟨sound.valid.index, fun j _ before => by omega⟩

/-- A walk that leaves position `i` alone. -/
theorem Publishing.skip {i : Nat} {state : KVCacheManager}
    (walk : manager.Publishing p tokens table i state)
    (keyed : OfMaterial manager.hashFunction → p.matchedSharedPrefixBlocks ≤ i →
      state.Keyed (manager.chainKey tokens i)) :
    manager.Publishing p tokens table (i + 1) state where
  rest := walk.rest
  length := walk.length
  epoch := walk.epoch
  block x := (walk.block x).imp_right fun ⟨j, e, begins, before, rest⟩ =>
    ⟨j, e, begins, by omega, rest⟩
  valid := walk.valid
  ordered := walk.ordered
  listed := walk.listed
  index material := by
    obtain ⟨index, earlier⟩ := walk.index material
    refine ⟨index, fun j begins before => ?_⟩
    rcases Nat.lt_succ_iff_lt_or_eq.mp before with before | rfl
    · exact earlier j begins before
    · exact keyed material begins

theorem length_blockTokens {blockSize i : Nat} (inside : i < tokens.length / blockSize) :
    (blockTokens blockSize tokens i).length = blockSize := by
  have positive : 0 < blockSize := by
    rcases Nat.eq_zero_or_pos blockSize with zero | positive
    · rw [zero, Nat.div_zero] at inside
      omega
    · exact positive
  have room := (Nat.le_div_iff_mul_le positive).mp (Nat.succ_le_of_lt inside)
  rw [Nat.succ_mul] at room
  unfold blockTokens
  rw [List.length_take, List.length_drop]
  omega

/-- The hash of a chain key, under a hash of the material. -/
theorem chainKey_hashed (material : OfMaterial manager.hashFunction) (i : Nat) :
    manager.hashFunction (manager.chainKey tokens i) = (manager.chainKey tokens i).blockHash := by
  rw [material]
  rfl

/-- The manager once position `i` is published. -/
def publishPosition (state : KVCacheManager) (key : TokenBlockKey) (x : Nat) : KVCacheManager :=
  { state with
    blocks := state.blocks.modify x fun block =>
      { block with prefixKey := some key, owner := none, lastAccessEpoch := state.accessEpoch + 1 }
    prefixIndex := indexWith state.prefixIndex key.blockHash x
    accessEpoch := state.accessEpoch + 1 }

/-- A walk that publishes position `i`. -/
theorem Publishing.publish {i x : Nat} {state : KVCacheManager}
    (walk : manager.Publishing p tokens table i state)
    (found : manager.blockTables.find? id = some table) (at' : table[i]? = some x)
    (begins : p.matchedSharedPrefixBlocks ≤ i)
    (full : i < tokens.length / manager.config.blockSizeTokens)
    (same : state.block x = manager.block x) (inside : x < manager.blocks.length)
    (unkeyed : (manager.block x).prefixKey = none)
    (computed : (manager.block x).provenance = some .computedPromptFull)
    (noTwin : state.canonicalExists (manager.chainKey tokens i) = false) :
    manager.Publishing p tokens table (i + 1)
      (state.publishPosition (manager.chainKey tokens i) x) := by
  have bound : x < state.blocks.length := walk.length ▸ inside
  have written : ∀ y, (state.modifyBlock x fun block =>
      { block with prefixKey := some (manager.chainKey tokens i), owner := none
                   lastAccessEpoch := state.accessEpoch + 1 }).block y =
      if y = x then { manager.block x with
        prefixKey := some (manager.chainKey tokens i), owner := none
        lastAccessEpoch := state.accessEpoch + 1 } else state.block y := by
    intro y
    rw [block_modifyBlock bound, same]
  have unkeyed' : (state.block x).prefixKey = none := by rw [same, unkeyed]
  refine ⟨?_, (List.length_modify ..).trans walk.length, walk.epoch.trans (Nat.le_succ _),
    fun y => ?_, ?_, walk.ordered.with fun ids listed member =>
      walk.listed _ ids listed x member unkeyed', fun hash ids listed y member => ?_,
    fun material => ?_⟩
  · unfold publishPosition
    rw [walk.rest]
  · change PublishedBlock manager p tokens table (i + 1) (state.accessEpoch + 1) y
      ((state.modifyBlock x _).block y)
    rw [written]
    split
    · next here =>
        subst here
        exact Or.inr ⟨i, _, begins, Nat.lt_succ_self i, at', unkeyed,
          Nat.lt_succ_of_le walk.epoch, le_rfl, rfl⟩
    · exact (walk.block y).imp_right fun ⟨j, e, begins, before, at', unkeyed, later, le, eq⟩ =>
        ⟨j, e, begins, by omega, at', unkeyed, later, by omega, eq⟩
  · exact walk.valid.publish (walk.valid.length ▸ bound) ⟨table, found, List.mem_of_getElem? at'⟩
      unkeyed' (by change (state.block x).provenance = _; rw [same, computed]) _
  · change ((state.modifyBlock x _).block y).prefixKey ≠ none
    rw [written]
    split
    · simp
    · next apart =>
        change (indexWith state.prefixIndex _ x).find? hash = _ at listed
        unfold indexWith at listed
        rw [OrdMap.find?_insert] at listed
        split at listed
        · cases listed
          rw [mem_sortBy, List.mem_append, List.mem_singleton, or_iff_left apart] at member
          cases present : state.prefixIndex.find? (manager.chainKey tokens i).blockHash with
          | none => simp [present] at member
          | some bucket =>
              rw [present] at member
              exact walk.listed _ bucket present y member
        · exact walk.listed hash ids listed y member
  · obtain ⟨index, earlier⟩ := walk.index material
    have setup := walk.setup
    have fresh : ∀ y stored, (state.block y).prefixKey = some stored →
        stored.material ≠ (manager.chainKey tokens i).material := by
      intro y stored carries equal
      have index' : IndexValid state.config state.prefixConfig state.hashFunction state.blocks
          state.prefixIndex := by
        rw [setup.config, setup.prefixConfig, setup.hashFunction]
        exact index
      have hash : stored.blockHash = (manager.chainKey tokens i).blockHash := by
        rw [← (index.key y stored carries).2.2.2, ← chainKey_hashed material, material,
          material (manager.chainKey tokens i), equal]
      have twin := (canonicalExists_iff index').mpr
        ⟨y, by rw [carries, TokenBlockKey.eq_of_material equal hash]⟩
      rw [noTwin] at twin
      cases twin
    refine ⟨index.publish bound unkeyed' (length_blockTokens full) rfl rfl
      (chainKey_hashed material i) fresh fun _ => rfl, fun j begins before => ?_⟩
    rcases Nat.lt_succ_iff_lt_or_eq.mp before with before | rfl
    · obtain ⟨y, carries⟩ := earlier j begins before
      refine ⟨y, ?_⟩
      change ((state.modifyBlock x _).block y).prefixKey = _
      rw [written, if_neg (by rintro rfl; rw [unkeyed'] at carries; cases carries), carries]
    · refine ⟨x, ?_⟩
      change ((state.modifyBlock x _).block x).prefixKey = _
      rw [written, if_pos rfl]

/-- Before publication, a computed full block is private and labelled as computed. -/
theorem Sound.computed (sound : manager.Sound)
    (found : manager.blockTables.find? id = some table)
    (recorded : manager.requestProvenance.find? id = some p)
    (exact : p.exactPromptTokens = some tokens) (notYet : p.publicationCompleted = false)
    {i x : Nat} (begins : p.matchedSharedPrefixBlocks ≤ i)
    (full : i < p.cacheEligibleFullPromptBlocks) (at' : table[i]? = some x) :
    (manager.block x).prefixKey = none ∧
      (manager.block x).provenance = some .computedPromptFull := by
  obtain ⟨p', recorded', entry⟩ := sound.valid.entries id table found
  rw [recorded, Option.some.injEq] at recorded'
  subst recorded'
  have unkeyed : (manager.block x).prefixKey = none := by
    rcases entry.chain tokens exact i x full at' with ⟨-, allowed⟩ | ⟨unkeyed, -⟩
    · rcases allowed with completed | before
      · rw [notYet] at completed
        cases completed
      · omega
    · exact unkeyed
  refine ⟨unkeyed, ?_⟩
  have position := entry.position i x at'
  unfold PositionValid at position
  rw [if_neg (by rw [exact]; simp), if_pos full] at position
  obtain ⟨provenance, present, cacheable⟩ := position
  rw [present]
  cases provenance with
  | sharedPromptFull => exact absurd unkeyed (sound.ordered.shared x present)
  | computedPromptFull => rfl
  | privatePromptTail => cases cacheable
  | privatePromptCountOnly => cases cacheable
  | privateDecode => cases cacheable

/-! ## The loop -/

/-- The manager after the first `i` positions: each computed one is published unless another
block carries its key already. -/
def publishedUpTo (manager : KVCacheManager) (tokens : List Token) (table : List Nat)
    (computedBegin : Nat) : Nat → KVCacheManager
  | 0 => manager
  | i + 1 =>
      let state := publishedUpTo manager tokens table computedBegin i
      if computedBegin ≤ i ∧ state.canonicalExists (manager.chainKey tokens i) = false then
        state.publishPosition (manager.chainKey tokens i) (table.getD i 0)
      else state

theorem publishedUpTo_succ (computedBegin i : Nat) :
    manager.publishedUpTo tokens table computedBegin (i + 1) =
      if computedBegin ≤ i ∧ (manager.publishedUpTo tokens table computedBegin i).canonicalExists
          (manager.chainKey tokens i) = false then
        (manager.publishedUpTo tokens table computedBegin i).publishPosition
          (manager.chainKey tokens i) (table.getD i 0)
      else manager.publishedUpTo tokens table computedBegin i := rfl

/-- A live request that has not published its prompt yet. -/
structure Unpublished (manager : KVCacheManager) (id : RequestId) (tokens : List Token)
    (table : List Nat) (p : RequestKVPromptProvenance) : Prop where
  found : manager.blockTables.find? id = some table
  recorded : manager.requestProvenance.find? id = some p
  exact : p.exactPromptTokens = some tokens
  notYet : p.publicationCompleted = false
  entry : EntryValid manager id table p

namespace Unpublished

theorem full_eq (request : manager.Unpublished id tokens table p) :
    p.cacheEligibleFullPromptBlocks = tokens.length / manager.config.blockSizeTokens :=
  request.entry.record.full_eq request.exact

theorem at_full (request : manager.Unpublished id tokens table p) {i : Nat}
    (full : i < p.cacheEligibleFullPromptBlocks) : table[i]? = some (table.getD i 0) := by
  have room : i < table.length :=
    full.trans_le (request.entry.record.full_le.trans request.entry.start)
  rw [List.getD_eq_getElem?_getD, List.getElem?_eq_getElem room]
  rfl

/-- The walk has not touched the block of a position it has not reached. -/
theorem same (request : manager.Unpublished id tokens table p) {i : Nat} {state : KVCacheManager}
    (walk : manager.Publishing p tokens table i state) (full : i < p.cacheEligibleFullPromptBlocks) :
    state.block (table.getD i 0) = manager.block (table.getD i 0) := by
  rcases walk.block (table.getD i 0) with same | ⟨j, e, -, before, other, -⟩
  · exact same
  · obtain ⟨insideJ, eqJ⟩ := List.getElem?_eq_some_iff.mp other
    obtain ⟨insideI, eqI⟩ := List.getElem?_eq_some_iff.mp (request.at_full full)
    have := (request.entry.nodup.getElem_inj_iff).mp (eqJ.trans eqI.symm)
    omega

/-- A matched position carries its key. -/
theorem keyed (request : manager.Unpublished id tokens table p) {i : Nat} {state : KVCacheManager}
    (walk : manager.Publishing p tokens table i state) (full : i < p.cacheEligibleFullPromptBlocks)
    (shared : i < p.matchedSharedPrefixBlocks) :
    (state.block (table.getD i 0)).prefixKey = some (manager.chainKey tokens i) := by
  rw [request.same walk full]
  rcases request.entry.chain tokens request.exact i _ full (request.at_full full) with
    ⟨keyed, -⟩ | ⟨-, begins, -⟩
  · exact keyed
  · omega

/-- A twin of the key is a block that carries it. -/
theorem canonicalExists_iff (material : OfMaterial manager.hashFunction) {i : Nat}
    {state : KVCacheManager} (walk : manager.Publishing p tokens table i state)
    {key : TokenBlockKey} : state.canonicalExists key = true ↔ state.Keyed key := by
  have setup := walk.setup
  refine KVCacheManager.canonicalExists_iff ?_
  rw [setup.config, setup.prefixConfig, setup.hashFunction]
  exact (walk.index material).1

/-- One position of the walk. -/
theorem step (request : manager.Unpublished id tokens table p) (sound : manager.Sound) {i : Nat}
    {state : KVCacheManager} (walk : manager.Publishing p tokens table i state)
    (full : i < p.cacheEligibleFullPromptBlocks) :
    manager.Publishing p tokens table (i + 1)
      (if p.matchedSharedPrefixBlocks ≤ i ∧
          state.canonicalExists (manager.chainKey tokens i) = false then
        state.publishPosition (manager.chainKey tokens i) (table.getD i 0)
      else state) := by
  split
  · next publishes =>
      obtain ⟨unkeyed, computed⟩ := sound.computed request.found request.recorded request.exact
        request.notYet publishes.1 full (request.at_full full)
      exact walk.publish request.found (request.at_full full) publishes.1 (request.full_eq ▸ full)
        (request.same walk full)
        (request.entry.inside _ (List.mem_of_getElem? (request.at_full full))) unkeyed computed
        publishes.2
  · next skips =>
      refine walk.skip fun material begins => (canonicalExists_iff material walk).mp ?_
      by_contra absent
      exact skips ⟨begins, by simpa using absent⟩

theorem walk (request : manager.Unpublished id tokens table p) (sound : manager.Sound) {i : Nat}
    (le : i ≤ p.cacheEligibleFullPromptBlocks) : manager.Publishing p tokens table i
      (manager.publishedUpTo tokens table p.matchedSharedPrefixBlocks i) := by
  induction i with
  | zero => exact .start sound
  | succ i ih => exact request.step sound (ih (Nat.le_of_succ_le le)) le

/-- The loop of the sources computes `publishedUpTo`, unless an epoch overflows. -/
theorem publishFrom_ensures (request : manager.Unpublished id tokens table p)
    (sound : manager.Sound) (remaining i : Nat)
    (total : i + remaining = p.cacheEligibleFullPromptBlocks) :
    Ensures Exn.IsOverflow
      (fun final => final = manager.publishedUpTo tokens table p.matchedSharedPrefixBlocks
        p.cacheEligibleFullPromptBlocks)
      (publishFrom p tokens table remaining i
        (manager.parentHashIn manager.prefixConfig.modelNamespace manager.prefixConfig.cacheSalt
          tokens i) (manager.publishedUpTo tokens table p.matchedSharedPrefixBlocks i)) := by
  induction remaining generalizing i with
  | zero =>
      rw [Nat.add_zero] at total
      subst total
      rfl
  | succ remaining ih =>
      have full : i < p.cacheEligibleFullPromptBlocks := by omega
      have walk := request.walk sound full.le
      have next := ih (i + 1) (by omega)
      have setup := walk.setup
      have full_eq := request.full_eq
      have same := request.same walk full
      have keyed := request.keyed walk full
      rw [publishedUpTo_succ] at next
      generalize manager.publishedUpTo tokens table p.matchedSharedPrefixBlocks i = state at *
      have key : ∀ parent, state.makeKey parent tokens (i * state.config.blockSizeTokens)
          state.prefixConfig.modelNamespace state.prefixConfig.cacheSalt =
          .ok (manager.keyFor parent (blockTokens manager.config.blockSizeTokens tokens i)
            manager.prefixConfig.modelNamespace manager.prefixConfig.cacheSalt) := by
        intro parent
        rw [makeKey_eq (by rw [setup.config]; omega), setup.config, setup.prefixConfig]
        unfold keyFor
        rw [setup.hashFunction]
      unfold publishFrom
      rw [key, except_ok_bind]
      change Ensures _ _ (if i < p.computedFullBegin then
        throwIf (((state.block (table.getD i 0)).prefixKey.any
          fun stored => exactKeyMaterialEqual stored (manager.chainKey tokens i)) = false) _ >>= _
        else _)
      rw [request.entry.record.begin_eq]
      split
      · next shared =>
          rw [keyed shared, throwIf_of_not (by
            simp [exactKeyMaterialEqual_iff.mpr (rfl : (manager.chainKey tokens i).material = _)]),
            except_ok_bind]
          rw [if_neg (by omega)] at next
          exact next
      · next computedRange =>
          have begins := not_lt.mp computedRange
          obtain ⟨unkeyed, computed⟩ := sound.computed request.found request.recorded request.exact
            request.notYet begins full (request.at_full full)
          change Ensures _ _ (throwIf ((state.block (table.getD i 0)).provenance ≠ _) _ >>= _)
          rw [same, throwIf_of_not (not_not.mpr computed), except_ok_bind]
          change Ensures _ _ (if state.canonicalExists (manager.chainKey tokens i) = false ∧
            (manager.block (table.getD i 0)).prefixKey = none then _ else _)
          split
          · next publishes =>
              rw [if_pos ⟨begins, publishes.1⟩] at next
              refine (inc_ensures _ _).bind fun epoch epoch_eq => ?_
              subst epoch_eq
              exact next
          · next twin =>
              rw [if_neg fun publishes => twin ⟨publishes.2, unkeyed⟩] at next
              exact next

end Unpublished

/-! ## The published state -/

/-- The effect of a publication. -/
structure Published (manager : KVCacheManager) (id : RequestId) (tokens : List Token)
    (table : List Nat) (p : RequestKVPromptProvenance) (next : KVCacheManager) : Prop where
  rest : next = { manager with
    blocks := next.blocks, prefixIndex := next.prefixIndex, accessEpoch := next.accessEpoch
    requestProvenance := manager.requestProvenance.modify id fun p =>
      { p with publicationCompleted := true } }
  length : next.blocks.length = manager.blocks.length
  epoch : manager.accessEpoch ≤ next.accessEpoch
  block : ∀ x, PublishedBlock manager p tokens table p.cacheEligibleFullPromptBlocks
    next.accessEpoch x (next.block x)
  exact : next = (manager.publishedUpTo tokens table p.matchedSharedPrefixBlocks
    p.cacheEligibleFullPromptBlocks).markPublished id

theorem Publishing.published {state : KVCacheManager}
    (walk : manager.Publishing p tokens table p.cacheEligibleFullPromptBlocks state)
    (exact : state = manager.publishedUpTo tokens table p.matchedSharedPrefixBlocks
      p.cacheEligibleFullPromptBlocks) :
    manager.Published id tokens table p (state.markPublished id) where
  rest := by
    unfold markPublished
    rw [walk.rest]
  length := walk.length
  epoch := walk.epoch
  block := walk.block
  exact := by rw [exact]

namespace Published

variable {next : KVCacheManager}

theorem setup (effect : manager.Published id tokens table p next) : manager.SameSetup next := by
  have rest := effect.rest
  exact ⟨congrArg (·.config) rest, congrArg (·.prefixConfig) rest,
    congrArg (·.hashFunction) rest⟩

/-- Publication changes no token count and no provenance label. -/
theorem provenance_valid (effect : manager.Published id tokens table p next) (x : Nat) :
    (next.block x).provenance = (manager.block x).provenance ∧
      (next.block x).validTokenCount = (manager.block x).validTokenCount := by
  rcases effect.block x with same | ⟨j, e, -, -, -, -, -, -, eq⟩
  · rw [same]
    exact ⟨rfl, rfl⟩
  · rw [eq]
    exact ⟨rfl, rfl⟩

/-- Publication only adds keys. -/
theorem keyed (effect : manager.Published id tokens table p next) {key : TokenBlockKey}
    (keyed : manager.Keyed key) : next.Keyed key := by
  obtain ⟨x, carries⟩ := keyed
  refine ⟨x, ?_⟩
  rcases effect.block x with same | ⟨j, e, -, -, -, unkeyed, -⟩
  · rw [same, carries]
  · rw [unkeyed] at carries
    cases carries

/-- The blocks of any other live table stay as they are. -/
theorem others (effect : manager.Published id tokens table p next) (sound : manager.Sound)
    (found : manager.blockTables.find? id = some table) {other : RequestId} {held : List Nat}
    (present : manager.blockTables.find? other = some held) (different : other ≠ id) {x : Nat}
    (member : x ∈ held) : next.block x = manager.block x := by
  rcases effect.block x with same | ⟨j, e, -, -, at', unkeyed, -⟩
  · exact same
  · exact absurd (sound.unshared present member unkeyed found (List.mem_of_getElem? at'))
      different.symm

end Published

/-- A complete publication keeps the buckets ordered. -/
theorem Publishing.ordered_published {state : KVCacheManager} (sound : manager.Sound)
    (walk : manager.Publishing p tokens table p.cacheEligibleFullPromptBlocks state) :
    (state.markPublished id).Ordered := by
  refine ⟨fun x member => ?_, walk.ordered, fun x shared => ?_⟩
  · unfold markPublished at member ⊢
    rw [walk.rest] at member ⊢
    exact sound.ordered.free x member
  · change ((state.markPublished id).block x).provenance = _ at shared
    rcases walk.block x with same | ⟨j, e, -, -, -, -, -, -, eq⟩
    · change (state.block x).provenance = _ at shared
      change (state.block x).prefixKey ≠ none
      rw [same] at shared ⊢
      exact sound.ordered.shared x shared
    · change (state.block x).prefixKey ≠ none
      rw [eq]
      simp

/-- Under a hash of the key material, a publication passes its closing check. -/
theorem Publishing.valid_published {state : KVCacheManager} (sound : manager.Sound)
    (material : OfMaterial manager.hashFunction)
    (found : manager.blockTables.find? id = some table)
    (recorded : manager.requestProvenance.find? id = some p)
    (exact : p.exactPromptTokens = some tokens)
    (enabled : manager.prefixConfig.enabled = true)
    (some' : p.computedFullBegin ≠ p.computedFullEnd)
    (notYet : p.publicationCompleted = false)
    (walk : manager.Publishing p tokens table p.cacheEligibleFullPromptBlocks state)
    (effect : manager.Published id tokens table p (state.markPublished id)) :
    (state.markPublished id).Valid := by
  have setup := effect.setup
  obtain ⟨index, twins⟩ := walk.index material
  have tables : (state.markPublished id).blockTables = manager.blockTables := by
    rw [effect.rest]
  have records : (state.markPublished id).requestProvenance =
      manager.requestProvenance.modify id fun p => { p with publicationCompleted := true } := by
    rw [effect.rest]
  refine ⟨?_, fun other p' recorded' => ?_, fun other held present => ?_, ?_, ?_⟩
  · rw [effect.length, effect.rest]
    exact sound.valid.peak
  · rw [tables]
    rw [records, OrdMap.find?_modify] at recorded'
    split at recorded'
    · next same =>
        subst same
        exact ⟨table, found⟩
    · exact sound.valid.tables other p' recorded'
  · rw [tables] at present
    rw [records, OrdMap.find?_modify]
    obtain ⟨q, recordedQ, entry⟩ := sound.valid.entries other held present
    by_cases same : other = id
    · subst same
      rw [found, Option.some.injEq] at present
      subst present
      rw [recorded, Option.some.injEq] at recordedQ
      subst recordedQ
      refine ⟨{ p with publicationCompleted := true }, by rw [if_pos rfl, recorded]; rfl, ?_, entry.start, entry.nodup,
        fun x member => by rw [effect.length]; exact entry.inside x member,
        fun position x at' => ?_, fun tokens' exact' position x full at' => ?_⟩
      · rw [setup.config, setup.prefixConfig]
        have shape := entry.record
        cases shape with
        | countOnly _ => cases exact
        | exact matched_le completion =>
            exact .exact matched_le fun _ => ⟨enabled, some'⟩
      · rw [setup.config]
        obtain ⟨provenance, count⟩ := effect.provenance_valid x
        exact (entry.position position x at').mono provenance count.ge
      · change p.exactPromptTokens = some tokens' at exact'
        rw [exact, Option.some.injEq] at exact'
        subst exact'
        rw [setup.chainKey]
        change position < p.cacheEligibleFullPromptBlocks at full
        rcases effect.block x with same | ⟨j, e, begins, fullJ, atJ, -, -, -, eq⟩
        · rw [same]
          rcases entry.chain tokens exact position x full at' with ⟨keyed, -⟩ | ⟨unkeyed, begins, -⟩
          · exact Or.inl ⟨keyed, Or.inl rfl⟩
          · exact Or.inr ⟨unkeyed, begins, fun _ => twins position begins full⟩
        · obtain ⟨insideJ, eqJ⟩ := List.getElem?_eq_some_iff.mp atJ
          obtain ⟨inside, eqI⟩ := List.getElem?_eq_some_iff.mp at'
          obtain rfl := (entry.nodup.getElem_inj_iff).mp (eqJ.trans eqI.symm)
          rw [eq]
          exact Or.inl ⟨rfl, Or.inl rfl⟩
    · have kept : ∀ x ∈ held, (state.markPublished id).block x = manager.block x :=
        fun x member => effect.others sound found present same member
      refine ⟨q, by rw [if_neg same, recordedQ], ?_, entry.start, entry.nodup,
        fun x member => by rw [effect.length]; exact entry.inside x member,
        fun position x at' => ?_, fun tokens' exact' position x full at' => ?_⟩
      · rw [setup.config, setup.prefixConfig]
        exact entry.record
      · rw [setup.config, kept x (List.mem_of_getElem? at')]
        exact entry.position position x at'
      · rw [setup.chainKey, kept x (List.mem_of_getElem? at')]
        exact (entry.chain tokens' exact' position x full at').imp_right
          fun ⟨unkeyed, begins, twin⟩ =>
            ⟨unkeyed, begins, fun completed => effect.keyed (twin completed)⟩
  · rw [tables]
    have valid := walk.valid
    rw [effect.rest]
    exact valid
  · rw [setup.config, setup.prefixConfig, setup.hashFunction]
    exact index

/-- What `insert_completed_prompt_blocks` asks of the request. -/
structure PublishPlan (manager : KVCacheManager) (id : RequestId) (table : List Nat)
    (p : RequestKVPromptProvenance) (tokens : List Token) : Prop where
  table : manager.blockTables.find? id = some table
  record : manager.requestProvenance.find? id = some p
  exact : p.exactPromptTokens = some tokens
  enabled : manager.prefixConfig.enabled = true
  computed : p.computedFullBegin ≠ p.computedFullEnd

/-- Publication overflows, refuses the request or the hash, or succeeds; publishing a second
time does nothing. -/
theorem insertCompletedPromptBlocksInPlace_ensures (sound : manager.Sound) :
    Ensures (Refuses (OfMaterial manager.hashFunction ∧
        ∃ table p tokens, manager.PublishPlan id table p tokens))
      (fun next => next.Sound ∧ ∃ table p tokens, manager.PublishPlan id table p tokens ∧
        if p.publicationCompleted then next = manager
        else manager.Published id tokens table p next)
      (manager.insertCompletedPromptBlocksInPlace id) := by
  unfold insertCompletedPromptBlocksInPlace
  cases found : manager.blockTables.find? id with
  | none =>
      refine Or.inr fun ⟨_, table, p, tokens, plan⟩ => ?_
      rw [plan.table] at found
      cases found
  | some table =>
      obtain ⟨p, recorded, entry⟩ := sound.valid.entries id table found
      rw [recorded]
      dsimp only
      have unique : ∀ {table' p' tokens'}, manager.PublishPlan id table' p' tokens' → p' = p :=
        fun plan => by
          have same := plan.record
          rw [recorded, Option.some.injEq] at same
          exact same.symm
      cases exact : p.exactPromptTokens with
      | none =>
          refine Or.inr fun ⟨_, _, _, _, plan⟩ => ?_
          have present := plan.exact
          rw [unique plan, exact] at present
          cases present
      | some tokens =>
          refine .throwIf_bind (fun ineligible => Or.inr fun ⟨_, _, _, _, plan⟩ => ?_)
            fun eligible => ?_
          · rcases ineligible with disabled | ineligible
            · rw [plan.enabled] at disabled
              cases disabled
            · have shape := entry.record
              cases shape with
              | countOnly _ => cases exact
              | exact _ _ =>
                  change manager.prefixConfig.enabled = false at ineligible
                  rw [plan.enabled] at ineligible
                  cases ineligible
          have enabled : manager.prefixConfig.enabled = true := by
            by_contra disabled
            exact eligible (Or.inl (by simpa using disabled))
          refine .throwIf_bind (fun empty => Or.inr fun ⟨_, _, _, _, plan⟩ => ?_) fun some' => ?_
          · have computed := plan.computed
            rw [unique plan] at computed
            exact computed empty
          have plan : manager.PublishPlan id table p tokens :=
            ⟨found, recorded, exact, enabled, some'⟩
          by_cases completed : p.publicationCompleted = true
          · rw [if_pos completed]
            exact ⟨sound, table, p, tokens, plan, by rw [if_pos completed]⟩
          · rw [if_neg completed]
            rw [Bool.not_eq_true] at completed
            have request : manager.Unpublished id tokens table p :=
              ⟨found, recorded, exact, completed, entry⟩
            refine ((request.publishFrom_ensures sound _ 0 (Nat.zero_add _)).mono_allowed
              fun _ => Or.inl).bind fun state final => ?_
            have walk := request.walk sound le_rfl
            rw [← final] at walk
            have effect := (walk.published final : manager.Published id tokens table p _)
            refine .throwIf_bind (fun invalid => Or.inr fun ⟨material, _⟩ => ?_) fun checked => ?_
            · have valid := walk.valid_published sound material found recorded exact enabled some'
                completed effect
              rw [validateInvariants_iff.mpr valid] at invalid
              cases invalid
            · rw [Bool.not_eq_false] at checked
              exact ⟨⟨validateInvariants_iff.mp checked, walk.ordered_published sound⟩, table, p,
                tokens, plan, by rw [if_neg (by simp [completed])]; exact effect⟩

end KVCacheManager

end LlmLab.Serving
