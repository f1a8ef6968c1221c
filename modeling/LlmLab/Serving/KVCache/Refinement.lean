import LlmLab.Serving.KVCache.History
import LlmLab.Serving.KVCache.ShadowCache

/-!
# The manager refines the reference model

`Represents` relates a manager to the shadow that describes it.  Every effect of a manager
operation is the step of the shadow.
-/

namespace LlmLab.Serving

open KVCacheManager

namespace KVCacheManager

variable {manager next : KVCacheManager} {shadow : ShadowCache} {id : RequestId}
  {table victims : List Nat}

/-- The two have the same parameters. -/
structure Configured (manager : KVCacheManager) (shadow : ShadowCache) : Prop where
  count : shadow.count = manager.config.totalNumBlocks
  blockSize : shadow.blockSize = manager.config.blockSizeTokens
  enabledCache : shadow.enabledCache = manager.prefixConfig.enabled
  model : shadow.model = manager.prefixConfig.modelNamespace
  salt : shadow.salt = manager.prefixConfig.cacheSalt
  hash : shadow.hash = manager.hashFunction

/-- The shadow describes the manager. -/
structure Represents (manager : KVCacheManager) (shadow : ShadowCache) : Prop where
  configured : manager.Configured shadow
  blocks : ∀ x, shadow.blocks x = manager.block x
  free : shadow.free = manager.freeBlocks
  tables : ∀ id, shadow.tables id = manager.blockTables.find? id
  provenance : ∀ id, shadow.provenance id = manager.requestProvenance.find? id
  canonical : ∀ key x, shadow.canonical key = some x ↔ (manager.block x).prefixKey = some key
  represented : shadow.represented = manager.representedTokenCount
  epoch : shadow.epoch = manager.accessEpoch

/-- Another shadow with the same parameters, for a manager with the same setup. -/
theorem Configured.congr {shadow' : ShadowCache} (configured : manager.Configured shadow)
    (setup : manager.SameSetup next) (count : shadow'.count = shadow.count)
    (blockSize : shadow'.blockSize = shadow.blockSize)
    (enabledCache : shadow'.enabledCache = shadow.enabledCache)
    (model : shadow'.model = shadow.model) (salt : shadow'.salt = shadow.salt)
    (hash : shadow'.hash = shadow.hash) : next.Configured shadow' := by
  refine ⟨?_, ?_, ?_, ?_, ?_, ?_⟩
  · rw [count, configured.count, setup.config]
  · rw [blockSize, configured.blockSize, setup.config]
  · rw [enabledCache, configured.enabledCache, setup.prefixConfig]
  · rw [model, configured.model, setup.prefixConfig]
  · rw [salt, configured.salt, setup.prefixConfig]
  · rw [hash, configured.hash, setup.hashFunction]

theorem create_represents (config : KVCacheConfig) (prefixConfig : PrefixCacheConfig)
    (hash : PrefixHashFunction) :
    (create config prefixConfig hash).Represents (ShadowCache.create config prefixConfig hash) := by
  refine ⟨⟨rfl, rfl, rfl, rfl, rfl, rfl⟩, fun x => (block_create x).symm, rfl, fun _ => rfl,
    fun _ => rfl, fun key x => ?_, rfl, rfl⟩
  rw [block_create]
  exact ⟨nofun, nofun⟩

namespace Represents

/-! ## Queries -/

theorem key_eq (represents : manager.Represents shadow) (parent : UInt64) (tokens : List Token)
    (i : Nat) : shadow.key parent tokens (i * shadow.blockSize) =
      manager.keyFor parent (blockTokens manager.config.blockSizeTokens tokens i)
        manager.prefixConfig.modelNamespace manager.prefixConfig.cacheSalt := by
  obtain ⟨-, blockSize, -, model, salt, hash⟩ := represents.configured
  unfold ShadowCache.key keyFor blockTokens
  rw [blockSize, model, salt, hash]

theorem required_eq (represents : manager.Represents shadow) (tokens : Nat) :
    shadow.required tokens = manager.config.demand tokens := by
  unfold ShadowCache.required KVCacheConfig.demand
  rw [represents.configured.blockSize]
  by_cases none : tokens = 0
  · simp [none]
  · rw [if_neg none]
    split <;> simp_all

theorem lru_eq (represents : manager.Represents shadow) (sound : manager.Sound) :
    shadow.lru = manager.eligibleEvictionOrder := by
  rw [eligibleEvictionOrder_eq sound.blockIds]
  unfold ShadowCache.lru cachedIds
  simp only [represents.blocks, represents.configured.count, sound.valid.blocks.length]

theorem reserve_eq (represents : manager.Represents shadow) (sound : manager.Sound)
    (needed : Nat) (kept : List Nat) :
    shadow.reserve needed kept =
      if needed - manager.freeBlocks.size > (manager.evictableOutside kept).length then none
      else some ((manager.evictableOutside kept).take (needed - manager.freeBlocks.size),
        lowestAvailable manager.freeBlocks
          ((manager.evictableOutside kept).take (needed - manager.freeBlocks.size)) needed) := by
  unfold ShadowCache.reserve
  rw [represents.lru_eq sound, represents.free]
  rfl

/-- The shadow finds the blocks the manager finds. -/
theorem lookupFrom_eq (represents : manager.Represents shadow) {tokens : List Token}
    {ids : List Nat} {start remaining : Nat}
    (keys : ∀ i x, ids[i]? = some x →
      (manager.block x).prefixKey = some (manager.chainKey tokens (start + i)))
    (inside : ids.length ≤ remaining)
    (maximal : ids.length = remaining ∨ ¬ manager.Keyed (manager.chainKey tokens (start + ids.length))) :
    shadow.lookupFrom tokens remaining start (manager.parentHashIn
      manager.prefixConfig.modelNamespace manager.prefixConfig.cacheSalt tokens start) = ids := by
  induction remaining generalizing ids start with
  | zero => exact (List.length_eq_zero_iff.mp (Nat.le_zero.mp inside)).symm
  | succ remaining ih =>
      unfold ShadowCache.lookupFrom
      dsimp only
      rw [represents.key_eq]
      cases ids with
      | nil =>
          have unkeyed := maximal.resolve_left (Nat.succ_ne_zero remaining).symm
          rw [List.length_nil, Nat.add_zero] at unkeyed
          split
          · rfl
          · next x found => exact absurd ⟨x, (represents.canonical _ x).mp found⟩ unkeyed
      | cons x rest =>
          have found := (represents.canonical _ x).mpr (keys 0 x rfl)
          rw [Nat.add_zero] at found
          rw [List.length_cons] at inside maximal
          have tail := @ih rest (start + 1) (fun i y hit => by
            rw [Nat.add_assoc, Nat.add_comm 1 i]
            exact keys (i + 1) y hit) (Nat.le_of_succ_le_succ inside)
            (maximal.imp Nat.succ.inj fun unkeyed => by
              rwa [Nat.add_assoc, Nat.add_comm 1 rest.length])
          rw [parentHashIn_succ] at tail
          split
          · next missed => cases missed.symm.trans found
          · next y hit =>
              obtain rfl : y = x := Option.some.inj (hit.symm.trans found)
              exact congrArg (y :: ·) tail

theorem lookup_eq (represents : manager.Represents shadow) {tokens : List Token}
    {result : PrefixLookupResult} (enabled : manager.prefixConfig.enabled = true)
    (spec : manager.LookupSpec tokens manager.prefixConfig.modelNamespace
      manager.prefixConfig.cacheSalt result) :
    shadow.lookup tokens = result.physicalBlockIds := by
  unfold ShadowCache.lookup
  rw [represents.configured.enabledCache, represents.configured.blockSize, enabled,
    if_neg (by simp)]
  have from0 := @lookupFrom_eq manager shadow represents tokens result.physicalBlockIds 0
    (tokens.length / manager.config.blockSizeTokens)
    (fun i x hit => by rw [Nat.zero_add]; exact spec.keys i x hit) spec.inside
    (by rw [Nat.zero_add]; exact spec.maximal)
  exact from0

/-- The index lists the canonical blocks of each hash. -/
theorem index_eq (represents : manager.Represents shadow) (sound : manager.Sound) (hash : UInt64) :
    manager.prefixIndex.find? hash =
      if shadow.bucket hash = [] then none else some (shadow.bucket hash) := by
  have member : ∀ x, x ∈ shadow.bucket hash ↔
      ∃ key, (manager.block x).prefixKey = some key ∧ key.blockHash = hash := by
    intro x
    unfold ShadowCache.bucket
    rw [List.mem_filter, List.mem_range, represents.blocks, represents.configured.count]
    constructor
    · rintro ⟨-, listed⟩
      cases carries : (manager.block x).prefixKey with
      | none =>
          rw [carries] at listed
          cases listed
      | some key =>
          rw [carries, Option.any_some, decide_eq_true_eq] at listed
          exact ⟨key, rfl, listed.1⟩
    · rintro ⟨key, carries, same⟩
      refine ⟨?_, ?_⟩
      · rw [← sound.valid.blocks.length]
        exact (sound.keyed (by rw [carries]; simp)).1
      · rw [carries, Option.any_some, decide_eq_true_eq]
        exact ⟨same, (represents.canonical key x).mpr carries⟩
  have sorted : (shadow.bucket hash).Pairwise (· < ·) := List.pairwise_lt_range.filter _
  cases found : manager.prefixIndex.find? hash with
  | none =>
      rw [if_pos]
      rw [List.eq_nil_iff_forall_not_mem]
      intro x listed
      obtain ⟨key, carries, rfl⟩ := (member x).mp listed
      obtain ⟨ids, present, -⟩ := sound.valid.index.keyed x key carries
      rw [found] at present
      cases present
  | some ids =>
      obtain ⟨nonempty, nodup, members⟩ := sound.valid.index.bucket hash ids found
      have same : ids = shadow.bucket hash := by
        refine ((List.perm_ext_iff_of_nodup nodup (sorted.imp ne_of_lt)).mpr fun x => ?_).eq_of_pairwise
          (fun _ _ _ _ before after => absurd after before.asymm)
          (sound.ordered.buckets hash ids found) sorted
        rw [member]
        constructor
        · exact fun listed => (members x listed).2
        · rintro ⟨key, carries, rfl⟩
          obtain ⟨ids', present, listed⟩ := sound.valid.index.keyed x key carries
          rw [found, Option.some.injEq] at present
          rwa [present]
      rw [if_neg (by rwa [← same]), same]

/-! ## Eviction -/

/-- The shadow forgets exactly the keys of the victims. -/
theorem canonical_evicted (represents : manager.Represents shadow) {victims : List Nat}
    (keys : ∀ x, (next.block x).prefixKey =
      if x ∈ victims then none else (manager.block x).prefixKey) (key : TokenBlockKey) (x : Nat) :
    (if ∃ y ∈ victims, (manager.block y).prefixKey = some key then none
      else shadow.canonical key) = some x ↔ (next.block x).prefixKey = some key := by
  rw [keys]
  split
  · next evicted =>
      obtain ⟨y, victim, carries⟩ := evicted
      refine ⟨nofun, fun kept => ?_⟩
      split at kept
      · cases kept
      · next notVictim =>
          have first := (represents.canonical key x).mpr kept
          have second := (represents.canonical key y).mpr carries
          rw [first, Option.some.injEq] at second
          exact absurd (second ▸ victim) notVictim
  · next kept =>
      rw [represents.canonical]
      split
      · next victim => exact ⟨fun carries => absurd ⟨x, victim, carries⟩ kept, nofun⟩
      · rfl

theorem evictedTokens (sound : manager.Sound) {victims : List Nat}
    (cached : ∀ x ∈ victims, (manager.block x).state = .cached) :
    (victims.map fun x => (manager.block x).validTokenCount).sum =
      victims.length * manager.config.blockSizeTokens := by
  rw [List.map_congr_left fun x member => (sound.keyed (sound.cached (cached x member))).2.2.1,
    List.map_const', List.sum_replicate_nat]

/-- Clearing some blocks takes their tokens out of the represented ones. -/
theorem represented_clear (sound : manager.Sound) {cleared : List Nat} (distinct : cleared.Nodup)
    (inside : ∀ x ∈ cleared, x < manager.blocks.length) :
    manager.representedTokenCount =
      ((List.range manager.blocks.length).map fun x =>
        if x ∈ cleared then 0 else (manager.block x).validTokenCount).sum +
      (cleared.map fun x => (manager.block x).validTokenCount).sum := by
  rw [← sum_map_clear (fun x => (manager.block x).validTokenCount) List.nodup_range distinct
    fun x member => List.mem_range.mpr (inside x member), ← sound.valid.blocks.represented]
  conv_lhs => rw [blocks_eq_map_range, List.map_map]
  rfl

/-- An eviction is that of the reference. -/
theorem evict (represents : manager.Represents shadow) (sound : manager.Sound) {victims : List Nat}
    (cached : ∀ x ∈ victims, (manager.block x).state = .cached)
    (effect : manager.Evicted victims next) : next.Represents (shadow.evictIds victims) := by
  refine ⟨represents.configured.congr effect.setup rfl rfl rfl rfl rfl rfl, fun x => ?_, ?_,
    fun id => ?_, fun id => ?_, fun key x => ?_, ?_, ?_⟩
  · rw [effect.block, ← represents.blocks]
    rfl
  · refine OrdSet.ext fun x => ?_
    change x ∈ shadow.free.insertAll victims ↔ _
    rw [effect.free, OrdSet.mem_insertAll, represents.free]
  · rw [effect.tables]
    exact represents.tables id
  · rw [effect.provenance]
    exact represents.provenance id
  · rw [← @canonical_evicted manager next shadow represents victims (fun y => by
      rw [effect.block]
      split <;> rfl)]
    simp only [ShadowCache.evictIds, represents.blocks]
  · have before := effect.represented
    simp only [ShadowCache.evictIds, represents.blocks, represents.represented]
    rw [evictedTokens sound cached]
    omega
  · rw [effect.epoch]
    exact represents.epoch

/-! ## Allocation -/

theorem touch_epoch (represents : manager.Represents shadow) (matched : List Nat) :
    (shadow.touch matched).epoch = manager.hitEpoch matched := by
  unfold ShadowCache.touch hitEpoch
  split
  · exact represents.epoch
  · rw [← represents.epoch]

theorem touch_blocks (represents : manager.Represents shadow) (matched : List Nat) (x : Nat) :
    (shadow.touch matched).blocks x =
      if x ∈ matched then acquiredBlock (manager.hitEpoch matched) (manager.block x)
      else manager.block x := by
  rw [← represents.touch_epoch]
  unfold ShadowCache.touch
  split
  · next none => simp [none, represents.blocks]
  · dsimp only
    rw [represents.blocks]
    rfl

theorem touch_key (represents : manager.Represents shadow) (matched : List Nat) (x : Nat) :
    ((shadow.touch matched).blocks x).prefixKey = (manager.block x).prefixKey := by
  rw [represents.touch_blocks]
  split <;> rfl

/-- Everything but the blocks and the epoch survives the acquisition. -/
theorem touch_eq (matched : List Nat) : shadow.touch matched = { shadow with
    blocks := (shadow.touch matched).blocks, epoch := (shadow.touch matched).epoch } := by
  unfold ShadowCache.touch
  split <;> rfl

/-- The shadow after a served grant. -/
def granted (shadow : ShadowCache) (g : Grant) : ShadowCache :=
  let evicted := (shadow.touch g.matched).evictIds g.victims
  (evicted.write g.owner g.suffix (evicted.allocationEpoch g.fresh) g.label g.fresh).enter g.owner
    (g.matched ++ g.fresh) g.record g.suffix

/-- A served grant is that of the reference. -/
theorem allocate (represents : manager.Represents shadow) (sound : manager.Sound) {g : Grant}
    (serves : g.Serves manager) (effect : manager.Allocated g next) :
    next.Represents (granted shadow g) := by
  have cached : ∀ x ∈ g.victims, (manager.block x).state = .cached := fun x victim =>
    (serves.victim sound victim).1
  have epoch : (granted shadow g).epoch = next.accessEpoch := by
    rw [effect.epoch, ← represents.touch_epoch]
    simp only [granted, ShadowCache.enter, ShadowCache.write, ShadowCache.allocationEpoch,
      ShadowCache.evictIds]
    split <;> rfl
  have blocks : ∀ x, (granted shadow g).blocks x = next.block x := fun x => by
    have touched := represents.touch_blocks g.matched x
    change (if x ∈ g.fresh then _ else if x ∈ g.victims then _ else
      (shadow.touch g.matched).blocks x) = _
    by_cases fresh : x ∈ g.fresh
    · rw [if_pos fresh, ← Nat.zero_add (List.idxOf x g.fresh)]
      have blank : ((shadow.touch g.matched).evictIds g.victims).blocks x = { blockId := x } := by
        change (if x ∈ g.victims then _ else (shadow.touch g.matched).blocks x) = _
        by_cases victim : x ∈ g.victims
        · rw [if_pos victim]
        · rw [if_neg victim, touched, if_neg (serves.fresh_notMatched sound fresh)]
          exact (sound.free ((serves.fresh_available fresh).resolve_right victim)).2
      rw [blank, Nat.zero_add, effect.written _ x (List.getElem?_idxOf fresh), ← epoch]
      unfold allocatedPromptBlock
      rw [← represents.configured.blockSize, touch_eq]
      rfl
    · rw [if_neg fresh]
      by_cases victim : x ∈ g.victims
      · rw [if_pos victim, effect.freed x victim fresh]
      · rw [if_neg victim, touched]
        split
        · next matched => rw [effect.acquired x matched]
        · next notMatched => rw [effect.outside x notMatched victim fresh]
  have tokens := effect.represented
  have touched := @touch_eq shadow g.matched
  refine ⟨represents.configured.congr effect.setup ?_ ?_ ?_ ?_ ?_ ?_, blocks, ?_, fun id => ?_,
    fun id => ?_, fun key x => ?_, ?_, epoch⟩
  · exact congrArg (·.count) touched
  · exact congrArg (·.blockSize) touched
  · exact congrArg (·.enabledCache) touched
  · exact congrArg (·.model) touched
  · exact congrArg (·.salt) touched
  · exact congrArg (·.hash) touched
  · refine OrdSet.ext fun x => ?_
    change x ∈ g.fresh.foldl OrdSet.erase ((shadow.touch g.matched).free.insertAll g.victims) ↔ _
    rw [effect.free, OrdSet.mem_foldl_erase, OrdSet.mem_insertAll, touched, represents.free,
      or_comm]
  · change Function.update (shadow.touch g.matched).tables _ _ id = _
    rw [effect.tables, OrdMap.find?_insert, touched, Function.update_apply, represents.tables]
  · change Function.update (shadow.touch g.matched).provenance _ _ id = _
    rw [effect.provenance, OrdMap.find?_insert, touched, Function.update_apply,
      represents.provenance]
  · rw [← represents.canonical_evicted (effect.key serves sound)]
    change (if ∃ y ∈ g.victims, ((shadow.touch g.matched).blocks y).prefixKey = some key then none
      else (shadow.touch g.matched).canonical key) = some x ↔ _
    simp only [represents.touch_key]
    rw [touched]
  · change (shadow.touch g.matched).represented - (g.victims.map fun y =>
      ((shadow.touch g.matched).blocks y).validTokenCount).sum + g.suffix = _
    have same : ∀ y ∈ g.victims, ((shadow.touch g.matched).blocks y).validTokenCount =
        (manager.block y).validTokenCount := fun y _ => by
      rw [represents.touch_blocks]
      split <;> rfl
    rw [List.map_congr_left same, evictedTokens sound cached, touched]
    dsimp only
    rw [represents.represented]
    have enough := represented_clear sound (serves.victims_nodup sound) fun x victim =>
      (sound.keyed (sound.cached (cached x victim))).1
    rw [evictedTokens sound cached] at enough
    omega

/-! ## Decode growth -/

theorem needsBlock_iff (represents : manager.Represents shadow) :
    shadow.needsBlock table = true ↔ manager.NeedsBlock table := by
  unfold ShadowCache.needsBlock NeedsBlock
  cases table.getLast? with
  | none => simp
  | some last =>
      simp only [represents.blocks, represents.configured.blockSize, Bool.or_eq_true,
        decide_eq_true_eq, Option.isSome_iff_ne_none, Option.some.injEq, forall_eq', or_assoc,
        gt_iff_lt]

/-- A decode token in the last block is that of the reference. -/
theorem grow (represents : manager.Represents shadow) (sound : manager.Sound) {last : Nat}
    (stays : ¬ manager.NeedsBlock table) (effect : manager.Grown id table last next) :
    ∃ after, shadow.append id = some after ∧ next.Represents after := by
  have last_eq : table.getLastD 0 = last := by
    rw [List.getLastD_eq_getLast?, effect.isLast]
    rfl
  refine ⟨_, by
    unfold ShadowCache.append
    rw [represents.tables, effect.found]
    dsimp only
    rw [if_neg (mt represents.needsBlock_iff.mp stays), last_eq], ?_⟩
  refine ⟨represents.configured.congr effect.setup rfl rfl rfl rfl rfl rfl, fun x => ?_, ?_,
    fun other => ?_, fun other => ?_, fun key x => ?_, ?_, ?_⟩
  · dsimp only
    rw [effect.block sound, Function.update_apply, represents.blocks, represents.blocks,
      represents.epoch]
    rfl
  · rw [effect.result]
    exact represents.free
  · rw [effect.result]
    exact represents.tables other
  · rw [effect.result]
    exact represents.provenance other
  · rw [effect.key sound]
    exact represents.canonical key x
  · rw [effect.result]
    exact congrArg (· + 1) represents.represented
  · rw [effect.result]
    exact congrArg (· + 1) represents.epoch

/-- The reference reserves the block that a decode append takes. -/
theorem reserve_decode (represents : manager.Represents shadow) (sound : manager.Sound) {y : Nat}
    (some' : manager.freeBlocks.size ≠ 0 ∨ manager.eligibleEvictionOrder ≠ [])
    (first : (manager.freeBlocks.insertAll manager.decodeVictims).elems.head? = some y) :
    shadow.reserve 1 [] = some (manager.decodeVictims, [y]) := by
  have victims : manager.eligibleEvictionOrder.take (1 - manager.freeBlocks.size) =
      manager.decodeVictims := by
    unfold decodeVictims
    split
    · next none => rw [none]
    · next some => rw [show 1 - manager.freeBlocks.size = 0 by omega, List.take_zero]
  have enough : ¬ 1 - manager.freeBlocks.size > manager.eligibleEvictionOrder.length := by
    intro short
    have none : manager.eligibleEvictionOrder = [] := List.length_eq_zero_iff.mp (by omega)
    rw [none, List.length_nil] at short
    exact some'.elim (fun size => by omega) fun order => order none
  rw [represents.reserve_eq sound, evictableOutside_nil, if_neg enough, victims, lowestAvailable]
  obtain ⟨rest, elems⟩ := List.head?_eq_some_iff.mp first
  rw [elems]
  rfl

/-- A decode token in a new block is that of the reference. -/
theorem extend (represents : manager.Represents shadow) (sound : manager.Sound) {y : Nat}
    (needs : manager.NeedsBlock table)
    (reserved : shadow.reserve 1 [] = some (victims, [y])) (distinct : victims.Nodup)
    (effect : manager.Extended id table victims y next) :
    ∃ after, shadow.append id = some after ∧ next.Represents after := by
  refine ⟨_, by
    unfold ShadowCache.append
    rw [represents.tables, effect.found]
    dsimp only
    rw [if_pos (represents.needsBlock_iff.mpr needs), reserved], ?_⟩
  have blank : (shadow.evictIds victims).blocks y = { blockId := y } := by
    change (if y ∈ victims then _ else shadow.blocks y) = _
    by_cases victim : y ∈ victims
    · rw [if_pos victim]
    · rw [if_neg victim, represents.blocks]
      exact (sound.free (effect.available.resolve_right victim)).2
  refine ⟨represents.configured.congr effect.setup rfl rfl rfl rfl rfl rfl, fun x => ?_, ?_,
    fun other => ?_, fun other => ?_, fun key x => ?_, ?_, ?_⟩
  · dsimp only
    rw [Function.update_apply, blank]
    by_cases here : x = y
    · rw [if_pos here, here, effect.written]
      simp only [ShadowCache.evictIds, represents.epoch]
      rfl
    · rw [if_neg here]
      change (if x ∈ victims then _ else shadow.blocks x) = _
      rw [represents.blocks]
      split
      · next victim => rw [effect.freed x victim here]
      · next kept => rw [effect.outside x kept here]
  · refine OrdSet.ext fun x => ?_
    change x ∈ (shadow.free.insertAll victims).erase y ↔ _
    rw [effect.free, OrdSet.mem_erase, OrdSet.mem_insertAll, represents.free]
    tauto
  · change Function.update shadow.tables id _ other = _
    rw [effect.tables, OrdMap.find?_insert, Function.update_apply, represents.tables]
  · rw [effect.provenance]
    exact represents.provenance other
  · rw [← represents.canonical_evicted (effect.key sound)]
    simp only [ShadowCache.evictIds, represents.blocks]
  · have after := effect.represented
    have before := represented_clear sound distinct fun x victim =>
      (sound.keyed (sound.cached (effect.cached x victim))).1
    have tokens := evictedTokens sound effect.cached
    simp only [ShadowCache.evictIds, represents.blocks, represents.represented]
    omega
  · rw [effect.epoch]
    exact congrArg (· + 1) represents.epoch

/-! ## Release -/

/-- The two models drop a reference of a live block in the same way. -/
theorem drop_eq (sound : manager.Sound) (found : manager.blockTables.find? id = some table) {x : Nat}
    (member : x ∈ table) : ShadowCache.drop (manager.block x) = droppedBlock (manager.block x) ∧
      (ShadowCache.Frees (manager.block x) ↔ (droppedBlock (manager.block x)).state = .free) ∧
      (droppedBlock (manager.block x)).validTokenCount =
        if ShadowCache.Frees (manager.block x) then 0 else (manager.block x).validTokenCount := by
  have inside := (sound.live found member).1
  have claimed : 0 < occurrencesIn manager.blockTables x :=
    HoldsIn.occurrences_pos ⟨table, found, member⟩
  rcases sound.valid.blocks.claimed_shape (sound.valid.blocks.length ▸ inside) claimed with
    ⟨e, key, p, -, -, -, shape⟩ | ⟨-, e, count, holder, p, -, shape⟩
  · have shape' : manager.block x = _ := shape
    rw [shape']
    by_cases last : occurrencesIn manager.blockTables x - 1 = 0
    · simp [ShadowCache.drop, ShadowCache.Frees, droppedBlock, last]
    · simp [ShadowCache.drop, ShadowCache.Frees, droppedBlock, last]
  · have shape' : manager.block x = _ := shape
    rw [shape']
    simp [ShadowCache.drop, ShadowCache.Frees, droppedBlock]

/-- A release is that of the reference. -/
theorem release (represents : manager.Represents shadow) (sound : manager.Sound)
    (effect : manager.Released id table next) :
    ∃ after, shadow.release id = some after ∧ next.Represents after := by
  refine ⟨_, by
    unfold ShadowCache.release
    rw [represents.tables, effect.found], ?_⟩
  simp only [represents.blocks]
  have rest := effect.rest
  have drops := fun {x} member => @drop_eq manager id table sound effect.found x member
  have freed : ∀ {x}, x ∈ table.filter (fun x => ShadowCache.Frees (manager.block x)) ↔
      x ∈ table ∧ ShadowCache.Frees (manager.block x) := fun {x} => by
    rw [List.mem_filter, decide_eq_true_eq]
  refine ⟨represents.configured.congr effect.setup rfl rfl rfl rfl rfl rfl, fun x => ?_, ?_,
    fun other => ?_, fun other => ?_, fun key x => ?_, ?_, ?_⟩
  · dsimp only
    rw [effect.block]
    split
    · next member => exact (drops member).1
    · rfl
  · refine OrdSet.ext fun x => ?_
    dsimp only
    rw [OrdSet.mem_insertAll, effect.free, represents.free, freed, or_comm, effect.block]
    refine or_congr_right (and_congr_right fun member => ?_)
    rw [if_pos member]
    exact (drops member).2.1
  · dsimp only
    rw [Function.update_apply, represents.tables, rest]
    exact (OrdMap.find?_erase ..).symm
  · dsimp only
    rw [Function.update_apply, represents.provenance, rest]
    exact (OrdMap.find?_erase ..).symm
  · rw [effect.key]
    exact represents.canonical key x
  · dsimp only
    have before := @represented_clear manager sound (table.filter fun x =>
      ShadowCache.Frees (manager.block x)) ((sound.nodup effect.found).filter _) fun x member =>
        (sound.live effect.found (List.mem_of_mem_filter member)).1
    have after : next.representedTokenCount = ((List.range manager.blocks.length).map fun x =>
        if x ∈ table.filter (fun x => ShadowCache.Frees (manager.block x)) then 0
        else (manager.block x).validTokenCount).sum := by
      rw [← effect.valid.represented]
      conv_lhs => rw [blocks_eq_map_range, List.map_map, effect.length]
      refine congrArg List.sum (List.map_congr_left fun x _ => ?_)
      rw [Function.comp_apply, effect.block]
      by_cases member : x ∈ table
      · rw [if_pos member, (drops member).2.2]
        simp [member]
      · simp [member]
    rw [represents.represented, after]
    omega
  · rw [rest]
    exact represents.epoch

/-! ## Publication -/

/-- The publication of one block is that of the reference. -/
theorem publishPosition (represents : manager.Represents shadow) {key : TokenBlockKey} {x : Nat}
    (inside : x < manager.blocks.length) (unkeyed : (manager.block x).prefixKey = none)
    (absent : shadow.canonical key = none) :
    (manager.publishPosition key x).Represents (shadow.publishPosition key x) := by
  have block : ∀ y, (manager.publishPosition key x).block y = if y = x then
      { manager.block x with
        prefixKey := some key, owner := none, lastAccessEpoch := manager.accessEpoch + 1 }
      else manager.block y := fun y => block_modifyBlock inside _ y
  refine ⟨represents.configured.congr ⟨rfl, rfl, rfl⟩ rfl rfl rfl rfl rfl rfl, fun y => ?_,
    represents.free, represents.tables, represents.provenance, fun other y => ?_,
    represents.represented, congrArg (· + 1) represents.epoch⟩
  · change Function.update shadow.blocks x _ y = _
    rw [block, Function.update_apply, represents.blocks, represents.blocks, represents.epoch]
  · change Function.update shadow.canonical key (some x) other = some y ↔ _
    rw [block, Function.update_apply]
    by_cases here : y = x
    · subst here
      rw [if_pos rfl]
      split
      · next same => simp [same]
      · next different =>
          refine ⟨fun found => ?_, fun equal => absurd (Option.some.inj equal).symm different⟩
          rw [represents.canonical, unkeyed] at found
          cases found
    · rw [if_neg here]
      split
      · next same =>
          subst same
          refine ⟨fun equal => absurd (Option.some.inj equal).symm here, fun carries => ?_⟩
          rw [(represents.canonical _ y).mpr carries] at absent
          cases absent
      · exact represents.canonical other y

variable {tokens : List Token} {p : RequestKVPromptProvenance}

/-- The loop of a publication is that of the reference. -/
theorem publishFrom (sound : manager.Sound)
    (material : OfMaterial manager.hashFunction) (request : manager.Unpublished id tokens table p)
    (remaining : Nat) {i : Nat} (total : i + remaining = p.cacheEligibleFullPromptBlocks)
    {reached : ShadowCache} (state : (manager.publishedUpTo tokens table
      p.matchedSharedPrefixBlocks i).Represents reached) :
    (manager.publishedUpTo tokens table p.matchedSharedPrefixBlocks
      p.cacheEligibleFullPromptBlocks).Represents
      (ShadowCache.publishFrom tokens table p.computedFullBegin remaining i
        (manager.parentHashIn manager.prefixConfig.modelNamespace manager.prefixConfig.cacheSalt
          tokens i) reached) := by
  induction remaining generalizing i reached with
  | zero =>
      rw [Nat.add_zero] at total
      subst total
      exact state
  | succ remaining ih =>
      have full : i < p.cacheEligibleFullPromptBlocks := by omega
      have walk := request.walk sound full.le
      have same := request.same walk full
      have setup := walk.setup
      have twin := @Unpublished.canonicalExists_iff manager tokens table p material i _ walk
        (manager.chainKey tokens i)
      have next := @publishedUpTo_succ manager tokens table p.matchedSharedPrefixBlocks i
      have key : reached.key (manager.parentHashIn manager.prefixConfig.modelNamespace
          manager.prefixConfig.cacheSalt tokens i) tokens (i * reached.blockSize) =
          manager.chainKey tokens i := by
        rw [state.key_eq, setup.config, setup.prefixConfig]
        unfold chainKey chainKeyIn keyFor
        rw [setup.hashFunction]
      have absent : reached.canonical (manager.chainKey tokens i) = none ↔
          (manager.publishedUpTo tokens table p.matchedSharedPrefixBlocks i).canonicalExists
            (manager.chainKey tokens i) = false := by
        rw [← Bool.not_eq_true, twin, Option.eq_none_iff_forall_ne_some]
        exact ⟨fun none ⟨x, carries⟩ => none x ((state.canonical _ x).mpr carries),
          fun unkeyed x found => unkeyed ⟨x, (state.canonical _ x).mp found⟩⟩
      unfold ShadowCache.publishFrom
      dsimp only
      rw [key]
      refine ih (by omega) ?_
      rw [next, request.entry.record.begin_eq]
      by_cases publishes : p.matchedSharedPrefixBlocks ≤ i ∧
          reached.canonical (manager.chainKey tokens i) = none
      · obtain ⟨unkeyed, -⟩ := sound.computed request.found request.recorded request.exact
          request.notYet publishes.1 full (request.at_full full)
        rw [if_pos publishes, if_pos ⟨publishes.1, absent.mp publishes.2⟩]
        refine state.publishPosition ?_ (by rw [same, unkeyed]) publishes.2
        rw [walk.length]
        exact request.entry.inside _ (List.mem_of_getElem? (request.at_full full))
      · rw [if_neg publishes, if_neg fun fresh => publishes ⟨fresh.1, absent.mpr fresh.2⟩]
        exact state

/-- The record of a published request. -/
theorem markPublished (represents : manager.Represents shadow)
    (recorded : manager.requestProvenance.find? id = some p) :
    (manager.markPublished id).Represents { shadow with
      provenance := Function.update shadow.provenance id
        (some { p with publicationCompleted := true }) } := by
  refine ⟨represents.configured.congr ⟨rfl, rfl, rfl⟩ rfl rfl rfl rfl rfl rfl, represents.blocks,
    represents.free, represents.tables, fun other => ?_, represents.canonical,
    represents.represented, represents.epoch⟩
  change Function.update shadow.provenance id _ other =
    (manager.requestProvenance.modify id _).find? other
  rw [OrdMap.find?_modify, Function.update_apply, represents.provenance]
  split
  · next same =>
      rw [same, recorded]
      rfl
  · rfl

/-- A publication is that of the reference. -/
theorem publish (represents : manager.Represents shadow) (sound : manager.Sound)
    (material : OfMaterial manager.hashFunction) (plan : manager.PublishPlan id table p tokens)
    (effect : if p.publicationCompleted then next = manager
      else manager.Published id tokens table p next) :
    ∃ after, shadow.publish id = some after ∧ next.Represents after := by
  obtain ⟨p', recorded, entry⟩ := sound.valid.entries id table plan.table
  rw [plan.record, Option.some.injEq] at recorded
  subst recorded
  have eligible : p.publicationEligible = true := by
    have shape := entry.record
    have exact := plan.exact
    revert shape exact
    rw [plan.enabled]
    rintro (_ | _) exact
    · cases exact
    · rfl
  have allowed : ¬ (shadow.enabledCache = false ∨ p.publicationEligible = false ∨
      p.computedFullBegin = p.computedFullEnd) := by
    rw [represents.configured.enabledCache, plan.enabled, eligible]
    simp [plan.computed]
  unfold ShadowCache.publish
  rw [represents.tables, represents.provenance, plan.table, plan.record]
  dsimp only
  rw [plan.exact]
  dsimp only
  rw [if_neg allowed]
  split
  · next completed =>
      rw [if_pos completed] at effect
      exact ⟨shadow, rfl, effect ▸ represents⟩
  · next notYet =>
      rw [if_neg notYet] at effect
      rw [Bool.not_eq_true] at notYet
      have request : manager.Unpublished id tokens table p :=
        ⟨plan.table, plan.record, plan.exact, notYet, entry⟩
      refine ⟨_, rfl, ?_⟩
      rw [← plan.exact, effect.exact]
      have walk := request.walk sound le_rfl
      have published : (manager.publishedUpTo tokens table p.matchedSharedPrefixBlocks
          p.cacheEligibleFullPromptBlocks).Represents (ShadowCache.publishFrom tokens table
            p.computedFullBegin p.cacheEligibleFullPromptBlocks 0 prefixCacheRootHash shadow) :=
        publishFrom sound material request _ (Nat.zero_add _) represents
      refine published.markPublished (p := p) ?_
      rw [walk.rest]
      exact plan.record

/-! ## Any operation -/

theorem allocateCount (represents : manager.Represents shadow) (sound : manager.Sound)
    {count : Nat} {evictionIds allocationIds : List Nat}
    (plan : manager.PromptPlan id count evictionIds allocationIds)
    (served : manager.Served (countGrant id count evictionIds allocationIds) next) :
    ∃ after, shadow.allocateCount id count = some after ∧ next.Represents after := by
  refine ⟨granted shadow (countGrant id count evictionIds allocationIds), ?_,
    represents.allocate sound served.serves served.effect⟩
  unfold ShadowCache.allocateCount
  rw [represents.tables, plan.unknown, represents.required_eq, represents.reserve_eq sound,
    evictableOutside_nil, if_neg (not_lt.mpr plan.enough), ← plan.victims, ← plan.fresh]
  rfl

/-- A prompt with a prefix is that of the reference. -/
theorem acquire (represents : manager.Represents shadow) (sound : manager.Sound)
    {supplied actual : PrefixLookupResult} {evictionIds allocationIds : List Nat}
    (plan : manager.PrefixPlan id tokens supplied actual evictionIds allocationIds)
    (lookup : manager.LookupSpec tokens manager.prefixConfig.modelNamespace
      manager.prefixConfig.cacheSalt actual)
    (served : manager.Served (prefixGrant manager.config manager.prefixConfig.enabled id tokens
      actual evictionIds allocationIds) next) :
    ∃ after, shadow.acquire id tokens = some after ∧ next.Represents after := by
  refine ⟨granted shadow (prefixGrant manager.config manager.prefixConfig.enabled id tokens actual
    evictionIds allocationIds), ?_, represents.allocate sound served.serves served.effect⟩
  unfold ShadowCache.acquire
  rw [represents.tables, plan.unknown, represents.lookup_eq plan.enabled lookup]
  dsimp only
  rw [represents.required_eq, represents.configured.blockSize, ← lookup.matchedTokens,
    represents.reserve_eq sound, if_neg (not_lt.mpr plan.enough), ← plan.victims, ← plan.fresh]
  unfold granted prefixGrant exactProvenance
  rw [lookup.blocks, plan.enabled]
  rfl

end Represents

end KVCacheManager

end LlmLab.Serving
