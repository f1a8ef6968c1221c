import LlmLab.Serving.KVCache.Bookkeeping
import LlmLab.Serving.KVCache.Client
import LlmLab.Serving.KVCache.Disabled

/-!
# The cache never costs capacity

A plain allocator serves every prompt by its length and shares nothing.  Sharing only ever lowers
the number of blocks in use and a cached block gives way to a demand, so whatever the plain
allocator serves, the enabled cache serves too.
-/

namespace LlmLab.Serving

open KVCacheManager

/-- What a plain allocator is asked instead of an operation; it has no cache to publish to. -/
def CacheOp.plain : CacheOp → Option AllocatorCall
  | .allocatePrompt id tokens => some (.allocatePrompt id tokens)
  | .allocatePromptWithPrefix id tokens => some (.allocatePrompt id tokens.length)
  | .appendDecodeToken id => some (.appendDecodeToken id)
  | .releaseRequest id => some (.releaseRequest id)
  | .insertCompletedPromptBlocks _ | .evictUnusedBlocks _ => none

namespace KVCacheManager

variable {manager next plain cached : KVCacheManager} {ledger : Ledger} {event : KVEvent}
  {id : RequestId} {op : CacheOp} {call : AllocatorCall}

/-! ## The live requests -/

/-- The tables of two managers with one ledger are equally long. -/
theorem Tallied.length_eq {other : KVCacheManager} (tallied : Tallied ledger manager)
    (tallied' : Tallied ledger other) (config : other.config = manager.config)
    {table : List Nat} (found : manager.blockTables.find? id = some table) :
    ∃ table', other.blockTables.find? id = some table' ∧ table'.length = table.length := by
  obtain ⟨usage, listed, fills⟩ := tallied.accounted id table found
  obtain ⟨table', found'⟩ := tallied'.listed id usage listed
  obtain ⟨usage', listed', fills'⟩ := tallied'.accounted id table' found'
  rw [listed, Option.some.injEq] at listed'
  subst listed'
  exact ⟨table', found', by rw [fills.length, fills'.length, config]⟩

/-- A table needs a block exactly when its tokens end on a block boundary. -/
theorem Fills.needsBlock_iff {table : List Nat} {count : Nat} (fills : manager.Fills table count)
    (sound : manager.Sound) :
    manager.NeedsBlock table ↔ count = table.length * manager.config.blockSizeTokens := by
  refine ⟨fills.needsBlock sound, fun full last isLast => Or.inr (Or.inr ?_)⟩
  rw [List.getLast?_eq_getElem?] at isLast
  have inside := (List.getElem?_eq_some_iff.mp isLast).1
  rw [fills.block _ last isLast, full, ← Nat.sub_mul, Nat.min_eq_left]
  exact Nat.le_mul_of_pos_left _ (by omega)

/-! ## Room -/

/-- Without keys every block in use has one holder, so the tables do not overlap. -/
theorem Sound.usedIds_eq (sound : manager.Sound)
    (unkeyed : ∀ x, (manager.block x).prefixKey = none) :
    manager.usedIds.length = manager.blockTables.total List.length := by
  have counted (xs : List Nat) (inside : ∀ x ∈ xs, x < manager.blocks.length) :
      (xs.filter fun x => (manager.block x).state = .inUse).length =
        (xs.map manager.occurrences).sum := by
    induction xs with
    | nil => rfl
    | cons x rest ih =>
        have tail := ih fun y member => inside y (List.mem_cons_of_mem x member)
        have single : manager.occurrences x =
            if (manager.block x).state = .inUse then 1 else 0 := by
          have shape := sound.shape (inside x List.mem_cons_self)
          have keyless := unkeyed x
          revert shape keyless
          generalize manager.block x = block
          intro shape keyless
          cases shape with
          | free _ unclaimed => exact unclaimed
          | owned _ once => exact once
          | cached | shared => cases keyless
        rw [List.map_cons, List.sum_cons, List.filter_cons, single, ← tail]
        by_cases used : (manager.block x).state = .inUse
        · simp [used, Nat.add_comm]
        · simp [used]
  rw [← sound.sum_occurrences]
  exact counted _ fun x member => List.mem_range.mp member

/-- A plain allocator and a cache that have served the same requests. -/
structure Dominates (ledger : Ledger) (plain cached : KVCacheManager) : Prop where
  plainSound : plain.Sound
  cachedSound : cached.Sound
  config : cached.config = plain.config
  unkeyed : ∀ x, (plain.block x).prefixKey = none
  plainTallied : Tallied ledger plain
  cachedTallied : Tallied ledger cached

namespace Dominates

theorem plainVictims (dominates : Dominates ledger plain cached) :
    plain.eligibleEvictionOrder = [] := by
  refine List.eq_nil_iff_forall_not_mem.mpr fun x member => ?_
  exact dominates.plainSound.cached
    ((mem_eligibleEvictionOrder dominates.plainSound.blockIds).mp member) (dominates.unkeyed x)

/-- Under domination the tables of both managers are equally long. -/
theorem lengths (dominates : Dominates ledger plain cached) (id : RequestId) :
    (cached.blockTables.find? id).map List.length =
      (plain.blockTables.find? id).map List.length := by
  cases found : plain.blockTables.find? id with
  | some table =>
      obtain ⟨table', found', same⟩ :=
        dominates.plainTallied.length_eq dominates.cachedTallied dominates.config found
      rw [found', Option.map_some, Option.map_some, same]
  | none =>
      cases found' : cached.blockTables.find? id with
      | none => rfl
      | some table' =>
          obtain ⟨table, present, -⟩ :=
            dominates.cachedTallied.length_eq dominates.plainTallied dominates.config.symm found'
          rw [found] at present
          cases present

theorem unknown (dominates : Dominates ledger plain cached)
    (absent : plain.blockTables.find? id = none) : cached.blockTables.find? id = none := by
  have same := dominates.lengths id
  rw [absent] at same
  exact Option.map_eq_none_iff.mp same

/-- The free and the cached blocks are no fewer than the free blocks of the plain allocator. -/
theorem room (dominates : Dominates ledger plain cached) :
    plain.freeBlocks.size ≤ cached.freeBlocks.size + cached.cachedBlockCount := by
  have parts := dominates.plainSound.partition
  have parts' := dominates.cachedSound.partition
  have used := dominates.plainSound.usedIds_eq dominates.unkeyed
  have used' := dominates.cachedSound.usedIds_le
  have none : plain.cachedBlockCount = 0 := by
    rw [← length_eligibleEvictionOrder dominates.plainSound.blockIds, dominates.plainVictims]
    rfl
  have entries : cached.blockTables.total List.length ≤ plain.blockTables.total List.length := by
    refine OrdMap.total_le_total fun id table found => ?_
    obtain ⟨table', found', same⟩ :=
      dominates.cachedTallied.length_eq dominates.plainTallied dominates.config.symm found
    exact ⟨table', found', same.ge⟩
  rw [dominates.plainSound.valid.blocks.length] at parts
  rw [dominates.cachedSound.valid.blocks.length, dominates.config] at parts'
  omega

/-- A hit lowers the demand by one block for each block it matches, cached or not. -/
theorem hit_fits {needed free hit : Nat} {cachedIds matched : List Nat} (nodup : cachedIds.Nodup)
    (count : matched.length + hit = needed) (enough : needed ≤ free + cachedIds.length) :
    hit ≤ free + (cachedIds.filter fun x => x ∉ matched).length := by
  have inner : (cachedIds.filter fun x => x ∈ matched).length ≤ matched.length :=
    ((nodup.filter _).subperm fun x member => of_decide_eq_true
      (List.mem_filter.mp member).2).length_le
  have split := List.length_eq_length_filter_add (l := cachedIds) fun x => decide (x ∈ matched)
  simp only [decide_not] at split ⊢
  omega

/-- What the plain allocator serves fits the cache. -/
theorem fits (dominates : Dominates ledger plain cached)
    (enabled : cached.prefixConfig.enabled = true) (quiet : op.Quiet cached)
    (translates : op.plain = some call) (served : (plain.apply call.op).1 = .ok ()) :
    op.Fits cached := by
  have effect := Effect.of_apply dominates.plainSound served
  have room := dominates.room
  have noVictims : plain.eligibleEvictionOrder.length = 0 := by rw [dominates.plainVictims]; rfl
  cases op with
  | allocatePrompt id tokens =>
      cases translates
      cases effect with
      | countPrompt plan =>
          have enough := plan.enough
          refine ⟨dominates.unknown plan.unknown, ?_⟩
          rw [dominates.config]
          omega
  | allocatePromptWithPrefix id tokens =>
      cases translates
      cases effect with
      | countPrompt plan =>
          have enough := plan.enough
          obtain ⟨actual, current, spec⟩ := quiet_lookup dominates.cachedSound enabled quiet
          refine ⟨dominates.unknown plan.unknown, ?_⟩
          rw [currentLookup_eq current, spec.matchedTokens]
          refine hit_fits (List.nodup_range.filter _) (KVCacheConfig.demand_sub spec.inside) ?_
          rw [← cachedBlockCount_eq, dominates.config]
          omega
  | appendDecodeToken id =>
      cases translates
      cases effect with
      | appended plan =>
          obtain ⟨usage, listed, fills⟩ := dominates.plainTallied.accounted id _ plan.found
          obtain ⟨table', found', same⟩ := dominates.plainTallied.length_eq
            dominates.cachedTallied dominates.config plan.found
          obtain ⟨usage', listed', fills'⟩ := dominates.cachedTallied.accounted id table' found'
          rw [listed, Option.some.injEq] at listed'
          subst listed'
          refine ⟨table', found', fun needs => ?_⟩
          rw [fills'.needsBlock_iff dominates.cachedSound, same, dominates.config,
            ← fills.needsBlock_iff dominates.plainSound] at needs
          have some' := (plan.fresh needs).1
          rw [dominates.plainVictims] at some'
          have := some'.resolve_right (not_not.mpr rfl)
          omega
  | releaseRequest id =>
      cases translates
      cases effect with
      | released released =>
          obtain ⟨table', found', -⟩ := dominates.plainTallied.length_eq
            dominates.cachedTallied dominates.config released.found
          exact ⟨table', found'⟩
  | insertCompletedPromptBlocks | evictUnusedBlocks => cases translates

/-- Serving a request keeps the two side by side. -/
theorem serve (dominates : Dominates ledger plain cached)
    (translates : op.plain = some call) (served : (plain.apply call.op).1 = .ok ())
    (succeeds : op.Succeeds cached) :
    Dominates (ledger.record op.event) (plain.apply call.op).2 (clientMachine.next cached op) := by
  have effect := Effect.of_apply dominates.plainSound served
  have effect' := Effect.of_apply dominates.cachedSound succeeds
  rw [CacheOp.call_event] at effect'
  have event : ledger.record call.op.event = ledger.record op.event := by
    cases op <;> cases translates <;> rfl
  have notPublish : ∀ id, call.op.event ≠ .publish id := by
    cases call <;> exact fun _ same => by cases same
  obtain ⟨victims, -, keys⟩ := effect.evictions dominates.plainSound notPublish
  exact {
    plainSound := next_sound dominates.plainSound call.op
    cachedSound := next_sound dominates.cachedSound (op.call cached)
    config := effect'.setup.config.trans (dominates.config.trans effect.setup.config.symm)
    unkeyed := fun x => by rw [keys, dominates.unkeyed]; exact ite_self _
    plainTallied := event ▸ dominates.plainTallied.effect dominates.plainSound effect
    cachedTallied := dominates.cachedTallied.effect dominates.cachedSound effect' }

/-- Publications and evictions, successful or not, are the cache's own business. -/
theorem keep (dominates : Dominates ledger plain cached) (own : op.plain = none) :
    Dominates ledger plain (clientMachine.next cached op) := by
  have outcome := apply_outcome dominates.cachedSound (op.call cached)
  rw [CacheOp.call_event] at outcome
  have same : ledger.record op.event = ledger := by cases op <;> cases own <;> rfl
  have tallied : Tallied ledger (clientMachine.next cached op) :=
    outcome.preserves (fun count => dominates.cachedTallied.failed count) fun next effect _ =>
      same ▸ dominates.cachedTallied.effect dominates.cachedSound effect
  exact { dominates with
    cachedSound := next_sound dominates.cachedSound (op.call cached)
    config := (next_setup dominates.cachedSound (op.call cached)).config.trans dominates.config
    cachedTallied := tallied }

end Dominates

/-! ## Runs -/

theorem create_dominates {plainConfig prefixConfig : PrefixCacheConfig}
    {plainHash hash : PrefixHashFunction} (config : KVCacheConfig) :
    Dominates (fun _ => none) (create config plainConfig plainHash)
      (create config prefixConfig hash) where
  plainSound := create_sound
  cachedSound := create_sound
  config := rfl
  unkeyed x := by rw [block_create]
  plainTallied := create_tallied ..
  cachedTallied := create_tallied ..

/-- The plain calls of a list of operations all succeed. -/
def PlainServes (plain : KVCacheManager) (ops : List CacheOp) : Prop :=
  ∀ outcome ∈ allocatorMachine.outputs plain (ops.filterMap CacheOp.plain), outcome = .ok ()

/-- Every request that the plain allocator is asked to serve succeeds. -/
def ServesRequests (cached : KVCacheManager) (ops : List CacheOp) : Prop :=
  clientMachine.Along (fun manager op => op.plain ≠ none → op.Succeeds manager) cached ops

/-- Along a run the cache dominates the plain allocator and serves what it serves. -/
theorem Dominates.run {config : KVCacheConfig} {prefixConfig : PrefixCacheConfig}
    {hash : PrefixHashFunction} (enabled : prefixConfig.enabled = true) (material : OfMaterial hash)
    {prompts : Set (List Token)} (free : (create config prefixConfig hash).CollisionFree
      ((create config prefixConfig hash).inScope prompts)) (ops : List CacheOp)
    (within : offered ops ⊆ prompts) (setup : (create config prefixConfig hash).SameSetup cached)
    (dominates : Dominates ledger plain cached)
    (along : clientMachine.Along (fun manager op => op.Quiet manager ∧ op.Spares manager)
      cached ops) (serves : plain.PlainServes ops) :
    cached.ServesRequests ops ∧ ∃ ledger, Dominates ledger
      (allocatorMachine.run plain (ops.filterMap CacheOp.plain)) (clientMachine.run cached ops) := by
  induction ops generalizing plain cached ledger with
  | nil => exact ⟨trivial, ledger, dominates⟩
  | cons op rest ih =>
      obtain ⟨⟨quiet, spares⟩, along⟩ := along
      have later : offered rest ⊆ prompts :=
        fun tokens ⟨id, member⟩ => within ⟨id, List.mem_cons_of_mem _ member⟩
      have setup' := setup.trans (next_setup dominates.cachedSound (op.call cached))
      unfold PlainServes at serves
      cases translates : op.plain with
      | none =>
          rw [List.filterMap_cons_none translates] at serves ⊢
          obtain ⟨rest, holds⟩ := ih later setup' (dominates.keep translates) along serves
          exact ⟨⟨fun asked => absurd rfl (translates ▸ asked), rest⟩, holds⟩
      | some call =>
          rw [List.filterMap_cons_some translates] at serves ⊢
          have served : (plain.apply call.op).1 = .ok () := serves _ List.mem_cons_self
          have isEnabled : cached.prefixConfig.enabled = true := by
            rw [setup.prefixConfig]
            exact enabled
          have fits := dominates.fits isEnabled quiet translates served
          have succeeds : op.Succeeds cached := by
            refine succeeds_of_fits dominates.cachedSound isEnabled
              (by rw [setup.hashFunction]; exact material) fits (spares fits) quiet
              fun id tokens same => ?_
            subst same
            have offers : tokens ∈ prompts := within ⟨id, List.mem_cons_self⟩
            exact (setup.collisionFree.mpr free).mono (setup.inScope_singleton offers)
          obtain ⟨rest, holds⟩ := ih later setup' (dominates.serve translates served succeeds) along
            fun outcome member => serves outcome (List.mem_cons_of_mem _ member)
          exact ⟨⟨fun _ => succeeds, rest⟩, holds⟩

/-- Whatever list of requests a plain allocator serves to the end, an enabled cache of the same size
serves too, as long as it evicts no pinned block: no allocation, append or release fails, the
requests hold equally many blocks, and the free and the cached blocks are no fewer than the free
blocks of the plain allocator. -/
theorem cache_dominates (config : KVCacheConfig) (plainConfig prefixConfig : PrefixCacheConfig)
    (plainHash hash : PrefixHashFunction) (enabled : prefixConfig.enabled = true)
    (material : OfMaterial hash) (ops : List CacheOp)
    (free : (create config prefixConfig hash).CollisionFree
      ((create config prefixConfig hash).inScope (offered ops)))
    (along : clientMachine.Along (fun manager op => op.Quiet manager ∧ op.Spares manager)
      (create config prefixConfig hash) ops)
    (serves : (create config plainConfig plainHash).PlainServes ops) :
    let plain := allocatorMachine.run (create config plainConfig plainHash)
      (ops.filterMap CacheOp.plain)
    let cached := clientMachine.run (create config prefixConfig hash) ops
    (create config prefixConfig hash).ServesRequests ops ∧
      (∀ id, (cached.blockTables.find? id).map List.length =
        (plain.blockTables.find? id).map List.length) ∧
      plain.freeBlocks.size ≤ cached.freeBlocks.size + cached.cachedBlockCount := by
  obtain ⟨requests, ledger, dominates⟩ := Dominates.run enabled material free ops subset_rfl
    (.refl _) (create_dominates config) along serves
  exact ⟨requests, dominates.lengths, dominates.room⟩

theorem CacheOp.spares_of_nil (none : op.victims manager = []) : op.Spares manager := by
  intro _ x member
  rw [none] at member
  cases member

/-- One operation of the example below. -/
theorem quiet_and_spares (succeeds : op.Succeeds manager) (none : op.victims manager = []) :
    op.Quiet manager ∧ op.Spares manager :=
  ⟨CacheOp.Succeeds.quiet succeeds, CacheOp.spares_of_nil none⟩

/-- The second of two equal prompts shares the block of the first one and then decodes. -/
theorem cache_dominates_shared : tinyManager.ServesRequests
    [.allocatePromptWithPrefix 1 [7], .insertCompletedPromptBlocks 1,
      .allocatePromptWithPrefix 2 [7], .appendDecodeToken 2] := by
  refine (cache_dominates (.small 3 1) { enabled := false } { enabled := true }
    stableTokenBlockHash stableTokenBlockHash rfl (fun _ => rfl)
    [.allocatePromptWithPrefix 1 [7], .insertCompletedPromptBlocks 1,
      .allocatePromptWithPrefix 2 [7], .appendDecodeToken 2]
    (tinyManager_collisionFree ?_) ⟨?_, ?_, ?_, ?_, trivial⟩
    (by unfold PlainServes; decide +kernel)).1
  · rintro tokens ⟨id, member⟩
    simp at member
    rcases member with ⟨-, same⟩ | ⟨-, same⟩ <;> exact same
  all_goals exact quiet_and_spares (by unfold CacheOp.Succeeds; decide +kernel) (by decide +kernel)

end KVCacheManager

end LlmLab.Serving
