import LlmLab.Serving.KVCache.History

/-!
# What a cached prefix is worth

Soundness: whatever the hash, a lookup returns blocks that were published with the keys the
looked-up prompt has; without collisions they were published for its very prefixes.
Completeness: without collisions a lookup finds exactly the longest run of prefixes that
publications added and evictions left.
-/

namespace LlmLab.Serving

open KVCacheManager

namespace KVCacheManager

variable {manager : KVCacheManager} {history : History} {tokens : List Token}
  {ns salt : Bytes} {result : PrefixLookupResult}

/-- The manager together with the history of its prefix cache. -/
def historyMachine : Machine (History × KVCacheManager) KVOp (Except Exn Unit) :=
  machine.observed History.observe

/-- The history and the manager after a list of operations, from construction. -/
def reachHistory (config : KVCacheConfig) (prefixConfig : PrefixCacheConfig)
    (hashFunction : PrefixHashFunction) (ops : List KVOp) : History × KVCacheManager :=
  historyMachine.run (History.start, create config prefixConfig hashFunction) ops

/-- An operation keeps the ghost in step with the manager. -/
theorem next_traced {state : History × KVCacheManager}
    (holds : state.2.Sound ∧ Traced state.1 state.2) (op : KVOp) :
    (historyMachine.next state op).2.Sound ∧
      Traced (historyMachine.next state op).1 (historyMachine.next state op).2 := by
  obtain ⟨history, manager⟩ := state
  obtain ⟨sound, traced⟩ := holds
  have outcome := apply_outcome sound op
  change (manager.apply op).2.Sound ∧
    Traced (history.observe manager op (manager.apply op).1) (manager.apply op).2
  unfold History.observe
  generalize manager.apply op = result at outcome ⊢
  cases outcome with
  | succeeded effect after => exact ⟨after, effect.traced sound after traced⟩
  | @failed error count =>
      have setup : manager.SameSetup { manager with allocationFailureCount := count } :=
        ⟨rfl, rfl, rfl⟩
      refine ⟨sound.failed count, traced.prompts, fun x => ?_, traced.origin, fun free => ?_⟩
      · simp only [setup.chainKey]
        exact traced.key x
      · exact traced.chains (setup.collisionFree.mp free)

theorem start_traced (config : KVCacheConfig) (prefixConfig : PrefixCacheConfig)
    (hashFunction : PrefixHashFunction) :
    Traced History.start (create config prefixConfig hashFunction) := by
  refine ⟨fun id p recorded => ?_, fun x => ?_, fun x origin found => ?_, fun _ chain => ?_⟩
  · cases recorded
  · rw [block_create]
    rfl
  · cases found
  · constructor
    · exact False.elim
    · rintro ⟨x, origin, found, -⟩
      cases found

theorem reachHistory_traced (config : KVCacheConfig) (prefixConfig : PrefixCacheConfig)
    (hashFunction : PrefixHashFunction) (ops : List KVOp) :
    (reachHistory config prefixConfig hashFunction ops).2.Sound ∧
      Traced (reachHistory config prefixConfig hashFunction ops).1
        (reachHistory config prefixConfig hashFunction ops).2 :=
  @Machine.run_invariant _ _ _ historyMachine (fun state => state.2.Sound ∧ Traced state.1 state.2)
    (fun _ op holds => next_traced holds op) _ ops
    ⟨create_sound, start_traced config prefixConfig hashFunction⟩

theorem reachHistory_snd (config : KVCacheConfig) (prefixConfig : PrefixCacheConfig)
    (hashFunction : PrefixHashFunction) (ops : List KVOp) :
    (reachHistory config prefixConfig hashFunction ops).2 =
      reach config prefixConfig hashFunction ops :=
  Machine.run_observed ..

theorem reachHistory_setup (config : KVCacheConfig) (prefixConfig : PrefixCacheConfig)
    (hashFunction : PrefixHashFunction) (ops : List KVOp) :
    (create config prefixConfig hashFunction).SameSetup
      (reachHistory config prefixConfig hashFunction ops).2 := by
  rw [reachHistory_snd]
  exact (reach_sound ops).2

/-! ## Soundness -/

/-- The blocks of a lookup result come from published prompts, with the looked-up keys. -/
structure PublishedHit (history : History) (manager : KVCacheManager) (tokens : List Token)
    (i x : Nat) (origin : Origin) : Prop where
  recorded : history.origin x = some origin
  published : origin.prompt ∈ history.published
  inside : origin.position < origin.prompt.length / manager.config.blockSizeTokens
  carries : (manager.block x).prefixKey = some (manager.chainKey origin.prompt origin.position)
  key : manager.chainKey origin.prompt origin.position = manager.chainKey tokens i

theorem LookupSpec.publishedHit (traced : Traced history manager)
    (spec : manager.LookupSpec tokens manager.prefixConfig.modelNamespace
      manager.prefixConfig.cacheSalt result) {i x : Nat}
    (hit : result.physicalBlockIds[i]? = some x) :
    ∃ origin, PublishedHit history manager tokens i x origin := by
  have carries := spec.keys i x hit
  rw [traced.key, Option.map_eq_some_iff] at carries
  obtain ⟨origin, found, same⟩ := carries
  obtain ⟨published, inside⟩ := traced.origin x origin found
  exact ⟨origin, found, published, inside, by rw [traced.key, found]; rfl, same⟩

/-- Without collisions, the prompt of a hit shares the whole prefix. -/
theorem PublishedHit.causal {i x : Nat} {origin : Origin}
    (hit : PublishedHit history manager tokens i x origin)
    (bound : i < tokens.length / manager.config.blockSizeTokens)
    (free : manager.CollisionFree (manager.inScope (insert tokens history.published))) :
    origin.position = i ∧ causalPrefix manager.config.blockSizeTokens origin.prompt i =
      causalPrefix manager.config.blockSizeTokens tokens i := by
  obtain ⟨position, -, -, same⟩ := free.chainKeyIn_injective
    (mem_inScope (Set.mem_insert_of_mem _ hit.published)) (mem_inScope (Set.mem_insert ..))
    hit.inside bound hit.key
  rw [position] at same
  exact ⟨position, same⟩

/-- Without collisions, a chain never returns to a block. -/
theorem LookupSpec.distinct {prompts : ScopedPrompts}
    (spec : manager.LookupSpec tokens ns salt result) (free : manager.CollisionFree prompts)
    (member : (ns, salt, tokens) ∈ prompts) : result.physicalBlockIds.Nodup := by
  rw [List.nodup_iff_injective_get]
  intro a b same
  have first := spec.keys a _ (List.getElem?_eq_getElem a.isLt)
  have second := spec.keys b _ (List.getElem?_eq_getElem b.isLt)
  rw [show result.physicalBlockIds[a.val] = result.physicalBlockIds[b.val] from same, second,
    Option.some.injEq] at first
  exact Fin.ext (free.chainKeyIn_injective member member (a.isLt.trans_le spec.inside)
    (b.isLt.trans_le spec.inside) first.symm).1

/-- The exact prompts that a list of operations offers. -/
def exactPrompts : List KVOp → List (List Token)
  | [] => []
  | .allocatePromptWithPrefix _ tokens _ _ :: rest => tokens :: exactPrompts rest
  | .allocatePromptWithPrefixExact _ tokens _ _ _ :: rest => tokens :: exactPrompts rest
  | _ :: rest => exactPrompts rest

/-- Under a constant hash, two published prompts chain into a third one. -/
theorem lookup_crosses_prompts :
    let ops : List KVOp := [.allocatePromptWithPrefix 1 [1, 2, 3, 4] {} OrdSet.empty,
      .insertCompletedPromptBlocks 1, .allocatePromptWithPrefix 2 [5, 6] {} OrdSet.empty,
      .insertCompletedPromptBlocks 2]
    let manager := reach ⟨4, 2, by decide, by decide, by decide⟩ { enabled := true } (fun _ => 7) ops
    (manager.findLongestCachedPrefix [5, 6, 3, 4, 3, 4]).map (·.physicalBlockIds) =
        .ok [2, 1, 1] ∧
      (∀ prompt ∈ exactPrompts ops,
        causalPrefix 2 prompt 1 ≠ causalPrefix 2 [5, 6, 3, 4, 3, 4] 1) ∧
      ¬ [2, 1, 1].Nodup := by
  decide +kernel

/-- The blocks of a lookup were published with the keys of the looked-up prompt; without a
collision, for exactly its prefixes, and no block twice. -/
theorem lookup_published (config : KVCacheConfig) (prefixConfig : PrefixCacheConfig)
    (hashFunction : PrefixHashFunction) (ops : List KVOp) (tokens : List Token)
    (result : PrefixLookupResult)
    (found : (reachHistory config prefixConfig hashFunction ops).2.findLongestCachedPrefix tokens =
      .ok result) :
    let (history, manager) := reachHistory config prefixConfig hashFunction ops
    (∀ i x, result.physicalBlockIds[i]? = some x →
      ∃ origin, PublishedHit history manager tokens i x origin) ∧
    (manager.CollisionFree (manager.inScope (insert tokens history.published)) →
      (∀ i x, result.physicalBlockIds[i]? = some x → ∃ origin, history.origin x = some origin ∧
        origin.prompt ∈ history.published ∧ origin.position = i ∧
        causalPrefix config.blockSizeTokens origin.prompt i =
          causalPrefix config.blockSizeTokens tokens i) ∧
      result.physicalBlockIds.Nodup) := by
  obtain ⟨sound, traced⟩ := reachHistory_traced config prefixConfig hashFunction ops
  have size := (reachHistory_setup config prefixConfig hashFunction ops).config
  generalize reachHistory config prefixConfig hashFunction ops = state at *
  obtain ⟨history, manager⟩ := state
  dsimp only at *
  rw [show config.blockSizeTokens = manager.config.blockSizeTokens by rw [size]; rfl]
  by_cases enabled : manager.prefixConfig.enabled = true
  · have spec := ((findLongestCachedPrefixIn_ensures sound.valid enabled).of_eq_ok found).1
    refine ⟨fun i x hit => spec.publishedHit traced hit, fun free => ⟨fun i x hit => ?_,
      spec.distinct free (mem_inScope (Set.mem_insert ..))⟩⟩
    obtain ⟨origin, published⟩ := spec.publishedHit traced hit
    have bound := (List.getElem?_eq_some_iff.mp hit).1.trans_le spec.inside
    obtain ⟨position, same⟩ := published.causal bound free
    exact ⟨origin, published.recorded, published.published, position, same⟩
  · have none := findLongestCachedPrefixIn_disabled sound.valid (by simpa using enabled) found
    simp [none]

/-- One published prompt is found again, from its first block on. -/
theorem lookup_published_again :
    ∃ origin, PublishedHit
      (reachHistory ⟨2, 2, by decide, by decide, by decide⟩ { enabled := true } (fun _ => 7)
        [.allocatePromptWithPrefix 1 [1, 2, 3] {} OrdSet.empty, .insertCompletedPromptBlocks 1]).1
      (reachHistory ⟨2, 2, by decide, by decide, by decide⟩ { enabled := true } (fun _ => 7)
        [.allocatePromptWithPrefix 1 [1, 2, 3] {} OrdSet.empty, .insertCompletedPromptBlocks 1]).2
      [1, 2, 9] 0 0 origin :=
  (lookup_published ⟨2, 2, by decide, by decide, by decide⟩ { enabled := true } (fun _ => 7)
    [.allocatePromptWithPrefix 1 [1, 2, 3] {} OrdSet.empty, .insertCompletedPromptBlocks 1]
    [1, 2, 9]
    { matchedBlockCount := 1, matchedTokenCount := 2, physicalBlockIds := [0], nextParentHash := 7,
      kind := .allEligibleBlocksHit, eligibleTokenCount := 2 }
    (by rw [reachHistory_snd]; decide +kernel)).1 0 0 rfl

/-! ## Completeness -/

/-- The longest run of prefixes of `tokens` that are available, block by block. -/
structure CompleteLookup (history : History) (manager : KVCacheManager) (tokens : List Token)
    (result : PrefixLookupResult) : Prop where
  inside : result.matchedBlockCount ≤ tokens.length / manager.config.blockSizeTokens
  available : ∀ i < result.matchedBlockCount,
    causalPrefix manager.config.blockSizeTokens tokens i ∈ history.chains
  maximal : result.matchedBlockCount = tokens.length / manager.config.blockSizeTokens ∨
    causalPrefix manager.config.blockSizeTokens tokens result.matchedBlockCount ∉ history.chains
  blocks : result.physicalBlockIds.length = result.matchedBlockCount
  carries : ∀ i x, result.physicalBlockIds[i]? = some x → ∃ origin,
    history.origin x = some origin ∧ origin.chain manager.config.blockSizeTokens =
      causalPrefix manager.config.blockSizeTokens tokens i
  distinct : result.physicalBlockIds.Nodup
  matchedTokens : result.matchedTokenCount =
    result.matchedBlockCount * manager.config.blockSizeTokens
  kind : result.kind = lookupKind result.matchedBlockCount
    (tokens.length / manager.config.blockSizeTokens)

/-- Without collisions every search is exact. -/
theorem Traced.finds (traced : Traced history manager) (valid : manager.Valid)
    {prompts : ScopedPrompts} (free : manager.CollisionFree prompts)
    (published : manager.inScope history.published ⊆ prompts) (member : (ns, salt, tokens) ∈ prompts)
    {i : Nat} (inside : i < tokens.length / manager.config.blockSizeTokens) :
    manager.Finds (fun _ => False) (manager.chainKeyIn ns salt tokens i) := by
  refine findKey_exact valid fun x stored carries hash => ?_
  rw [traced.key, Option.map_eq_some_iff] at carries
  obtain ⟨origin, found, rfl⟩ := carries
  obtain ⟨known, bound⟩ := traced.origin x origin found
  exact free.eq_of_blockHash (published (mem_inScope known)) member bound inside hash

/-- Without collisions a lookup finds exactly the available prefixes. -/
theorem Traced.complete (traced : Traced history manager)
    (free : manager.CollisionFree (manager.inScope (insert tokens history.published)))
    (spec : manager.LookupSpec tokens manager.prefixConfig.modelNamespace
      manager.prefixConfig.cacheSalt result)
    (kind : result.kind = lookupKind result.physicalBlockIds.length
      (tokens.length / manager.config.blockSizeTokens)) :
    CompleteLookup history manager tokens result := by
  have fewer : manager.CollisionFree (manager.inScope history.published) :=
    free.mono fun prompt member => ⟨member.1, member.2.1, Set.mem_insert_of_mem _ member.2.2⟩
  have chains := traced.chains fewer
  have carries : ∀ i x, result.physicalBlockIds[i]? = some x → ∃ origin,
      history.origin x = some origin ∧ origin.chain manager.config.blockSizeTokens =
        causalPrefix manager.config.blockSizeTokens tokens i := fun i x hit => by
    obtain ⟨origin, published⟩ := spec.publishedHit traced hit
    have bound := (List.getElem?_eq_some_iff.mp hit).1.trans_le spec.inside
    obtain ⟨position, same⟩ := published.causal bound free
    refine ⟨origin, published.recorded, ?_⟩
    unfold Origin.chain
    rw [position, same]
  refine ⟨spec.blocks ▸ spec.inside, fun i inside => ?_, ?_, spec.blocks.symm, carries,
    spec.distinct free (mem_inScope (Set.mem_insert ..)), ?_, ?_⟩
  · rw [spec.blocks] at inside
    obtain ⟨origin, found, same⟩ := carries i _ (List.getElem?_eq_getElem inside)
    exact (chains _).mpr ⟨_, origin, found, same.symm⟩
  · rw [spec.blocks]
    refine or_iff_not_imp_left.mpr fun short present => ?_
    have unkeyed := spec.maximal.resolve_left short
    have bound := lt_of_le_of_ne spec.inside short
    obtain ⟨x, origin, found, same⟩ := (chains _).mp present
    have position := position_eq_of_chain manager.config.blockSize_pos bound
      (traced.origin x origin found).2 same
    refine unkeyed ⟨x, ?_⟩
    rw [traced.key, found, position]
    unfold Origin.chain at same
    rw [position] at same
    exact congrArg some (chainKeyIn_congr same.symm)
  · rw [spec.blocks, spec.matchedTokens]
  · rw [spec.blocks, kind]

/-- No block is keyed outside the manager's own namespace and salt. -/
theorem LookupSpec.foreign (valid : manager.Valid)
    (spec : manager.LookupSpec tokens ns salt result)
    (apart : (ns, salt) ≠ (manager.prefixConfig.modelNamespace, manager.prefixConfig.cacheSalt)) :
    result.physicalBlockIds = [] := by
  cases hits : result.physicalBlockIds with
  | nil => rfl
  | cons x rest =>
      have carries := spec.keys 0 x (by rw [hits]; rfl)
      obtain ⟨-, namespaceEq, saltEq, -⟩ := valid.index.key x _ carries
      exact absurd (Prod.ext namespaceEq saltEq) apart

/-- In every reachable state of an enabled cache, without collisions, a lookup under the
manager's scope finds exactly the available prefixes and one under another scope nothing.
Prefixes stay available until a block is evicted, and publishing again makes them available. -/
theorem lookup_complete (config : KVCacheConfig) (prefixConfig : PrefixCacheConfig)
    (enabled : prefixConfig.enabled = true) (hashFunction : PrefixHashFunction) (ops : List KVOp)
    (tokens : List Token) (ns salt : Bytes)
    (free : (reachHistory config prefixConfig hashFunction ops).2.CollisionFree
      (insert (ns, salt, tokens) ((reachHistory config prefixConfig hashFunction ops).2.inScope
        (insert tokens (reachHistory config prefixConfig hashFunction ops).1.published)))) :
    let (history, manager) := reachHistory config prefixConfig hashFunction ops
    (∃ result, manager.findLongestCachedPrefix tokens = .ok result ∧
      CompleteLookup history manager tokens result) ∧
    ((ns, salt) ≠ (prefixConfig.modelNamespace, prefixConfig.cacheSalt) →
      ∃ result, manager.findLongestCachedPrefixIn tokens ns salt = .ok result ∧
        result.physicalBlockIds = [] ∧ result.kind = .miss) ∧
    (∀ op, (∀ x, ¬ History.Evicts manager (manager.apply op).2 x) →
      history.chains ⊆ (historyMachine.next (history, manager) op).1.chains) ∧
    ∀ id prompt, history.prompts id = some prompt →
      (manager.apply (.insertCompletedPromptBlocks id)).1 = .ok () →
      ∀ i < prompt.length / config.blockSizeTokens, causalPrefix config.blockSizeTokens prompt i ∈
        (historyMachine.next (history, manager) (.insertCompletedPromptBlocks id)).1.chains := by
  obtain ⟨sound, traced⟩ := reachHistory_traced config prefixConfig hashFunction ops
  have setup := reachHistory_setup config prefixConfig hashFunction ops
  generalize reachHistory config prefixConfig hashFunction ops = state at *
  obtain ⟨history, manager⟩ := state
  dsimp only at *
  have isEnabled : manager.prefixConfig.enabled = true := by rw [setup.prefixConfig]; exact enabled
  have published : manager.inScope history.published ⊆
      insert (ns, salt, tokens) (manager.inScope (insert tokens history.published)) :=
    fun prompt member =>
      Or.inr ⟨member.1, member.2.1, Set.mem_insert_of_mem _ member.2.2⟩
  refine ⟨?_, fun apart => ?_, fun op kept chain present => ?_, fun id prompt offered success i inside => ?_⟩
  · have own := findLongestCachedPrefixIn_of_finds sound.valid isEnabled fun i inside =>
      traced.finds sound.valid free published
        (Or.inr (mem_inScope (Set.mem_insert tokens history.published))) inside
    obtain ⟨result, found, spec, -, kind⟩ := own.exists_ok
    exact ⟨result, found, traced.complete (free.mono fun _ member => Or.inr member) spec kind⟩
  · have foreign := findLongestCachedPrefixIn_of_finds sound.valid isEnabled fun i inside =>
      traced.finds sound.valid free published (Set.mem_insert ..) inside
    obtain ⟨result, found, spec, -, kind⟩ := foreign.exists_ok
    have none := spec.foreign sound.valid (by rw [setup.prefixConfig]; exact apart)
    exact ⟨result, found, none, by rw [kind, none]; exact lookupKind_zero _⟩
  · change chain ∈ (history.observe manager op (manager.apply op).1).chains
    unfold History.observe
    split
    · exact history.chains_subset_record kept op.event present
    · exact present
  · change _ ∈ (history.observe manager _ (manager.apply _).1).chains
    rw [success]
    have size : manager.config.blockSizeTokens = config.blockSizeTokens := by
      rw [setup.config]
      rfl
    rw [← size] at inside ⊢
    exact history.chain_mem_publish offered inside

/-- A pool of two blocks, one published prompt, and a hash that tells namespaces apart. -/
def publishedOnce : History × KVCacheManager :=
  reachHistory (.small 2 2) { enabled := true }
    (fun key => key.parentHash + 1 + key.modelNamespace.length.toUInt64)
    [.allocatePromptWithPrefix 1 [1, 2, 3] {} OrdSet.empty, .insertCompletedPromptBlocks 1]

theorem publishedOnce_published : publishedOnce.1.published = {[1, 2, 3]} := by
  have first : ((create (.small 2 2) { enabled := true }
      (fun key => key.parentHash + 1 + key.modelNamespace.length.toUInt64)).apply
        (.allocatePromptWithPrefix 1 [1, 2, 3] {} OrdSet.empty)).1 = .ok () := by decide +kernel
  have second : (((create (.small 2 2) { enabled := true }
      (fun key => key.parentHash + 1 + key.modelNamespace.length.toUInt64)).apply
        (.allocatePromptWithPrefix 1 [1, 2, 3] {} OrdSet.empty)).2.apply
        (.insertCompletedPromptBlocks 1)).1 = .ok () := by decide +kernel
  simp only [publishedOnce, reachHistory, Machine.run_cons, Machine.run_nil, historyMachine,
    Machine.next, Machine.observed, Machine.output, machine, first, second]
  simp [History.observe, History.record, History.publish, History.enroll, History.evict,
    History.start, KVOp.event]

/-- The two namespaces of the sample never share a hash. -/
theorem publishedOnce_collisionFree : publishedOnce.2.CollisionFree
    (insert ([7], [], [1, 2, 9])
      (publishedOnce.2.inScope (insert [1, 2, 9] publishedOnce.1.published))) := by
  rw [publishedOnce_published]
  have setup : SameSetup _ publishedOnce.2 := reachHistory_setup ..
  rw [setup.collisionFree, inScope, setup.prefixConfig]
  -- Every prompt has one full block, `[1, 2]`, under one of two namespaces.
  have materials : ∀ material ∈ (create (.small 2 2) { enabled := true }
      (fun key => key.parentHash + 1 + key.modelNamespace.length.toUInt64)).materials
        (insert ([7], [], [1, 2, 9]) { prompt | prompt.1 = [] ∧ prompt.2.1 = [] ∧
          prompt.2.2 ∈ (insert [1, 2, 9] {[1, 2, 3]} : Set (List Token)) }),
      material = ⟨prefixCacheRootHash, [1, 2], [], [], 0⟩ ∨
        material = ⟨prefixCacheRootHash, [1, 2], [7], [], 0⟩ := by
    rintro material ⟨ns, salt, tokens, i, member, inside, rfl⟩
    rcases member with same | ⟨rfl, rfl, rfl | rfl⟩
    · cases same
      obtain rfl : i = 0 := Nat.lt_one_iff.mp inside
      exact Or.inr rfl
    · obtain rfl : i = 0 := Nat.lt_one_iff.mp inside
      exact Or.inl rfl
    · obtain rfl : i = 0 := Nat.lt_one_iff.mp inside
      exact Or.inl rfl
  refine ⟨fun a first b second equal => ?_, fun a member => ?_⟩
  · rcases materials a first with rfl | rfl <;> rcases materials b second with rfl | rfl
    · rfl
    · exact absurd equal (by decide)
    · exact absurd equal (by decide)
    · rfl
  · rcases materials a member with rfl | rfl
    · exact (by decide : prefixCacheRootHash + 1 + 0 ≠ prefixCacheRootHash)
    · exact (by decide : prefixCacheRootHash + 1 + 1 ≠ prefixCacheRootHash)

/-- The published prompt is found in block 0 under its own scope, and nothing under another. -/
theorem lookup_complete_once :
    (∃ result, publishedOnce.2.findLongestCachedPrefix [1, 2, 9] = .ok result ∧
      CompleteLookup publishedOnce.1 publishedOnce.2 [1, 2, 9] result ∧
      result.physicalBlockIds = [0] ∧ result.kind = .allEligibleBlocksHit) ∧
    ∃ result, publishedOnce.2.findLongestCachedPrefixIn [1, 2, 9] [7] [] = .ok result ∧
      result.physicalBlockIds = [] ∧ result.kind = .miss := by
  obtain ⟨⟨result, (found : publishedOnce.2.findLongestCachedPrefix [1, 2, 9] = .ok result),
      complete⟩, foreign, -⟩ :=
    lookup_complete (.small 2 2) { enabled := true } rfl
      (fun key => key.parentHash + 1 + key.modelNamespace.length.toUInt64)
      [.allocatePromptWithPrefix 1 [1, 2, 3] {} OrdSet.empty, .insertCompletedPromptBlocks 1]
      [1, 2, 9] [7] [] publishedOnce_collisionFree
  have shown : (publishedOnce.2.findLongestCachedPrefix [1, 2, 9]).toOption.map
      (fun hit => (hit.physicalBlockIds, hit.kind)) = some ([0], .allEligibleBlocksHit) := by
    rw [publishedOnce, reachHistory_snd]
    decide +kernel
  rw [found] at shown
  obtain ⟨blocks, kind⟩ := Prod.mk.inj (Option.some.inj shown)
  exact ⟨⟨result, found, complete, blocks, kind⟩, foreign (by decide)⟩

end KVCacheManager

end LlmLab.Serving
