import LlmLab.Serving.KVCache.Reuse

/-!
# What a lookup has found stays found

Whatever the hash, one key is carried by one block, and a block keeps its key until it is evicted.
So the lookup of a prompt begins with the blocks of any earlier lookup with which it shares a
prefix, as far as none of them has been evicted in between, and a live request finds the prefix it
matched or published.
-/

namespace LlmLab.Serving

open KVCacheManager

namespace KVCacheManager

variable {manager next : KVCacheManager} {event : KVEvent} {tokens tokens' : List Token}
  {ns salt : Bytes} {result result' : PrefixLookupResult} {key : TokenBlockKey} {x y : Nat}

/-! ## Keys -/

/-- A key is carried by one block. -/
theorem Valid.carrier_unique (valid : manager.Valid)
    (first : (manager.block x).prefixKey = some key)
    (second : (manager.block y).prefixKey = some key) : x = y :=
  valid.index.canonical x y key key first second rfl

/-- A block that is not evicted keeps its key. -/
theorem Effect.key_kept (effect : Effect manager next event) (sound : manager.Sound)
    (carries : (manager.block x).prefixKey = some key)
    (kept : ¬ History.Evicts manager next x) : (next.block x).prefixKey = some key := by
  by_cases publish : ∃ id, event = .publish id
  · obtain ⟨id, rfl⟩ := publish
    cases effect with
    | published _ _ published =>
        rcases published.block x with same | ⟨j, e, -, -, -, unkeyed, -⟩
        · rw [same]
          exact carries
        · rw [unkeyed] at carries
          cases carries
    | republished _ _ same =>
        rw [same]
        exact carries
  · obtain ⟨victims, cached, keys⟩ :=
      effect.evictions sound fun id same => publish ⟨id, same⟩
    have unharmed : x ∉ victims := fun victim =>
      kept ⟨cached x victim, (keys x).trans (if_pos victim)⟩
    rw [keys, if_neg unharmed]
    exact carries

theorem next_key_kept (sound : manager.Sound) {op : KVOp}
    (carries : (manager.block x).prefixKey = some key)
    (kept : ¬ History.Evicts manager (machine.next manager op) x) :
    ((machine.next manager op).block x).prefixKey = some key := by
  have outcome := apply_outcome sound op
  change ¬ History.Evicts manager (manager.apply op).2 x at kept
  change ((manager.apply op).2.block x).prefixKey = some key
  generalize manager.apply op = result at outcome kept ⊢
  cases outcome with
  | succeeded effect _ => exact effect.key_kept sound carries kept
  | failed => exact carries

/-- No step of the run evicts one of the blocks. -/
def Retains (kept : List Nat) (manager : KVCacheManager) (ops : List KVOp) : Prop :=
  machine.Along
    (fun before op => ∀ x ∈ kept, ¬ History.Evicts before (machine.next before op) x) manager ops

instance (kept : List Nat) (manager : KVCacheManager) (ops : List KVOp) :
    Decidable (manager.Retains kept ops) :=
  machine.decidableAlong _ manager ops

/-- Through such a run the blocks keep their keys. -/
theorem Retains.keys {kept : List Nat} {ops : List KVOp} (sound : manager.Sound)
    (retains : manager.Retains kept ops) :
    (machine.run manager ops).Sound ∧ manager.SameSetup (machine.run manager ops) ∧
      ∀ x ∈ kept, ∀ key, (manager.block x).prefixKey = some key →
        ((machine.run manager ops).block x).prefixKey = some key := by
  refine @Machine.Along.invariant _ _ _ machine _ (fun state => state.Sound ∧
    manager.SameSetup state ∧ ∀ x ∈ kept, ∀ key, (manager.block x).prefixKey = some key →
      (state.block x).prefixKey = some key) (fun state op holds spared => ?_) _ _
    ⟨sound, .refl _, fun _ _ _ => id⟩ retains
  obtain ⟨sound, setup, keys⟩ := holds
  exact ⟨next_sound sound op, setup.trans (next_setup sound op), fun x member key carries =>
    next_key_kept sound (keys x member key carries) (spared x member)⟩

/-! ## Lookups -/

/-- Prompts that share the tokens of `n` blocks share the first `n` keys. -/
theorem chainKeyIn_of_take {n i : Nat}
    (same : tokens.take (n * manager.config.blockSizeTokens) =
      tokens'.take (n * manager.config.blockSizeTokens)) (inside : i < n) :
    manager.chainKeyIn ns salt tokens i = manager.chainKeyIn ns salt tokens' i := by
  have room : (i + 1) * manager.config.blockSizeTokens ≤ n * manager.config.blockSizeTokens :=
    Nat.mul_le_mul_right _ inside
  refine chainKeyIn_congr ?_
  have taken := congrArg (List.take ((i + 1) * manager.config.blockSizeTokens)) same
  rw [List.take_take, List.take_take, Nat.min_eq_left room] at taken
  exact taken

/-- A lookup finds the blocks that carry the first keys of the prompt. -/
theorem LookupSpec.starts (spec : manager.LookupSpec tokens ns salt result)
    (valid : manager.Valid) {found : List Nat}
    (inside : found.length ≤ tokens.length / manager.config.blockSizeTokens)
    (keys : ∀ i x, found[i]? = some x →
      (manager.block x).prefixKey = some (manager.chainKeyIn ns salt tokens i)) :
    found <+: result.physicalBlockIds := by
  have long : found.length ≤ result.physicalBlockIds.length := by
    by_contra short
    rw [not_le] at short
    rcases spec.maximal with full | unkeyed
    · omega
    · exact unkeyed ⟨_, keys _ _ (List.getElem?_eq_getElem short)⟩
  rw [List.prefix_iff_getElem]
  refine ⟨long, fun i here => ?_⟩
  exact valid.carrier_unique (keys i _ (List.getElem?_eq_getElem here))
    (spec.keys i _ (List.getElem?_eq_getElem (here.trans_le long)))

/-- A lookup finds the blocks of an earlier one of an enabled cache that still carry their keys. -/
theorem LookupSpec.survives (earlier : manager.LookupSpec tokens ns salt result)
    (setup : manager.SameSetup next) (valid : next.Valid)
    (later : next.LookupSpec tokens' ns salt result') {n : Nat}
    (shared : tokens.take (n * manager.config.blockSizeTokens) =
      tokens'.take (n * manager.config.blockSizeTokens))
    (keys : ∀ x ∈ result.physicalBlockIds.take n, ∀ key, (manager.block x).prefixKey = some key →
      (next.block x).prefixKey = some key) :
    result.physicalBlockIds.take n <+: result'.physicalBlockIds := by
  refine later.starts valid ?_ fun i x at' => ?_
  · -- The found blocks are full blocks of the shared tokens.
    have inside := earlier.inside
    rw [setup.config, Nat.le_div_iff_mul_le manager.config.blockSize_pos, List.length_take]
    rw [Nat.le_div_iff_mul_le manager.config.blockSize_pos] at inside
    have lengths := congrArg List.length shared
    rw [List.length_take, List.length_take] at lengths
    have fewer := Nat.mul_le_mul_right manager.config.blockSizeTokens
      (Nat.min_le_left n result.physicalBlockIds.length)
    have found := Nat.mul_le_mul_right manager.config.blockSizeTokens
      (Nat.min_le_right n result.physicalBlockIds.length)
    omega
  · have member := List.mem_of_getElem? at'
    have bound : i < n := by
      have := (List.getElem?_eq_some_iff.mp at').1
      rw [List.length_take] at this
      omega
    rw [List.getElem?_take_of_lt bound] at at'
    rw [keys x member _ (earlier.keys i x at'), setup.chainKeyIn, chainKeyIn_of_take shared bound]

/-- In every reachable state and after any further run that evicts none of them, the blocks that a
lookup has found are where the lookup of every prompt with the same tokens begins. -/
theorem lookup_survives (config : KVCacheConfig) (prefixConfig : PrefixCacheConfig)
    (hashFunction : PrefixHashFunction) (ops later : List KVOp) (tokens tokens' : List Token)
    (ns salt : Bytes) (n : Nat) (result : PrefixLookupResult)
    (found : (reach config prefixConfig hashFunction ops).findLongestCachedPrefixIn tokens ns salt =
      .ok result)
    (shared : tokens.take (n * config.blockSizeTokens) = tokens'.take (n * config.blockSizeTokens))
    (retains : (reach config prefixConfig hashFunction ops).Retains
      (result.physicalBlockIds.take n) later) :
    Ensures Exn.IsOverflow
      (fun result' => result.physicalBlockIds.take n <+: result'.physicalBlockIds)
      ((reach config prefixConfig hashFunction (ops ++ later)).findLongestCachedPrefixIn
        tokens' ns salt) := by
  obtain ⟨sound, setup⟩ := @reach_sound config prefixConfig hashFunction ops
  have continued : reach config prefixConfig hashFunction (ops ++ later) =
      machine.run (reach config prefixConfig hashFunction ops) later := machine.run_append ..
  rw [continued]
  rw [show config = (create config prefixConfig hashFunction).config from rfl,
    ← setup.config] at shared
  generalize reach config prefixConfig hashFunction ops = manager at *
  obtain ⟨after, same, keys⟩ := retains.keys sound
  by_cases enabled : manager.prefixConfig.enabled = true
  · have earlier := ((findLongestCachedPrefixIn_ensures sound.valid enabled).of_eq_ok found).1
    refine (findLongestCachedPrefixIn_ensures after.valid
      (by rw [same.prefixConfig]; exact enabled)).mono fun result' spec => ?_
    exact earlier.survives same after.valid spec.1 shared keys
  · rw [Bool.not_eq_true] at enabled
    have none := findLongestCachedPrefixIn_disabled sound.valid enabled found
    rw [none, List.take_nil]
    unfold findLongestCachedPrefixIn
    rw [throwIf_of_not (by simp [validateInvariants_iff.mpr after.valid]), except_ok_bind,
      same.prefixConfig, enabled, if_pos rfl]
    exact List.nil_prefix

/-- Under a constant hash, the first block of a prompt outlives its request. -/
theorem lookup_survives_release :
    Ensures Exn.IsOverflow (fun result' => [0] <+: result'.physicalBlockIds)
      ((reach (.small 4 2) { enabled := true } (fun _ => 7)
        ([.allocatePromptWithPrefix 1 [1, 2, 3, 4] {} OrdSet.empty,
          .insertCompletedPromptBlocks 1] ++
          [.releaseRequest 1, .allocatePrompt 2 3])).findLongestCachedPrefixIn
            [1, 2, 9, 9] [] []) :=
  lookup_survives (.small 4 2) { enabled := true } (fun _ => 7)
    [.allocatePromptWithPrefix 1 [1, 2, 3, 4] {} OrdSet.empty, .insertCompletedPromptBlocks 1]
    [.releaseRequest 1, .allocatePrompt 2 3] [1, 2, 3, 4] [1, 2, 9, 9] [] [] 1
    { matchedBlockCount := 2, matchedTokenCount := 4, physicalBlockIds := [0, 1],
      nextParentHash := 7, kind := .allEligibleBlocksHit, eligibleTokenCount := 4,
      collisionVerificationCount := 1 }
    (by decide +kernel) rfl (by decide +kernel)

/-! ## Live requests -/

section

variable {id : RequestId} {table : List Nat} {p : RequestKVPromptProvenance} {more : List Token}

theorem carries_of_keyed (entry : EntryValid manager id table p)
    (exact : p.exactPromptTokens = some tokens) {i : Nat} (full : i < p.cacheEligibleFullPromptBlocks)
    (at' : table[i]? = some x) (keyed : (manager.block x).prefixKey ≠ none) :
    (manager.block x).prefixKey = some (manager.chainKey tokens i) := by
  rcases entry.chain tokens exact i x full at' with ⟨carries, -⟩ | ⟨unkeyed, -⟩
  · exact carries
  · exact absurd unkeyed keyed

theorem carries_of_matched (entry : EntryValid manager id table p)
    (exact : p.exactPromptTokens = some tokens) {i : Nat} (matched : i < p.matchedSharedPrefixBlocks)
    (at' : table[i]? = some x) :
    (manager.block x).prefixKey = some (manager.chainKey tokens i) := by
  rcases entry.chain tokens exact i x (matched.trans_le entry.record.matched_le) at' with
    ⟨carries, -⟩ | ⟨-, unmatched, -⟩
  · exact carries
  · omega

/-- The keys of a prompt's own full blocks, in any extension of it. -/
theorem chainKeyIn_append {i : Nat}
    (inside : i < tokens.length / manager.config.blockSizeTokens) :
    manager.chainKeyIn ns salt (tokens ++ more) i = manager.chainKeyIn ns salt tokens i := by
  refine chainKeyIn_of_take ?_ inside
  exact List.take_append_of_le_length (Nat.div_mul_le_self _ _)

theorem div_le_div_append (blockSize : Nat) :
    tokens.length / blockSize ≤ (tokens ++ more).length / blockSize := by
  rw [List.length_append]
  exact Nat.div_le_div_right (Nat.le_add_right _ _)

/-- A prompt whose full blocks are all keyed is found. -/
theorem LookupSpec.covers
    (spec : manager.LookupSpec (tokens ++ more) ns salt result)
    (keyed : ∀ i < tokens.length / manager.config.blockSizeTokens,
      manager.Keyed (manager.chainKeyIn ns salt tokens i)) :
    tokens.length / manager.config.blockSizeTokens ≤ result.physicalBlockIds.length := by
  by_contra short
  rw [not_le] at short
  rcases spec.maximal with full | unkeyed
  · have := @div_le_div_append tokens more manager.config.blockSizeTokens
    omega
  · refine unkeyed ?_
    rw [chainKeyIn_append short]
    exact keyed _ short

end

/-- In every reachable state of an enabled cache, the lookup of a live request's prompt, or of any
prompt that extends it, begins with the blocks the request has matched, and once the prompt is
published it finds every full block of it, the request's own where they are keyed. -/
theorem live_prompt_found (config : KVCacheConfig) (prefixConfig : PrefixCacheConfig)
    (enabled : prefixConfig.enabled = true) (hashFunction : PrefixHashFunction) (ops : List KVOp)
    (id : RequestId) (table : List Nat) (p : RequestKVPromptProvenance)
    (tokens more : List Token) (result : PrefixLookupResult)
    (held : (reach config prefixConfig hashFunction ops).blockTables.find? id = some table)
    (recorded : (reach config prefixConfig hashFunction ops).requestProvenance.find? id = some p)
    (exact : p.exactPromptTokens = some tokens)
    (found : (reach config prefixConfig hashFunction ops).findLongestCachedPrefix
      (tokens ++ more) = .ok result) :
    table.take p.matchedSharedPrefixBlocks <+: result.physicalBlockIds ∧
    (p.publicationCompleted = true →
      tokens.length / config.blockSizeTokens ≤ result.matchedBlockCount ∧
      ∀ i < tokens.length / config.blockSizeTokens, ∀ x, table[i]? = some x →
        ((reach config prefixConfig hashFunction ops).block x).prefixKey ≠ none →
          result.physicalBlockIds[i]? = some x) := by
  obtain ⟨sound, setup⟩ := @reach_sound config prefixConfig hashFunction ops
  rw [show config.blockSizeTokens =
    (reach config prefixConfig hashFunction ops).config.blockSizeTokens by rw [setup.config]; rfl]
  have isEnabled : (reach config prefixConfig hashFunction ops).prefixConfig.enabled = true := by
    rw [setup.prefixConfig]
    exact enabled
  generalize reach config prefixConfig hashFunction ops = manager at *
  have spec := ((findLongestCachedPrefixIn_ensures sound.valid isEnabled).of_eq_ok found).1
  obtain ⟨p', recorded', entry⟩ := sound.valid.entries id table held
  rw [recorded, Option.some.injEq] at recorded'
  subst recorded'
  have full := entry.record.full_eq exact
  have matched_le := entry.record.matched_le
  constructor
  · refine spec.starts sound.valid ?_ fun i x at' => ?_
    · rw [List.length_take]
      have := @div_le_div_append tokens more manager.config.blockSizeTokens
      omega
    · have bound : i < p.matchedSharedPrefixBlocks := by
        have := (List.getElem?_eq_some_iff.mp at').1
        rw [List.length_take] at this
        omega
      rw [List.getElem?_take_of_lt bound] at at'
      rw [carries_of_matched entry exact bound at', chainKeyIn_append (by omega)]
      rfl
  · intro completed
    have covers := spec.covers fun i inside =>
      sound.keyed_of_published recorded exact completed inside
    refine ⟨spec.blocks ▸ covers, fun i inside x at' keyed => ?_⟩
    have carries := carries_of_keyed entry exact (full ▸ inside) at' keyed
    have here := inside.trans_le covers
    rw [List.getElem?_eq_getElem here, Option.some.injEq]
    refine sound.valid.carrier_unique (spec.keys i _ (List.getElem?_eq_getElem here)) ?_
    rw [carries, chainKeyIn_append inside]
    rfl

/-- A second request matches the first one's two blocks and publishes a third. -/
theorem live_prompt_found_shared :
    [0, 1] <+: [0, 1, 2] ∧ ((exactProvenance (.small 4 2) true 2 [1, 2, 3, 4, 5, 6] 2
        true).publicationCompleted = true → 3 ≤ 3 ∧ ∀ i < 3, ∀ x, [0, 1, 2][i]? = some x →
      ((reach (.small 4 2) { enabled := true } (fun _ => 7)
        [.allocatePromptWithPrefix 1 [1, 2, 3, 4] {} OrdSet.empty, .insertCompletedPromptBlocks 1,
          .allocatePromptWithPrefix 2 [1, 2, 3, 4, 5, 6]
            { matchedBlockCount := 2, matchedTokenCount := 4, physicalBlockIds := [0, 1],
              nextParentHash := 7, kind := .partialHit, eligibleTokenCount := 6,
              collisionVerificationCount := 3 } OrdSet.empty,
          .insertCompletedPromptBlocks 2]).block x).prefixKey ≠ none → [0, 1, 2][i]? = some x) :=
  live_prompt_found (.small 4 2) { enabled := true } rfl (fun _ => 7)
    [.allocatePromptWithPrefix 1 [1, 2, 3, 4] {} OrdSet.empty, .insertCompletedPromptBlocks 1,
      .allocatePromptWithPrefix 2 [1, 2, 3, 4, 5, 6]
        { matchedBlockCount := 2, matchedTokenCount := 4, physicalBlockIds := [0, 1],
          nextParentHash := 7, kind := .partialHit, eligibleTokenCount := 6,
          collisionVerificationCount := 3 } OrdSet.empty,
      .insertCompletedPromptBlocks 2]
    2 [0, 1, 2] (exactProvenance (.small 4 2) true 2 [1, 2, 3, 4, 5, 6] 2 true)
    [1, 2, 3, 4, 5, 6] [7]
    { matchedBlockCount := 3, matchedTokenCount := 6, physicalBlockIds := [0, 1, 2],
      nextParentHash := 7, kind := .allEligibleBlocksHit, eligibleTokenCount := 6,
      collisionVerificationCount := 3 }
    (by decide +kernel) (by decide +kernel) rfl (by decide +kernel)

end KVCacheManager

end LlmLab.Serving
