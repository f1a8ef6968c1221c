import LlmLab.Serving.KVCache.ValidateExact

/-!
# Prefix lookup

`find_longest_cached_prefix` walks a prompt's key chain as long as some block carries the next
key.  `LookupSpec` is what its result means under any hash function: the ids it returns carry
the first keys of the chain, and no block carries the next one.
-/

namespace LlmLab.Serving

namespace KVCacheManager

variable {manager : KVCacheManager} {tokens : List Token} {ns salt : Bytes}

/-- The ids found so far carry the first keys of the chain. -/
structure Matches (manager : KVCacheManager) (tokens : List Token) (ns salt : Bytes)
    (result : PrefixLookupResult) : Prop where
  keys : ∀ i x, result.physicalBlockIds[i]? = some x →
    (manager.block x).prefixKey = some (manager.chainKeyIn ns salt tokens i)
  blocks : result.matchedBlockCount = result.physicalBlockIds.length
  matchedTokens : result.matchedTokenCount =
    result.physicalBlockIds.length * manager.config.blockSizeTokens
  parent : result.nextParentHash =
    manager.parentHashIn ns salt tokens result.physicalBlockIds.length

/-- The result of a finished lookup. -/
structure LookupSpec (manager : KVCacheManager) (tokens : List Token) (ns salt : Bytes)
    (result : PrefixLookupResult) : Prop extends manager.Matches tokens ns salt result where
  inside : result.physicalBlockIds.length ≤ tokens.length / manager.config.blockSizeTokens
  maximal : result.physicalBlockIds.length = tokens.length / manager.config.blockSizeTokens ∨
    ¬ manager.Keyed (manager.chainKeyIn ns salt tokens result.physicalBlockIds.length)

/-- A scan finds a block of the same material in its bucket, if there is one. -/
theorem scanBucket_ensures {key : TokenBlockKey} (bucket : List Nat) (collisions : Nat)
    (inside : ∀ x ∈ bucket, x < manager.blocks.length) :
    Ensures Exn.IsOverflow
      (fun scanned =>
        (∀ x, scanned.1 = some x → x ∈ bucket ∧ ∃ stored,
          (manager.block x).prefixKey = some stored ∧ stored.material = key.material) ∧
        (scanned.1 = none → ∀ x ∈ bucket, ∀ stored,
          (manager.block x).prefixKey = some stored → stored.material ≠ key.material))
      (manager.scanBucket key bucket collisions) := by
  induction bucket generalizing collisions with
  | nil =>
      refine ⟨fun x found => ?_, fun _ x member => ?_⟩
      · cases found
      · cases member
  | cons id rest ih =>
      have here := inside id List.mem_cons_self
      have block_eq : manager.block id = manager.blocks[id] := by
        unfold block
        rw [List.getD_eq_getElem?_getD, List.getElem?_eq_getElem here]
        rfl
      unfold scanBucket
      rw [List.getElem?_eq_getElem here]
      dsimp only
      rw [← block_eq]
      split
      · next found =>
          refine ⟨fun x same => ?_, fun none => by cases none⟩
          cases same
          refine ⟨List.mem_cons_self, ?_⟩
          cases carries : (manager.block id).prefixKey with
          | none => simp [carries] at found
          | some stored =>
              rw [carries, Option.any_some] at found
              exact ⟨stored, rfl, exactKeyMaterialEqual_iff.mp found⟩
      · next missed =>
          refine (inc_ensures _ _).bind fun count _ => ?_
          refine (ih count fun x member => inside x (List.mem_cons_of_mem _ member)).mono
            fun scanned spec => ⟨fun x found => ?_, fun none x member stored carries => ?_⟩
          · obtain ⟨member, rest⟩ := spec.1 x found
            exact ⟨List.mem_cons_of_mem _ member, rest⟩
          · rcases List.mem_cons.mp member with rfl | member
            · intro equal
              rw [carries] at missed
              exact missed (exactKeyMaterialEqual_iff.mpr equal)
            · exact spec.2 none x member stored carries

/-- The search for a key finds a block exactly when one carries it. -/
def Finds (manager : KVCacheManager) (allowed : Exn → Prop) (key : TokenBlockKey) : Prop :=
  ∀ collisions, Ensures allowed
    (fun scanned => (∀ x, scanned.1 = some x → (manager.block x).prefixKey = some key) ∧
      (scanned.1 = none → ¬ manager.Keyed key))
    (manager.findKey key collisions)

/-- A search in a valid manager finds a block of the same material, if there is one. -/
theorem findKey_ensures (valid : manager.Valid) (key : TokenBlockKey) :
    manager.Finds Exn.IsOverflow key := by
  intro collisions
  unfold findKey
  cases present : manager.prefixIndex.find? key.blockHash with
  | none =>
      refine ⟨fun x found => ?_, fun _ keyed => ?_⟩
      · cases found
      obtain ⟨x, carries⟩ := keyed
      obtain ⟨ids, listed, -⟩ := valid.index.keyed x key carries
      rw [present] at listed
      cases listed
  | some bucket =>
      obtain ⟨-, -, members⟩ := valid.index.bucket _ _ present
      refine (scanBucket_ensures bucket collisions fun x member => (members x member).1).mono
        fun scanned spec => ⟨fun x found => ?_, fun none keyed => ?_⟩
      · obtain ⟨member, stored, carries, material⟩ := spec.1 x found
        obtain ⟨-, other, carries', hash⟩ := members x member
        have same : (manager.block x).prefixKey = some other := carries'
        rw [carries, Option.some.injEq] at same
        subst same
        rw [carries, TokenBlockKey.eq_of_material material hash]
      · obtain ⟨x, carries⟩ := keyed
        obtain ⟨ids, listed, member⟩ := valid.index.keyed x key carries
        rw [present, Option.some.injEq] at listed
        subst listed
        exact spec.2 none x member key carries rfl

/-- Without a colliding key the search compares one block at most, so it counts nothing. -/
theorem findKey_exact (valid : manager.Valid) {key : TokenBlockKey}
    (sole : ∀ x stored, (manager.block x).prefixKey = some stored →
      stored.blockHash = key.blockHash → stored = key) :
    manager.Finds (fun _ => False) key := by
  intro collisions
  have found := findKey_ensures valid key collisions
  cases result : manager.findKey key collisions with
  | ok scanned => exact found.of_eq_ok result
  | error error =>
      unfold findKey at result
      cases present : manager.prefixIndex.find? key.blockHash with
      | none => simp [present] at result
      | some bucket =>
          obtain ⟨nonempty, -, members⟩ := valid.index.bucket _ _ present
          obtain ⟨x, rest, rfl⟩ := List.exists_cons_of_ne_nil nonempty
          obtain ⟨inside, stored, carries, hash⟩ := members x List.mem_cons_self
          have same := sole x stored carries hash
          subst same
          have carries' : manager.blocks[x].prefixKey = some stored := by
            rw [← carries, List.getD_eq_getElem?_getD, List.getElem?_eq_getElem inside]
            rfl
          rw [present] at result
          simp only [scanBucket, List.getElem?_eq_getElem inside, carries', Option.any_some,
            exactKeyMaterialEqual_iff.mpr rfl, if_true] at result
          cases result

/-- The loop of a lookup extends the matched blocks up to the first that is not found. -/
theorem lookupFrom_ensures {allowed : Exn → Prop}
    (finds : ∀ i < tokens.length / manager.config.blockSizeTokens,
      manager.Finds allowed (manager.chainKeyIn ns salt tokens i)) (remaining : Nat)
    (result : PrefixLookupResult) (found : manager.Matches tokens ns salt result)
    (total : result.physicalBlockIds.length + remaining =
      tokens.length / manager.config.blockSizeTokens) :
    Ensures allowed
      (fun final => manager.LookupSpec tokens ns salt final ∧
        final.eligibleTokenCount = result.eligibleTokenCount)
      (manager.lookupFrom tokens ns salt remaining result.physicalBlockIds.length result) := by
  induction remaining generalizing result with
  | zero => exact ⟨⟨found, by omega, Or.inl (by omega)⟩, rfl⟩
  | succ remaining ih =>
      unfold lookupFrom
      rw [makeKey_eq (by omega), except_ok_bind, found.parent]
      refine (finds _ (by omega) _).bind fun scanned spec => ?_
      obtain ⟨hit, collisions⟩ := scanned
      cases hit with
      | none =>
          exact ⟨⟨⟨found.keys, found.blocks, found.matchedTokens, rfl⟩,
            by dsimp only; omega, Or.inr (spec.2 rfl)⟩, rfl⟩
      | some id =>
          have carries := spec.1 id rfl
          have extended := ih
            { result with
              collisionVerificationCount := collisions
              physicalBlockIds := result.physicalBlockIds ++ [id]
              matchedBlockCount := result.matchedBlockCount + 1
              matchedTokenCount := result.matchedTokenCount + manager.config.blockSizeTokens
              nextParentHash := (manager.chainKeyIn ns salt tokens
                result.physicalBlockIds.length).blockHash }
            ⟨fun i x at' => ?_, by simp [found.blocks],
              by simp [found.matchedTokens, Nat.add_mul], by simp [parentHashIn_succ]⟩
            (by simp; omega)
          · rw [List.length_append, List.length_singleton] at extended
            exact extended
          · rcases Nat.lt_or_ge i result.physicalBlockIds.length with before | after
            · rw [List.getElem?_append_left before] at at'
              exact found.keys i x at'
            · rw [List.getElem?_append_right after] at at'
              obtain ⟨last, rfl⟩ : i - result.physicalBlockIds.length = 0 ∧ id = x := by
                simpa [List.getElem?_singleton] using at'
              rw [carries, show i = result.physicalBlockIds.length by omega]

/-- A lookup in an enabled cache fails only where the search for a key of the chain does. -/
theorem findLongestCachedPrefixIn_of_finds {allowed : Exn → Prop} (valid : manager.Valid)
    (enabled : manager.prefixConfig.enabled = true)
    (finds : ∀ i < tokens.length / manager.config.blockSizeTokens,
      manager.Finds allowed (manager.chainKeyIn ns salt tokens i)) :
    Ensures allowed
      (fun result => manager.LookupSpec tokens ns salt result ∧
        result.eligibleTokenCount =
          tokens.length / manager.config.blockSizeTokens * manager.config.blockSizeTokens ∧
        result.kind = lookupKind result.physicalBlockIds.length
          (tokens.length / manager.config.blockSizeTokens))
      (manager.findLongestCachedPrefixIn tokens ns salt) := by
  unfold findLongestCachedPrefixIn
  rw [throwIf_of_not (by simp [validateInvariants_iff.mpr valid]), except_ok_bind,
    if_neg (by simp [enabled])]
  have start : manager.Matches tokens ns salt
      { eligibleTokenCount :=
          tokens.length / manager.config.blockSizeTokens * manager.config.blockSizeTokens } :=
    ⟨fun i x found => by simp at found, rfl, by simp, rfl⟩
  refine (lookupFrom_ensures finds _ _ start (Nat.zero_add _)).bind fun result spec => ?_
  obtain ⟨found, eligible⟩ := spec
  exact ⟨⟨⟨found.keys, found.blocks, found.matchedTokens, found.parent⟩, found.inside,
    found.maximal⟩, eligible, by dsimp only; rw [found.blocks]⟩

/-- A lookup in an enabled cache succeeds unless a counter overflows. -/
theorem findLongestCachedPrefixIn_ensures (valid : manager.Valid)
    (enabled : manager.prefixConfig.enabled = true) :
    Ensures Exn.IsOverflow
      (fun result => manager.LookupSpec tokens ns salt result ∧
        result.eligibleTokenCount =
          tokens.length / manager.config.blockSizeTokens * manager.config.blockSizeTokens ∧
        result.kind = lookupKind result.physicalBlockIds.length
          (tokens.length / manager.config.blockSizeTokens))
      (manager.findLongestCachedPrefixIn tokens ns salt) :=
  findLongestCachedPrefixIn_of_finds valid enabled fun _ _ => findKey_ensures valid _

theorem lookupKind_zero (full : Nat) : lookupKind 0 full = .miss := by
  unfold lookupKind
  rw [if_neg (by omega), if_neg (by simp)]

/-- A disabled cache matches nothing. -/
theorem findLongestCachedPrefixIn_disabled (valid : manager.Valid)
    (disabled : manager.prefixConfig.enabled = false) {result : PrefixLookupResult}
    (found : manager.findLongestCachedPrefixIn tokens ns salt = .ok result) :
    result.physicalBlockIds = [] := by
  unfold findLongestCachedPrefixIn at found
  rw [throwIf_of_not (by simp [validateInvariants_iff.mpr valid]), except_ok_bind, disabled,
    if_pos rfl] at found
  cases found
  rfl

theorem LookupSpec.keyed {result : PrefixLookupResult}
    (spec : manager.LookupSpec tokens ns salt result) :
    ∀ x ∈ result.physicalBlockIds, (manager.block x).prefixKey ≠ none := by
  intro x member
  obtain ⟨i, found⟩ := List.mem_iff_getElem?.mp member
  rw [spec.keys i x found]
  simp

end KVCacheManager

end LlmLab.Serving
