import LlmLab.Lib.HashChain
import LlmLab.Serving.KVCache.Valid

/-!
# Prompt chains

A prompt's keys form a hash chain over its full blocks.  When the hash has no collision on the
key materials of a set of prompts, a key determines its position and the whole prefix up to it.
-/

namespace LlmLab.Serving

open KVCacheManager HashChain

/-- The tokens up to the end of the `i`-th full block. -/
def causalPrefix (blockSize : Nat) (tokens : List Token) (i : Nat) : List Token :=
  tokens.take ((i + 1) * blockSize)

theorem take_eq_flatten (blockSize : Nat) (tokens : List Token) (n : Nat) :
    tokens.take (n * blockSize) =
      ((List.range n).map (blockTokens blockSize tokens)).flatten := by
  induction n with
  | zero => simp
  | succ n ih =>
      rw [List.range_succ, List.map_append, List.flatten_append, ← ih, Nat.succ_mul,
        List.take_add]
      simp [blockTokens]

/-- The tokens of a block inside a causal prefix are those of the whole prompt. -/
theorem blockTokens_take {blockSize n i : Nat} (tokens : List Token) (inside : i < n) :
    blockTokens blockSize (tokens.take (n * blockSize)) i = blockTokens blockSize tokens i := by
  have room := Nat.mul_le_mul_right blockSize (Nat.succ_le_of_lt inside)
  rw [Nat.succ_mul] at room
  unfold blockTokens
  rw [List.drop_take, List.take_take, Nat.min_eq_left (by omega)]

theorem length_causalPrefix {blockSize i : Nat} {tokens : List Token}
    (inside : i < tokens.length / blockSize) :
    (causalPrefix blockSize tokens i).length = (i + 1) * blockSize := by
  have positive : 0 < blockSize := by
    by_contra zero
    rw [Nat.eq_zero_of_not_pos zero, Nat.div_zero] at inside
    cases inside
  rw [causalPrefix, List.length_take, Nat.min_eq_left]
  exact (Nat.le_div_iff_mul_le positive).mp inside

/-- Equal chains end at one position. -/
theorem position_eq_of_chain {blockSize : Nat} (positive : 0 < blockSize) {i j : Nat}
    {tokens tokens' : List Token} (inside : i < tokens.length / blockSize)
    (inside' : j < tokens'.length / blockSize)
    (same : causalPrefix blockSize tokens i = causalPrefix blockSize tokens' j) : i = j := by
  have lengths := congrArg List.length same
  rw [length_causalPrefix inside, length_causalPrefix inside'] at lengths
  exact Nat.succ.inj (Nat.eq_of_mul_eq_mul_right positive lengths)

/-- Prompts, each under a namespace and a salt. -/
abbrev ScopedPrompts := Set (Bytes × Bytes × List Token)

namespace KVCacheManager

variable {manager other : KVCacheManager} {ns salt ns' salt' : Bytes} {tokens tokens' : List Token}
  {prompts : ScopedPrompts} {i j : Nat}

/-- The key materials of a set of prompts. -/
def materials (manager : KVCacheManager) (prompts : ScopedPrompts) : Set TokenBlockKey :=
  { material | ∃ ns salt tokens i, (ns, salt, tokens) ∈ prompts ∧
    i < tokens.length / manager.config.blockSizeTokens ∧
    material = (manager.chainKeyIn ns salt tokens i).material }

/-- No two key materials of the prompts share a hash, and none hashes to the root. -/
structure CollisionFree (manager : KVCacheManager) (prompts : ScopedPrompts) : Prop where
  injective : ∀ a ∈ manager.materials prompts, ∀ b ∈ manager.materials prompts,
    manager.hashFunction a = manager.hashFunction b → a = b
  root : ∀ a ∈ manager.materials prompts, manager.hashFunction a ≠ prefixCacheRootHash

theorem CollisionFree.mono {fewer : ScopedPrompts} (free : manager.CollisionFree prompts)
    (subset : fewer ⊆ prompts) : manager.CollisionFree fewer := by
  have included : manager.materials fewer ⊆ manager.materials prompts := by
    rintro material ⟨ns, salt, tokens, i, member, rest⟩
    exact ⟨ns, salt, tokens, i, subset member, rest⟩
  exact ⟨fun a first b second => free.injective a (included first) b (included second),
    fun a member => free.root a (included member)⟩

theorem SameSetup.materials (same : manager.SameSetup other) :
    other.materials prompts = manager.materials prompts := by
  simp only [KVCacheManager.materials, same.chainKeyIn, same.config]

/-- Collisions depend on the setup of a manager alone. -/
theorem SameSetup.collisionFree (same : manager.SameSetup other) :
    other.CollisionFree prompts ↔ manager.CollisionFree prompts := by
  constructor
  · intro free
    refine ⟨fun a first b second equal => ?_, fun a member => ?_⟩
    · rw [← same.materials] at first second
      exact free.injective a first b second (by rw [same.hashFunction]; exact equal)
    · rw [← same.materials] at member
      rw [← same.hashFunction]
      exact free.root a member
  · intro free
    refine ⟨fun a first b second equal => ?_, fun a member => ?_⟩
    · rw [same.materials] at first second
      exact free.injective a first b second (by rw [← same.hashFunction]; exact equal)
    · rw [same.materials] at member
      rw [same.hashFunction]
      exact free.root a member

/-! ## Keys as a hash chain -/

/-- One link: the hash of a block under its parent. -/
def link (manager : KVCacheManager) (parent : UInt64) (block : Bytes × Bytes × List Token) :
    UInt64 :=
  (manager.keyFor parent block.2.2 block.1 block.2.1).blockHash

/-- The first `n` full blocks of a prompt, with its scope. -/
def chainBlocks (manager : KVCacheManager) (ns salt : Bytes) (tokens : List Token) (n : Nat) :
    List (Bytes × Bytes × List Token) :=
  (List.range n).map fun i => (ns, salt, blockTokens manager.config.blockSizeTokens tokens i)

theorem chainBlocks_succ (n : Nat) : manager.chainBlocks ns salt tokens (n + 1) =
    manager.chainBlocks ns salt tokens n ++
      [(ns, salt, blockTokens manager.config.blockSizeTokens tokens n)] := by
  simp [chainBlocks, List.range_succ]

theorem parentHashIn_eq_digest (n : Nat) : manager.parentHashIn ns salt tokens n =
    digest manager.link prefixCacheRootHash (manager.chainBlocks ns salt tokens n) := by
  induction n with
  | zero => rfl
  | succ n ih =>
      rw [chainBlocks_succ, digest_concat, ← ih]
      rfl

/-- The links of a set of prompts. -/
def links (manager : KVCacheManager) (prompts : ScopedPrompts) :
    Set (UInt64 × Bytes × Bytes × List Token) :=
  { step | ∃ ns salt tokens i, (ns, salt, tokens) ∈ prompts ∧
    i < tokens.length / manager.config.blockSizeTokens ∧
    step = (manager.parentHashIn ns salt tokens i, ns, salt,
      blockTokens manager.config.blockSizeTokens tokens i) }

theorem CollisionFree.chain (free : manager.CollisionFree prompts) :
    HashChain.CollisionFree manager.link prefixCacheRootHash (manager.links prompts) := by
  constructor
  · rintro - ⟨ns, salt, tokens, i, member, inside, rfl⟩ - ⟨ns', salt', tokens', j, member', inside',
      rfl⟩ equal
    have material := free.injective _ ⟨ns, salt, tokens, i, member, inside, rfl⟩ _
      ⟨ns', salt', tokens', j, member', inside', rfl⟩ equal
    simp only [TokenBlockKey.material, chainKeyIn, keyFor, TokenBlockKey.mk.injEq] at material
    simp only [Prod.mk.injEq]
    tauto
  · rintro - ⟨ns, salt, tokens, i, member, inside, rfl⟩
    exact free.root _ ⟨ns, salt, tokens, i, member, inside, rfl⟩

/-- The chain of a prompt runs over the links of the prompts. -/
theorem within_links (member : (ns, salt, tokens) ∈ prompts) {n : Nat}
    (le : n ≤ tokens.length / manager.config.blockSizeTokens) :
    Within manager.link prefixCacheRootHash (manager.links prompts)
      (manager.chainBlocks ns salt tokens n) := by
  intro front last rest split
  have length := congrArg List.length split
  simp only [chainBlocks, List.length_map, List.length_range, List.length_append,
    List.length_cons] at length
  have frontEq : front = manager.chainBlocks ns salt tokens front.length := by
    have taken := congrArg (List.take front.length) split
    rw [List.take_left, chainBlocks, ← List.map_take, List.take_range,
      Nat.min_eq_left (by omega)] at taken
    exact taken.symm
  have lastEq : last = (ns, salt,
      blockTokens manager.config.blockSizeTokens tokens front.length) := by
    have at' := congrArg (·[front.length]?) split
    simp only [chainBlocks, List.getElem?_map, List.getElem?_append_right (le_refl front.length),
      Nat.sub_self, List.getElem?_cons_zero] at at'
    rw [List.getElem?_range (by omega)] at at'
    exact (Option.some.inj at').symm
  refine ⟨ns, salt, tokens, front.length, member, by omega, ?_⟩
  rw [parentHashIn_eq_digest, ← frontEq, lastEq]

/-- Equal prefixes have equal keys. -/
theorem chainKeyIn_congr (same : causalPrefix manager.config.blockSizeTokens tokens i =
      causalPrefix manager.config.blockSizeTokens tokens' i) :
    manager.chainKeyIn ns salt tokens i = manager.chainKeyIn ns salt tokens' i := by
  have blocks : ∀ n ≤ i, blockTokens manager.config.blockSizeTokens tokens n =
      blockTokens manager.config.blockSizeTokens tokens' n := fun n le => by
    rw [← blockTokens_take tokens (Nat.lt_succ_of_le le), ← blockTokens_take tokens'
      (Nat.lt_succ_of_le le)]
    exact congrArg (blockTokens _ · n) same
  have chains : manager.chainBlocks ns salt tokens i = manager.chainBlocks ns salt tokens' i := by
    unfold chainBlocks
    refine List.map_congr_left fun n member => ?_
    rw [blocks n (List.mem_range.mp member).le]
  unfold chainKeyIn
  rw [parentHashIn_eq_digest, parentHashIn_eq_digest, chains, blocks i le_rfl]

/-- Keys of the prompts that share a hash are equal. -/
theorem CollisionFree.eq_of_blockHash (free : manager.CollisionFree prompts)
    (member : (ns, salt, tokens) ∈ prompts) (member' : (ns', salt', tokens') ∈ prompts)
    (inside : i < tokens.length / manager.config.blockSizeTokens)
    (inside' : j < tokens'.length / manager.config.blockSizeTokens)
    (same : (manager.chainKeyIn ns salt tokens i).blockHash =
      (manager.chainKeyIn ns' salt' tokens' j).blockHash) :
    manager.chainKeyIn ns salt tokens i = manager.chainKeyIn ns' salt' tokens' j :=
  TokenBlockKey.eq_of_material (free.injective _ ⟨ns, salt, tokens, i, member, inside, rfl⟩ _
    ⟨ns', salt', tokens', j, member', inside', rfl⟩ same) same

/-- A key determines its position, its scope and its causal prefix. -/
theorem CollisionFree.chainKeyIn_injective (free : manager.CollisionFree prompts)
    (member : (ns, salt, tokens) ∈ prompts) (member' : (ns', salt', tokens') ∈ prompts)
    (inside : i < tokens.length / manager.config.blockSizeTokens)
    (inside' : j < tokens'.length / manager.config.blockSizeTokens)
    (same : manager.chainKeyIn ns salt tokens i = manager.chainKeyIn ns' salt' tokens' j) :
    i = j ∧ ns = ns' ∧ salt = salt' ∧ causalPrefix manager.config.blockSizeTokens tokens i =
      causalPrefix manager.config.blockSizeTokens tokens' i := by
  have digests := congrArg TokenBlockKey.blockHash same
  rw [← parentHashIn_succ, ← parentHashIn_succ, parentHashIn_eq_digest,
    parentHashIn_eq_digest] at digests
  have blocks := free.chain.digest_injective (within_links member inside)
    (within_links member' inside') digests
  have length := congrArg List.length blocks
  simp only [chainBlocks, List.length_map, List.length_range] at length
  obtain rfl := Nat.succ.inj length
  have scope := congrArg (·[0]?) blocks
  simp only [chainBlocks, List.getElem?_map, List.getElem?_range (Nat.succ_pos i), Option.map_some,
    Option.some.injEq, Prod.mk.injEq] at scope
  refine ⟨rfl, scope.1, scope.2.1, ?_⟩
  have tokensEq := congrArg (List.map fun block => block.2.2) blocks
  simp only [chainBlocks, List.map_map, Function.comp_def] at tokensEq
  unfold causalPrefix
  rw [take_eq_flatten, take_eq_flatten]
  exact congrArg List.flatten tokensEq

end KVCacheManager

end LlmLab.Serving
