import LlmLab.Serving.ContinuousBatching.Stall

/-!
# Residency

Exactly the decoding requests hold KV-cache blocks, as many as their prompt and their generated
tokens fill.  Where none is decoding the cache holds published prefix blocks and nothing else.
-/

namespace LlmLab.Serving

open KVCacheManager

namespace KVCacheConfig

variable {config : KVCacheConfig} {tokens : Nat}

/-- The block demand is the quotient rounded up. -/
theorem demand_eq_ceil : config.demand tokens =
    (tokens + config.blockSizeTokens - 1) / config.blockSizeTokens := by
  have size := config.blockSize_pos
  have split := Nat.div_add_mod tokens config.blockSizeTokens
  have small := Nat.mod_lt tokens size
  unfold demand
  split
  · next whole =>
      rw [whole, Nat.add_zero] at split
      rw [Nat.add_zero, Nat.add_sub_assoc size]
      conv_rhs => rw [← split]
      rw [Nat.mul_add_div size, Nat.div_eq_of_lt (Nat.sub_lt size Nat.one_pos), Nat.add_zero]
  · next part =>
      rw [Nat.add_sub_assoc size]
      conv_rhs => rw [← split]
      rw [Nat.add_assoc, Nat.mul_add_div size]
      congr 1
      refine (Nat.div_eq_of_lt_le ?_ ?_).symm
      · omega
      · omega

end KVCacheConfig

namespace KVCacheManager

variable {manager : KVCacheManager} {id : RequestId} {x : Nat}

/-- A block names no owner but a request whose table holds it. -/
theorem Sound.owner_holds (sound : manager.Sound) (owned : (manager.block x).owner = some id) :
    manager.Holds id x := by
  have inside : x < manager.config.totalNumBlocks := by
    by_contra outside
    rw [← sound.valid.blocks.length] at outside
    simp [block, outside] at owned
  have shape := sound.valid.blocks.block x inside
  change BlockValid _ _ _ _ _ _ (manager.block x) at shape
  generalize manager.block x = block at owned shape
  cases shape with
  | free | cached | shared => cases owned
  | owned _ _ holds =>
      cases owned
      exact holds

end KVCacheManager

namespace ContinuousBatchingEngine

variable {engine : ContinuousBatchingEngine} {id : RequestId} {request : Request}

/-- What the KV cache holds of the requests. -/
structure Resident (engine : ContinuousBatchingEngine) : Prop where
  holders : ∀ id, (∃ table, engine.kvCache.blockTables.find? id = some table) ↔
    ∃ request, engine.requests.find? id = some request ∧ request.state = .decoding
  tables : ∀ id request table, engine.requests.find? id = some request →
    engine.kvCache.blockTables.find? id = some table →
    table.length = (request.promptLength + request.generatedTokenCount +
        engine.config.kvCacheConfig.blockSizeTokens - 1) /
          engine.config.kvCacheConfig.blockSizeTokens ∧
      (table.map fun x => (engine.kvCache.block x).validTokenCount).sum =
        request.promptLength + request.generatedTokenCount
  released : ∀ id request, engine.requests.find? id = some request → request.state ≠ .decoding →
    ∀ x, ¬ engine.kvCache.Holds id x ∧ (engine.kvCache.block x).owner ≠ some id
  drained : (∀ id request, engine.requests.find? id = some request → request.state ≠ .decoding) →
    (∀ x < engine.config.kvCacheConfig.totalNumBlocks, (engine.kvCache.block x).state = .free ∨
        (engine.kvCache.block x).state = .cached) ∧
      engine.kvCache.representedTokenCount =
        engine.kvCache.cachedBlockCount * engine.config.kvCacheConfig.blockSizeTokens

/-- The ledger knows a request exactly while it is decoding. -/
theorem ledgerOf_eq_some {usage : Usage} : ledgerOf engine.requests id = some usage ↔
    ∃ request, engine.requests.find? id = some request ∧ request.state = .decoding ∧
      usage = ⟨request.promptLength, request.generatedTokenCount⟩ := by
  unfold ledgerOf Request.usage?
  rw [Option.bind_eq_some_iff]
  refine exists_congr fun request => and_congr_right fun _ => ?_
  by_cases decoding : request.state = .decoding
  · rw [if_pos decoding, Option.some.injEq, and_iff_right decoding]
    exact eq_comm
  · rw [if_neg decoding]
    exact ⟨nofun, fun holds => absurd holds.1 decoding⟩

/-- A coherent engine keeps KV blocks for exactly the requests in decoding. -/
theorem Coherent.resident (coherent : engine.Coherent) : engine.Resident := by
  have sound := coherent.sound
  have config : engine.kvCache.config = engine.config.kvCacheConfig := coherent.setup.config
  refine ⟨fun id => ⟨?_, ?_⟩, fun id request table found present => ?_,
    fun id request found idle x => ?_, fun none => ⟨fun x inside => ?_, ?_⟩⟩
  · rintro ⟨table, present⟩
    obtain ⟨usage, listed, -⟩ := coherent.tallied.accounted id table present
    obtain ⟨request, found, decoding, -⟩ := ledgerOf_eq_some.mp listed
    exact ⟨request, found, decoding⟩
  · rintro ⟨request, found, decoding⟩
    exact (coherent.table_iff found).mpr decoding
  · obtain ⟨usage, listed, fills⟩ := coherent.tallied.accounted id table present
    obtain ⟨other, same, -, rfl⟩ := ledgerOf_eq_some.mp listed
    cases found.symm.trans same
    refine ⟨?_, fills.tokens⟩
    rw [← config, ← KVCacheConfig.demand_eq_ceil]
    exact fills.length
  · have unheld : ¬ engine.kvCache.Holds id x := fun ⟨table, present, _⟩ =>
      idle ((coherent.table_iff found).mp ⟨table, present⟩)
    exact ⟨unheld, fun owned => unheld (sound.owner_holds owned)⟩
  · rcases sound.idle_block (coherent.idle none) (config.symm ▸ inside) with free | cached
    · exact Or.inl free.1
    · exact Or.inr cached.1
  · rw [← config]
    exact sound.idle_represented (coherent.idle none)

/-- KV residency follows the request lifecycle in every reachable state. -/
theorem reach_resident (backend : SimulatedBackend) (config : ContinuousBatchingConfig)
    (calls : List EngineCall) : (reach backend config calls).Resident :=
  (reach_coherent backend config calls).resident

end ContinuousBatchingEngine

end LlmLab.Serving
