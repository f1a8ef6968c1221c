import LlmLab.Lib.Twin
import LlmLab.Serving.KVCache.Operations

/-!
# Managers in which the prefix cache cannot act

As long as every prompt was allocated by its length alone, no block is indexed and no key is ever
computed.  Such a manager answers every count-only allocation, decode append and release alike
under every prefix configuration: the two runs stay one manager under two configurations.
-/

namespace LlmLab.Serving

namespace KVCacheManager

variable {manager other : KVCacheManager} {own varied : PrefixCacheConfig} {id : RequestId}
  {evictionIds : List Nat}

/-- The manager under another prefix configuration. -/
def withPrefixConfig (manager : KVCacheManager) (prefixConfig : PrefixCacheConfig) :
    KVCacheManager :=
  { manager with prefixConfig }

section WithPrefixConfig

variable (manager) (varied)

theorem withPrefixConfig_block (id : Nat) :
    (manager.withPrefixConfig varied).block id = manager.block id := rfl

theorem withPrefixConfig_index :
    (manager.withPrefixConfig varied).prefixIndex = manager.prefixIndex := rfl

theorem withPrefixConfig_tables :
    (manager.withPrefixConfig varied).blockTables = manager.blockTables := rfl

theorem withPrefixConfig_provenance :
    (manager.withPrefixConfig varied).requestProvenance = manager.requestProvenance := rfl

theorem withPrefixConfig_self (own : manager.prefixConfig = varied) :
    manager.withPrefixConfig varied = manager := by
  subst own
  rfl

end WithPrefixConfig

/-- No block is indexed and no prompt has exact tokens. -/
structure Inert (manager : KVCacheManager) : Prop where
  index : manager.prefixIndex = OrdMap.empty
  countOnly : ∀ id p, manager.requestProvenance.find? id = some p → p.exactPromptTokens = none

/-- An inert manager, and the same manager under another prefix configuration. -/
structure Recast (own varied : PrefixCacheConfig) (manager other : KVCacheManager) :
    Prop where
  inert : manager.Inert
  own : manager.prefixConfig = own
  eq : other = manager.withPrefixConfig varied

theorem create_recast (config : KVCacheConfig) (own varied : PrefixCacheConfig)
    (hashFunction : PrefixHashFunction) :
    Recast own varied (create config own hashFunction)
      (create config varied hashFunction) where
  inert := ⟨rfl, fun _ _ found => nomatch found⟩
  own := rfl
  eq := rfl

/-! ## The invariant check -/

namespace Inert

theorem validateProvenance_eq (manager : KVCacheManager) (prefixConfig : PrefixCacheConfig)
    (id : RequestId) (table : List Nat) {p : RequestKVPromptProvenance}
    (countOnly : p.exactPromptTokens = none) :
    (manager.withPrefixConfig prefixConfig).validateProvenance id table p =
      manager.validateProvenance id table p := by
  simp only [validateProvenance, countOnly, withPrefixConfig]

theorem validateEntry_eq (inert : manager.Inert) (prefixConfig : PrefixCacheConfig)
    (id : RequestId) (table : List Nat) :
    (manager.withPrefixConfig prefixConfig).validateEntry id table =
      manager.validateEntry id table := by
  unfold validateEntry
  rw [withPrefixConfig_provenance]
  cases found : manager.requestProvenance.find? id with
  | none => rfl
  | some p =>
      have countOnly := inert.countOnly id p found
      simp only [validateProvenance_eq manager prefixConfig id table countOnly, countOnly]
      rfl

/-- The check does not depend on the prefix configuration. -/
theorem validateInvariants_eq (inert : manager.Inert) (prefixConfig : PrefixCacheConfig) :
    (manager.withPrefixConfig prefixConfig).validateInvariants = manager.validateInvariants := by
  have entries : (fun entry : RequestId × List Nat =>
      (manager.withPrefixConfig prefixConfig).validateEntry entry.1 entry.2) =
      fun entry => manager.validateEntry entry.1 entry.2 :=
    funext fun entry => inert.validateEntry_eq prefixConfig entry.1 entry.2
  have buckets (check : UInt64 × List Nat → Bool) :
      manager.prefixIndex.entries.all check = true := by
    rw [inert.index]
    rfl
  unfold validateInvariants
  rw [entries]
  rw [withPrefixConfig_index, buckets, buckets]
  rfl

end Inert

namespace Recast

theorem validateInvariants_eq (recast : Recast own varied manager other) :
    other.validateInvariants = manager.validateInvariants := by
  rw [recast.eq, recast.inert.validateInvariants_eq]

theorem ensureValid (recast : Recast own varied manager other) (message : String) :
    Twin (Recast own varied) (manager.ensureValid message) (other.ensureValid message) :=
  Twin.throwIf_bind (by rw [recast.validateInvariants_eq]) fun _ => .ok recast

/-! ## Eviction -/

/-- No block can be evicted, so both sides fail alike. -/
theorem evictBlock (recast : Recast own varied manager other) (id : Nat) :
    Twin (Recast own varied) (manager.evictBlock id) (other.evictBlock id) := by
  obtain ⟨inert, same, rfl⟩ := recast
  unfold KVCacheManager.evictBlock
  refine Twin.bind_same fun count => ?_
  rw [withPrefixConfig_block, withPrefixConfig_index, inert.index]
  cases (manager.block id).prefixKey with
  | none => exact .error _
  | some key => exact .error _

theorem evictExactBlocksInPlace (recast : Recast own varied manager other) (ids : List Nat) :
    Twin (Recast own varied) (manager.evictExactBlocksInPlace ids)
      (other.evictExactBlocksInPlace ids) := by
  have order : other.eligibleEvictionOrder = manager.eligibleEvictionOrder := by
    rw [recast.eq]
    rfl
  unfold KVCacheManager.evictExactBlocksInPlace
  rw [order]
  exact Twin.throwIf_bind Iff.rfl fun _ => Twin.throwIf_bind Iff.rfl fun _ =>
    Twin.foldlM recast fun _ _ id _ recast => recast.evictBlock id

/-! ## The operations of the engine -/

theorem writeAllocated (recast : Recast own varied manager other) (id : RequestId)
    (tokens epoch : Nat) (provenance : Nat → KVBlockProvenance) (ids : List Nat) :
    Recast own varied (manager.writeAllocated id tokens epoch provenance ids)
      (other.writeAllocated id tokens epoch provenance ids) := by
  unfold KVCacheManager.writeAllocated
  induction ids.zipIdx generalizing manager other with
  | nil => exact recast
  | cons entry rest ih =>
      obtain ⟨inert, same, rfl⟩ := recast
      exact ih ⟨⟨inert.index, inert.countOnly⟩, same, rfl⟩

/-- A counted prompt does not read the prefix configuration. -/
theorem allocatePromptExactUnchecked (recast : Recast own varied manager other) (id : RequestId)
    (tokens : Nat) (evictionIds allocationIds : List Nat) :
    Twin (Recast own varied)
      (manager.allocatePromptExactUnchecked id tokens evictionIds allocationIds)
      (other.allocatePromptExactUnchecked id tokens evictionIds allocationIds) := by
  have evicted := recast.evictExactBlocksInPlace evictionIds
  obtain ⟨inert, same, rfl⟩ := recast
  unfold KVCacheManager.allocatePromptExactUnchecked
  refine Twin.throwIf_bind Iff.rfl fun _ => Twin.bind_same fun required => ?_
  refine Twin.throwIf_bind Iff.rfl fun _ => Twin.throwIf_bind Iff.rfl fun _ =>
    Twin.throwIf_bind Iff.rfl fun _ => evicted.bind fun next next' recast => ?_
  have written (epoch : Nat) := recast.writeAllocated id tokens epoch
    (fun _ => .privatePromptCountOnly) allocationIds
  obtain ⟨inert, same, rfl⟩ := recast
  refine Twin.bind_same fun represented => Twin.bind_same fun epoch => ?_
  obtain ⟨after, own, same⟩ := written epoch
  rw [same]
  refine .ok ⟨⟨after.index, fun other p found => ?_⟩, own, rfl⟩
  change (emplace next.requestProvenance id _).find? other = some p at found
  unfold emplace at found
  split at found
  · exact inert.countOnly other p found
  · rw [OrdMap.find?_insert] at found
    split at found
    · rw [← Option.some.inj found]
      rfl
    · exact inert.countOnly other p found

theorem allocatePromptExact (recast : Recast own varied manager other) (id : RequestId)
    (tokens : Nat) (evictionIds allocationIds : List Nat) :
    Twin (Recast own varied) (manager.allocatePromptExact id tokens evictionIds allocationIds)
      (other.allocatePromptExact id tokens evictionIds allocationIds) := by
  unfold KVCacheManager.allocatePromptExact
  refine Twin.throwIf_bind (by rw [recast.validateInvariants_eq]) fun _ =>
    (recast.allocatePromptExactUnchecked id tokens evictionIds allocationIds).bind
      fun _ _ recast => recast.ensureValid _

theorem decodeRequiresNewBlock_eq (recast : Recast own varied manager other) (id : RequestId) :
    other.decodeRequiresNewBlock id = manager.decodeRequiresNewBlock id := by
  have valid := recast.validateInvariants_eq
  obtain ⟨inert, same, rfl⟩ := recast
  unfold decodeRequiresNewBlock
  rw [valid]
  rfl

theorem writeDecoded (recast : Recast own varied manager other) (id : RequestId)
    (table : List Nat) (newBlock : Bool) (allocationId : Option Nat) (epoch : Nat) :
    Twin (Recast own varied) (manager.writeDecoded id table newBlock allocationId epoch)
      (other.writeDecoded id table newBlock allocationId epoch) := by
  obtain ⟨inert, same, rfl⟩ := recast
  unfold KVCacheManager.writeDecoded
  cases newBlock with
  | false => exact .ok ⟨⟨inert.index, inert.countOnly⟩, same, rfl⟩
  | true =>
      cases allocationId with
      | none => exact .error _
      | some blockId => exact .ok ⟨⟨inert.index, inert.countOnly⟩, same, rfl⟩

/-- A decode append does not read the prefix configuration. -/
theorem appendDecodeTokenExactUnchecked (recast : Recast own varied manager other) (id : RequestId)
    (evictionIds : List Nat) (allocationId : Option Nat) :
    Twin (Recast own varied) (manager.appendDecodeTokenExactUnchecked id evictionIds allocationId)
      (other.appendDecodeTokenExactUnchecked id evictionIds allocationId) := by
  have evicted := recast.evictExactBlocksInPlace evictionIds
  have needed := recast.decodeRequiresNewBlock_eq id
  obtain ⟨inert, same, rfl⟩ := recast
  unfold KVCacheManager.appendDecodeTokenExactUnchecked
  rw [needed, withPrefixConfig_tables]
  cases manager.blockTables.find? id with
  | none => exact .error _
  | some table =>
      refine Twin.throwIf_bind Iff.rfl fun _ => Twin.bind_same fun newBlock =>
        Twin.bind_same fun plan => Twin.throwIf_bind Iff.rfl fun _ =>
          evicted.bind fun next next' recast => ?_
      have written := recast.writeDecoded id table newBlock allocationId
      obtain ⟨inert, same, rfl⟩ := recast
      refine Twin.bind_same fun epoch => (written epoch).bind fun last last' recast => ?_
      obtain ⟨inert, same, rfl⟩ := recast
      exact .ok ⟨⟨inert.index, inert.countOnly⟩, same, rfl⟩

theorem appendDecodeTokenExact (recast : Recast own varied manager other) (id : RequestId)
    (evictionIds : List Nat) (allocationId : Option Nat) :
    Twin (Recast own varied) (manager.appendDecodeTokenExact id evictionIds allocationId)
      (other.appendDecodeTokenExact id evictionIds allocationId) := by
  unfold KVCacheManager.appendDecodeTokenExact
  refine Twin.throwIf_bind (by rw [recast.validateInvariants_eq]) fun _ =>
    (recast.appendDecodeTokenExactUnchecked id evictionIds allocationId).bind
      fun _ _ recast => recast.ensureValid _

theorem releaseBlock (recast : Recast own varied manager other) (id : Nat) :
    Twin (Recast own varied) (manager.releaseBlock id) (other.releaseBlock id) := by
  obtain ⟨inert, same, rfl⟩ := recast
  unfold KVCacheManager.releaseBlock
  refine Twin.throwIf_bind Iff.rfl fun _ => ?_
  rw [withPrefixConfig_block]
  split
  · exact .ok ⟨⟨inert.index, inert.countOnly⟩, same, rfl⟩
  · split
    · exact .ok ⟨⟨inert.index, inert.countOnly⟩, same, rfl⟩
    · exact Twin.throwIf_bind Iff.rfl fun _ =>
        .ok ⟨⟨inert.index, inert.countOnly⟩, same, rfl⟩

/-- A release does not read the prefix configuration. -/
theorem releaseRequestUnchecked (recast : Recast own varied manager other) (id : RequestId) :
    Twin (Recast own varied) (manager.releaseRequestUnchecked id)
      (other.releaseRequestUnchecked id) := by
  have tables : other.blockTables = manager.blockTables := by
    rw [recast.eq]
    rfl
  unfold KVCacheManager.releaseRequestUnchecked
  rw [tables]
  cases manager.blockTables.find? id with
  | none => exact .error _
  | some table =>
      have released : Twin (Recast own varied) (table.foldlM KVCacheManager.releaseBlock manager)
          (table.foldlM KVCacheManager.releaseBlock other) :=
        Twin.foldlM recast fun _ _ id _ recast => recast.releaseBlock id
      refine released.bind fun next next' recast => ?_
      obtain ⟨inert, same, rfl⟩ := recast
      refine .ok ⟨⟨inert.index, fun other p found => ?_⟩, same, rfl⟩
      change (next.requestProvenance.erase id).find? other = some p at found
      rw [OrdMap.find?_erase] at found
      split at found
      · exact nomatch found
      · exact inert.countOnly other p found

theorem releaseRequest (recast : Recast own varied manager other) (id : RequestId) :
    Twin (Recast own varied) (manager.releaseRequest id) (other.releaseRequest id) := by
  unfold KVCacheManager.releaseRequest
  refine Twin.throwIf_bind (by rw [recast.validateInvariants_eq]) fun _ =>
    (recast.releaseRequestUnchecked id).bind
      fun _ _ recast => recast.ensureValid _

end Recast

end KVCacheManager

end LlmLab.Serving
