import LlmLab.Lib.Machine
import LlmLab.Serving.KVCache.Effects

/-!
# Runs of the manager

The manager is a machine over its public operations.  It starts valid, and every operation,
successful or not, keeps the invariant, so every state a run reaches satisfies it.
-/

namespace LlmLab.Serving

open KVCacheManager

namespace KVCacheManager

variable {manager next : KVCacheManager} {event : KVEvent}
  {config : KVCacheConfig} {prefixConfig : PrefixCacheConfig} {hashFunction : PrefixHashFunction}

/-- The manager as a machine over its public operations. -/
def machine : Machine KVCacheManager KVOp (Except Exn Unit) := ⟨apply⟩

/-- The manager after a list of operations, from its construction. -/
def reach (config : KVCacheConfig) (prefixConfig : PrefixCacheConfig)
    (hashFunction : PrefixHashFunction) (ops : List KVOp) : KVCacheManager :=
  machine.run (create config prefixConfig hashFunction) ops

theorem block_create (x : Nat) :
    (create config prefixConfig hashFunction).block x = { blockId := x } := by
  unfold block create
  by_cases inside : x < config.totalNumBlocks <;> simp [inside]

/-- A new manager satisfies the invariant. -/
theorem create_sound : (create config prefixConfig hashFunction).Sound := by
  have blank := @block_create config prefixConfig hashFunction
  have unkeyed : ∀ x key,
      ((create config prefixConfig hashFunction).block x).prefixKey ≠ some key := fun x key => by
    rw [blank]
    exact nofun
  refine ⟨⟨Nat.zero_le _, fun id p recorded => ?_, fun id table found => ?_, ⟨?_, fun x inside => ?_,
    ?_⟩, fun hash ids found => ?_, fun x key carries => ?_, fun x key carries => ?_,
    fun a _ keyA _ carries => ?_⟩, fun x isFree => ?_, fun hash ids found => ?_, fun x shared => ?_⟩
  · cases recorded
  · cases found
  · simp [create]
  · have isFree : x ∈ (create config prefixConfig hashFunction).freeBlocks := by
      simpa [create] using inside
    have unclaimed :
        occurrencesIn (create config prefixConfig hashFunction).blockTables x = 0 := rfl
    have shape := blank x
    unfold block at shape
    rw [shape]
    exact .free isFree unclaimed
  · simp only [create, List.map_map]
    exact List.sum_eq_zero fun count member => by
      obtain ⟨x, -, rfl⟩ := List.mem_map.mp member
      rfl
  · cases found
  · exact absurd carries (unkeyed x key)
  · exact absurd carries (unkeyed x key)
  · exact absurd carries (unkeyed a keyA)
  · simpa [create] using isFree
  · cases found
  · rw [blank] at shared
    cases shared

/-- The failure count plays no part in the invariant. -/
theorem Sound.failed (sound : manager.Sound) (count : Nat) :
    ({ manager with allocationFailureCount := count } : KVCacheManager).Sound := by
  have setup : manager.SameSetup { manager with allocationFailureCount := count } :=
    ⟨rfl, rfl, rfl⟩
  refine ⟨⟨sound.valid.peak, sound.valid.tables, fun id table found => ?_, sound.valid.blocks,
    sound.valid.index⟩, sound.ordered.free, sound.ordered.buckets, sound.ordered.shared⟩
  obtain ⟨p, recorded, entry⟩ := sound.valid.entries id table found
  refine ⟨p, recorded, entry.record, entry.start, entry.nodup, entry.inside, entry.position,
    fun tokens exact position x full at' => ?_⟩
  rw [setup.chainKey]
  exact entry.chain tokens exact position x full at'

/-- No operation changes the configuration or the hash function. -/
theorem Effect.setup (effect : Effect manager next event) : manager.SameSetup next := by
  cases effect with
  | countPrompt _ served => exact served.effect.setup
  | exactPrompt _ _ served => exact served.effect.setup
  | published _ _ published => exact published.setup
  | republished _ _ same => exact same ▸ .refl manager
  | appended _ appended => exact appended.setup
  | released released => exact released.setup
  | evicted _ evicted => exact evicted.setup

/-- A property that no failure and no effect breaks holds after every operation. -/
theorem Outcome.preserves {property : KVCacheManager → Prop}
    {result : Except Exn Unit × KVCacheManager} (outcome : Outcome manager event result)
    (failed : ∀ count, property { manager with allocationFailureCount := count })
    (succeeded : ∀ next, Effect manager next event → next.Sound → property next) :
    property result.2 := by
  cases outcome with
  | succeeded effect after => exact succeeded _ effect after
  | failed => exact failed _

/-- A successful operation has the effect of its event. -/
theorem Effect.of_apply {op : KVOp} (sound : manager.Sound)
    (success : (manager.apply op).1 = .ok ()) :
    Effect manager (manager.apply op).2 op.event := by
  have outcome := apply_outcome sound op
  revert success
  generalize manager.apply op = result at outcome
  intro success
  cases outcome with
  | succeeded effect _ => exact effect
  | failed => cases success

theorem next_sound (sound : manager.Sound) (op : KVOp) : (machine.next manager op).Sound :=
  (apply_outcome sound op).preserves sound.failed fun _ _ after => after

theorem next_setup (sound : manager.Sound) (op : KVOp) :
    manager.SameSetup (machine.next manager op) :=
  (apply_outcome sound op).preserves
    (fun _ => ⟨rfl, rfl, rfl⟩) fun _ effect _ => effect.setup

/-- Every reachable manager satisfies the invariant. -/
theorem reach_sound (ops : List KVOp) :
    (reach config prefixConfig hashFunction ops).Sound ∧
      (create config prefixConfig hashFunction).SameSetup
        (reach config prefixConfig hashFunction ops) :=
  @Machine.run_invariant _ _ _ _ (fun manager => manager.Sound ∧
      (create config prefixConfig hashFunction).SameSetup manager)
    (fun _ op holds => ⟨next_sound holds.1 op, holds.2.trans (next_setup holds.1 op)⟩) _ ops
    ⟨create_sound, .refl _⟩

/-- `validate_invariants` decides the invariant, in every state, and from every ordered state that
it accepts the public operations only reach states that it accepts. -/
theorem validateInvariants_exact (manager : KVCacheManager) :
    (manager.validateInvariants = true ↔ manager.Valid) ∧
      (manager.Ordered → manager.validateInvariants = true → ∀ ops : List KVOp,
        (machine.run manager ops).validateInvariants = true) := by
  refine ⟨validateInvariants_iff, fun ordered accepted ops => validateInvariants_iff.mpr ?_⟩
  have sound : manager.Sound := ⟨validateInvariants_iff.mp accepted, ordered⟩
  exact (@Machine.run_invariant _ _ _ machine Sound (fun _ op holds => next_sound holds op) _ ops
    sound).valid

end KVCacheManager

end LlmLab.Serving
