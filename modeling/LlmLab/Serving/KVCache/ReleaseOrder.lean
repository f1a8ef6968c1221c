import LlmLab.Serving.KVCache.Runs

/-!
# Releases commute

`prepare_iteration` releases every request that finishes, one after the other, and each release
must pass the whole-state validator.  The order does not matter: whatever blocks the requests
share, all releases succeed and end in one and the same manager.
-/

namespace LlmLab.Serving

open KVCacheManager

namespace KVCacheManager

variable {manager next : KVCacheManager} {a b : RequestId} {tableA tableB : List Nat}

/-- The free blocks are the blank ones. -/
theorem Sound.mem_free_iff (sound : manager.Sound) {x : Nat} :
    x ∈ manager.freeBlocks ↔ x < manager.blocks.length ∧ (manager.block x).state = .free := by
  constructor
  · intro isFree
    obtain ⟨inside, blank⟩ := sound.free isFree
    exact ⟨inside, by rw [blank]⟩
  · rintro ⟨inside, state⟩
    have shape := sound.valid.blocks.block x (sound.valid.blocks.length ▸ inside)
    change BlockValid _ _ _ _ _ x (manager.block x) at shape
    revert state shape
    generalize manager.block x = block
    intro state shape
    cases shape with
    | free isFree => exact isFree
    | cached | shared | owned => cases state

/-- The parts of a manager that its blocks do not determine. -/
theorem Sound.eq_of_blocks {other : KVCacheManager} (sound : manager.Sound)
    (otherSound : other.Sound) (length : other.blocks.length = manager.blocks.length)
    (block : ∀ x, other.block x = manager.block x)
    (rest : other = { manager with
      blocks := other.blocks, freeBlocks := other.freeBlocks
      representedTokenCount := other.representedTokenCount }) : other = manager := by
  have blocks : other.blocks = manager.blocks := by
    rw [other.blocks_eq_map_range, manager.blocks_eq_map_range, length]
    exact List.map_congr_left fun x _ => block x
  have free : other.freeBlocks = manager.freeBlocks := by
    refine OrdSet.ext fun x => ?_
    rw [otherSound.mem_free_iff, sound.mem_free_iff, length, block]
  have represented : other.representedTokenCount = manager.representedTokenCount := by
    rw [← otherSound.valid.blocks.represented, ← sound.valid.blocks.represented, blocks]
  rw [rest, blocks, free, represented]

/-- The release of a live request succeeds. -/
theorem releaseRequest_ok (sound : manager.Sound)
    (found : manager.blockTables.find? a = some tableA) :
    ∃ next, manager.releaseRequest a = .ok next ∧ manager.Released a tableA next ∧ next.Sound := by
  obtain ⟨state, result, loop⟩ := (releaseLoop_ensures sound found).exists_ok
  have effect : manager.Released a tableA { state with
      blockTables := state.blockTables.erase a
      requestProvenance := state.requestProvenance.erase a } :=
    ⟨found, by rw [loop.others], loop.length, loop.block, loop.free, loop.valid.leave⟩
  have after := effect.sound sound
  refine ⟨_, ?_, effect, after⟩
  have unchecked : manager.releaseRequestUnchecked a = .ok { state with
      blockTables := state.blockTables.erase a
      requestProvenance := state.requestProvenance.erase a } := by
    unfold releaseRequestUnchecked
    rw [found]
    dsimp only
    rw [result]
    rfl
  unfold releaseRequest
  rw [throwIf_of_not (by simp [validateInvariants_iff.mpr sound.valid]), except_ok_bind, unchecked,
    except_ok_bind, ensureValid, throwIf_of_not (by simp [validateInvariants_iff.mpr after.valid])]
  rfl

/-- A release leaves the other tables. -/
theorem Released.found_other (effect : manager.Released a tableA next) (apart : b ≠ a)
    (found : manager.blockTables.find? b = some tableB) : next.blockTables.find? b = some tableB := by
  rw [effect.rest]
  change (manager.blockTables.erase a).find? b = _
  rw [OrdMap.find?_erase, if_neg apart, found]

/-- Two releases in either order reach the same manager. -/
theorem Released.commute {nextA nextB both other : KVCacheManager}
    (firstA : manager.Released a tableA nextA) (thenB : nextA.Released b tableB both)
    (firstB : manager.Released b tableB nextB) (thenA : nextB.Released a tableA other)
    (sound : both.Sound) (otherSound : other.Sound) : other = both := by
  refine sound.eq_of_blocks otherSound ?_ (fun x => ?_) ?_
  · rw [thenA.length, firstB.length, thenB.length, firstA.length]
  · rw [thenA.block, firstB.block, thenB.block, firstA.block]
    split
    · exact apply_ite droppedBlock _ _ _
    · rfl
  · have tables : (manager.blockTables.erase b).erase a = (manager.blockTables.erase a).erase b := by
      refine OrdMap.ext_find? fun key => ?_
      rw [OrdMap.find?_erase, OrdMap.find?_erase, OrdMap.find?_erase, OrdMap.find?_erase]
      split
      · split <;> rfl
      · rfl
    have records : (manager.requestProvenance.erase b).erase a =
        (manager.requestProvenance.erase a).erase b := by
      refine OrdMap.ext_find? fun key => ?_
      rw [OrdMap.find?_erase, OrdMap.find?_erase, OrdMap.find?_erase, OrdMap.find?_erase]
      split
      · split <;> rfl
      · rfl
    rw [thenA.rest, firstB.rest, thenB.rest, firstA.rest, tables, records]

/-- A list of releases that can run: of live requests, each listed once. -/
structure Releasable (manager : KVCacheManager) (ops : List KVOp) : Prop where
  sound : manager.Sound
  nodup : ops.Nodup
  live : ∀ op ∈ ops, ∃ id table, op = .releaseRequest id ∧
    manager.blockTables.find? id = some table

/-- The first of the releases succeeds, and the rest stay releasable. -/
theorem Releasable.head {op : KVOp} {rest : List KVOp}
    (releasable : manager.Releasable (op :: rest)) :
    ∃ id table, op = .releaseRequest id ∧ manager.apply op = (.ok (), machine.next manager op) ∧
      manager.Released id table (machine.next manager op) ∧
      (machine.next manager op).Releasable rest := by
  obtain ⟨id, table, rfl, found⟩ := releasable.live op List.mem_cons_self
  obtain ⟨next, result, effect, after⟩ := releaseRequest_ok releasable.sound found
  have step : manager.apply (.releaseRequest id) = (.ok (), next) := by
    simp only [apply, result]
    rfl
  have same : machine.next manager (.releaseRequest id) = next := congrArg Prod.snd step
  rw [same]
  refine ⟨id, table, rfl, step, effect, after, (List.nodup_cons.mp releasable.nodup).2,
    fun other member => ?_⟩
  obtain ⟨later, held, rfl, present⟩ := releasable.live other (List.mem_cons_of_mem _ member)
  refine ⟨later, held, rfl, effect.found_other ?_ present⟩
  rintro rfl
  exact (List.nodup_cons.mp releasable.nodup).1 member

theorem Releasable.perm {before after : List KVOp} (perm : before.Perm after)
    (releasable : manager.Releasable before) : manager.Releasable after :=
  ⟨releasable.sound, perm.nodup_iff.mp releasable.nodup, fun op member =>
    releasable.live op (perm.mem_iff.mpr member)⟩

/-- Two releases next to each other may change places. -/
theorem Releasable.commute {first second : KVOp} {rest : List KVOp}
    (releasable : manager.Releasable (first :: second :: rest)) :
    machine.next (machine.next manager first) second =
      machine.next (machine.next manager second) first := by
  obtain ⟨a, tableA, rfl, -, firstA, afterA⟩ := releasable.head
  obtain ⟨b, tableB, rfl, -, thenB, both⟩ := afterA.head
  obtain ⟨b', tableB', same, -, firstB, afterB⟩ := (releasable.perm (.swap ..)).head
  obtain rfl : b = b' := by cases same; rfl
  obtain ⟨a', tableA', same, -, thenA, other⟩ := afterB.head
  obtain rfl : a = a' := by cases same; rfl
  have apart : a ≠ b := by
    rintro rfl
    exact (List.nodup_cons.mp releasable.nodup).1 List.mem_cons_self
  obtain rfl : tableA' = tableA := Option.some.inj
    (thenA.found.symm.trans (firstB.found_other apart firstA.found))
  obtain rfl : tableB' = tableB := Option.some.inj
    ((firstA.found_other apart.symm firstB.found).symm.trans thenB.found)
  exact (firstA.commute thenB firstB thenA both.sound other.sound).symm

/-- All of them succeed. -/
theorem Releasable.outputs {ops : List KVOp} (releasable : manager.Releasable ops) :
    ∀ answer ∈ machine.outputs manager ops, answer = .ok () := by
  induction ops generalizing manager with
  | nil => exact fun answer member => by cases member
  | cons op rest ih =>
      obtain ⟨id, table, -, step, -, after⟩ := releasable.head
      intro answer member
      rcases List.mem_cons.mp member with rfl | member
      · exact congrArg Prod.fst step
      · exact ih after answer member

/-- In every reachable state, releasing any set of live requests in any two orders succeeds in both
and ends in the same manager. -/
theorem reach_releases_commute (config : KVCacheConfig) (prefixConfig : PrefixCacheConfig)
    (hashFunction : PrefixHashFunction) (ops : List KVOp) (first second : List RequestId)
    (nodup : first.Nodup) (perm : first.Perm second)
    (live : ∀ id ∈ first, ((reach config prefixConfig hashFunction ops).blockTables.find? id).isSome) :
    let manager := reach config prefixConfig hashFunction ops
    (∀ answer ∈ machine.outputs manager (first.map .releaseRequest), answer = .ok ()) ∧
      (∀ answer ∈ machine.outputs manager (second.map .releaseRequest), answer = .ok ()) ∧
      machine.run manager (first.map .releaseRequest) =
        machine.run manager (second.map .releaseRequest) := by
  have sound := (@reach_sound config prefixConfig hashFunction ops).1
  have injective : Function.Injective KVOp.releaseRequest := fun a b same => by
    cases same
    rfl
  have releasable : (reach config prefixConfig hashFunction ops).Releasable
      (first.map .releaseRequest) := by
    refine ⟨sound, nodup.map injective, fun op member => ?_⟩
    obtain ⟨id, listed, rfl⟩ := List.mem_map.mp member
    obtain ⟨table, found⟩ := Option.isSome_iff_exists.mp (live id listed)
    exact ⟨id, table, rfl, found⟩
  have perm := perm.map KVOp.releaseRequest
  refine ⟨releasable.outputs, (releasable.perm perm).outputs, ?_⟩
  exact @Machine.run_perm _ _ _ machine Releasable
    (fun _ _ _ ready => ready.head.choose_spec.choose_spec.2.2.2)
    (fun _ _ _ perm ready => ready.perm perm) (fun _ _ _ _ ready => ready.commute) _ _ _
    releasable perm

/-- Two requests that share the one block of their prompt. -/
def sharedPair : KVCacheManager :=
  reach (.small 2 1) { enabled := true } stableTokenBlockHash
    [.allocatePromptWithPrefix 1 [7] {} OrdSet.empty, .insertCompletedPromptBlocks 1,
      .allocatePromptWithPrefix 2 [7] { matchedTokenCount := 1, physicalBlockIds := [0]
                                        kind := .allEligibleBlocksHit } OrdSet.empty]

theorem reach_releases_commute_shared :
    (sharedPair.block 0).referenceCount = 2 ∧
      machine.run sharedPair [.releaseRequest 1, .releaseRequest 2] =
        machine.run sharedPair [.releaseRequest 2, .releaseRequest 1] :=
  ⟨by decide +kernel, (reach_releases_commute (.small 2 1)
    { enabled := true } stableTokenBlockHash _ [1, 2] [2, 1] (by decide) (.swap ..)
    (by decide +kernel)).2.2⟩

end KVCacheManager

end LlmLab.Serving
