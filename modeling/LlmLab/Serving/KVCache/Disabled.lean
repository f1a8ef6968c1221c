import LlmLab.Serving.KVCache.Accounting
import LlmLab.Serving.KVCache.Client
import LlmLab.Serving.KVCache.ShadowModel

/-!
# The manager without a prefix cache

With the cache disabled no block ever carries a key, so none is cached and nothing is evicted.
What remains is the reference allocator: the two answer every call alike and stay equal.
-/

namespace LlmLab.Serving

open KVCacheManager

/-- The calls of an allocator. -/
inductive AllocatorCall where
  | allocatePrompt (id : RequestId) (tokens : Nat)
  | appendDecodeToken (id : RequestId)
  | releaseRequest (id : RequestId)

namespace AllocatorCall

def op : AllocatorCall → KVOp
  | .allocatePrompt id tokens => .allocatePrompt id tokens
  | .appendDecodeToken id => .appendDecodeToken id
  | .releaseRequest id => .releaseRequest id

/-- No checked counter overflows. -/
def Quiet (manager : KVCacheManager) (call : AllocatorCall) : Prop :=
  ∀ error, (manager.apply call.op).1 = .error error → ¬ error.IsOverflow

instance (manager : KVCacheManager) (call : AllocatorCall) : Decidable (call.Quiet manager) :=
  match result : (manager.apply call.op).1 with
  | .ok () => .isTrue fun error fails => by
      rw [result] at fails
      cases fails
  | .error error => decidable_of_iff (¬ error.IsOverflow) (by unfold Quiet; simp [result])

end AllocatorCall

/-- The exception that the tests expect in each failing case. -/
def ShadowRefusal.Throws : ShadowRefusal → Exn → Prop
  | .duplicate, .invalidArgument _ => True
  | .insufficient, .kvCapacityError _ => True
  | .unknown, .outOfRange _ => True
  | _, _ => False

/-- A call succeeds where the reference does, and throws what the tests expect elsewhere. -/
def AnswersAlike : Except Exn Unit → Option ShadowRefusal → Prop
  | .ok (), none => True
  | .error error, some refusal => refusal.Throws error
  | _, _ => False

namespace ShadowModel

/-- Make one call. -/
def apply (model : ShadowModel) : AllocatorCall → Option ShadowRefusal × ShadowModel
  | .allocatePrompt id tokens => model.allocate id tokens
  | .appendDecodeToken id => model.append id
  | .releaseRequest id => model.release id

def machine : Machine ShadowModel AllocatorCall (Option ShadowRefusal) := ⟨apply⟩

end ShadowModel

namespace KVCacheManager

variable {manager next : KVCacheManager} {model : ShadowModel} {id : RequestId} {tokens : Nat}
  {table : List Nat} {call : AllocatorCall}

/-- The manager as an allocator. -/
def allocatorMachine : Machine KVCacheManager AllocatorCall (Except Exn Unit) :=
  ⟨fun manager call => manager.apply call.op⟩

/-- Manager and reference hold the same data. -/
structure Mirrors (manager : KVCacheManager) (model : ShadowModel) : Prop where
  total : model.totalBlocks = manager.blocks.length
  blockSize : model.blockSize = manager.config.blockSizeTokens
  unkeyed : ∀ x, (manager.block x).prefixKey = none
  free : manager.freeBlocks = model.freeIds
  tables : ∀ id, manager.blockTables.find? id = (model.requests.find? id).map (·.blocks)
  fills : ∀ id request, model.requests.find? id = some request →
    manager.Fills request.blocks request.tokens
  valid : ∀ x, (manager.block x).validTokenCount = model.validTokens x
  epochs : ∀ x, (manager.block x).lastAccessEpoch = model.epochs x
  represented : manager.representedTokenCount = model.represented
  failures : manager.allocationFailureCount = model.failures
  epoch : manager.accessEpoch = model.epoch
  peak : manager.peakAllocatedBlockCount = model.peak

namespace Mirrors

/-- Nothing is ever cached. -/
theorem noVictims (mirrors : manager.Mirrors model) (sound : manager.Sound) :
    manager.eligibleEvictionOrder = [] := by
  refine List.eq_nil_iff_forall_not_mem.mpr fun x member => ?_
  exact sound.cached ((mem_eligibleEvictionOrder sound.blockIds).mp member) (mirrors.unkeyed x)

/-- A block in use has one owner, who holds it. -/
theorem owned (mirrors : manager.Mirrors model) (sound : manager.Sound)
    (found : manager.blockTables.find? id = some table) {x : Nat} (member : x ∈ table) :
    (manager.block x).referenceCount = 1 := by
  have inside := (sound.live found member).1
  obtain ⟨-, -, e, count, p, holder, -, -, -, -, -, -, shape⟩ := sound.valid.blocks.owned_shape
    (sound.valid.blocks.length ▸ inside) ⟨table, found, member⟩ (mirrors.unkeyed x)
  have shape' : manager.block x = _ := shape
  rw [shape']

theorem found (mirrors : manager.Mirrors model) {request : ShadowRequest}
    (known : model.requests.find? id = some request) :
    manager.blockTables.find? id = some request.blocks := by
  rw [mirrors.tables, known]
  rfl

theorem needsBlock_iff (mirrors : manager.Mirrors model) (sound : manager.Sound)
    {request : ShadowRequest} (known : model.requests.find? id = some request) :
    manager.NeedsBlock request.blocks ↔ model.NeedsBlock request := by
  unfold NeedsBlock ShadowModel.NeedsBlock
  refine forall_congr' fun last => imp_congr_right fun isLast => ?_
  have single := mirrors.owned sound (mirrors.found known) (List.mem_of_getLast? isLast)
  rw [mirrors.valid, mirrors.blockSize, single, mirrors.unkeyed]
  simp

/-- The requests of the reference as a ledger. -/
def ledgerOf (model : ShadowModel) : Ledger := fun id =>
  (model.requests.find? id).map fun request => ⟨request.tokens, 0⟩

/-- The tables are still filled in order if the requests follow the event. -/
theorem fills_next (mirrors : manager.Mirrors model) (sound : manager.Sound) {event : KVEvent}
    (effect : Effect manager next event) {requests : OrdMap RequestId ShadowRequest}
    (tables : ∀ id, next.blockTables.find? id = (requests.find? id).map (·.blocks))
    (tokens : ∀ id request usage, requests.find? id = some request →
      (ledgerOf model).record event id = some usage → usage.total = request.tokens)
    (id : RequestId) (request : ShadowRequest) (found : requests.find? id = some request) :
    next.Fills request.blocks request.tokens := by
  have accounted : Accounted (ledgerOf model) manager := fun other held present => by
    rw [mirrors.tables, Option.map_eq_some_iff] at present
    obtain ⟨holder, known, rfl⟩ := present
    exact ⟨⟨holder.tokens, 0⟩, by rw [ledgerOf, known]; rfl, mirrors.fills other holder known⟩
  obtain ⟨usage, listed, fills⟩ := effect.accounted sound accounted id request.blocks (by
    rw [tables, found]
    rfl)
  rw [← tokens id request usage found listed]
  exact fills

theorem required_eq (mirrors : manager.Mirrors model) (tokens : Nat) :
    model.required tokens = manager.config.demand tokens := by
  unfold ShadowModel.required KVCacheConfig.demand
  rw [mirrors.blockSize]
  by_cases zero : tokens = 0
  · simp [zero]
  · simp only [if_neg zero, ne_eq, ite_not]

/-- A served prompt is the reference's allocation. -/
theorem allocated (mirrors : manager.Mirrors model) (sound : manager.Sound)
    (enough : manager.config.demand tokens ≤ manager.freeBlocks.size)
    (effect : Effect manager next (.countPrompt id tokens)) :
    ∃ after, model.allocate id tokens = (none, after) ∧ next.Mirrors after := by
  have effect' := effect
  cases effect with
  | @countPrompt _ _ evictionIds allocationIds plan served =>
      have noEviction : evictionIds = [] := by
        rw [plan.victims, mirrors.noVictims sound, List.take_nil]
      subst noEviction
      have required := mirrors.required_eq tokens
      have fresh : allocationIds = model.freeIds.elems.take (model.required tokens) := by
        rw [plan.fresh, required, ← mirrors.free]
        rfl
      have done := served.effect
      have known : model.requests.find? id = none := by
        have unknown := plan.unknown
        rwa [mirrors.tables, Option.map_eq_none_iff] at unknown
      rw [← required, mirrors.free] at enough
      have length : allocationIds.length = model.required tokens := by
        rw [fresh, List.length_take]
        exact min_eq_left enough
      have ticks : next.accessEpoch =
          if model.required tokens ≠ 0 then model.epoch + 1 else model.epoch := by
        have still : manager.hitEpoch [] = manager.accessEpoch := rfl
        rw [done.epoch, ← mirrors.epoch]
        change manager.hitEpoch [] + (if allocationIds = [] then 0 else 1) = _
        rw [still]
        by_cases empty : model.required tokens = 0
        · rw [if_pos (List.length_eq_zero_iff.mp (length.trans empty)), if_neg (by simp [empty])]
          rfl
        · rw [if_neg fun none => empty (by rw [← length, none]; rfl), if_pos empty]
      have outside : ∀ x ∉ allocationIds, next.block x = manager.block x := fun x absent =>
        done.outside x List.not_mem_nil List.not_mem_nil absent
      have inside : ∀ x ∈ allocationIds, next.block x = allocatedPromptBlock manager.config id
          tokens next.accessEpoch (model.freeIds.elems.idxOf x) .privatePromptCountOnly
          { blockId := x } := fun x member => by
        have position : allocationIds[model.freeIds.elems.idxOf x]? = some x := by
          rw [fresh] at member ⊢
          rw [← (List.take_prefix _ _).idxOf_eq_of_mem member]
          exact List.getElem?_idxOf member
        exact done.written _ x position
      have free : ∀ x, x ∈ next.freeBlocks ↔
          x ∈ model.freeIds.elems.drop (model.required tokens) := fun x => by
        rw [done.free, mirrors.free, mem_drop_iff model.freeIds.nodup, ← fresh]
        simp [countGrant, OrdSet.mem_def]
      have tables : ∀ other, next.blockTables.find? other =
          ((model.requests.insert id ⟨allocationIds, tokens⟩).find? other).map (·.blocks) :=
        fun other => by
          rw [done.tables, OrdMap.find?_insert, OrdMap.find?_insert]
          by_cases same : other = id
          · rw [if_pos same]
            exact if_pos same
          · rw [if_neg same]
            exact (if_neg same).trans (mirrors.tables other)
      have fills := mirrors.fills_next sound effect' tables fun other request usage found listed => by
        rw [OrdMap.find?_insert] at found
        rw [Ledger.record, Function.update_apply] at listed
        by_cases same : other = id
        · rw [if_pos same, Option.some.injEq] at found listed
          rw [← found, ← listed]
          rfl
        · rw [if_neg same] at found listed
          rw [ledgerOf, found] at listed
          cases listed
          rfl
      refine ⟨_, ShadowModel.allocate_eq known enough, ?_⟩
      rw [← fresh]
      exact {
        total := mirrors.total.trans done.length.symm
        blockSize := mirrors.blockSize.trans (congrArg _ done.setup.config.symm)
        unkeyed := fun x => by
          by_cases member : x ∈ allocationIds
          · rw [inside x member]
            rfl
          · rw [outside x member]
            exact mirrors.unkeyed x
        free := OrdSet.ext free
        tables
        fills
        valid := fun x => by
          dsimp only [ShadowModel.updatePeak]
          by_cases member : x ∈ allocationIds
          · rw [inside x member, if_pos member, mirrors.blockSize]
            rfl
          · rw [outside x member, if_neg member]
            exact mirrors.valid x
        epochs := fun x => by
          dsimp only [ShadowModel.updatePeak]
          by_cases member : x ∈ allocationIds
          · rw [inside x member, if_pos member]
            exact ticks
          · rw [outside x member, if_neg member]
            exact mirrors.epochs x
        represented := by
          have represented := done.represented
          rw [mirrors.represented] at represented
          change _ + 0 * _ = _ at represented
          rw [Nat.zero_mul] at represented
          exact represented
        failures := done.failures.trans mirrors.failures
        epoch := ticks
        peak := by
          rw [done.peak, mirrors.peak, allocatedBlockCount, done.length, ← mirrors.total]
          exact congrArg (fun set : OrdSet Nat => max _ (model.totalBlocks - set.size))
            (OrdSet.ext free) }

/-- An accepted append is the reference's. -/
theorem appended (mirrors : manager.Mirrors model) (sound : manager.Sound)
    {request : ShadowRequest} (known : model.requests.find? id = some request)
    (effect : Effect manager next (.append id)) :
    ∃ after, model.append id = (none, after) ∧ next.Mirrors after := by
  have effect' := effect
  have counts : ∀ blocks other holder usage,
      (model.requests.insert id ⟨blocks, request.tokens + 1⟩).find? other = some holder →
      (ledgerOf model).record (.append id) other = some usage → usage.total = holder.tokens := by
    intro blocks other holder usage found listed
    rw [OrdMap.find?_insert] at found
    rw [Ledger.record, Function.update_apply] at listed
    by_cases same : other = id
    · rw [if_pos same] at found listed
      rw [ledgerOf, known] at listed
      cases found
      cases listed
      rfl
    · rw [if_neg same] at found listed
      rw [ledgerOf, found] at listed
      cases listed
      rfl
  have tablesOf : ∀ {blocks : List Nat},
      next.blockTables = manager.blockTables.insert id blocks → ∀ other,
      next.blockTables.find? other =
        ((model.requests.insert id ⟨blocks, request.tokens + 1⟩).find? other).map (·.blocks) := by
    intro blocks same other
    rw [same, OrdMap.find?_insert, OrdMap.find?_insert]
    split
    · rfl
    · exact mirrors.tables other
  have needs := mirrors.needsBlock_iff sound known
  unfold ShadowModel.append
  rw [known]
  dsimp only
  cases effect with
  | appended plan appended =>
      cases appended with
      | @grown table last stays _ grown =>
          obtain rfl : table = request.blocks := by
            have found := grown.found
            rw [mirrors.found known, Option.some.injEq] at found
            exact found.symm
          rw [if_neg (needs.not.mp stays)]
          refine ⟨_, rfl, ?_⟩
          have lastD : request.blocks.getLastD 0 = last := by
            rw [List.getLastD_eq_getLast?, grown.isLast]
            rfl
          rw [lastD]
          have setup := grown.setup
          have block := grown.block sound
          have length : next.blocks.length = manager.blocks.length := by
            rw [grown.result]
            exact List.length_modify ..
          have same : next.blockTables = manager.blockTables := by rw [grown.result]; rfl
          have kept : manager.blockTables.insert id request.blocks = manager.blockTables :=
            OrdMap.insert_of_find? grown.found
          have tables := tablesOf (same.trans kept.symm)
          have fills := mirrors.fills_next sound effect' tables (counts request.blocks)
          exact {
            total := mirrors.total.trans length.symm
            blockSize := mirrors.blockSize.trans (congrArg _ setup.config.symm)
            unkeyed := fun x => (grown.key sound x).trans (mirrors.unkeyed x)
            free := by
              rw [grown.result]
              exact mirrors.free
            tables
            fills
            valid := fun x => by
              dsimp only [ShadowModel.updatePeak]
              rw [block, Function.update_apply, ← mirrors.valid, ← mirrors.valid]
              split <;> rfl
            epochs := fun x => by
              dsimp only [ShadowModel.updatePeak]
              rw [block, Function.update_apply, ← mirrors.epochs, ← mirrors.epoch]
              split <;> rfl
            represented := by
              rw [grown.result]
              exact congrArg (· + 1) mirrors.represented
            failures := by
              rw [grown.result]
              exact mirrors.failures
            epoch := by
              rw [grown.result]
              exact congrArg (· + 1) mirrors.epoch
            peak := by
              rw [grown.result]
              change max _ ((manager.blocks.modify _ _).length - _) = max _ _
              rw [List.length_modify, mirrors.peak, mirrors.free, ← mirrors.total] }
      | @extended table y needsBlock allocation extended _ =>
          obtain rfl : table = request.blocks := by
            have found := extended.found
            rw [mirrors.found known, Option.some.injEq] at found
            exact found.symm
          obtain ⟨-, victims, head⟩ := plan.fresh (by
            have found := plan.found
            rw [mirrors.found known, Option.some.injEq] at found
            exact found ▸ needsBlock)
          have noVictims : manager.decodeVictims = [] := by
            unfold decodeVictims
            rw [mirrors.noVictims sound, List.take_nil, ite_self]
          rw [victims, noVictims] at extended
          rw [victims, noVictims, allocation] at head
          change some y = manager.freeBlocks.elems.head? at head
          rw [mirrors.free] at head
          rw [if_pos (needs.mp needsBlock), ← head]
          refine ⟨_, rfl, ?_⟩
          have outside : ∀ x, x ≠ y → next.block x = manager.block x := fun x =>
            extended.outside x List.not_mem_nil
          have free : ∀ x, x ∈ next.freeBlocks ↔ x ∈ model.freeIds.erase y := fun x => by
            rw [extended.free, OrdSet.mem_erase, mirrors.free, and_comm]
            simp
          have tables := tablesOf extended.tables
          have fills := mirrors.fills_next sound effect' tables (counts (request.blocks ++ [y]))
          exact {
            total := mirrors.total.trans extended.length.symm
            blockSize := mirrors.blockSize.trans (congrArg _ extended.setup.config.symm)
            unkeyed := fun x => by
              by_cases same : x = y
              · rw [same, extended.written]
                rfl
              · rw [outside x same]
                exact mirrors.unkeyed x
            free := OrdSet.ext free
            tables
            fills
            valid := fun x => by
              dsimp only [ShadowModel.updatePeak]
              rw [Function.update_apply]
              by_cases same : x = y
              · rw [if_pos same, same, extended.written]
                rfl
              · rw [if_neg same, outside x same]
                exact mirrors.valid x
            epochs := fun x => by
              dsimp only [ShadowModel.updatePeak]
              rw [Function.update_apply, ← mirrors.epoch]
              by_cases same : x = y
              · rw [if_pos same, same, extended.written]
                rfl
              · rw [if_neg same, outside x same]
                exact mirrors.epochs x
            represented := by
              have represented := extended.represented
              rw [mirrors.represented, List.length_nil, Nat.zero_mul] at represented
              exact represented
            failures := extended.failures.trans mirrors.failures
            epoch := extended.epoch.trans (congrArg (· + 1) mirrors.epoch)
            peak := by
              rw [extended.peak, mirrors.peak, allocatedBlockCount, extended.length,
                ← mirrors.total]
              exact congrArg (fun set : OrdSet Nat => max _ (model.totalBlocks - set.size))
                (OrdSet.ext free) }

/-- An accepted release is the reference's. -/
theorem released (mirrors : manager.Mirrors model) (sound : manager.Sound)
    {request : ShadowRequest} (known : model.requests.find? id = some request)
    (effect : Effect manager next (.release id)) :
    ∃ after, model.release id = (none, after) ∧ next.Mirrors after := by
  have effect' := effect
  cases effect with
  | @released _ table released =>
      obtain rfl : table = request.blocks := by
        have found := released.found
        rw [mirrors.found known, Option.some.injEq] at found
        exact found.symm
      unfold ShadowModel.release
      rw [known]
      refine ⟨_, rfl, ?_⟩
      have dropped : ∀ x ∈ request.blocks, next.block x = droppedBlock (manager.block x) ∧
          (next.block x).state = .free ∧ (next.block x).validTokenCount = 0 ∧
          (next.block x).lastAccessEpoch = 0 := fun x member => by
        have single := mirrors.owned sound released.found member
        rw [released.block, if_pos member]
        unfold droppedBlock
        simp [single, mirrors.unkeyed]
      have outside : ∀ x ∉ request.blocks, next.block x = manager.block x := fun x absent => by
        rw [released.block, if_neg absent]
      have tables : ∀ other, next.blockTables.find? other =
          ((model.requests.erase id).find? other).map (·.blocks) := fun other => by
        rw [released.rest]
        dsimp only
        rw [OrdMap.find?_erase, OrdMap.find?_erase]
        split
        · rfl
        · exact mirrors.tables other
      have fills := mirrors.fills_next sound effect' tables
        fun other holder usage found listed => by
          rw [OrdMap.find?_erase] at found
          rw [Ledger.record, Function.update_apply] at listed
          by_cases same : other = id
          · rw [if_pos same] at found
            cases found
          · rw [if_neg same] at found listed
            rw [ledgerOf, found] at listed
            cases listed
            rfl
      have setup := released.setup
      exact {
        total := mirrors.total.trans released.length.symm
        blockSize := mirrors.blockSize.trans (congrArg _ setup.config.symm)
        unkeyed := fun x => (released.key x).trans (mirrors.unkeyed x)
        free := OrdSet.ext fun x => by
          rw [released.free, OrdSet.mem_insertAll, mirrors.free, or_comm]
          exact or_congr_left (and_iff_left_of_imp fun member => (dropped x member).2.1)
        tables
        fills
        valid := fun x => by
          dsimp only
          by_cases member : x ∈ request.blocks
          · rw [if_pos member]
            exact (dropped x member).2.2.1
          · rw [if_neg member, outside x member]
            exact mirrors.valid x
        epochs := fun x => by
          dsimp only
          by_cases member : x ∈ request.blocks
          · rw [if_pos member]
            exact (dropped x member).2.2.2
          · rw [if_neg member, outside x member]
            exact mirrors.epochs x
        represented := by
          dsimp only
          have before := Represents.represented_clear sound (sound.nodup released.found) fun x member =>
            (sound.live released.found member).1
          have after : next.representedTokenCount = ((List.range manager.blocks.length).map fun x =>
              if x ∈ request.blocks then 0 else (manager.block x).validTokenCount).sum := by
            rw [← released.valid.represented]
            conv_lhs => rw [blocks_eq_map_range, List.map_map, released.length]
            refine congrArg List.sum (List.map_congr_left fun x _ => ?_)
            rw [Function.comp_apply]
            by_cases member : x ∈ request.blocks
            · rw [if_pos member]
              exact (dropped x member).2.2.1
            · rw [if_neg member, outside x member]
          have tokens := (mirrors.fills id request known).tokens
          unfold tableTokens at tokens
          rw [← mirrors.represented]
          omega
        failures := by
          rw [released.rest]
          exact mirrors.failures
        epoch := by
          rw [released.rest]
          exact mirrors.epoch
        peak := by
          rw [released.rest]
          exact mirrors.peak }

/-- A counted failure is one on both sides. -/
theorem failed (mirrors : manager.Mirrors model) :
    ({ manager with allocationFailureCount := manager.allocationFailureCount + 1 } :
      KVCacheManager).Mirrors { model with failures := model.failures + 1 } where
  total := mirrors.total
  blockSize := mirrors.blockSize
  unkeyed := mirrors.unkeyed
  free := mirrors.free
  tables := mirrors.tables
  fills id request known := (mirrors.fills id request known).congr ⟨rfl, rfl, rfl⟩ fun _ _ => rfl
  valid := mirrors.valid
  epochs := mirrors.epochs
  represented := mirrors.represented
  failures := congrArg (· + 1) mirrors.failures
  epoch := mirrors.epoch
  peak := mirrors.peak

/-- What one call must achieve. -/
def Follows (result : Except Exn Unit × KVCacheManager)
    (reference : Option ShadowRefusal × ShadowModel) : Prop :=
  AnswersAlike result.1 reference.1 ∧ result.2.Mirrors reference.2

theorem failAllocation (mirrors : manager.Mirrors model) {message : String}
    (quiet : ∀ error, (manager.failAllocation message).1 = .error error → ¬ error.IsOverflow) :
    Follows (manager.failAllocation message)
      (some .insufficient, { model with failures := model.failures + 1 }) := by
  have counts := inc_ensures manager.allocationFailureCount "KV allocation failure count overflow"
  unfold KVCacheManager.failAllocation at quiet ⊢
  cases counted : inc manager.allocationFailureCount "KV allocation failure count overflow" with
  | error error =>
      rw [counted] at quiet
      exact absurd (counts.of_eq_error counted) (quiet error rfl)
  | ok count =>
      rw [counts.of_eq_ok counted]
      exact ⟨trivial, mirrors.failed⟩

/-- A prompt follows the reference allocator, failures included. -/
theorem allocatePrompt (mirrors : manager.Mirrors model) (sound : manager.Sound)
    (disabled : manager.prefixConfig.enabled = false)
    (quiet : (AllocatorCall.allocatePrompt id tokens).Quiet manager) :
    Follows (manager.allocatePrompt id tokens) (model.allocate id tokens) := by
  have valid : ¬ manager.validateInvariants = false := by
    simp [validateInvariants_iff.mpr sound.valid]
  have effect := @Effect.of_apply manager (.allocatePrompt id tokens) sound
  change (manager.allocatePrompt id tokens).1 = _ →
    Effect manager (manager.allocatePrompt id tokens).2 _ at effect
  change ∀ error, (manager.allocatePrompt id tokens).1 = .error error → _ at quiet
  cases known : model.requests.find? id with
  | some request =>
      have present := mirrors.found known
      unfold KVCacheManager.allocatePrompt ShadowModel.allocate
      rw [if_neg valid, if_pos (OrdMap.contains_iff.mpr ⟨_, present⟩),
        if_pos (OrdMap.contains_iff.mpr ⟨_, known⟩)]
      exact ⟨trivial, mirrors⟩
  | none =>
      have unknown : manager.blockTables.find? id = none := by
        rw [mirrors.tables, known]
        rfl
      have demand := @KVCacheConfig.blocksRequired_ensures manager.config tokens
      have required := mirrors.required_eq tokens
      cases counted : manager.config.blocksRequired tokens with
      | error error =>
          unfold KVCacheManager.allocatePrompt at quiet
          rw [if_neg valid, if_neg (by simp [OrdMap.contains_eq_false_iff.mpr unknown]),
            counted] at quiet
          exact absurd (demand.of_eq_error counted) (quiet error rfl)
      | ok count =>
          obtain rfl : count = manager.config.demand tokens := demand.of_eq_ok counted
          by_cases short : manager.config.demand tokens > manager.freeBlocks.size
          · have fails : manager.allocatePrompt id tokens =
                manager.failAllocation "insufficient KV capacity for prompt" := by
              unfold KVCacheManager.allocatePrompt
              rw [if_neg valid, if_neg (by simp [OrdMap.contains_eq_false_iff.mpr unknown]),
                counted]
              have none : (if manager.prefixConfig.enabled = true then
                  manager.eligibleEvictionOrder.length else 0) = 0 := by
                rw [disabled]
                rfl
              dsimp only
              rw [none, if_pos (by omega)]
            unfold ShadowModel.allocate
            rw [if_neg (by simp [OrdMap.contains_eq_false_iff.mpr known])]
            dsimp only
            rw [if_pos (by rw [required, ← mirrors.free]; exact short), fails]
            rw [fails] at quiet
            exact mirrors.failAllocation quiet
          · have plan : manager.PromptPlan id tokens [] (lowestAvailable manager.freeBlocks []
                (manager.config.demand tokens)) :=
              ⟨unknown, by omega, by rw [mirrors.noVictims sound, List.take_nil], rfl⟩
            have commits : manager.allocatePrompt id tokens = manager.commit
                (manager.allocatePromptExact id tokens []
                  (lowestAvailable manager.freeBlocks [] (manager.config.demand tokens))) := by
              unfold KVCacheManager.allocatePrompt
              rw [if_neg valid, if_neg (by simp [OrdMap.contains_eq_false_iff.mpr unknown]),
                counted]
              dsimp only
              rw [if_neg (by omega), mirrors.noVictims sound, List.take_nil]
            have success : (manager.allocatePrompt id tokens).1 = .ok () := by
              rw [commits] at quiet ⊢
              exact commit_ok (allocatePromptExact_ensures sound)
                ⟨plan, fun x member => by cases member⟩ quiet
            obtain ⟨after, step, mirrors'⟩ :=
              mirrors.allocated sound (not_lt.mp short) (effect success)
            rw [step]
            exact ⟨by rw [success]; trivial, mirrors'⟩

/-- A decode append follows the reference allocator, failures included. -/
theorem appendDecodeToken (mirrors : manager.Mirrors model) (sound : manager.Sound)
    (quiet : (AllocatorCall.appendDecodeToken id).Quiet manager) :
    Follows (manager.appendDecodeToken id) (model.append id) := by
  have valid : ¬ manager.validateInvariants = false := by
    simp [validateInvariants_iff.mpr sound.valid]
  have effect := @Effect.of_apply manager (.appendDecodeToken id) sound
  change (manager.appendDecodeToken id).1 = _ →
    Effect manager (manager.appendDecodeToken id).2 _ at effect
  change ∀ error, (manager.appendDecodeToken id).1 = .error error → _ at quiet
  cases known : model.requests.find? id with
  | none =>
      have unknown : manager.blockTables.find? id = none := by
        rw [mirrors.tables, known]
        rfl
      unfold KVCacheManager.appendDecodeToken ShadowModel.append
      rw [if_neg valid, if_pos (OrdMap.contains_eq_false_iff.mpr unknown), known]
      exact ⟨trivial, mirrors⟩
  | some request =>
      have found := mirrors.found known
      have accepted : (manager.appendDecodeToken id).1 = .ok () →
          Follows (manager.appendDecodeToken id) (model.append id) := fun success => by
        obtain ⟨after, step, mirrors'⟩ := mirrors.appended sound known (effect success)
        rw [step]
        exact ⟨by rw [success]; trivial, mirrors'⟩
      have noVictims := mirrors.noVictims sound
      have needs := mirrors.needsBlock_iff sound known
      obtain ⟨newBlock, decided, fresh⟩ := decodeRequiresNewBlock_eq sound found
      have epochs : Ensures Exn.IsOverflow _ manager.nextAccessEpoch := inc_ensures _ _
      unfold KVCacheManager.appendDecodeToken at quiet accepted ⊢
      rw [if_neg valid, if_neg (by simp [OrdMap.contains_iff.mpr ⟨_, found⟩])] at quiet accepted ⊢
      by_cases full : manager.representedTokenCount = uint64Max
      · rw [if_pos full] at quiet
        exact absurd trivial (quiet _ rfl)
      rw [if_neg full] at quiet accepted ⊢
      cases epoch : manager.nextAccessEpoch with
      | error error =>
          rw [epoch] at quiet
          exact absurd (epochs.of_eq_error epoch) (quiet error rfl)
      | ok next =>
          rw [epoch, decided] at quiet accepted
          rw [decided]
          dsimp only at quiet accepted ⊢
          cases newBlock with
          | false =>
              exact accepted (commit_ok (appendDecodeTokenExact_ensures sound)
                ⟨⟨request.blocks, found, fun need => absurd (fresh.mpr need) (by simp),
                  fun _ => ⟨rfl, rfl⟩⟩, fun x member => by cases member⟩ quiet)
          | true =>
              have need := fresh.mp rfl
              simp only [decodePlan, if_true, noVictims, and_true] at quiet accepted ⊢
              by_cases empty : manager.freeBlocks.size = 0
              · rw [if_pos empty] at quiet ⊢
                have exhausted : model.freeIds.elems = [] := by
                  rw [← mirrors.free]
                  exact List.length_eq_zero_iff.mp empty
                unfold ShadowModel.append
                rw [known]
                dsimp only
                rw [if_pos (needs.mp need), exhausted]
                exact mirrors.failAllocation quiet
              · rw [if_neg empty] at quiet accepted ⊢
                have victims : manager.decodeVictims = [] := by
                  unfold decodeVictims
                  rw [if_neg empty]
                rw [if_neg empty] at quiet accepted ⊢
                exact accepted (commit_ok (appendDecodeTokenExact_ensures sound)
                  ⟨⟨request.blocks, found, fun _ => ⟨Or.inl empty, victims.symm, rfl⟩,
                    fun stays => absurd need stays⟩, fun x member => by cases member⟩ quiet)

/-- A release follows the reference allocator, failures included. -/
theorem releaseRequest (mirrors : manager.Mirrors model) (sound : manager.Sound)
    (quiet : (AllocatorCall.releaseRequest id).Quiet manager) :
    Follows (manager.commit (manager.releaseRequest id)) (model.release id) := by
  change ∀ error, (manager.commit (manager.releaseRequest id)).1 = .error error → _ at quiet
  cases known : model.requests.find? id with
  | none =>
      have unknown : manager.blockTables.find? id = none := by
        rw [mirrors.tables, known]
        rfl
      unfold KVCacheManager.releaseRequest releaseRequestUnchecked ShadowModel.release
      rw [throwIf_of_not (by simp [validateInvariants_iff.mpr sound.valid]), except_ok_bind,
        unknown, known]
      exact ⟨trivial, mirrors⟩
  | some request =>
      have success : (manager.commit (manager.releaseRequest id)).1 = .ok () :=
        commit_ok (releaseRequest_ensures sound) ⟨_, mirrors.found known⟩ quiet
      obtain ⟨after, step, mirrors'⟩ := mirrors.released sound known
        (@Effect.of_apply manager (.releaseRequest id) sound success)
      rw [step]
      exact ⟨by rw [success]; trivial, mirrors'⟩

theorem apply (mirrors : manager.Mirrors model) (sound : manager.Sound)
    (disabled : manager.prefixConfig.enabled = false) (quiet : call.Quiet manager) :
    Follows (manager.apply call.op) (model.apply call) := by
  cases call with
  | allocatePrompt id tokens => exact mirrors.allocatePrompt sound disabled quiet
  | appendDecodeToken id => exact mirrors.appendDecodeToken sound quiet
  | releaseRequest id => exact mirrors.releaseRequest sound quiet

end Mirrors

/-- A new manager mirrors a new reference allocator. -/
theorem create_mirrors (config : KVCacheConfig) (prefixConfig : PrefixCacheConfig)
    (hash : PrefixHashFunction) : (create config prefixConfig hash).Mirrors
      (ShadowModel.make config.totalNumBlocks config.blockSizeTokens) where
  total := by simp [ShadowModel.make, create]
  blockSize := rfl
  unkeyed x := by rw [block_create]
  free := rfl
  tables _ := rfl
  fills _ _ known := by cases known
  valid x := by
    rw [block_create]
    rfl
  epochs x := by
    rw [block_create]
    rfl
  represented := rfl
  failures := rfl
  epoch := rfl
  peak := rfl

/-- What the reference says about one physical block. -/
structure BlockMirrored (model : ShadowModel) (x : Nat) (block : PhysicalKVBlock) : Prop where
  blockId : block.blockId = x
  validTokens : block.validTokenCount = model.validTokens x
  epoch : block.lastAccessEpoch = model.epochs x
  free : x ∈ model.freeIds →
    block.state = .free ∧ block.referenceCount = 0 ∧ block.owner = none
  inUse : x ∉ model.freeIds → block.state = .inUse ∧ block.referenceCount = 1 ∧
    ∃ id request, model.requests.find? id = some request ∧ x ∈ request.blocks ∧
      block.owner = some id

/-- Every block shows what the reference allocator knows of it. -/
theorem Mirrors.block (mirrors : manager.Mirrors model) (sound : manager.Sound) {x : Nat}
    (inside : x < manager.blocks.length) : BlockMirrored model x (manager.block x) := by
  have shape := sound.valid.blocks.block x (sound.valid.blocks.length ▸ inside)
  change BlockValid _ _ _ _ _ _ (manager.block x) at shape
  have unkeyed := mirrors.unkeyed x
  refine ⟨sound.blockIds x inside, mirrors.valid x, mirrors.epochs x, fun isFree => ?_,
    fun taken => ?_⟩
  · rw [(sound.free (mirrors.free ▸ isFree)).2]
    exact ⟨rfl, rfl, rfl⟩
  · rw [← mirrors.free] at taken
    revert shape unkeyed
    generalize manager.block x = block
    intro shape unkeyed
    cases shape with
    | free isFree => exact absurd isFree taken
    | cached => cases unkeyed
    | shared => cases unkeyed
    | @owned _ _ owner _ _ _ holds =>
        obtain ⟨table, found, member⟩ := holds
        rw [mirrors.tables, Option.map_eq_some_iff] at found
        obtain ⟨request, known, rfl⟩ := found
        exact ⟨rfl, rfl, owner, request, known, member, rfl⟩

/-- Everything the tests compare between the manager and the reference. -/
structure ObservedAlike (manager : KVCacheManager) (model : ShadowModel) : Prop where
  free : manager.freeBlocks = model.freeIds
  tables : ∀ id, manager.blockTables.find? id = (model.requests.find? id).map (·.blocks)
  blocks : ∀ x < model.totalBlocks, BlockMirrored model x (manager.block x)
  represented : manager.representedTokenCount = model.represented
  failures : manager.allocationFailureCount = model.failures
  epoch : manager.accessEpoch = model.epoch
  peak : manager.peakAllocatedBlockCount = model.peak

/-- Without a prefix cache the manager is the reference allocator: in every sequence of calls
without an overflow it succeeds and fails where the reference does, with the exceptions the tests
expect, and ends in the state of the reference. -/
theorem disabled_follows (config : KVCacheConfig) (prefixConfig : PrefixCacheConfig)
    (hash : PrefixHashFunction) (disabled : prefixConfig.enabled = false)
    (calls : List AllocatorCall)
    (quiet : allocatorMachine.Along (fun manager call => call.Quiet manager)
      (create config prefixConfig hash) calls) :
    let model := ShadowModel.make config.totalNumBlocks config.blockSizeTokens
    List.Forall₂ AnswersAlike (allocatorMachine.outputs (create config prefixConfig hash) calls)
        (ShadowModel.machine.outputs model calls) ∧
      (allocatorMachine.run (create config prefixConfig hash) calls).ObservedAlike
        (ShadowModel.machine.run model calls) := by
  obtain ⟨answers, mirrors, sound, -⟩ := @Machine.simulation _ _ _ allocatorMachine _ _
    ShadowModel.machine _ (fun manager model => manager.Mirrors model ∧ manager.Sound ∧
      (create config prefixConfig hash).SameSetup manager) AnswersAlike
    (fun manager model call ⟨mirrors, sound, setup⟩ quiet => by
      have follows := mirrors.apply sound (by rw [setup.prefixConfig]; exact disabled) quiet
      exact ⟨follows.1, follows.2, next_sound sound call.op,
        setup.trans (next_setup sound call.op)⟩)
    _ _ _ ⟨create_mirrors config prefixConfig hash, create_sound, .refl _⟩ quiet
  refine ⟨answers, mirrors.free, mirrors.tables, fun x inside => ?_, mirrors.represented,
    mirrors.failures, mirrors.epoch, mirrors.peak⟩
  exact mirrors.block sound (mirrors.total ▸ inside)

/-- Prompts, appends over a block boundary, a refused prompt and two releases. -/
def allocatorCalls : List AllocatorCall :=
  [.allocatePrompt 1 0, .appendDecodeToken 1, .allocatePrompt 2 5, .allocatePrompt 3 4,
    .allocatePrompt 2 1, .appendDecodeToken 1, .appendDecodeToken 9, .releaseRequest 2,
    .releaseRequest 2, .appendDecodeToken 1]

theorem disabled_follows_calls :
    (allocatorMachine.run (create ⟨4, 2, by decide, by decide, by decide⟩ {} stableTokenBlockHash)
        allocatorCalls).ObservedAlike
      (ShadowModel.machine.run (ShadowModel.make 4 2) allocatorCalls) := by
  refine (disabled_follows ⟨4, 2, by decide, by decide, by decide⟩ {} stableTokenBlockHash rfl
    allocatorCalls (by decide +kernel)).2

end KVCacheManager

end LlmLab.Serving
