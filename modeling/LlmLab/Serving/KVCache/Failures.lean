import LlmLab.Serving.KVCache.Recency

/-!
# Which failures count

`kv_cache.md` counts an allocation failure only for an otherwise valid call that lacks blocks.
The two other allocating calls check the request before they test the capacity;
`allocate_prompt_with_prefix` tests the capacity after it has compared two fields of the lookup,
and leaves the rest to the exact form that it calls afterwards.
-/

namespace LlmLab.Serving

open KVCacheManager

/-- A `KVCapacityError`. -/
def Exn.IsCapacity : Exn → Prop
  | .kvCapacityError _ => True
  | _ => False

theorem Exn.IsOverflow.not_isCapacity {error : Exn} (overflow : error.IsOverflow) :
    ¬ error.IsCapacity := by
  cases error <;> simp_all [Exn.IsOverflow, Exn.IsCapacity]

/-! ## Computations that never lack blocks -/

/-- No error of the computation is a capacity error. -/
def Roomy {α : Type} (action : Except Exn α) : Prop :=
  Ensures (fun error => ¬ error.IsCapacity) (fun _ => True) action

namespace Roomy

variable {α β : Type}

theorem of_overflow {post : α → Prop} {action : Except Exn α}
    (safe : Ensures Exn.IsOverflow post action) : Roomy action :=
  (safe.mono fun _ _ => True.intro).mono_allowed fun _ => Exn.IsOverflow.not_isCapacity

theorem bind {action : Except Exn α} {next : α → Except Exn β} (first : Roomy action)
    (rest : ∀ value, action = .ok value → Roomy (next value)) : Roomy (action >>= next) :=
  Ensures.bind_eq first fun value result _ => rest value result

theorem throwIf_bind {condition : Prop} [Decidable condition] {error : Exn}
    {next : PUnit → Except Exn α} (harmless : ¬ error.IsCapacity) (rest : Roomy (next ⟨⟩)) :
    Roomy (throwIf condition error >>= next) :=
  Ensures.throwIf_bind (fun _ => harmless) fun _ => rest

end Roomy

namespace KVCacheManager

variable {manager next : KVCacheManager} {event : KVEvent} {id : RequestId} {tokens : List Token}

theorem ensureValid_roomy (message : String) : Roomy (manager.ensureValid message) :=
  .throwIf_bind not_false True.intro

theorem evictExactBlocksInPlace_roomy (ids : List Nat) :
    Roomy (manager.evictExactBlocksInPlace ids) := by
  refine .throwIf_bind not_false (.throwIf_bind not_false ?_)
  refine (Ensures.foldlM (fun _ _ => True) True.intro fun _ x _ state _ _ => ?_).mono fun _ _ =>
    True.intro
  change Roomy (state.evictBlock x)
  unfold evictBlock
  refine (Roomy.of_overflow (inc_ensures _ _)).bind fun count _ => ?_
  split
  · exact not_false
  split
  · exact not_false
  exact .throwIf_bind not_false (.throwIf_bind not_false True.intro)

theorem nextEpochIf_roomy {touched : Prop} [Decidable touched] :
    Roomy (manager.nextEpochIf touched) := .of_overflow nextEpochIf_ensures

/-- With enough evictable blocks the exact count-only form never lacks one. -/
theorem allocatePromptExact_roomy {count : Nat} {evictionIds allocationIds : List Nat}
    (enough : manager.config.demand count - manager.freeBlocks.size ≤
      manager.eligibleEvictionOrder.length) :
    Roomy (manager.allocatePromptExact id count evictionIds allocationIds) := by
  have unchecked : Roomy (manager.allocatePromptExactUnchecked id count evictionIds
      allocationIds) := by
    unfold allocatePromptExactUnchecked
    refine .throwIf_bind not_false ?_
    refine (Roomy.of_overflow KVCacheConfig.blocksRequired_ensures).bind fun required counted => ?_
    obtain rfl : required = manager.config.demand count :=
      KVCacheConfig.blocksRequired_ensures.of_eq_ok counted
    dsimp only
    rw [throwIf_of_not (not_lt.mpr enough), except_ok_bind]
    refine .throwIf_bind not_false (.throwIf_bind not_false ?_)
    refine (evictExactBlocksInPlace_roomy _).bind fun evicted _ => ?_
    refine (Roomy.of_overflow (add_ensures _ _ _)).bind fun represented _ => ?_
    exact nextEpochIf_roomy.bind fun epoch _ => True.intro
  exact .throwIf_bind not_false (unchecked.bind fun next _ => next.ensureValid_roomy _)

theorem acquisitionMetrics_roomy (metrics : PrefixCacheMetrics) (lookup : PrefixLookupResult) :
    Roomy (acquisitionMetrics metrics lookup) := by
  have counts : ∀ value message, Roomy (inc value message) := fun value message =>
    .of_overflow (inc_ensures value message)
  have sums : ∀ a b message, Roomy (add a b message) := fun a b message =>
    .of_overflow (add_ensures a b message)
  unfold acquisitionMetrics
  refine (counts _ _).bind fun lookups _ => (sums _ _ _).bind fun eligible _ =>
    (sums _ _ _).bind fun collisions _ => ?_
  split
  · exact (counts _ _).bind fun _ _ => (counts _ _).bind fun _ _ => (sums _ _ _).bind fun _ _ =>
      (sums _ _ _).bind fun _ _ => (sums _ _ _).bind fun _ _ => True.intro
  · exact (counts _ _).bind fun _ _ => True.intro

/-- A lookup never lacks blocks, whether the cache is enabled or not. -/
theorem findLongestCachedPrefix_roomy (sound : manager.Sound) (tokens : List Token) :
    Roomy (manager.findLongestCachedPrefix tokens) := by
  cases enabled : manager.prefixConfig.enabled with
  | true => exact .of_overflow (findLongestCachedPrefixIn_ensures sound.valid enabled)
  | false =>
      unfold findLongestCachedPrefix findLongestCachedPrefixIn
      rw [if_pos enabled]
      exact .throwIf_bind not_false True.intro

/-- With enough evictable blocks outside the current lookup the exact form never lacks one. -/
theorem allocatePromptWithPrefixExact_roomy (sound : manager.Sound)
    {supplied : PrefixLookupResult} {evictionIds allocationIds : List Nat}
    (enough : ∀ actual, manager.findLongestCachedPrefix tokens = .ok actual →
      manager.config.demand (tokens.length - actual.matchedTokenCount) -
        manager.freeBlocks.size ≤ (manager.evictableOutside actual.physicalBlockIds).length) :
    Roomy (manager.allocatePromptWithPrefixExact id tokens supplied evictionIds allocationIds) := by
  have unchecked : Roomy (manager.allocatePromptWithPrefixExactUnchecked id tokens supplied
      evictionIds allocationIds) := by
    unfold allocatePromptWithPrefixExactUnchecked
    refine .throwIf_bind not_false (.throwIf_bind not_false ?_)
    refine (findLongestCachedPrefix_roomy sound tokens).bind fun actual current => ?_
    refine .throwIf_bind not_false (.throwIf_bind not_false ?_)
    dsimp only
    refine (Roomy.of_overflow KVCacheConfig.blocksRequired_ensures).bind fun required counted => ?_
    obtain rfl : required = manager.config.demand (tokens.length - actual.matchedTokenCount) :=
      KVCacheConfig.blocksRequired_ensures.of_eq_ok counted
    rw [throwIf_of_not (not_lt.mpr (enough actual current)), except_ok_bind]
    refine .throwIf_bind not_false (.throwIf_bind not_false ?_)
    refine (Roomy.of_overflow (add_ensures _ _ _)).bind fun represented _ => ?_
    refine (acquisitionMetrics_roomy _ _).bind fun metrics _ => .throwIf_bind not_false ?_
    refine nextEpochIf_roomy.bind fun hitEpoch _ => ?_
    refine (evictExactBlocksInPlace_roomy _).bind fun evicted _ => ?_
    exact nextEpochIf_roomy.bind fun epoch _ => True.intro
  exact .throwIf_bind not_false (unchecked.bind fun next _ => next.ensureValid_roomy _)

theorem decodeRequiresNewBlock_roomy : Roomy (manager.decodeRequiresNewBlock id) := by
  unfold decodeRequiresNewBlock
  refine .throwIf_bind not_false ?_
  split
  · exact not_false
  split
  · exact True.intro
  · exact .throwIf_bind not_false (.throwIf_bind not_false True.intro)

/-- The exact append lacks no block where the plan of the append exists. -/
theorem appendDecodeTokenExact_roomy {evictionIds : List Nat} {allocationId : Option Nat}
    (planned : ∀ newBlock, manager.decodeRequiresNewBlock id = .ok newBlock →
      ∃ plan, manager.decodePlan newBlock = .ok plan) :
    Roomy (manager.appendDecodeTokenExact id evictionIds allocationId) := by
  have unchecked : Roomy (manager.appendDecodeTokenExactUnchecked id evictionIds
      allocationId) := by
    unfold appendDecodeTokenExactUnchecked
    split
    · exact not_false
    refine .throwIf_bind not_false ?_
    refine decodeRequiresNewBlock_roomy.bind fun newBlock decided => ?_
    obtain ⟨⟨evictions, allocation⟩, plan⟩ := planned newBlock decided
    rw [plan, except_ok_bind]
    refine .throwIf_bind not_false ?_
    refine (evictExactBlocksInPlace_roomy _).bind fun evicted _ => ?_
    refine (Roomy.of_overflow (inc_ensures _ _)).bind fun epoch _ => ?_
    refine Roomy.bind ?_ fun written _ => True.intro
    unfold writeDecoded
    split
    · split
      · exact not_false
      · exact True.intro
    · exact True.intro
  exact .throwIf_bind not_false (unchecked.bind fun next _ => next.ensureValid_roomy _)

/-! ## A disabled cache -/

/-- In a disabled cache no operation keys a block. -/
theorem Effect.keyed_before (effect : Effect manager next event) (sound : manager.Sound)
    (disabled : manager.prefixConfig.enabled = false) {x : Nat}
    (keyed : (next.block x).prefixKey ≠ none) : (manager.block x).prefixKey ≠ none := by
  rcases effect.keyed_next sound keyed with ⟨-, before, -⟩ | ⟨touched, -⟩
  · exact before
  · cases effect with
    | exactPrompt plan =>
        rw [plan.enabled] at disabled
        cases disabled
    | published plan =>
        rw [plan.enabled] at disabled
        cases disabled
    | republished _ _ same => exact absurd (same ▸ touched.1) touched.2
    | countPrompt | appended | released | evicted => exact touched.elim

/-- In every reachable state of a disabled cache no block is keyed. -/
theorem reach_unkeyed {config : KVCacheConfig} {prefixConfig : PrefixCacheConfig}
    {hashFunction : PrefixHashFunction} (disabled : prefixConfig.enabled = false)
    (ops : List KVOp) (x : Nat) :
    ((reach config prefixConfig hashFunction ops).block x).prefixKey = none := by
  have holds := @Machine.run_invariant _ _ _ machine (fun manager => manager.Sound ∧
      manager.prefixConfig.enabled = false ∧ ∀ x, (manager.block x).prefixKey = none)
    (fun manager op holds => by
      obtain ⟨sound, off, unkeyed⟩ := holds
      refine ⟨next_sound sound op, (next_setup sound op).prefixConfig ▸ off, fun x => ?_⟩
      change ((manager.apply op).2.block x).prefixKey = none
      have outcome := apply_outcome sound op
      generalize manager.apply op = result at outcome ⊢
      cases outcome with
      | failed => exact unkeyed x
      | succeeded effect _ =>
          by_contra keyed
          exact effect.keyed_before sound off keyed (unkeyed x)) _ ops
    ⟨@create_sound config prefixConfig hashFunction, disabled, fun x => by rw [block_create]⟩
  exact holds.2.2 x

end KVCacheManager

/-! ## The allocating calls -/

/-- The calls that may lack blocks. -/
inductive AllocatingCall where
  | allocatePrompt (id : RequestId) (tokens : Nat)
  | allocatePromptWithPrefix (id : RequestId) (tokens : List Token) (lookup : PrefixLookupResult)
      (protectedBlocks : OrdSet Nat)
  | appendDecodeToken (id : RequestId)

namespace AllocatingCall

/-- The operation of a call. -/
def op : AllocatingCall → KVOp
  | .allocatePrompt id tokens => .allocatePrompt id tokens
  | .allocatePromptWithPrefix id tokens lookup protectedBlocks =>
      .allocatePromptWithPrefix id tokens lookup protectedBlocks
  | .appendDecodeToken id => .appendDecodeToken id

/-- The call is valid, apart from the capacity. -/
def WellFormed (manager : KVCacheManager) : AllocatingCall → Prop
  | .allocatePrompt id _ => manager.blockTables.find? id = none
  | .allocatePromptWithPrefix id tokens lookup _ => manager.blockTables.find? id = none ∧
      manager.prefixConfig.enabled = true ∧ manager.findLongestCachedPrefix tokens = .ok lookup
  | .appendDecodeToken id => ∃ table, manager.blockTables.find? id = some table

/-- The blocks that the call may evict: the cached ones, for a prefix call those that are neither
protected nor matched. -/
def evictable (manager : KVCacheManager) : AllocatingCall → List Nat
  | .allocatePromptWithPrefix _ tokens _ protectedBlocks => manager.cachedIds.filter fun x =>
      ¬ (x ∈ protectedBlocks ∨ x ∈ (manager.currentLookup tokens).physicalBlockIds)
  | _ => manager.cachedIds

/-- The blocks that the call needs. -/
def needed (manager : KVCacheManager) : AllocatingCall → Nat
  | .allocatePrompt _ tokens => manager.config.demand tokens
  | .allocatePromptWithPrefix _ tokens _ _ =>
      manager.config.demand (tokens.length - (manager.currentLookup tokens).matchedTokenCount)
  | .appendDecodeToken id => if manager.decodeRequiresNewBlock id = .ok true then 1 else 0

/-- The needed blocks exceed the free and the evictable ones. -/
def Exceeds (manager : KVCacheManager) (call : AllocatingCall) : Prop :=
  manager.freeBlocks.size + (call.evictable manager).length < call.needed manager

/-- No checked counter overflows. -/
def Quiet (manager : KVCacheManager) (call : AllocatingCall) : Prop :=
  ∀ error, (manager.apply call.op).1 = .error error → ¬ error.IsOverflow

/-- The call throws `KVCapacityError`, counts one failure and changes nothing else. -/
def Counted (manager : KVCacheManager) (call : AllocatingCall) : Prop :=
  ∃ error, error.IsCapacity ∧ manager.apply call.op = (.error error,
    { manager with allocationFailureCount := manager.allocationFailureCount + 1 })

/-- The call succeeds, or throws another exception and changes nothing. -/
def Uncounted (manager : KVCacheManager) (call : AllocatingCall) : Prop :=
  ∀ error, (manager.apply call.op).1 = .error error →
    ¬ error.IsCapacity ∧ (manager.apply call.op).2 = manager

/-- The failures are classified: exactly a valid call that lacks blocks is counted, and any other
exception is no capacity error and changes nothing. -/
def Classified (manager : KVCacheManager) (call : AllocatingCall) : Prop :=
  (call.Counted manager ↔ call.WellFormed manager ∧ call.Exceeds manager) ∧
    (¬ (call.WellFormed manager ∧ call.Exceeds manager) → call.Uncounted manager)

/-- The checks that a call makes before it tests the capacity: a prefix call only compares the
ids and the token count of the lookup. -/
def Checked (manager : KVCacheManager) : AllocatingCall → Prop
  | .allocatePromptWithPrefix _ tokens lookup _ => ∃ actual,
      manager.findLongestCachedPrefix tokens = .ok actual ∧
        actual.physicalBlockIds = lookup.physicalBlockIds ∧
        actual.matchedTokenCount = lookup.matchedTokenCount
  | call => call.WellFormed manager

/-- An invalid call that the capacity test sees first. -/
def Misjudged (manager : KVCacheManager) (call : AllocatingCall) : Prop :=
  call.Checked manager ∧ call.Exceeds manager ∧ ¬ call.WellFormed manager

theorem WellFormed.checked {manager : KVCacheManager} {call : AllocatingCall}
    (wellFormed : call.WellFormed manager) : call.Checked manager := by
  cases call with
  | allocatePromptWithPrefix => exact ⟨_, wellFormed.2.2, rfl, rfl⟩
  | allocatePrompt | appendDecodeToken => exact wellFormed

/-! ## What the calls do -/

/-- The failures follow the checks that the call makes before the capacity test. -/
structure Judged (manager : KVCacheManager) (call : AllocatingCall) : Prop where
  counted : call.Checked manager → call.Exceeds manager → call.Counted manager
  uncounted : ¬ (call.Checked manager ∧ call.Exceeds manager) → call.Uncounted manager

variable {manager : KVCacheManager} {call : AllocatingCall}

/-- A call that fails one of its checks. -/
theorem Judged.refused {error : Exn} (result : manager.apply call.op = (.error error, manager))
    (harmless : ¬ error.IsCapacity) (unchecked : ¬ call.Checked manager) : call.Judged manager := by
  refine ⟨fun checked => absurd checked unchecked, fun _ other raised => ?_⟩
  rw [result] at raised ⊢
  cases raised
  exact ⟨harmless, rfl⟩

/-- A call that passes its checks and lacks blocks. -/
theorem Judged.short {message : String} (result : manager.apply call.op =
      manager.failAllocation message) (quiet : call.Quiet manager) (checked : call.Checked manager)
    (exceeds : call.Exceeds manager) : call.Judged manager := by
  refine ⟨fun _ _ => ?_, fun fits => absurd ⟨checked, exceeds⟩ fits⟩
  unfold Quiet at quiet
  unfold Counted
  rw [result] at quiet ⊢
  unfold failAllocation at quiet ⊢
  have counts := inc_ensures manager.allocationFailureCount "KV allocation failure count overflow"
  cases count : inc manager.allocationFailureCount "KV allocation failure count overflow" with
  | error error =>
      rw [count] at quiet counts
      exact absurd counts (quiet error rfl)
  | ok total =>
      rw [count] at counts
      obtain rfl : total = manager.allocationFailureCount + 1 := counts
      exact ⟨.kvCapacityError message, True.intro, rfl⟩

/-- A call that has the blocks it needs and runs its exact form. -/
theorem Judged.planned {copy : Except Exn KVCacheManager}
    (result : manager.apply call.op = manager.commit copy) (fits : ¬ call.Exceeds manager)
    (roomy : Roomy copy) : call.Judged manager := by
  refine ⟨fun _ exceeds => absurd exceeds fits, fun _ error raised => ?_⟩
  rw [result] at raised ⊢
  cases copy with
  | error other =>
      cases raised
      exact ⟨roomy, rfl⟩
  | ok next => cases raised

/-- A prompt counts exactly its capacity failures. -/
theorem allocatePrompt_judged (sound : manager.Sound)
    (idle : manager.prefixConfig.enabled = false → manager.cachedIds = []) {id : RequestId}
    {tokens : Nat} (quiet : (allocatePrompt id tokens).Quiet manager) :
    (allocatePrompt id tokens).Judged manager := by
  have cached : manager.eligibleEvictionOrder.length = manager.cachedIds.length :=
    (eligibleEvictionOrder_perm sound.blockIds).length_eq
  have result : manager.apply (allocatePrompt id tokens).op = manager.allocatePrompt id tokens := rfl
  unfold KVCacheManager.allocatePrompt at result
  rw [if_neg (by simp [validateInvariants_iff.mpr sound.valid])] at result
  by_cases known : manager.blockTables.contains id = true
  · rw [if_pos known] at result
    refine .refused result not_false fun unknown => ?_
    have unknown : manager.blockTables.find? id = none := unknown
    rw [OrdMap.contains_eq_false_iff.mpr unknown] at known
    cases known
  have unknown : manager.blockTables.find? id = none :=
    OrdMap.contains_eq_false_iff.mp (by simpa using known)
  rw [if_neg known] at result
  have demand := @KVCacheConfig.blocksRequired_ensures manager.config tokens
  cases counted : manager.config.blocksRequired tokens with
  | error error =>
      rw [counted] at result demand
      exact absurd demand (quiet error (by rw [result]))
  | ok required =>
      rw [counted] at result demand
      obtain rfl : required = manager.config.demand tokens := demand
      dsimp only at result
      have evictable : (if manager.prefixConfig.enabled = true then
          manager.eligibleEvictionOrder.length else 0) = manager.cachedIds.length := by
        split
        · exact cached
        · next off => rw [idle (by simpa using off), List.length_nil]
      rw [evictable] at result
      split at result
      · next short => exact .short result quiet unknown short
      · next enough =>
          refine .planned result enough (allocatePromptExact_roomy ?_)
          rw [cached]
          omega

/-- With a lookup that agrees with the current one in its ids and its token count, a prefix call
lacks blocks or runs its exact form. -/
theorem allocatePromptWithPrefix_eq (sound : manager.Sound) {id : RequestId} {tokens : List Token}
    {lookup actual : PrefixLookupResult} {protectedBlocks : OrdSet Nat}
    (current : manager.findLongestCachedPrefix tokens = .ok actual)
    (ids : actual.physicalBlockIds = lookup.physicalBlockIds)
    (count : actual.matchedTokenCount = lookup.matchedTokenCount)
    (quiet : (allocatePromptWithPrefix id tokens lookup protectedBlocks).Quiet manager) :
    let victims := manager.eligibleEvictionOrder.filter fun x =>
      ¬ (x ∈ protectedBlocks ∨ x ∈ actual.physicalBlockIds)
    let required := manager.config.demand (tokens.length - actual.matchedTokenCount)
    let evictions := victims.take (required - manager.freeBlocks.size)
    manager.allocatePromptWithPrefix id tokens lookup protectedBlocks =
      if required - manager.freeBlocks.size > victims.length then
        manager.failAllocation "insufficient KV capacity for prefix suffix"
      else manager.commit (manager.allocatePromptWithPrefixExact id tokens lookup evictions
        (lowestAvailable manager.freeBlocks evictions required)) := by
  have raised : ∀ error, (manager.allocatePromptWithPrefix id tokens lookup protectedBlocks).1 =
      .error error → ¬ error.IsOverflow := quiet
  unfold KVCacheManager.allocatePromptWithPrefix at raised ⊢
  rw [if_neg (by simp [validateInvariants_iff.mpr sound.valid]), current] at raised ⊢
  dsimp only at raised ⊢
  rw [if_neg (by simp [ids, count])] at raised ⊢
  have demand := @KVCacheConfig.blocksRequired_ensures manager.config
    (tokens.length - actual.matchedTokenCount)
  cases counted : manager.config.blocksRequired (tokens.length - actual.matchedTokenCount) with
  | error error =>
      rw [counted] at raised demand
      exact absurd demand (raised error rfl)
  | ok required =>
      rw [counted] at demand
      obtain rfl : required = manager.config.demand _ := demand
      rfl

/-- The blocks the call may evict and those it needs, by the current lookup. -/
theorem exceeds_iff (sound : manager.Sound) {id : RequestId} {tokens : List Token}
    {lookup actual : PrefixLookupResult} {protectedBlocks : OrdSet Nat}
    (current : manager.findLongestCachedPrefix tokens = .ok actual) :
    (allocatePromptWithPrefix id tokens lookup protectedBlocks).Exceeds manager ↔
      manager.config.demand (tokens.length - actual.matchedTokenCount) - manager.freeBlocks.size >
        (manager.eligibleEvictionOrder.filter fun x =>
          ¬ (x ∈ protectedBlocks ∨ x ∈ actual.physicalBlockIds)).length := by
  have lists := ((eligibleEvictionOrder_perm sound.blockIds).filter fun x =>
    ¬ (x ∈ protectedBlocks ∨ x ∈ actual.physicalBlockIds)).length_eq
  unfold Exceeds evictable needed
  dsimp only
  rw [currentLookup_eq current]
  omega

/-- The exact form protects no block, so it sees at least as many victims. -/
theorem length_unprotected_le (protectedBlocks : OrdSet Nat) (matched : List Nat) :
    (manager.eligibleEvictionOrder.filter fun x => ¬ (x ∈ protectedBlocks ∨ x ∈ matched)).length ≤
      (manager.evictableOutside matched).length := by
  refine (List.monotone_filter_right _ fun x kept => ?_).length_le
  simp only [decide_eq_true_eq] at kept ⊢
  exact fun hit => kept (Or.inr hit)

/-- A prompt with a prefix counts a shortage of blocks before it checks anything else. -/
theorem allocatePromptWithPrefix_judged (sound : manager.Sound) {id : RequestId}
    {tokens : List Token} {lookup : PrefixLookupResult} {protectedBlocks : OrdSet Nat}
    (quiet : (allocatePromptWithPrefix id tokens lookup protectedBlocks).Quiet manager) :
    (allocatePromptWithPrefix id tokens lookup protectedBlocks).Judged manager := by
  have result : manager.apply (allocatePromptWithPrefix id tokens lookup protectedBlocks).op =
    manager.allocatePromptWithPrefix id tokens lookup protectedBlocks := rfl
  have found := findLongestCachedPrefix_roomy sound tokens
  cases current : manager.findLongestCachedPrefix tokens with
  | error error =>
      unfold KVCacheManager.allocatePromptWithPrefix at result
      rw [if_neg (by simp [validateInvariants_iff.mpr sound.valid]), current] at result
      rw [current] at found
      refine .refused result found ?_
      rintro ⟨actual, same, -⟩
      rw [current] at same
      cases same
  | ok actual =>
      by_cases agrees : actual.physicalBlockIds = lookup.physicalBlockIds ∧
          actual.matchedTokenCount = lookup.matchedTokenCount
      · obtain ⟨ids, count⟩ := agrees
        have exceeds := @exceeds_iff _ sound id tokens lookup actual protectedBlocks current
        rw [allocatePromptWithPrefix_eq sound current ids count quiet] at result
        split at result
        · next short =>
            exact .short result quiet ⟨actual, current, ids, count⟩ (exceeds.mpr short)
        · next enough =>
            refine .planned result (exceeds.not.mpr enough)
              (allocatePromptWithPrefixExact_roomy sound fun other same => ?_)
            rw [current, Except.ok.injEq] at same
            subst same
            exact (not_lt.mp enough).trans (length_unprotected_le protectedBlocks _)
      · unfold KVCacheManager.allocatePromptWithPrefix at result
        rw [if_neg (by simp [validateInvariants_iff.mpr sound.valid]), current] at result
        dsimp only at result
        rw [if_pos (by rwa [← not_and_or])] at result
        refine .refused result not_false ?_
        rintro ⟨other, same, both⟩
        rw [current, Except.ok.injEq] at same
        subst same
        exact agrees both

/-- A decode append counts exactly its capacity failures. -/
theorem appendDecodeToken_judged (sound : manager.Sound) {id : RequestId}
    (quiet : (appendDecodeToken id).Quiet manager) : (appendDecodeToken id).Judged manager := by
  have cached : manager.eligibleEvictionOrder.length = manager.cachedIds.length :=
    (eligibleEvictionOrder_perm sound.blockIds).length_eq
  have result : manager.apply (appendDecodeToken id).op = manager.appendDecodeToken id := rfl
  unfold KVCacheManager.appendDecodeToken at result
  rw [if_neg (by simp [validateInvariants_iff.mpr sound.valid])] at result
  by_cases unknown : manager.blockTables.contains id = false
  · rw [if_pos unknown] at result
    refine .refused result not_false ?_
    rintro ⟨table, found⟩
    rw [OrdMap.contains_eq_false_iff, found] at unknown
    cases unknown
  obtain ⟨table, found⟩ := OrdMap.contains_iff.mp (Bool.not_eq_false _ ▸ unknown)
  rw [if_neg unknown] at result
  by_cases full : manager.representedTokenCount = uint64Max
  · rw [if_pos full] at result
    exact (quiet (.overflowError "represented KV token count overflow") (by rw [result])
      True.intro).elim
  rw [if_neg full] at result
  have epochs : Ensures Exn.IsOverflow _ manager.nextAccessEpoch := inc_ensures _ _
  cases epoch : manager.nextAccessEpoch with
  | error error =>
      rw [epoch] at result epochs
      exact absurd epochs (quiet error (by rw [result]))
  | ok _ =>
      obtain ⟨newBlock, decided, -⟩ := decodeRequiresNewBlock_eq sound found
      rw [epoch, decided] at result
      dsimp only at result
      cases newBlock with
      | false =>
          refine .planned result ?_ (appendDecodeTokenExact_roomy fun other same => ?_)
          · unfold Exceeds needed
            dsimp only
            rw [decided, if_neg (by simp)]
            omega
          · rw [decided, Except.ok.injEq] at same
            subst same
            exact ⟨_, rfl⟩
      | true =>
          have needs : (appendDecodeToken id).needed manager = 1 := by
            unfold needed
            dsimp only
            rw [decided, if_pos rfl]
          have open' : (appendDecodeToken id).evictable manager = manager.cachedIds := rfl
          by_cases none : manager.freeBlocks.size = 0 ∧ manager.eligibleEvictionOrder = []
          · have failed : manager.decodePlan true =
                .error (.kvCapacityError "insufficient KV capacity for decode token") := if_pos none
            rw [failed] at result
            refine .short result quiet ⟨table, found⟩ ?_
            rw [none.2, List.length_nil] at cached
            unfold Exceeds
            rw [needs, open']
            omega
          · have plan : ∃ plan, manager.decodePlan true = .ok plan :=
              ⟨_, (if_neg none : manager.decodePlan true = _)⟩
            obtain ⟨⟨evictions, allocation⟩, planned⟩ := plan
            rw [planned] at result
            refine .planned result ?_ (appendDecodeTokenExact_roomy fun other same => ?_)
            · unfold Exceeds
              rw [needs, open', ← cached]
              intro short
              refine none ⟨by omega, List.length_eq_zero_iff.mp (by omega)⟩
            · rw [decided, Except.ok.injEq] at same
              subst same
              exact ⟨_, planned⟩

/-- Any allocating call. -/
theorem judged (sound : manager.Sound)
    (idle : manager.prefixConfig.enabled = false → manager.cachedIds = [])
    (quiet : call.Quiet manager) : call.Judged manager := by
  cases call with
  | allocatePrompt => exact allocatePrompt_judged sound idle quiet
  | allocatePromptWithPrefix => exact allocatePromptWithPrefix_judged sound quiet
  | appendDecodeToken => exact appendDecodeToken_judged sound quiet

/-- In every reachable state, unless a counter overflows, the failures of a call are classified as
documented exactly when it is not an invalid prefix call that the capacity test sees first. -/
theorem reach_classified_iff (config : KVCacheConfig) (prefixConfig : PrefixCacheConfig)
    (hashFunction : PrefixHashFunction) (ops : List KVOp) (call : AllocatingCall)
    (quiet : call.Quiet (reach config prefixConfig hashFunction ops)) :
    call.Classified (reach config prefixConfig hashFunction ops) ↔
      ¬ call.Misjudged (reach config prefixConfig hashFunction ops) := by
  obtain ⟨sound, setup⟩ := @reach_sound config prefixConfig hashFunction ops
  have idle : (reach config prefixConfig hashFunction ops).prefixConfig.enabled = false →
      (reach config prefixConfig hashFunction ops).cachedIds = [] := fun disabled => by
    rw [setup.prefixConfig] at disabled
    refine List.eq_nil_iff_forall_not_mem.mpr fun x member => ?_
    exact sound.cached (mem_cachedIds.mp member) (reach_unkeyed disabled ops x)
  generalize reach config prefixConfig hashFunction ops = manager at *
  have judged := judged sound idle quiet
  have alone : call.Counted manager → ¬ call.Uncounted manager := by
    rintro ⟨error, capacity, result⟩ uncounted
    exact (uncounted error (by rw [result])).1 capacity
  constructor
  · rintro ⟨counted, -⟩ ⟨checked, exceeds, invalid⟩
    exact invalid (counted.mp (judged.counted checked exceeds)).1
  · intro fair
    have same : call.Checked manager ∧ call.Exceeds manager →
        call.WellFormed manager ∧ call.Exceeds manager := fun holds => by
      by_contra invalid
      exact fair ⟨holds.1, holds.2, fun wellFormed => invalid ⟨wellFormed, holds.2⟩⟩
    refine ⟨⟨fun counted => same ?_, fun holds => judged.counted holds.1.checked holds.2⟩,
      fun fits => judged.uncounted fun holds => fits (same holds)⟩
    by_contra fits
    exact alone counted (judged.uncounted fits)

/-- One block of one token, taken by request 1. -/
def fullPool : KVCacheManager :=
  reach (.small 1 1) { enabled := true } (fun key => key.parentHash + 1)
    [.allocatePrompt 1 1]

/-- The same request again, with the current lookup of its prompt: a duplicate id. -/
def duplicateCall : AllocatingCall := .allocatePromptWithPrefix 1 [7] (fullPool.currentLookup [7])
  OrdSet.empty

/-- The duplicate id is reported, and counted, as a lack of blocks. -/
theorem duplicate_misjudged : duplicateCall.Quiet fullPool ∧ ¬ duplicateCall.Classified fullPool := by
  have answer : (fullPool.apply duplicateCall.op).1 =
      .error (.kvCapacityError "insufficient KV capacity for prefix suffix") := by decide +kernel
  refine ⟨fun error raised => ?_, fun classified => ?_⟩
  · rw [answer] at raised
    cases raised
    exact not_false
  · have known : fullPool.blockTables.find? 1 ≠ none := by decide +kernel
    have uncounted := classified.2 fun holds => known holds.1.1
    exact (uncounted _ answer).1 True.intro

/-- A new request that lacks a block is classified as documented. -/
theorem reach_classified_new :
    (allocatePrompt 2 1).Classified fullPool ↔ ¬ (allocatePrompt 2 1).Misjudged fullPool := by
  refine reach_classified_iff _ _ _ _ (allocatePrompt 2 1) fun error raised => ?_
  have answer : (fullPool.apply (allocatePrompt 2 1).op).1 =
      .error (.kvCapacityError "insufficient KV capacity for prompt") := by decide +kernel
  have same : Except.error (.kvCapacityError "insufficient KV capacity for prompt") =
      (Except.error error : Except Exn Unit) := answer.symm.trans raised
  cases same
  exact not_false

end AllocatingCall

end LlmLab.Serving
