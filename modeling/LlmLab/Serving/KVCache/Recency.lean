import LlmLab.Serving.KVCache.Client

/-!
# The eviction order is the order of last use

A ghost numbers the operations of a run and notes, for every block, the last one that acquired it
by a prefix hit or published it.  The epochs of the keyed blocks rank these operations, so the
eviction order lists the cached blocks by last use, and no operation reorders blocks that stay
cached.
-/

namespace LlmLab.Serving

open KVCacheManager

/-- Whether an event is an exact prompt, which may hit cached blocks. -/
def KVEvent.isExactPrompt : KVEvent → Bool
  | .exactPrompt _ _ => true
  | _ => false

/-- The last use of a block: the number of the operation, and whether it was a prefix hit. -/
structure Touch where
  operation : Nat
  hit : Bool
deriving DecidableEq

/-- The number of operations so far and the last use of every block. -/
structure Recency where
  clock : Nat
  last : Nat → Option Touch

namespace Recency

/-- Nothing has happened. -/
def start : Recency := ⟨0, fun _ => none⟩

/-- A successful operation acquires the block by a prefix hit, or publishes it. -/
def Touches (before after : KVCacheManager) : KVEvent → Nat → Prop
  | .exactPrompt _ tokens, x => x ∈ (before.currentLookup tokens).physicalBlockIds
  | .publish _, x => (before.block x).prefixKey = none ∧ (after.block x).prefixKey ≠ none
  | _, _ => False

instance (before after : KVCacheManager) (event : KVEvent) (x : Nat) :
    Decidable (Touches before after event x) := by
  cases event <;> unfold Touches <;> infer_instance

/-- The last uses after a successful operation. -/
def record (recency : Recency) (before after : KVCacheManager) (event : KVEvent) : Recency where
  clock := recency.clock + 1
  last x :=
    if Touches before after event x then some ⟨recency.clock, event.isExactPrompt⟩
    else recency.last x

/-- The ghost: a failed operation is counted and uses nothing. -/
def observe (recency : Recency) (before : KVCacheManager) (op : KVOp) :
    Except Exn Unit → Recency
  | .ok () => recency.record before (before.apply op).2 op.event
  | .error _ => { recency with clock := recency.clock + 1 }

end Recency

namespace KVCacheManager

variable {manager next : KVCacheManager} {recency : Recency} {event : KVEvent} {id : RequestId}
  {tokens : List Token} {table : List Nat} {p : RequestKVPromptProvenance} {x y : Nat}

/-! ## The eviction order, by pairs -/

/-- One cached block precedes another exactly when its epoch, then its id, is the smaller one. -/
theorem precedes_iff (ids : ∀ x < manager.blocks.length, (manager.block x).blockId = x) :
    [x, y].Sublist manager.eligibleEvictionOrder ↔
      (manager.block x).state = .cached ∧ (manager.block y).state = .cached ∧
        toLex ((manager.block x).lastAccessEpoch, x) <
          toLex ((manager.block y).lastAccessEpoch, y) := by
  constructor
  · intro before
    have first := before.subset List.mem_cons_self
    have second := before.subset (List.mem_cons_of_mem x List.mem_cons_self)
    rw [mem_eligibleEvictionOrder ids] at first second
    have apart : x ≠ y := by
      have nodup := (eligibleEvictionOrder_nodup ids).sublist before
      simpa using nodup
    rw [eligibleEvictionOrder_eq ids] at before
    have sorted := List.pairwise_iff_forall_sublist.mp (sortBy_sorted _ manager.cachedIds) before
    refine ⟨first, second, lt_of_le_of_ne sorted fun same => apart ?_⟩
    exact congrArg (fun pair => (ofLex pair).2) same
  · rintro ⟨first, second, less⟩
    rw [eligibleEvictionOrder_eq ids]
    exact pair_sublist_sortBy (mem_cachedIds.mpr first) (mem_cachedIds.mpr second) less

/-! ## What an operation does to a keyed block -/

/-- The blocks one publication has keyed have different epochs. -/
theorem Unpublished.epochs (request : manager.Unpublished id tokens table p)
    (sound : manager.Sound) {i : Nat} (le : i ≤ p.cacheEligibleFullPromptBlocks)
    (apart : x ≠ y) (unkeyedX : (manager.block x).prefixKey = none)
    (unkeyedY : (manager.block y).prefixKey = none)
    (keyedX : ((manager.publishedUpTo tokens table p.matchedSharedPrefixBlocks i).block x).prefixKey
      ≠ none)
    (keyedY : ((manager.publishedUpTo tokens table p.matchedSharedPrefixBlocks i).block y).prefixKey
      ≠ none) :
    ((manager.publishedUpTo tokens table p.matchedSharedPrefixBlocks i).block x).lastAccessEpoch ≠
      ((manager.publishedUpTo tokens table p.matchedSharedPrefixBlocks i).block y).lastAccessEpoch
      := by
  induction i with
  | zero => exact absurd unkeyedX keyedX
  | succ i ih =>
      have full : i < p.cacheEligibleFullPromptBlocks := le
      have walk := request.walk sound full.le
      have earlier := ih full.le
      rw [publishedUpTo_succ] at keyedX keyedY ⊢
      generalize manager.publishedUpTo tokens table p.matchedSharedPrefixBlocks i = state at *
      split at keyedX
      · next publishes =>
          rw [if_pos publishes] at keyedY ⊢
          have inside : table.getD i 0 < state.blocks.length := walk.length ▸
            request.entry.inside _ (List.mem_of_getElem? (request.at_full full))
          have written : ∀ z, (state.publishPosition (manager.chainKey tokens i)
              (table.getD i 0)).block z = if z = table.getD i 0 then
                { state.block (table.getD i 0) with
                  prefixKey := some (manager.chainKey tokens i), owner := none
                  lastAccessEpoch := state.accessEpoch + 1 }
              else state.block z := fun z => block_modifyBlock inside _ z
          have old : ∀ z, (manager.block z).prefixKey = none → (state.block z).prefixKey ≠ none →
              (state.block z).lastAccessEpoch ≤ state.accessEpoch := fun z unkeyed keyed => by
            rcases walk.block z with same | ⟨j, e, -, -, -, -, -, le, eq⟩
            · exact absurd (same ▸ unkeyed) keyed
            · rw [eq]
              exact le
          rw [written] at keyedX keyedY
          rw [written, written]
          by_cases hereX : x = table.getD i 0
          · rw [if_pos hereX, if_neg (hereX ▸ apart.symm)]
            rw [if_neg (hereX ▸ apart.symm)] at keyedY
            have := old y unkeyedY keyedY
            dsimp only
            omega
          · rw [if_neg hereX] at keyedX ⊢
            split
            · have := old x unkeyedX keyedX
              dsimp only
              omega
            · next hereY =>
                rw [if_neg hereY] at keyedY
                exact earlier keyedX keyedY
      · next skips =>
          rw [if_neg skips] at keyedY ⊢
          exact earlier keyedX keyedY

/-- A block keyed afterwards was keyed before and keeps its epoch, or was just used and has a
later epoch than any block before. -/
theorem Effect.keyed_next (effect : Effect manager next event) (sound : manager.Sound)
    (keyed : (next.block x).prefixKey ≠ none) :
    (¬ Recency.Touches manager next event x ∧ (manager.block x).prefixKey ≠ none ∧
        (next.block x).lastAccessEpoch = (manager.block x).lastAccessEpoch) ∨
      (Recency.Touches manager next event x ∧
        manager.accessEpoch < (next.block x).lastAccessEpoch) := by
  -- A block that keeps its key and its epoch is not touched unless the event says so.
  have granted : ∀ {g : Grant}, g.Serves manager → manager.Allocated g next → x ∉ g.matched →
      (manager.block x).prefixKey ≠ none ∧
        (next.block x).lastAccessEpoch = (manager.block x).lastAccessEpoch := by
    intro g serves allocated unmatched
    have keys := allocated.key serves sound x
    have notVictim : x ∉ g.victims := fun victim => by
      rw [if_pos victim] at keys
      exact keyed keys
    rw [if_neg notVictim] at keys
    have notFresh : x ∉ g.fresh := fun fresh => by
      obtain ⟨i, found⟩ := List.mem_iff_getElem?.mp fresh
      rw [allocated.written i x found] at keyed
      exact keyed rfl
    rw [allocated.outside x unmatched notVictim notFresh] at keyed ⊢
    exact ⟨keyed, rfl⟩
  cases effect with
  | countPrompt _ served =>
      exact Or.inl ⟨id, granted served.serves served.effect List.not_mem_nil⟩
  | @exactPrompt _ _ _ actual _ _ plan _ served =>
      have current := currentLookup_eq plan.current
      by_cases matched : x ∈ actual.physicalBlockIds
      · refine Or.inr ⟨(congrArg (x ∈ ·.physicalBlockIds) current).mpr matched, ?_⟩
        rw [served.effect.acquired x matched]
        change manager.accessEpoch < manager.accessEpoch +
          if actual.physicalBlockIds = [] then 0 else 1
        rw [if_neg (List.ne_nil_of_mem matched)]
        exact Nat.lt_succ_self _
      · exact Or.inl ⟨fun hit => matched ((congrArg (x ∈ ·.physicalBlockIds) current).mp hit),
          granted served.serves served.effect matched⟩
  | published _ _ published =>
      rcases published.block x with same | ⟨j, e, -, -, -, unkeyed, later, -, eq⟩
      · rw [same] at keyed ⊢
        exact Or.inl ⟨fun touched => keyed touched.1, keyed, rfl⟩
      · exact Or.inr ⟨⟨unkeyed, keyed⟩, by rw [eq]; exact later⟩
  | republished _ _ same =>
      subst same
      exact Or.inl ⟨fun touched => keyed touched.1, keyed, rfl⟩
  | appended _ appended =>
      refine Or.inl ⟨id, ?_⟩
      cases appended with
      | @grown _ last _ _ grown =>
          rw [grown.block sound] at keyed ⊢
          split at keyed
          · exact absurd grown.unkeyed keyed
          · next apart =>
              rw [if_neg apart]
              exact ⟨keyed, rfl⟩
      | @extended _ taken _ _ extended _ =>
          have keys := extended.key sound x
          split at keys
          · exact absurd keys keyed
          · next notVictim =>
              have apart : x ≠ taken := by
                rintro rfl
                rw [extended.written] at keyed
                exact keyed rfl
              rw [extended.outside x notVictim apart] at keyed ⊢
              exact ⟨keyed, rfl⟩
  | released released =>
      refine Or.inl ⟨id, ?_⟩
      have carries := released.key x ▸ keyed
      refine ⟨carries, ?_⟩
      rw [released.block]
      unfold droppedBlock
      have isSome := Option.isSome_iff_ne_none.mpr carries
      split
      · split
        · rfl
        · rfl
      · rfl
  | evicted _ evicted =>
      rw [evicted.block] at keyed ⊢
      split at keyed
      · exact absurd rfl keyed
      · next kept =>
          rw [if_neg kept]
          exact Or.inl ⟨id, keyed, rfl⟩

/-- Two blocks used by one operation share an epoch only if it was a prefix hit. -/
theorem Effect.hit_of_tie (effect : Effect manager next event) (sound : manager.Sound)
    (apart : x ≠ y) (first : Recency.Touches manager next event x)
    (second : Recency.Touches manager next event y)
    (tie : (next.block x).lastAccessEpoch = (next.block y).lastAccessEpoch) :
    event.isExactPrompt = true := by
  cases effect with
  | exactPrompt => rfl
  | countPrompt | appended | released | evicted => exact first.elim
  | republished _ _ same =>
      subst same
      exact absurd first.1 first.2
  | @published _ _ p _ plan notYet published =>
      obtain ⟨p', recorded, entry⟩ := sound.valid.entries _ _ plan.table
      rw [plan.record, Option.some.injEq] at recorded
      subst recorded
      have request : manager.Unpublished _ _ _ p :=
        ⟨plan.table, plan.record, plan.exact, notYet, entry⟩
      have exact := published.exact
      subst exact
      exact absurd tie (request.epochs sound le_rfl apart first.1 second.1 first.2 second.2)

/-! ## The ranking -/

/-- The epochs of the keyed blocks rank their last uses. -/
structure Ranked (recency : Recency) (manager : KVCacheManager) : Prop where
  used : ∀ x, (manager.block x).prefixKey ≠ none →
    ∃ touch, recency.last x = some touch ∧ touch.operation < recency.clock
  later : ∀ x y a b, (manager.block x).prefixKey ≠ none → (manager.block y).prefixKey ≠ none →
    recency.last x = some a → recency.last y = some b → a.operation < b.operation →
      (manager.block x).lastAccessEpoch < (manager.block y).lastAccessEpoch
  tied : ∀ x y, x ≠ y → (manager.block x).prefixKey ≠ none → (manager.block y).prefixKey ≠ none →
    (manager.block x).lastAccessEpoch = (manager.block y).lastAccessEpoch →
      recency.last x = recency.last y ∧ ∃ touch, recency.last x = some touch ∧ touch.hit = true

theorem Sound.epoch_le (sound : manager.Sound) (keyed : (manager.block x).prefixKey ≠ none) :
    (manager.block x).lastAccessEpoch ≤ manager.accessEpoch := by
  obtain ⟨key, carries⟩ := Option.ne_none_iff_exists'.mp keyed
  obtain ⟨-, -, e, _, -, le, -, shape⟩ := sound.valid.blocks.keyed_shape carries
  have shape' : manager.block x = _ := shape
  rw [shape']
  exact le

theorem start_ranked (config : KVCacheConfig) (prefixConfig : PrefixCacheConfig)
    (hashFunction : PrefixHashFunction) :
    Ranked Recency.start (create config prefixConfig hashFunction) := by
  have unkeyed : ∀ x, ((create config prefixConfig hashFunction).block x).prefixKey = none :=
    fun x => by rw [block_create]
  exact ⟨fun x keyed => absurd (unkeyed x) keyed, fun x _ _ _ keyed => absurd (unkeyed x) keyed,
    fun x _ _ keyed => absurd (unkeyed x) keyed⟩

/-- A failed operation only moves the clock. -/
theorem Ranked.failed (ranked : Ranked recency manager) (count : Nat) :
    Ranked { recency with clock := recency.clock + 1 }
      { manager with allocationFailureCount := count } := by
  refine ⟨fun x keyed => ?_, ranked.later, ranked.tied⟩
  obtain ⟨touch, last, before⟩ := ranked.used x keyed
  exact ⟨touch, last, Nat.lt_succ_of_lt before⟩

/-- What is used now ranks above everything used before. -/
theorem Ranked.record (ranked : Ranked recency manager) (effect : Effect manager next event)
    (sound : manager.Sound) : Ranked (recency.record manager next event) next := by
  have last : ∀ x, (recency.record manager next event).last x =
      if Recency.Touches manager next event x then some ⟨recency.clock, event.isExactPrompt⟩
      else recency.last x := fun x => rfl
  refine ⟨fun x keyed => ?_, fun x y a b keyedX keyedY lastX lastY before => ?_,
    fun x y apart keyedX keyedY tie => ?_⟩
  · rw [last]
    rcases effect.keyed_next sound keyed with ⟨untouched, keyedBefore, -⟩ | ⟨touched, -⟩
    · obtain ⟨touch, found, earlier⟩ := ranked.used x keyedBefore
      exact ⟨touch, by rw [if_neg untouched, found], Nat.lt_succ_of_lt earlier⟩
    · exact ⟨_, if_pos touched, Nat.lt_succ_self _⟩
  · rw [last] at lastX lastY
    rcases effect.keyed_next sound keyedX with ⟨oldX, wasX, sameX⟩ | ⟨newX, -⟩
    · rw [if_neg oldX] at lastX
      rw [sameX]
      rcases effect.keyed_next sound keyedY with ⟨oldY, wasY, sameY⟩ | ⟨newY, aboveY⟩
      · rw [if_neg oldY] at lastY
        rw [sameY]
        exact ranked.later x y a b wasX wasY lastX lastY before
      · exact (sound.epoch_le wasX).trans_lt aboveY
    · -- Nothing is used after the present operation.
      rw [if_pos newX, Option.some.injEq] at lastX
      subst lastX
      rcases effect.keyed_next sound keyedY with ⟨oldY, wasY, -⟩ | ⟨newY, -⟩
      · obtain ⟨touch, found, earlier⟩ := ranked.used y wasY
        rw [if_neg oldY, found, Option.some.injEq] at lastY
        subst lastY
        exact absurd before earlier.asymm
      · rw [if_pos newY, Option.some.injEq] at lastY
        subst lastY
        exact absurd before (lt_irrefl _)
  · rw [last, last]
    rcases effect.keyed_next sound keyedX with ⟨oldX, wasX, sameX⟩ | ⟨newX, aboveX⟩
    · rcases effect.keyed_next sound keyedY with ⟨oldY, wasY, sameY⟩ | ⟨newY, aboveY⟩
      · rw [if_neg oldX, if_neg oldY]
        exact ranked.tied x y apart wasX wasY (by rw [← sameX, tie, sameY])
      · have := sound.epoch_le wasX
        omega
    · rcases effect.keyed_next sound keyedY with ⟨oldY, wasY, sameY⟩ | ⟨newY, aboveY⟩
      · have := sound.epoch_le wasY
        omega
      · rw [if_pos newX, if_pos newY]
        exact ⟨rfl, _, rfl, effect.hit_of_tie sound apart newX newY tie⟩

/-! ## Runs -/

/-- The manager together with the last uses of its blocks. -/
def recencyMachine : Machine (Recency × KVCacheManager) KVOp (Except Exn Unit) :=
  machine.observed Recency.observe

/-- The last uses and the manager after a list of operations, from construction. -/
def reachRecency (config : KVCacheConfig) (prefixConfig : PrefixCacheConfig)
    (hashFunction : PrefixHashFunction) (ops : List KVOp) : Recency × KVCacheManager :=
  recencyMachine.run (Recency.start, create config prefixConfig hashFunction) ops

theorem next_ranked {state : Recency × KVCacheManager}
    (holds : state.2.Sound ∧ Ranked state.1 state.2) (op : KVOp) :
    (recencyMachine.next state op).2.Sound ∧
      Ranked (recencyMachine.next state op).1 (recencyMachine.next state op).2 := by
  obtain ⟨recency, manager⟩ := state
  obtain ⟨sound, ranked⟩ := holds
  have outcome := apply_outcome sound op
  change (manager.apply op).2.Sound ∧
    Ranked (recency.observe manager op (manager.apply op).1) (manager.apply op).2
  unfold Recency.observe
  generalize manager.apply op = result at outcome ⊢
  cases outcome with
  | succeeded effect after => exact ⟨after, ranked.record effect sound⟩
  | failed => exact ⟨sound.failed _, ranked.failed _⟩

theorem reachRecency_ranked (config : KVCacheConfig) (prefixConfig : PrefixCacheConfig)
    (hashFunction : PrefixHashFunction) (ops : List KVOp) :
    (reachRecency config prefixConfig hashFunction ops).2.Sound ∧
      Ranked (reachRecency config prefixConfig hashFunction ops).1
        (reachRecency config prefixConfig hashFunction ops).2 :=
  @Machine.run_invariant _ _ _ recencyMachine (fun state => state.2.Sound ∧ Ranked state.1 state.2)
    (fun _ op holds => next_ranked holds op) _ ops
    ⟨create_sound, start_ranked config prefixConfig hashFunction⟩

/-- A block that stays cached is not written. -/
theorem Effect.cached_both (effect : Effect manager next event) (sound : manager.Sound)
    (after : next.Sound) (before : (manager.block x).state = .cached)
    (cached : (next.block x).state = .cached) :
    (next.block x).lastAccessEpoch = (manager.block x).lastAccessEpoch := by
  rcases effect.keyed_next sound (after.cached cached) with ⟨-, -, same⟩ | ⟨touched, -⟩
  · exact same
  · cases effect with
    | @exactPrompt _ _ _ actual _ _ plan _ served =>
        have matched := (congrArg (x ∈ ·.physicalBlockIds) (currentLookup_eq plan.current)).mp touched
        rw [served.effect.acquired x matched] at cached
        cases cached
    | countPrompt | appended | released | evicted => exact touched.elim
    | published | republished => exact absurd touched.1 (sound.cached before)

/-- In every reachable state the eviction order is the order of last use: of two cached blocks
the one that an earlier operation acquired or published last comes first.  Two of them share an
epoch only after one and the same prefix hit, and then the lower id comes first.  No operation,
failed or not, reorders blocks that stay cached (a lookup changes no state at all). -/
theorem reach_recency (config : KVCacheConfig) (prefixConfig : PrefixCacheConfig)
    (hashFunction : PrefixHashFunction) (ops : List KVOp) :
    let (recency, manager) := reachRecency config prefixConfig hashFunction ops
    manager = reach config prefixConfig hashFunction ops ∧
    ∀ x y, x ≠ y → (manager.block x).state = .cached → (manager.block y).state = .cached →
      (∃ a b, recency.last x = some a ∧ recency.last y = some b ∧
        (a.operation < b.operation → [x, y].Sublist manager.eligibleEvictionOrder) ∧
        ((manager.block x).lastAccessEpoch = (manager.block y).lastAccessEpoch →
          a = b ∧ a.hit = true ∧ (x < y → [x, y].Sublist manager.eligibleEvictionOrder))) ∧
      ∀ op, ((manager.apply op).2.block x).state = .cached →
        ((manager.apply op).2.block y).state = .cached →
        ([x, y].Sublist (manager.apply op).2.eligibleEvictionOrder ↔
          [x, y].Sublist manager.eligibleEvictionOrder) := by
  obtain ⟨sound, ranked⟩ := reachRecency_ranked config prefixConfig hashFunction ops
  have same : (reachRecency config prefixConfig hashFunction ops).2 =
      reach config prefixConfig hashFunction ops := Machine.run_observed ..
  generalize reachRecency config prefixConfig hashFunction ops = state at *
  obtain ⟨recency, manager⟩ := state
  dsimp only at *
  refine ⟨same, fun x y apart cachedX cachedY => ⟨?_, fun op stillX stillY => ?_⟩⟩
  · obtain ⟨a, lastX, -⟩ := ranked.used x (sound.cached cachedX)
    obtain ⟨b, lastY, -⟩ := ranked.used y (sound.cached cachedY)
    refine ⟨a, b, lastX, lastY, fun earlier => ?_, fun tie => ?_⟩
    · rw [precedes_iff sound.blockIds]
      refine ⟨cachedX, cachedY, Prod.Lex.toLex_lt_toLex.mpr (Or.inl ?_)⟩
      exact ranked.later x y a b (sound.cached cachedX) (sound.cached cachedY) lastX lastY earlier
    · obtain ⟨sameLast, touch, last, hit⟩ :=
        ranked.tied x y apart (sound.cached cachedX) (sound.cached cachedY) tie
      rw [lastX, Option.some.injEq] at last
      rw [lastX, lastY, Option.some.injEq] at sameLast
      refine ⟨sameLast, last ▸ hit, fun lower => ?_⟩
      rw [precedes_iff sound.blockIds]
      exact ⟨cachedX, cachedY, Prod.Lex.toLex_lt_toLex.mpr (Or.inr ⟨tie, lower⟩)⟩
  · have outcome := apply_outcome sound op
    generalize manager.apply op = result at outcome stillX stillY ⊢
    cases outcome with
    | failed => exact Iff.rfl
    | @succeeded next effect after =>
        dsimp only at stillX stillY ⊢
        rw [precedes_iff sound.blockIds, precedes_iff after.blockIds,
          effect.cached_both sound after cachedX stillX,
          effect.cached_both sound after cachedY stillY]
        exact ⟨fun holds => ⟨cachedX, cachedY, holds.2.2⟩, fun holds => ⟨stillX, stillY, holds.2.2⟩⟩

/-- Two prompts are published and released, then a third request hits the first one's block. -/
def rehit : List KVOp :=
  [.allocatePromptWithPrefix 1 [7] {} OrdSet.empty, .insertCompletedPromptBlocks 1,
    .allocatePromptWithPrefix 2 [8] {} OrdSet.empty, .insertCompletedPromptBlocks 2,
    .releaseRequest 1, .releaseRequest 2,
    .allocatePromptWithPrefix 3 [7]
      { matchedBlockCount := 1, matchedTokenCount := 1, physicalBlockIds := [0],
        nextParentHash := 7, kind := .allEligibleBlocksHit, eligibleTokenCount := 1 } OrdSet.empty,
    .releaseRequest 3]

/-- The block that was hit again is evicted after the other, though its id is the lower one. -/
theorem reach_recency_rehit :
    let (recency, manager) := reachRecency (.small 4 1) { enabled := true } (fun _ => 7) rehit
    (manager.block 1).state = .cached ∧ (manager.block 0).state = .cached ∧
      recency.last 1 = some ⟨3, false⟩ ∧ recency.last 0 = some ⟨6, true⟩ ∧
      [1, 0].Sublist manager.eligibleEvictionOrder := by
  have order := reach_recency (.small 4 1) { enabled := true } (fun _ => 7) rehit
  have shown : let (recency, manager) :=
        reachRecency (.small 4 1) { enabled := true } (fun _ => 7) rehit
      (manager.block 1).state = .cached ∧ (manager.block 0).state = .cached ∧
        recency.last 1 = some ⟨3, false⟩ ∧ recency.last 0 = some ⟨6, true⟩ := by
    decide +kernel
  generalize reachRecency (.small 4 1) { enabled := true } (fun _ => 7) rehit = state at order shown ⊢
  obtain ⟨recency, manager⟩ := state
  obtain ⟨first, second, lastFirst, lastSecond⟩ := shown
  obtain ⟨⟨a, b, lastA, lastB, earlier, -⟩, -⟩ := order.2 1 0 (by decide) first second
  obtain rfl : (⟨3, false⟩ : Touch) = a := Option.some.inj (lastFirst.symm.trans lastA)
  obtain rfl : (⟨6, true⟩ : Touch) = b := Option.some.inj (lastSecond.symm.trans lastB)
  exact ⟨first, second, lastFirst, lastSecond, earlier (by decide)⟩

end KVCacheManager

end LlmLab.Serving
