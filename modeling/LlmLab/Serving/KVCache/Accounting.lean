import LlmLab.Serving.KVCache.Isolation

/-!
# Logical token accounting

The table of a live request holds its prompt and its decoded tokens in order: every block but
the last is full, shared prefix blocks included, and the counts add up to the prompt length
plus the number of decode appends.  A ghost ledger keeps the latter two numbers.
-/

namespace LlmLab.Serving

open KVCacheManager

namespace KVCacheManager

variable {manager next : KVCacheManager} {event : KVEvent} {id : RequestId} {table : List Nat}
  {count : Nat}

/-! ## Tables filled in order -/

/-- The tokens in the blocks of a table. -/
def tableTokens (manager : KVCacheManager) (table : List Nat) : Nat :=
  (table.map fun x => (manager.block x).validTokenCount).sum

/-- A table holds `count` tokens in order. -/
structure Fills (manager : KVCacheManager) (table : List Nat) (count : Nat) : Prop where
  length : table.length = manager.config.demand count
  block : ∀ i x, table[i]? = some x → (manager.block x).validTokenCount =
    min manager.config.blockSizeTokens (count - i * manager.config.blockSizeTokens)

namespace Fills

theorem tokens (fills : manager.Fills table count) : manager.tableTokens table = count := by
  rw [tableTokens, sum_map_fill fills.block, fills.length, Nat.min_eq_left]
  exact KVCacheConfig.demand_covers

/-- Every block but the last is full. -/
theorem full (fills : manager.Fills table count) {i x : Nat} (inside : i + 1 < table.length)
    (found : table[i]? = some x) :
    (manager.block x).validTokenCount = manager.config.blockSizeTokens := by
  have room := KVCacheConfig.lt_demand (fills.length ▸ inside)
  rw [Nat.add_mul, Nat.one_mul] at room
  rw [fills.block i x found]
  omega

/-- Token `p` lives at table position `p / block_size`. -/
theorem located (fills : manager.Fills table count) {p : Nat} (inside : p < count) :
    ∃ x, table[p / manager.config.blockSizeTokens]? = some x ∧
      p % manager.config.blockSizeTokens < (manager.block x).validTokenCount := by
  have size := manager.config.blockSize_pos
  have split := Nat.div_add_mod p manager.config.blockSizeTokens
  have small := Nat.mod_lt p size
  rw [Nat.mul_comm] at split
  have position : p / manager.config.blockSizeTokens < table.length := by
    rw [fills.length]
    by_contra beyond
    have := KVCacheConfig.demand_le_iff.mp (not_lt.mp beyond)
    omega
  refine ⟨_, List.getElem?_eq_getElem position, ?_⟩
  rw [fills.block _ _ (List.getElem?_eq_getElem position)]
  omega

theorem congr (fills : manager.Fills table count) (setup : manager.SameSetup next)
    (same : ∀ x ∈ table, (next.block x).validTokenCount = (manager.block x).validTokenCount) :
    next.Fills table count :=
  ⟨by rw [setup.config]; exact fills.length, fun i x found => by
    rw [setup.config, same x (List.mem_of_getElem? found)]
    exact fills.block i x found⟩

end Fills

/-! ## The steps -/

theorem Served.owned {g : Grant} (served : manager.Served g next) :
    next.blockTables.find? g.owner = some (g.matched ++ g.fresh) := by
  rw [served.effect.tables, OrdMap.find?_insert, if_pos rfl]

theorem Served.countFills {tokens : Nat} {evictionIds allocationIds : List Nat}
    (served : manager.Served (countGrant id tokens evictionIds allocationIds) next)
    (length : allocationIds.length = manager.config.demand tokens) :
    next.Fills allocationIds tokens := by
  refine ⟨by rw [served.effect.setup.config]; exact length, fun i x found => ?_⟩
  rw [served.effect.written i x found, served.effect.setup.config]
  rfl

/-- An exact prompt fills its matched and its fresh blocks. -/
theorem Served.exactFills {tokens : List Token} {actual : PrefixLookupResult}
    {evictionIds allocationIds : List Nat} (sound : manager.Sound)
    (lookup : manager.LookupSpec tokens manager.prefixConfig.modelNamespace
      manager.prefixConfig.cacheSalt actual)
    (served : manager.Served (prefixGrant manager.config manager.prefixConfig.enabled id tokens
      actual evictionIds allocationIds) next)
    (length : actual.physicalBlockIds.length + allocationIds.length =
      manager.config.demand tokens.length) :
    next.Fills (actual.physicalBlockIds ++ allocationIds) tokens.length := by
  have room : actual.physicalBlockIds.length * manager.config.blockSizeTokens ≤ tokens.length :=
    (Nat.le_div_iff_mul_le manager.config.blockSize_pos).mp lookup.inside
  refine ⟨by rw [served.effect.setup.config, List.length_append]; exact length,
    fun i x found => ?_⟩
  rw [served.effect.setup.config]
  by_cases shared : i < actual.physicalBlockIds.length
  · rw [List.getElem?_append_left shared] at found
    have matched := List.mem_of_getElem? found
    have full := (sound.keyed (lookup.keyed x matched)).2.2.1
    have inside := Nat.mul_le_mul_right manager.config.blockSizeTokens (Nat.succ_le_of_lt shared)
    rw [Nat.succ_mul] at inside
    rw [served.effect.acquired x matched]
    change (manager.block x).validTokenCount = _
    omega
  · rw [List.getElem?_append_right (not_lt.mp shared)] at found
    rw [served.effect.written _ x found]
    change min manager.config.blockSizeTokens
      (tokens.length - actual.matchedTokenCount - _ * manager.config.blockSizeTokens) = _
    rw [lookup.matchedTokens, Nat.sub_sub, ← Nat.add_mul, Nat.add_sub_cancel' (not_lt.mp shared)]

/-- The last block is full exactly when the tokens end on a block boundary. -/
theorem Fills.needsBlock (fills : manager.Fills table count) (sound : manager.Sound)
    (need : manager.NeedsBlock table) :
    count = table.length * manager.config.blockSizeTokens := by
  rcases List.eq_nil_or_concat' table with rfl | ⟨front, last, rfl⟩
  · have := KVCacheConfig.demand_le_iff.mp fills.length.ge
    simpa using this
  have isLast : (front ++ [last]).getLast? = some last := by simp
  have full : (manager.block last).validTokenCount = manager.config.blockSizeTokens := by
    rcases need last isLast with keyed | shared | full
    · exact (sound.keyed keyed).2.2.1
    · exact sound.full_of_shared shared
    · exact full
  have filled := fills.block front.length last (by simp)
  have size := manager.config.blockSize_pos
  have covers := KVCacheConfig.demand_le_iff.mp fills.length.ge
  rw [List.length_append, List.length_singleton, Nat.add_mul, Nat.one_mul] at covers ⊢
  omega

/-- A decode token in a new block is the next token of a full table. -/
theorem Extended.fills {victims : List Nat} {y : Nat}
    (effect : manager.Extended id table victims y next) (sound : manager.Sound)
    (fills : manager.Fills table count)
    (full : count = table.length * manager.config.blockSizeTokens) :
    next.Fills (table ++ [y]) (count + 1) := by
  have size := manager.config.blockSize_pos
  refine ⟨?_, fun i x found => ?_⟩
  · rw [effect.setup.config, List.length_append, List.length_singleton]
    apply le_antisymm
    · refine Nat.succ_le_of_lt (not_le.mp fun short => ?_)
      have := KVCacheConfig.demand_le_iff.mp short
      omega
    · refine KVCacheConfig.demand_le_iff.mpr ?_
      rw [Nat.add_mul, Nat.one_mul]
      omega
  · rw [effect.setup.config]
    by_cases old : i < table.length
    · rw [List.getElem?_append_left old] at found
      have inside := Nat.mul_le_mul_right manager.config.blockSizeTokens (Nat.succ_le_of_lt old)
      rw [Nat.succ_mul] at inside
      rw [(effect.live sound effect.found (List.mem_of_getElem? found)).2.2, fills.block i x found]
      omega
    · obtain ⟨inside, -⟩ := List.getElem?_eq_some_iff.mp found
      rw [List.length_append, List.length_singleton] at inside
      obtain rfl : i = table.length := by omega
      have same : x = y := by simpa using found.symm
      rw [same, effect.written]
      change 1 = _
      omega

/-- A decode token in the last block is the next token of the table. -/
theorem Grown.fills {last : Nat} (effect : manager.Grown id table last next)
    (sound : manager.Sound) (fills : manager.Fills table count) :
    next.Fills table (count + 1) := by
  obtain ⟨front, rfl⟩ : ∃ front, table = front ++ [last] := by
    obtain ⟨front, split⟩ := List.getLast?_eq_some_iff.mp effect.isLast
    exact ⟨front, split⟩
  have nodup := sound.nodup effect.found
  have filled := fills.block front.length last (by simp)
  have room := effect.room
  have length := fills.length
  have size := manager.config.blockSize_pos
  have start := @KVCacheConfig.lt_demand manager.config count front.length
    (by rw [← length]; simp)
  have setup := effect.setup
  refine ⟨?_, fun i x found => ?_⟩
  · rw [setup.config, length]
    rw [List.length_append, List.length_singleton] at length
    apply le_antisymm
    · exact KVCacheConfig.demand_le_iff.mpr ((Nat.le_succ count).trans KVCacheConfig.demand_covers)
    · rw [← length]
      refine KVCacheConfig.demand_le_iff.mpr ?_
      rw [Nat.add_mul, Nat.one_mul]
      omega
  · rw [setup.config, effect.block sound]
    by_cases isLast : i < front.length
    · have inside := Nat.mul_le_mul_right manager.config.blockSizeTokens
        (Nat.succ_le_of_lt isLast)
      rw [Nat.succ_mul] at inside
      have before : front[i]? = some x := by
        rwa [List.getElem?_append_left isLast] at found
      have apart : x ≠ last := by
        rintro rfl
        exact (List.nodup_append.mp nodup).2.2 x (List.mem_of_getElem? before) x (by simp) rfl
      rw [if_neg apart, fills.block i x found]
      omega
    · obtain ⟨inside, -⟩ := List.getElem?_eq_some_iff.mp found
      rw [List.length_append, List.length_singleton] at inside
      obtain rfl : i = front.length := by omega
      have same : x = last := by simpa using found.symm
      rw [if_pos same]
      change (manager.block last).validTokenCount + 1 = _
      omega

end KVCacheManager

/-! ## The ledger -/

/-- What a live request has asked for: its prompt tokens and its decode appends. -/
structure Usage where
  promptTokens : Nat
  appends : Nat

/-- The tokens a request has asked for. -/
def Usage.total (usage : Usage) : Nat := usage.promptTokens + usage.appends

abbrev Ledger := RequestId → Option Usage

/-- The ledger after an event. -/
def Ledger.record (ledger : Ledger) : KVEvent → Ledger
  | .countPrompt id tokens => Function.update ledger id (some ⟨tokens, 0⟩)
  | .exactPrompt id tokens => Function.update ledger id (some ⟨tokens.length, 0⟩)
  | .append id => Function.update ledger id
      ((ledger id).map fun usage => { usage with appends := usage.appends + 1 })
  | .release id => Function.update ledger id none
  | .publish _ => ledger
  | .evict _ => ledger

theorem Ledger.record_of_ne {ledger : Ledger} {event : KVEvent} {id : RequestId}
    (apart : event.subject ≠ some id) : ledger.record event id = ledger id := by
  cases event with
  | publish _ => rfl
  | evict _ => rfl
  | countPrompt other _ | exactPrompt other _ | append other | release other =>
      exact Function.update_of_ne (fun same => apart (by rw [same]; rfl)) ..

/-- The ghost that keeps the ledger: only successful operations count. -/
def Ledger.observe (ledger : Ledger) (_ : KVCacheManager) (op : KVOp) :
    Except Exn Unit → Ledger
  | .ok () => ledger.record op.event
  | .error _ => ledger

namespace KVCacheManager

variable {manager next : KVCacheManager} {event : KVEvent} {id : RequestId} {table : List Nat}

/-- Every live table holds what the ledger says, in order. -/
def Accounted (ledger : Ledger) (manager : KVCacheManager) : Prop :=
  ∀ id table, manager.blockTables.find? id = some table →
    ∃ usage, ledger id = some usage ∧ manager.Fills table usage.total

/-- The table of the subject holds what the ledger says after the event. -/
theorem Effect.accounted_subject {ledger : Ledger} (effect : Effect manager next event)
    (sound : manager.Sound) (accounted : Accounted ledger manager)
    (subject : event.subject = some id) (found : next.blockTables.find? id = some table) :
    ∃ usage, ledger.record event id = some usage ∧ next.Fills table usage.total := by
  cases effect with
  | countPrompt plan served =>
      cases subject
      cases served.owned.symm.trans found
      exact ⟨⟨_, 0⟩, Function.update_self .., served.countFills (plan.serves sound).2⟩
  | exactPrompt plan lookup served =>
      cases subject
      cases served.owned.symm.trans found
      exact ⟨⟨_, 0⟩, Function.update_self ..,
        served.exactFills sound lookup (prefixGrant_serves sound lookup plan).2⟩
  | published plan _ published =>
      cases subject
      have same : next.blockTables = manager.blockTables := by rw [published.rest]
      rw [same] at found
      obtain ⟨usage, listed, fills⟩ := accounted id table found
      exact ⟨usage, listed, fills.congr published.setup fun x _ => (published.provenance_valid x).2⟩
  | republished plan _ same =>
      cases subject
      subst same
      exact accounted id table found
  | appended plan appended =>
      cases subject
      cases appended with
      | grown _ _ grown =>
          have same : next.blockTables = manager.blockTables := by rw [grown.result]; rfl
          rw [same, grown.found] at found
          cases found
          obtain ⟨usage, listed, fills⟩ := accounted id _ grown.found
          refine ⟨⟨usage.promptTokens, usage.appends + 1⟩, ?_, grown.fills sound fills⟩
          rw [Ledger.record, Function.update_self, listed]
          rfl
      | extended need _ extended _ =>
          rw [extended.tables, OrdMap.find?_insert, if_pos rfl] at found
          cases found
          obtain ⟨usage, listed, fills⟩ := accounted id _ extended.found
          refine ⟨⟨usage.promptTokens, usage.appends + 1⟩, ?_,
            extended.fills sound fills (fills.needsBlock sound need)⟩
          rw [Ledger.record, Function.update_self, listed]
          rfl
  | released released =>
      cases subject
      rw [released.rest] at found
      rw [show (manager.blockTables.erase id).find? id = none by simp] at found
      cases found
  | evicted _ _ => cases subject

/-- A successful operation keeps the ledger exact. -/
theorem Effect.accounted {ledger : Ledger} (effect : Effect manager next event)
    (sound : manager.Sound) (accounted : Accounted ledger manager) :
    Accounted (ledger.record event) next := by
  intro other held found
  by_cases subject : event.subject = some other
  · exact effect.accounted_subject sound accounted subject found
  · obtain ⟨table, present⟩ := effect.table_of_ne subject found
    obtain ⟨usage, listed, fills⟩ := accounted other table present
    have undisturbed := effect.undisturbed sound present subject
    rw [undisturbed.table] at found
    cases found
    exact ⟨usage, by rw [Ledger.record_of_ne subject, listed],
      fills.congr effect.setup fun x member => (undisturbed.block x member).1⟩

/-- Of its subject an operation keeps the table, but for a release. -/
theorem Effect.table_subject (effect : Effect manager next event)
    (subject : event.subject = some id) (kept : ∀ id, event ≠ .release id) :
    ∃ table, next.blockTables.find? id = some table := by
  cases effect with
  | countPrompt _ served =>
      cases subject
      exact ⟨_, served.owned⟩
  | exactPrompt _ _ served =>
      cases subject
      exact ⟨_, served.owned⟩
  | published plan _ published =>
      cases subject
      exact ⟨_, by rw [published.rest]; exact plan.table⟩
  | republished plan _ same =>
      cases subject
      exact ⟨_, by rw [same]; exact plan.table⟩
  | appended _ appended =>
      cases subject
      cases appended with
      | grown _ _ grown => exact ⟨_, by rw [grown.result]; exact grown.found⟩
      | extended _ _ extended _ =>
          exact ⟨_, by rw [extended.tables, OrdMap.find?_insert, if_pos rfl]⟩
  | @released released => exact absurd rfl (kept released)
  | evicted => cases subject

/-- Exactly the requests of the ledger hold a table, and each holds what the ledger says. -/
structure Tallied (ledger : Ledger) (manager : KVCacheManager) : Prop where
  accounted : Accounted ledger manager
  listed : ∀ id usage, ledger id = some usage → ∃ table, manager.blockTables.find? id = some table

theorem create_tallied (config : KVCacheConfig) (prefixConfig : PrefixCacheConfig)
    (hashFunction : PrefixHashFunction) :
    Tallied (fun _ => none) (create config prefixConfig hashFunction) :=
  ⟨fun _ _ found => (by cases found), fun _ _ listed => (by cases listed)⟩

/-- A successful operation keeps the list of live requests. -/
theorem Tallied.effect {ledger : Ledger} (tallied : Tallied ledger manager) (sound : manager.Sound)
    (effect : Effect manager next event) : Tallied (ledger.record event) next := by
  refine ⟨effect.accounted sound tallied.accounted, fun other usage listed => ?_⟩
  by_cases subject : event.subject = some other
  · refine effect.table_subject subject fun released same => ?_
    subst same
    obtain rfl : released = other := Option.some.inj subject
    rw [Ledger.record, Function.update_self] at listed
    cases listed
  · rw [Ledger.record_of_ne subject] at listed
    obtain ⟨table, found⟩ := tallied.listed other usage listed
    exact ⟨table, (effect.undisturbed sound found subject).table⟩

/-- The failure count plays no part in it. -/
theorem Tallied.failed {ledger : Ledger} (tallied : Tallied ledger manager) (count : Nat) :
    Tallied ledger { manager with allocationFailureCount := count } := by
  refine ⟨fun id table found => ?_, tallied.listed⟩
  obtain ⟨usage, listed, fills⟩ := tallied.accounted id table found
  exact ⟨usage, listed, fills.congr ⟨rfl, rfl, rfl⟩ fun _ _ => rfl⟩

/-- The manager together with the ledger of its requests. -/
def ledgerMachine : Machine (Ledger × KVCacheManager) KVOp (Except Exn Unit) :=
  machine.observed Ledger.observe

/-- The ledger and the manager after a list of operations, from construction. -/
def reachLedger (config : KVCacheConfig) (prefixConfig : PrefixCacheConfig)
    (hashFunction : PrefixHashFunction) (ops : List KVOp) : Ledger × KVCacheManager :=
  ledgerMachine.run (fun _ => none, create config prefixConfig hashFunction) ops

theorem reachLedger_snd (config : KVCacheConfig) (prefixConfig : PrefixCacheConfig)
    (hashFunction : PrefixHashFunction) (ops : List KVOp) :
    (reachLedger config prefixConfig hashFunction ops).2 =
      reach config prefixConfig hashFunction ops :=
  Machine.run_observed ..

theorem next_tallied {state : Ledger × KVCacheManager}
    (holds : state.2.Sound ∧ Tallied state.1 state.2) (op : KVOp) :
    (ledgerMachine.next state op).2.Sound ∧
      Tallied (ledgerMachine.next state op).1 (ledgerMachine.next state op).2 := by
  obtain ⟨ledger, manager⟩ := state
  obtain ⟨sound, tallied⟩ := holds
  have outcome := apply_outcome sound op
  change (manager.apply op).2.Sound ∧
    Tallied (ledger.observe manager op (manager.apply op).1) (manager.apply op).2
  generalize manager.apply op = result at outcome ⊢
  cases outcome with
  | succeeded effect after => exact ⟨after, tallied.effect sound effect⟩
  | failed => exact ⟨sound.failed _, tallied.failed _⟩

theorem reachLedger_tallied (config : KVCacheConfig) (prefixConfig : PrefixCacheConfig)
    (hashFunction : PrefixHashFunction) (ops : List KVOp) :
    (reachLedger config prefixConfig hashFunction ops).2.Sound ∧
      Tallied (reachLedger config prefixConfig hashFunction ops).1
        (reachLedger config prefixConfig hashFunction ops).2 :=
  @Machine.run_invariant _ _ _ ledgerMachine
    (fun state => state.2.Sound ∧ Tallied state.1 state.2)
    (fun _ op holds => next_tallied holds op) _ ops ⟨create_sound, create_tallied ..⟩

/-- In every reachable state, under any hash function and after any successes and failures,
exactly the live requests have a table, and the table of each holds exactly the tokens it has
asked for, in order. -/
theorem reach_accounted (config : KVCacheConfig) (prefixConfig : PrefixCacheConfig)
    (hashFunction : PrefixHashFunction) (ops : List KVOp) :
    let (ledger, manager) := reachLedger config prefixConfig hashFunction ops
    (∀ id usage, ledger id = some usage → ∃ table, manager.blockTables.find? id = some table) ∧
    ∀ id table, manager.blockTables.find? id = some table →
      ∃ usage, ledger id = some usage ∧
        manager.tableTokens table = usage.promptTokens + usage.appends ∧
        (∀ i x, i + 1 < table.length → table[i]? = some x →
          (manager.block x).validTokenCount = config.blockSizeTokens) ∧
        ∀ p < usage.promptTokens + usage.appends,
          ∃ x, table[p / config.blockSizeTokens]? = some x ∧
            p % config.blockSizeTokens < (manager.block x).validTokenCount := by
  obtain ⟨-, tallied⟩ := reachLedger_tallied config prefixConfig hashFunction ops
  have setup := (@reach_sound config prefixConfig hashFunction ops).2
  rw [← reachLedger_snd] at setup
  have size : (reachLedger config prefixConfig hashFunction ops).2.config.blockSizeTokens =
      config.blockSizeTokens := by rw [setup.config]; rfl
  refine ⟨tallied.listed, fun id table found => ?_⟩
  obtain ⟨usage, listed, fills⟩ := tallied.accounted id table found
  rw [← size]
  exact ⟨usage, listed, fills.tokens, fun i x inside found => fills.full inside found,
    fun p inside => fills.located inside⟩

/-- A prompt that shares a published block, and two decode tokens after it. -/
def sharedDecodes : List KVOp :=
  [.allocatePromptWithPrefix 1 [1, 2, 3] {} OrdSet.empty, .insertCompletedPromptBlocks 1,
    .allocatePromptWithPrefix 2 [1, 2, 9]
      { matchedBlockCount := 1, matchedTokenCount := 2, physicalBlockIds := [0],
        nextParentHash := 7, kind := .allEligibleBlocksHit, eligibleTokenCount := 2 } OrdSet.empty,
    .appendDecodeToken 2, .appendDecodeToken 2]

/-- The first decode token fills the block of the prompt's end, the second takes a new block. -/
theorem reach_accounted_shared :
    let (ledger, manager) :=
      reachLedger (.small 4 2) { enabled := true } (fun _ => 7) sharedDecodes
    manager.blockTables.find? 1 = some [0, 1] ∧ manager.blockTables.find? 2 = some [0, 2, 3] ∧
      (∀ id usage, ledger id = some usage → ∃ table, manager.blockTables.find? id = some table) ∧
      ∃ usage, ledger 2 = some usage ∧ usage.promptTokens = 3 ∧ usage.appends = 2 ∧
        manager.tableTokens [0, 2, 3] = 3 + 2 ∧
        ∀ p < 3 + 2, ∃ x, [0, 2, 3][p / 2]? = some x ∧
          p % 2 < (manager.block x).validTokenCount := by
  have accounted := reach_accounted (.small 4 2) { enabled := true } (fun _ => 7) sharedDecodes
  have shown : let (ledger, manager) :=
        reachLedger (.small 4 2) { enabled := true } (fun _ => 7) sharedDecodes
      manager.blockTables.find? 1 = some [0, 1] ∧ manager.blockTables.find? 2 = some [0, 2, 3] ∧
        (ledger 2).map (fun usage => (usage.promptTokens, usage.appends)) = some (3, 2) := by
    decide +kernel
  generalize reachLedger (.small 4 2) { enabled := true } (fun _ => 7) sharedDecodes = state
    at accounted shown ⊢
  obtain ⟨ledger, manager⟩ := state
  obtain ⟨first, second, asked⟩ := shown
  obtain ⟨⟨prompt, appends⟩, listed, tokens, -, located⟩ := accounted.2 2 _ second
  rw [listed] at asked
  obtain ⟨rfl, rfl⟩ := Prod.mk.inj (Option.some.inj asked)
  exact ⟨first, second, accounted.1, _, listed, rfl, rfl, tokens, located⟩

end KVCacheManager

end LlmLab.Serving
