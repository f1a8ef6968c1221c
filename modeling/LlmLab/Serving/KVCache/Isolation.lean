import LlmLab.Serving.KVCache.Runs

/-!
# Isolation between requests

An operation on one request leaves the table of every other live request, and the tokens and
keys of the blocks in it, as they were.
-/

namespace LlmLab.Serving

open KVCacheManager

/-- The request an event is about. -/
def KVEvent.subject : KVEvent → Option RequestId
  | .countPrompt id _ => some id
  | .exactPrompt id _ => some id
  | .publish id => some id
  | .append id => some id
  | .release id => some id
  | .evict _ => none

namespace KVCacheManager

variable {manager next : KVCacheManager} {event : KVEvent} {other : RequestId} {held : List Nat}

/-- What a live request can tell about its cache: its table, and the tokens and keys in it. -/
structure Undisturbed (manager next : KVCacheManager) (other : RequestId) (held : List Nat) :
    Prop where
  table : next.blockTables.find? other = some held
  block : ∀ x ∈ held, (next.block x).validTokenCount = (manager.block x).validTokenCount ∧
    (next.block x).prefixKey = (manager.block x).prefixKey

/-- A served grant: new blocks come from the free set or the victims, neither of which a live
table touches. -/
theorem Served.undisturbed {g : Grant} (served : manager.Served g next) (sound : manager.Sound)
    (found : manager.blockTables.find? other = some held) : manager.Undisturbed next other held := by
  have apart : other ≠ g.owner := by
    rintro rfl
    rw [served.serves.unknown] at found
    cases found
  refine ⟨by rw [served.effect.tables, OrdMap.find?_insert, if_neg apart, found],
    fun x member => ?_⟩
  obtain ⟨notVictim, -, -, count⟩ := served.effect.live served.serves sound found member
  rw [served.effect.key served.serves sound, if_neg notVictim]
  exact ⟨count, rfl⟩

theorem Published.undisturbed {id : RequestId} {tokens : List Token} {table : List Nat}
    {p : RequestKVPromptProvenance} (effect : manager.Published id tokens table p next)
    (sound : manager.Sound) (mine : manager.blockTables.find? id = some table)
    (found : manager.blockTables.find? other = some held) (apart : other ≠ id) :
    manager.Undisturbed next other held := by
  refine ⟨by rw [effect.rest]; exact found, fun x member => ?_⟩
  rw [effect.others sound mine found apart member]
  exact ⟨rfl, rfl⟩

theorem Grown.undisturbed {id : RequestId} {table : List Nat} {last : Nat}
    (effect : manager.Grown id table last next) (sound : manager.Sound)
    (found : manager.blockTables.find? other = some held) (apart : other ≠ id) :
    manager.Undisturbed next other held := by
  refine ⟨by rw [effect.result]; exact found, fun x member => ?_⟩
  have different : x ≠ last := by
    rintro rfl
    exact apart (sound.unshared effect.found effect.member effect.unkeyed found member)
  rw [effect.block sound, if_neg different]
  exact ⟨rfl, rfl⟩

theorem Extended.undisturbed {id : RequestId} {table victims : List Nat} {y : Nat}
    (effect : manager.Extended id table victims y next) (sound : manager.Sound)
    (found : manager.blockTables.find? other = some held) (apart : other ≠ id) :
    manager.Undisturbed next other held := by
  refine ⟨by rw [effect.tables, OrdMap.find?_insert, if_neg apart, found], fun x member => ?_⟩
  rw [(effect.live sound found member).2.2]
  exact ⟨rfl, rfl⟩

theorem Released.undisturbed {id : RequestId} {table : List Nat}
    (effect : manager.Released id table next) (sound : manager.Sound)
    (found : manager.blockTables.find? other = some held) (apart : other ≠ id) :
    manager.Undisturbed next other held := by
  refine ⟨by rw [effect.rest]; exact (OrdMap.find?_erase ..).trans (by rw [if_neg apart, found]),
    fun x member => ?_⟩
  exact ⟨(effect.live sound found apart member).2, effect.key x⟩

theorem Evicted.untouched {victims : List Nat} (effect : manager.Evicted victims next)
    (sound : manager.Sound) (cached : ∀ x ∈ victims, (manager.block x).state = .cached)
    (found : manager.blockTables.find? other = some held) :
    next.blockTables.find? other = some held ∧ ∀ x ∈ held, next.block x = manager.block x := by
  refine ⟨by rw [effect.tables, found], fun x member => ?_⟩
  have notVictim : x ∉ victims := fun victim => by
    have inUse := (sound.live found member).2.2
    rw [cached x victim] at inUse
    cases inUse
  rw [effect.block, if_neg notVictim]

/-- The victims of an eviction order are cached. -/
theorem Sound.cached_of_take (sound : manager.Sound) {count : Nat} :
    ∀ x ∈ manager.eligibleEvictionOrder.take count, (manager.block x).state = .cached :=
  fun _ member => (mem_eligibleEvictionOrder sound.blockIds).mp (List.mem_of_mem_take member)

/-- A successful operation disturbs no live request but its subject. -/
theorem Effect.undisturbed (effect : Effect manager next event) (sound : manager.Sound)
    (found : manager.blockTables.find? other = some held) (apart : event.subject ≠ some other) :
    manager.Undisturbed next other held := by
  cases effect with
  | countPrompt _ served => exact served.undisturbed sound found
  | exactPrompt _ _ served => exact served.undisturbed sound found
  | published plan _ published =>
      exact published.undisturbed sound plan.table found fun same => apart (by rw [same]; rfl)
  | republished _ _ same =>
      subst same
      exact ⟨found, fun _ _ => ⟨rfl, rfl⟩⟩
  | appended _ appended =>
      have different : other ≠ _ := fun same => apart (by rw [same]; rfl)
      cases appended with
      | grown _ _ grown => exact grown.undisturbed sound found different
      | extended _ _ extended _ => exact extended.undisturbed sound found different
  | released released =>
      exact released.undisturbed sound found fun same => apart (by rw [same]; rfl)
  | evicted _ evicted =>
      obtain ⟨table, same⟩ := evicted.untouched sound sound.cached_of_take found
      exact ⟨table, fun x member => by rw [same x member]; exact ⟨rfl, rfl⟩⟩

/-- No operation gives a table to another request than its subject. -/
theorem Effect.table_of_ne (effect : Effect manager next event) (apart : event.subject ≠ some other)
    (found : next.blockTables.find? other = some held) :
    ∃ table, manager.blockTables.find? other = some table := by
  have inserted : ∀ {id : RequestId} {table : List Nat}, other ≠ id →
      next.blockTables = manager.blockTables.insert id table →
      ∃ table, manager.blockTables.find? other = some table := fun different tables => by
    rw [tables, OrdMap.find?_insert, if_neg different] at found
    exact ⟨held, found⟩
  have kept : next.blockTables = manager.blockTables →
      ∃ table, manager.blockTables.find? other = some table := fun tables =>
    ⟨held, by rw [← tables, found]⟩
  cases effect with
  | countPrompt _ served =>
      exact inserted (fun same => apart (by rw [same]; rfl)) served.effect.tables
  | exactPrompt _ _ served =>
      exact inserted (fun same => apart (by rw [same]; rfl)) served.effect.tables
  | published _ _ published => exact kept (by rw [published.rest])
  | republished _ _ same => exact kept (by rw [same])
  | appended _ appended =>
      cases appended with
      | grown _ _ grown => exact kept (by rw [grown.result]; rfl)
      | extended _ _ extended _ =>
          exact inserted (fun same => apart (by rw [same]; rfl)) extended.tables
  | released released =>
      rw [released.rest] at found
      exact ⟨held, by rwa [show (manager.blockTables.erase _).find? other = _ from
        OrdMap.find?_erase .., if_neg fun same => apart (by rw [same]; rfl)] at found⟩
  | evicted _ evicted => exact kept evicted.tables

/-! ## Where a decoded token goes -/

/-- A decode append writes block `y` and no other: `y` is in the table of its request and in no
other, and any other block stays as it is or is an evicted cached block. -/
structure AppendsInto (manager next : KVCacheManager) (id : RequestId) (y : Nat) : Prop where
  mine : ∃ table, next.blockTables.find? id = some table ∧ table.count y = 1
  others : ∀ other held, other ≠ id → next.blockTables.find? other = some held → y ∉ held
  rest : ∀ x, x ≠ y → next.block x = manager.block x ∨
    ((manager.block x).state = .cached ∧ next.block x = { blockId := x })

theorem Grown.appendsInto {id : RequestId} {table : List Nat} {last : Nat}
    (effect : manager.Grown id table last next) (sound : manager.Sound) :
    manager.AppendsInto next id last := by
  have tables : next.blockTables = manager.blockTables := by rw [effect.result]; rfl
  obtain ⟨p, -, entry⟩ := sound.valid.entries id table effect.found
  refine ⟨⟨table, by rw [tables, effect.found], List.count_eq_one_of_mem entry.nodup effect.member⟩,
    fun other held apart found member => ?_, fun x apart => Or.inl ?_⟩
  · rw [tables] at found
    exact apart (sound.unshared effect.found effect.member effect.unkeyed found member)
  · rw [effect.block sound, if_neg apart]

theorem Extended.appendsInto {id : RequestId} {table victims : List Nat} {y : Nat}
    (effect : manager.Extended id table victims y next) (sound : manager.Sound) :
    manager.AppendsInto next id y := by
  have fresh : ∀ {other held}, manager.blockTables.find? other = some held → y ∉ held :=
    fun found member => (effect.live sound found member).2.1 rfl
  refine ⟨⟨table ++ [y], by rw [effect.tables, OrdMap.find?_insert, if_pos rfl], ?_⟩,
    fun other held apart found => ?_, fun x apart => ?_⟩
  · rw [List.count_append, List.count_eq_zero.mpr (fresh effect.found)]
    simp
  · rw [effect.tables, OrdMap.find?_insert, if_neg apart] at found
    exact fresh found
  · by_cases victim : x ∈ victims
    · exact Or.inr ⟨effect.cached x victim, effect.freed x victim apart⟩
    · exact Or.inl (effect.outside x victim apart)

/-- What an operation may do to the requests it is not about. -/
structure Isolates (manager next : KVCacheManager) (event : KVEvent) : Prop where
  others : ∀ other held, event.subject ≠ some other →
    manager.blockTables.find? other = some held → manager.Undisturbed next other held
  append : ∀ id, event = .append id → ∃ y, manager.AppendsInto next id y
  evict : ∀ count, event = .evict count → ∀ id table,
    manager.blockTables.find? id = some table →
      next.blockTables.find? id = some table ∧ ∀ x ∈ table, next.block x = manager.block x

theorem Effect.isolates (effect : Effect manager next event) (sound : manager.Sound) :
    manager.Isolates next event := by
  refine ⟨fun other held apart found => effect.undisturbed sound found apart,
    fun id appends => ?_, fun count evicts id table found => ?_⟩
  · subst appends
    cases effect with
    | appended _ appended =>
        cases appended with
        | grown _ _ grown => exact ⟨_, grown.appendsInto sound⟩
        | extended _ _ extended _ => exact ⟨_, extended.appendsInto sound⟩
  · subst evicts
    cases effect with
    | evicted _ evicted => exact evicted.untouched sound sound.cached_of_take found

/-- From any reachable state, a successful operation on one request isolates the others. -/
theorem reach_isolates (config : KVCacheConfig) (prefixConfig : PrefixCacheConfig)
    (hashFunction : PrefixHashFunction) (ops : List KVOp) (op : KVOp)
    (success : ((reach config prefixConfig hashFunction ops).apply op).1 = .ok ()) :
    (reach config prefixConfig hashFunction ops).Isolates
      ((reach config prefixConfig hashFunction ops).apply op).2 op.event := by
  have sound := (@reach_sound config prefixConfig hashFunction ops).1
  exact (Effect.of_apply sound success).isolates sound

/-- Two requests share a pool of two blocks, and the second one grows. -/
theorem reach_isolates_decode :
    (reach ⟨2, 2, by decide, by decide, by decide⟩ {} stableTokenBlockHash
        [.allocatePrompt 1 2, .allocatePrompt 2 1]).Isolates
      ((reach ⟨2, 2, by decide, by decide, by decide⟩ {} stableTokenBlockHash
        [.allocatePrompt 1 2, .allocatePrompt 2 1]).apply (.appendDecodeToken 2)).2 (.append 2) :=
  reach_isolates _ _ _ _ (.appendDecodeToken 2) (by decide +kernel)

end KVCacheManager

end LlmLab.Serving
