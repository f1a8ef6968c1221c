import LlmLab.Serving.KVCache.Accounting

/-!
# Passes of effects

A pass is a list of effects, each from a manager that satisfies the invariant.  What one effect
does to the table of its subject, to the ledger and to the other requests adds up along a pass.
-/

namespace LlmLab.Serving

open KVCacheManager

/-! ## One request in the ledger -/

/-- What an event makes of the usage of its subject. -/
def Usage.after : Option Usage → KVEvent → Option Usage
  | _, .countPrompt _ tokens => some ⟨tokens, 0⟩
  | _, .exactPrompt _ tokens => some ⟨tokens.length, 0⟩
  | usage, .append _ => usage.map fun usage => { usage with appends := usage.appends + 1 }
  | _, .release _ => none
  | usage, .publish _ => usage
  | usage, .evict _ => usage

namespace Ledger

variable {ledger : Ledger} {id : RequestId}

theorem record_apply (event : KVEvent) : ledger.record event id =
    if event.subject = some id then Usage.after (ledger id) event else ledger id := by
  by_cases subject : event.subject = some id
  · rw [if_pos subject]
    cases event with
    | evict _ => rfl
    | publish _ => rfl
    | countPrompt other _ | exactPrompt other _ | append other | release other =>
        obtain rfl : other = id := Option.some.inj subject
        exact Function.update_self ..
  · rw [if_neg subject, record_of_ne subject]

/-- The usage of a request follows from the events about it. -/
theorem foldl_record_apply (events : List KVEvent) : (events.foldl record ledger) id =
    (events.filter (·.subject = some id)).foldl Usage.after (ledger id) := by
  induction events generalizing ledger with
  | nil => rfl
  | cons event rest ih =>
      rw [List.foldl_cons, ih, record_apply, List.filter_cons]
      by_cases subject : event.subject = some id <;> simp [subject]

end Ledger

namespace KVCacheManager

variable {manager middle next : KVCacheManager} {event : KVEvent} {events : List KVEvent}
  {id other : RequestId} {ledger : Ledger}

/-! ## Requests and their tables -/

theorem Effect.table_eq (effect : Effect manager next event) (sound : manager.Sound)
    (apart : event.subject ≠ some other) :
    next.blockTables.find? other = manager.blockTables.find? other := by
  cases found : manager.blockTables.find? other with
  | some held => exact (effect.undisturbed sound found apart).table
  | none =>
      by_contra some'
      obtain ⟨held, present⟩ := Option.ne_none_iff_exists'.mp some'
      obtain ⟨table, before⟩ := effect.table_of_ne apart present
      rw [found] at before
      cases before

/-- No operation touches the prompt record of another request than its subject. -/
theorem Effect.record_eq (effect : Effect manager next event)
    (apart : event.subject ≠ some other) :
    next.requestProvenance.find? other = manager.requestProvenance.find? other := by
  cases effect with
  | countPrompt _ served =>
      rw [served.effect.provenance, OrdMap.find?_insert, if_neg fun same => apart (by rw [same]; rfl)]
  | exactPrompt _ _ served =>
      rw [served.effect.provenance, OrdMap.find?_insert, if_neg fun same => apart (by rw [same]; rfl)]
  | published _ _ published =>
      rw [published.rest]
      exact (OrdMap.find?_modify ..).trans (if_neg fun same => apart (by rw [same]; rfl))
  | republished _ _ same => rw [same]
  | appended _ appended =>
      cases appended with
      | grown _ _ grown => rw [grown.result]; rfl
      | extended _ _ extended _ => rw [extended.provenance]
  | released released =>
      rw [released.rest]
      exact (OrdMap.find?_erase ..).trans (if_neg fun same => apart (by rw [same]; rfl))
  | evicted _ evicted => rw [evicted.provenance]

/-- Only a release takes a table away. -/
theorem Effect.table_kept (effect : Effect manager next event) (sound : manager.Sound)
    (kept : event ≠ .release id)
    (found : ∃ table, manager.blockTables.find? id = some table) :
    ∃ table, next.blockTables.find? id = some table := by
  by_cases subject : event.subject = some id
  · refine effect.table_subject subject fun other same => kept ?_
    rw [same] at subject ⊢
    rw [Option.some.inj subject]
  · rw [effect.table_eq sound subject]
    exact found

/-- The record that an exact prompt leaves. -/
theorem Effect.exact_record {tokens : List Token}
    (effect : Effect manager next (.exactPrompt id tokens)) :
    ∃ actual, manager.findLongestCachedPrefix tokens = .ok actual ∧
      next.requestProvenance.find? id = some (exactProvenance manager.config
        manager.prefixConfig.enabled id tokens actual.physicalBlockIds.length false) := by
  cases effect with
  | @exactPrompt _ _ _ actual _ _ plan lookup served =>
      refine ⟨actual, plan.current, ?_⟩
      rw [served.effect.provenance, OrdMap.find?_insert, ← lookup.blocks]
      exact if_pos rfl

/-! ## Passes -/

/-- Effects in a row, each of which keeps the invariant. -/
inductive Passes : KVCacheManager → List KVEvent → KVCacheManager → Prop
  | nil (manager : KVCacheManager) : Passes manager [] manager
  | cons {manager middle next : KVCacheManager} {event : KVEvent} {events : List KVEvent} :
      Effect manager middle event → middle.Sound → Passes middle events next →
      Passes manager (event :: events) next

namespace Passes

theorem eq_of_nil (passes : Passes manager [] next) : next = manager := by
  cases passes
  rfl

theorem append {before after : List KVEvent} (first : Passes manager before middle)
    (second : Passes middle after next) : Passes manager (before ++ after) next := by
  induction first with
  | nil => exact second
  | cons effect sound _ ih => exact .cons effect sound (ih second)

theorem single (effect : Effect manager next event) (sound : next.Sound) :
    Passes manager [event] next :=
  .cons effect sound (.nil next)

theorem concat (first : Passes manager events middle) (effect : Effect middle next event)
    (sound : next.Sound) : Passes manager (events ++ [event]) next :=
  first.append (single effect sound)

theorem sound (passes : Passes manager events next) (start : manager.Sound) : next.Sound := by
  induction passes with
  | nil => exact start
  | cons _ after _ ih => exact ih after

/-- What no effect of the pass breaks holds after it. -/
theorem preserves (property : KVCacheManager → Prop) (passes : Passes manager events next)
    (start : manager.Sound) (holds : property manager)
    (step : ∀ {manager next event}, event ∈ events → manager.Sound → Effect manager next event →
      next.Sound → property manager → property next) : property next := by
  induction passes with
  | nil => exact holds
  | cons effect after _ ih =>
      exact ih after (step List.mem_cons_self start effect after holds)
        fun member => step (List.mem_cons_of_mem _ member)

theorem setup (passes : Passes manager events next) : manager.SameSetup next := by
  induction passes with
  | nil => exact .refl _
  | cons effect _ _ ih => exact effect.setup.trans ih

theorem tallied (passes : Passes manager events next) (start : manager.Sound)
    (tallied : Tallied ledger manager) : Tallied (events.foldl Ledger.record ledger) next := by
  induction passes generalizing ledger with
  | nil => exact tallied
  | cons effect after _ ih => exact ih after (tallied.effect start effect)

/-- A pass that is not about a request leaves its table alone. -/
theorem table_eq (passes : Passes manager events next) (start : manager.Sound)
    (apart : ∀ event ∈ events, event.subject ≠ some other) :
    next.blockTables.find? other = manager.blockTables.find? other :=
  passes.preserves (fun state => state.blockTables.find? other = manager.blockTables.find? other)
    start rfl fun member sound effect _ same => (effect.table_eq sound (apart _ member)).trans same

theorem table_kept (passes : Passes manager events next) (start : manager.Sound)
    (kept : .release id ∉ events) (found : ∃ table, manager.blockTables.find? id = some table) :
    ∃ table, next.blockTables.find? id = some table :=
  passes.preserves (fun state => ∃ table, state.blockTables.find? id = some table) start found
    fun member sound effect _ present =>
      effect.table_kept sound (fun same => kept (same ▸ member)) present

/-- The subject of an event of the pass holds a table after it, unless it is released. -/
theorem table_of_subject (passes : Passes manager events next) (start : manager.Sound)
    (kept : .release id ∉ events) (served : ∃ event ∈ events, event.subject = some id) :
    ∃ table, next.blockTables.find? id = some table := by
  induction passes with
  | nil =>
      obtain ⟨event, member, -⟩ := served
      cases member
  | @cons manager middle next event events effect after passes ih =>
      have later : .release id ∉ events := fun member => kept (List.mem_cons_of_mem _ member)
      by_cases here : event.subject = some id
      · refine passes.table_kept after later (effect.table_subject here fun other same => ?_)
        rw [same] at here kept
        exact kept (Option.some.inj here ▸ List.mem_cons_self)
      · refine ih after later ?_
        obtain ⟨other, member, subject⟩ := served
        rcases List.mem_cons.mp member with rfl | rest
        · exact absurd subject here
        · exact ⟨other, rest, subject⟩

/-- A pass that is not about a request leaves its prompt record alone. -/
theorem record_eq (passes : Passes manager events next) (start : manager.Sound)
    (apart : ∀ event ∈ events, event.subject ≠ some other) :
    next.requestProvenance.find? other = manager.requestProvenance.find? other :=
  passes.preserves (fun state => state.requestProvenance.find? other =
    manager.requestProvenance.find? other) start rfl
    fun member _ effect _ same => (effect.record_eq (apart _ member)).trans same

end Passes

/-! ## Idle managers -/

/-- A block in a valid manager is free and in the free set, or cached and unclaimed, or claimed. -/
theorem Sound.trichotomy (sound : manager.Sound) {x : Nat}
    (inside : x < manager.config.totalNumBlocks) :
    ((manager.block x).state = .free ∧ x ∈ manager.freeBlocks ∧
        (manager.block x).validTokenCount = 0) ∨
      ((manager.block x).state = .cached ∧ x ∉ manager.freeBlocks ∧
        (manager.block x).validTokenCount = manager.config.blockSizeTokens) ∨
      ((manager.block x).state = .inUse ∧ x ∉ manager.freeBlocks ∧
        0 < occurrencesIn manager.blockTables x) := by
  have shape := sound.valid.blocks.block x inside
  change BlockValid _ _ _ _ _ _ (manager.block x) at shape
  generalize manager.block x = block at shape
  cases shape with
  | free isFree _ => exact Or.inl ⟨rfl, isFree, rfl⟩
  | cached notFree => exact Or.inr (Or.inl ⟨rfl, notFree, rfl⟩)
  | shared notFree claimed => exact Or.inr (Or.inr ⟨rfl, notFree, claimed⟩)
  | owned notFree claimed =>
      rw [claimed]
      exact Or.inr (Or.inr ⟨rfl, notFree, Nat.one_pos⟩)

/-- Where no request holds a table every block is free or cached. -/
theorem Sound.idle_block (sound : manager.Sound)
    (idle : ∀ id, manager.blockTables.find? id = none) {x : Nat}
    (inside : x < manager.config.totalNumBlocks) :
    ((manager.block x).state = .free ∧ x ∈ manager.freeBlocks ∧
        (manager.block x).validTokenCount = 0) ∨
      ((manager.block x).state = .cached ∧ x ∉ manager.freeBlocks ∧
        (manager.block x).validTokenCount = manager.config.blockSizeTokens) := by
  have unclaimed : occurrencesIn manager.blockTables x = 0 :=
    OrdMap.total_eq_zero fun key value found => by
      rw [idle] at found
      cases found
  rcases sound.trichotomy inside with free | cached | ⟨-, -, claimed⟩
  · exact Or.inl free
  · exact Or.inr cached
  · omega

/-- The free and the cached blocks of an idle manager are all its blocks. -/
theorem Sound.idle_capacity (sound : manager.Sound)
    (idle : ∀ id, manager.blockTables.find? id = none) :
    manager.freeBlocks.size + manager.cachedBlockCount = manager.config.totalNumBlocks := by
  have length := sound.valid.blocks.length
  have free : manager.freeBlocks.size = ((List.range manager.blocks.length).filter fun x =>
      decide (x ∈ manager.freeBlocks)).length := by
    refine OrdSet.size_eq_length (List.nodup_range.filter _) fun x => ?_
    rw [List.mem_filter, List.mem_range, decide_eq_true_eq]
    refine ⟨fun isFree => ⟨?_, isFree⟩, fun both => both.2⟩
    rw [length]
    exact sound.ordered.free x isFree
  have cached : manager.cachedIds = (List.range manager.blocks.length).filter fun x =>
      !decide (x ∈ manager.freeBlocks) := by
    refine List.filter_congr fun x member => ?_
    rw [List.mem_range, length] at member
    rcases sound.idle_block idle member with ⟨state, isFree, -⟩ | ⟨state, notFree, -⟩
    · simp [state, isFree]
    · simp [state, notFree]
  rw [cachedBlockCount_eq, cached, free, ← List.length_append,
    (List.filter_append_perm _ _).length_eq, List.length_range, length]

/-- The tokens of an idle manager are those of its cached blocks. -/
theorem Sound.idle_represented (sound : manager.Sound)
    (idle : ∀ id, manager.blockTables.find? id = none) :
    manager.representedTokenCount =
      manager.cachedBlockCount * manager.config.blockSizeTokens := by
  rw [← sound.valid.blocks.represented, cachedBlockCount_eq, cachedIds]
  conv_lhs => rw [blocks_eq_map_range, List.map_map]
  refine sum_map_kept _ fun x member => ?_
  rw [List.mem_range, sound.valid.blocks.length] at member
  rcases sound.idle_block idle member with ⟨state, -, count⟩ | ⟨state, -, count⟩
  · simp [state, count]
  · simp [state, count]

end KVCacheManager

end LlmLab.Serving
