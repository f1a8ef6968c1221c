import LlmLab.Serving.KVCache.Chains
import LlmLab.Serving.KVCache.Isolation

/-!
# The history of the prefix cache

A ghost follows the successful operations.  It knows the exact prompts of the live requests,
the prompts that were published, for every keyed block the prompt and position it was published
with, and the set of full-block chains that publications added and evictions removed.
`Traced` ties the keys of the manager to that history.
-/

namespace LlmLab.Serving

open KVCacheManager

/-- How a block was published: for which prompt, at which full block of it. -/
structure Origin where
  prompt : List Token
  position : Nat

/-- The chain of full blocks that ends in the block. -/
def Origin.chain (blockSize : Nat) (origin : Origin) : List Token :=
  causalPrefix blockSize origin.prompt origin.position

/-- What the successful operations say about the prefix cache. -/
structure History where
  prompts : RequestId → Option (List Token)
  published : Set (List Token)
  origin : Nat → Option Origin
  chains : Set (List Token)

namespace History

/-- Nothing has happened. -/
def start : History := ⟨fun _ => none, ∅, fun _ => none, ∅⟩

/-- A cached block lost its key. -/
def Evicts (before after : KVCacheManager) (x : Nat) : Prop :=
  (before.block x).state = .cached ∧ (after.block x).prefixKey = none

instance (before after : KVCacheManager) (x : Nat) : Decidable (Evicts before after x) := by
  unfold Evicts
  infer_instance

/-- An evicted block takes the chain whose key it carried out of the cache. -/
def evict (history : History) (before after : KVCacheManager) : History :=
  { history with
    origin := fun x => if Evicts before after x then none else history.origin x
    chains := { chain | chain ∈ history.chains ∧ ∀ x origin, Evicts before after x →
      history.origin x = some origin → chain ≠ origin.chain before.config.blockSizeTokens } }

/-- A request arrives with a prompt, or leaves. -/
def enroll (history : History) (id : RequestId) (prompt : Option (List Token)) : History :=
  { history with prompts := Function.update history.prompts id prompt }

/-- A publication adds every non-empty full-block prefix of the prompt. -/
def publish (history : History) (before after : KVCacheManager) (id : RequestId) : History :=
  match history.prompts id with
  | none => history
  | some tokens => { history with
      published := insert tokens history.published
      origin := fun x =>
        if (before.block x).prefixKey = none ∧ (after.block x).prefixKey ≠ none then
          some ⟨tokens, ((before.blockTables.find? id).getD []).idxOf x⟩
        else history.origin x
      chains := { chain | chain ∈ history.chains ∨
        ∃ i < tokens.length / before.config.blockSizeTokens,
          chain = causalPrefix before.config.blockSizeTokens tokens i } }

/-- The history after a successful operation. -/
def record (history : History) (before after : KVCacheManager) : KVEvent → History
  | .countPrompt id _ => (history.evict before after).enroll id none
  | .exactPrompt id tokens => (history.evict before after).enroll id (some tokens)
  | .publish id => history.publish before after id
  | .append _ => history.evict before after
  | .release id => history.enroll id none
  | .evict _ => history.evict before after

/-- Chains stay available as long as no block is evicted. -/
theorem chains_subset_record (history : History) {before after : KVCacheManager}
    (kept : ∀ x, ¬ Evicts before after x) (event : KVEvent) :
    history.chains ⊆ (history.record before after event).chains := by
  intro chain present
  have survives : chain ∈ (history.evict before after).chains :=
    ⟨present, fun x _ evicted => absurd evicted (kept x)⟩
  cases event with
  | countPrompt | exactPrompt | append | evict => exact survives
  | release => exact present
  | publish id =>
      simp only [record, publish]
      split
      · exact present
      · exact Or.inl present

/-- A publication makes the whole prompt available. -/
theorem chain_mem_publish (history : History) {before after : KVCacheManager} {id : RequestId}
    {tokens : List Token} (prompt : history.prompts id = some tokens) {i : Nat}
    (inside : i < tokens.length / before.config.blockSizeTokens) :
    causalPrefix before.config.blockSizeTokens tokens i ∈
      (history.publish before after id).chains := by
  simp only [publish, prompt]
  exact Or.inr ⟨i, inside, rfl⟩

/-- The ghost: failed operations leave no trace. -/
def observe (history : History) (before : KVCacheManager) (op : KVOp) :
    Except Exn Unit → History
  | .ok () => history.record before (before.apply op).2 op.event
  | .error _ => history

end History

namespace KVCacheManager

variable {manager next : KVCacheManager} {history : History} {event : KVEvent} {id : RequestId}

/-- Prompts under the manager's own namespace and salt. -/
def inScope (manager : KVCacheManager) (prompts : Set (List Token)) : ScopedPrompts :=
  { prompt | prompt.1 = manager.prefixConfig.modelNamespace ∧
    prompt.2.1 = manager.prefixConfig.cacheSalt ∧ prompt.2.2 ∈ prompts }

theorem mem_inScope {prompts : Set (List Token)} {tokens : List Token} (member : tokens ∈ prompts) :
    (manager.prefixConfig.modelNamespace, manager.prefixConfig.cacheSalt, tokens) ∈
      manager.inScope prompts :=
  ⟨rfl, rfl, member⟩

/-- The history describes the manager. -/
structure Traced (history : History) (manager : KVCacheManager) : Prop where
  prompts : ∀ id p, manager.requestProvenance.find? id = some p →
    p.exactPromptTokens = history.prompts id
  key : ∀ x, (manager.block x).prefixKey =
    (history.origin x).map fun origin => manager.chainKey origin.prompt origin.position
  origin : ∀ x origin, history.origin x = some origin → origin.prompt ∈ history.published ∧
    origin.position < origin.prompt.length / manager.config.blockSizeTokens
  chains : manager.CollisionFree (manager.inScope history.published) → ∀ chain,
    chain ∈ history.chains ↔ ∃ x origin, history.origin x = some origin ∧
      chain = origin.chain manager.config.blockSizeTokens

namespace Traced

/-- Two blocks never carry one chain. -/
theorem origin_injective (traced : Traced history manager) (valid : manager.Valid) {x y : Nat}
    {first second : Origin} (left : history.origin x = some first)
    (right : history.origin y = some second)
    (same : first.chain manager.config.blockSizeTokens =
      second.chain manager.config.blockSizeTokens) : x = y := by
  have position := position_eq_of_chain manager.config.blockSize_pos (traced.origin x first left).2
    (traced.origin y second right).2 same
  unfold Origin.chain at same
  rw [← position] at same
  have keys : manager.chainKey first.prompt first.position =
      manager.chainKey second.prompt second.position := by
    rw [← position]
    exact chainKeyIn_congr same
  have leftKey := traced.key x
  have rightKey := traced.key y
  rw [left] at leftKey
  rw [right] at rightKey
  exact valid.index.canonical x y _ _ leftKey rightKey (congrArg TokenBlockKey.material keys)

theorem unkeyed_iff (traced : Traced history manager) {x : Nat} :
    (manager.block x).prefixKey = none ↔ history.origin x = none := by
  rw [traced.key, Option.map_eq_none_iff]

/-! ## The steps -/

/-- Requests come and go; keys and chains stay. -/
theorem enroll (traced : Traced history manager) (setup : manager.SameSetup next)
    (keys : ∀ x, (next.block x).prefixKey = (manager.block x).prefixKey)
    {prompt : Option (List Token)}
    (prompts : ∀ other p, next.requestProvenance.find? other = some p →
      p.exactPromptTokens = Function.update history.prompts id prompt other) :
    Traced (history.enroll id prompt) next := by
  refine ⟨prompts, fun x => ?_, fun x origin found => ?_, fun free chain => ?_⟩
  · rw [keys, traced.key]
    simp only [setup.chainKey]
    rfl
  · rw [setup.config]
    exact traced.origin x origin found
  · have same : next.inScope history.published = manager.inScope history.published := by
      simp only [inScope, setup.prefixConfig]
    rw [setup.config]
    exact traced.chains (setup.collisionFree.mp (same ▸ free)) chain

/-- Evicted blocks leave with their chains, whatever happens to the prompts. -/
theorem evict (traced : Traced history manager) (sound : manager.Sound)
    (setup : manager.SameSetup next) {victims : List Nat}
    (cached : ∀ x ∈ victims, (manager.block x).state = .cached)
    (keys : ∀ x, (next.block x).prefixKey =
      if x ∈ victims then none else (manager.block x).prefixKey)
    {prompts : RequestId → Option (List Token)}
    (recorded : ∀ other p, next.requestProvenance.find? other = some p →
      p.exactPromptTokens = prompts other) :
    Traced { history.evict manager next with prompts := prompts } next := by
  have evicts : ∀ x, History.Evicts manager next x ↔ x ∈ victims := fun x => by
    constructor
    · rintro ⟨isCached, lost⟩
      by_contra kept
      rw [keys, if_neg kept] at lost
      exact sound.cached isCached lost
    · intro victim
      exact ⟨cached x victim, by rw [keys, if_pos victim]⟩
  have origins : ∀ x, (history.evict manager next).origin x =
      if x ∈ victims then none else history.origin x := fun x =>
    if_congr (evicts x) rfl rfl
  refine ⟨recorded, fun x => ?_, fun x origin found => ?_, fun free chain => ?_⟩
  · rw [keys]
    change _ = ((history.evict manager next).origin x).map _
    rw [origins, traced.key]
    simp only [setup.chainKey]
    split
    · rfl
    · rfl
  · change (history.evict manager next).origin x = _ at found
    rw [origins] at found
    rw [setup.config]
    split at found
    · cases found
    · exact traced.origin x origin found
  · have same : next.inScope history.published = manager.inScope history.published := by
      simp only [inScope, setup.prefixConfig]
    have before := traced.chains (setup.collisionFree.mp (same ▸ free)) chain
    rw [setup.config]
    constructor
    · rintro ⟨present, kept⟩
      obtain ⟨x, origin, found, rfl⟩ := before.mp present
      have notVictim : x ∉ victims := fun victim =>
        kept x origin ((evicts x).mpr victim) found rfl
      exact ⟨x, origin, (origins x).trans (by rw [if_neg notVictim, found]), rfl⟩
    · rintro ⟨x, origin, found, rfl⟩
      change (history.evict manager next).origin x = _ at found
      rw [origins] at found
      split at found
      · cases found
      next notVictim =>
      refine ⟨before.mpr ⟨x, origin, found, rfl⟩, fun y other evicted found' equal => ?_⟩
      have twin := traced.origin_injective sound.valid found found' equal
      exact notVictim (twin ▸ (evicts y).mp evicted)

/-- A publication keys unkeyed blocks of its request until the whole chain is keyed. -/
theorem publish (traced : Traced history manager) (setup : manager.SameSetup next)
    {tokens : List Token} (prompt : history.prompts id = some tokens)
    (blocks : ∀ x, (next.block x).prefixKey = (manager.block x).prefixKey ∨
      ((manager.block x).prefixKey = none ∧ ∃ j < tokens.length / manager.config.blockSizeTokens,
        ((manager.blockTables.find? id).getD []).idxOf x = j ∧
          (next.block x).prefixKey = some (manager.chainKey tokens j)))
    (keyed : ∀ i < tokens.length / manager.config.blockSizeTokens,
      next.Keyed (manager.chainKey tokens i))
    (prompts : ∀ other p, next.requestProvenance.find? other = some p →
      p.exactPromptTokens = history.prompts other) :
    Traced (history.publish manager next id) next := by
  have origins : ∀ x, ((history.publish manager next id).origin x = history.origin x ∧
      (next.block x).prefixKey = (manager.block x).prefixKey) ∨
      (history.origin x = none ∧ ∃ j < tokens.length / manager.config.blockSizeTokens,
        (history.publish manager next id).origin x = some ⟨tokens, j⟩ ∧
        (next.block x).prefixKey = some (manager.chainKey tokens j)) := fun x => by
    simp only [History.publish, prompt]
    rcases blocks x with same | ⟨unkeyed, j, inside, index, carries⟩
    · refine Or.inl ⟨if_neg ?_, same⟩
      rintro ⟨before, after⟩
      exact after (same.trans before)
    · refine Or.inr ⟨traced.unkeyed_iff.mp unkeyed, j, inside, ?_, carries⟩
      rw [if_pos ⟨unkeyed, by rw [carries]; simp⟩, index]
  have published : (history.publish manager next id).published =
      insert tokens history.published := by
    simp only [History.publish, prompt]
  have promptsEq : (history.publish manager next id).prompts = history.prompts := by
    simp only [History.publish, prompt]
  have key : ∀ x, (next.block x).prefixKey = ((history.publish manager next id).origin x).map
      fun origin => manager.chainKey origin.prompt origin.position := fun x => by
    rcases origins x with ⟨same, kept⟩ | ⟨-, j, -, new, carries⟩
    · rw [same, kept, traced.key]
    · rw [new, carries]
      rfl
  have origin : ∀ x origin, (history.publish manager next id).origin x = some origin →
      origin.prompt ∈ insert tokens history.published ∧
        origin.position < origin.prompt.length / manager.config.blockSizeTokens := by
    intro x origin found
    rcases origins x with ⟨same, -⟩ | ⟨-, j, inside, new, -⟩
    · rw [same] at found
      obtain ⟨member, bound⟩ := traced.origin x origin found
      exact ⟨Set.mem_insert_of_mem _ member, bound⟩
    · rw [new] at found
      cases found
      exact ⟨Set.mem_insert .., inside⟩
  refine ⟨fun other p recorded => by rw [promptsEq]; exact prompts other p recorded, fun x => ?_,
    fun x => ?_, fun free chain => ?_⟩
  · simp only [setup.chainKey]
    exact key x
  · rw [published, setup.config]
    exact origin x
  · rw [published] at free
    have same : next.inScope (insert tokens history.published) =
        manager.inScope (insert tokens history.published) := by
      simp only [inScope, setup.prefixConfig]
    rw [same, setup.collisionFree] at free
    have before := traced.chains (free.mono fun prompt member =>
      ⟨member.1, member.2.1, Set.mem_insert_of_mem _ member.2.2⟩) chain
    have chains : chain ∈ (history.publish manager next id).chains ↔ chain ∈ history.chains ∨
        ∃ i < tokens.length / manager.config.blockSizeTokens,
          chain = causalPrefix manager.config.blockSizeTokens tokens i := by
      simp only [History.publish, prompt, Set.mem_ofPred_eq]
    rw [chains, before, setup.config]
    constructor
    · rintro (⟨x, old, found, rfl⟩ | ⟨i, inside, rfl⟩)
      · rcases origins x with ⟨kept, -⟩ | ⟨none, -⟩
        · exact ⟨x, old, by rw [kept, found], rfl⟩
        · rw [none] at found
          cases found
      · obtain ⟨x, carries⟩ := keyed i inside
        rw [key, Option.map_eq_some_iff] at carries
        obtain ⟨other, found, equal⟩ := carries
        obtain ⟨member, bound⟩ := origin x other found
        obtain ⟨position, -, -, tokensEq⟩ := free.chainKeyIn_injective (mem_inScope member)
          (mem_inScope (Set.mem_insert ..)) bound inside equal
        refine ⟨x, other, found, ?_⟩
        unfold Origin.chain
        rw [tokensEq, position]
    · rintro ⟨x, new, found, rfl⟩
      rcases origins x with ⟨kept, -⟩ | ⟨-, j, inside, written, -⟩
      · rw [kept] at found
        exact Or.inl ⟨x, new, found, rfl⟩
      · rw [written] at found
        cases found
        exact Or.inr ⟨j, inside, rfl⟩

end Traced

/-! ## Any operation -/

/-- Once published, the whole chain of a live prompt is keyed. -/
theorem Sound.keyed_of_published (sound : manager.Sound) {p : RequestKVPromptProvenance}
    {tokens : List Token} (recorded : manager.requestProvenance.find? id = some p)
    (exact : p.exactPromptTokens = some tokens) (completed : p.publicationCompleted = true) {i : Nat}
    (inside : i < tokens.length / manager.config.blockSizeTokens) :
    manager.Keyed (manager.chainKey tokens i) := by
  obtain ⟨table, found⟩ := sound.valid.tables id p recorded
  obtain ⟨p', recorded', entry⟩ := sound.valid.entries id table found
  rw [recorded, Option.some.injEq] at recorded'
  subst recorded'
  have full : i < p.cacheEligibleFullPromptBlocks := by
    rw [entry.record.full_eq exact]
    exact inside
  have listed : i < table.length := full.trans_le (entry.record.full_le.trans entry.start)
  rcases entry.chain tokens exact i _ full (List.getElem?_eq_getElem listed) with
    ⟨carries, -⟩ | ⟨-, -, canonical⟩
  · exact ⟨_, carries⟩
  · exact canonical completed

/-- Apart from publication, a key only disappears with a cached block. -/
theorem Effect.evictions (effect : Effect manager next event) (sound : manager.Sound)
    (notPublish : ∀ id, event ≠ .publish id) :
    ∃ victims : List Nat, (∀ x ∈ victims, (manager.block x).state = .cached) ∧
      ∀ x, (next.block x).prefixKey = if x ∈ victims then none else (manager.block x).prefixKey := by
  cases effect with
  | countPrompt _ served =>
      exact ⟨_, fun x member => (served.serves.victim sound member).1,
        served.effect.key served.serves sound⟩
  | exactPrompt _ _ served =>
      exact ⟨_, fun x member => (served.serves.victim sound member).1,
        served.effect.key served.serves sound⟩
  | published => exact absurd rfl (notPublish _)
  | republished => exact absurd rfl (notPublish _)
  | appended _ appended =>
      cases appended with
      | grown _ _ grown => exact ⟨[], by simp, fun x => by rw [grown.key sound]; simp⟩
      | extended _ _ extended _ => exact ⟨_, extended.cached, extended.key sound⟩
  | released released => exact ⟨[], by simp, fun x => by rw [released.key]; simp⟩
  | @evicted count _ evicted =>
      refine ⟨manager.eligibleEvictionOrder.take count, sound.cached_of_take, fun x => ?_⟩
      rw [evicted.block]
      split
      · rfl
      · rfl

/-- A successful operation keeps the history exact. -/
theorem Effect.traced (effect : Effect manager next event) (sound : manager.Sound)
    (after : next.Sound) (traced : Traced history manager) :
    Traced (history.record manager next event) next := by
  have setup := effect.setup
  have evicting : (∀ id, event ≠ .publish id) → ∀ prompts : RequestId → Option (List Token),
      (∀ other p, next.requestProvenance.find? other = some p →
        p.exactPromptTokens = prompts other) →
      Traced { history.evict manager next with prompts := prompts } next :=
    fun notPublish prompts recorded => by
      obtain ⟨victims, cached, keys⟩ := effect.evictions sound notPublish
      exact traced.evict sound setup cached keys recorded
  have entered : ∀ {id : RequestId} {record : RequestKVPromptProvenance},
      next.requestProvenance = manager.requestProvenance.insert id record →
      ∀ other p, next.requestProvenance.find? other = some p →
        p.exactPromptTokens = Function.update history.prompts id record.exactPromptTokens other :=
    fun records other p recorded => by
      rw [records, OrdMap.find?_insert] at recorded
      split at recorded
      · next same =>
          cases recorded
          rw [same, Function.update_self]
      · next apart =>
          rw [Function.update_of_ne apart]
          exact traced.prompts other p recorded
  have stayed : next.requestProvenance = manager.requestProvenance →
      ∀ other p, next.requestProvenance.find? other = some p →
        p.exactPromptTokens = history.prompts other := fun records other p recorded => by
    rw [records] at recorded
    exact traced.prompts other p recorded
  cases effect with
  | countPrompt _ served =>
      exact evicting nofun _ (entered served.effect.provenance)
  | exactPrompt _ _ served =>
      exact evicting nofun _ (entered served.effect.provenance)
  | @published id table p tokens plan notYet published =>
      obtain ⟨p', recorded', entry⟩ := sound.valid.entries id table plan.table
      rw [plan.record, Option.some.injEq] at recorded'
      subst recorded'
      have full := entry.record.full_eq plan.exact
      have records : next.requestProvenance = manager.requestProvenance.modify id fun p =>
          { p with publicationCompleted := true } := by rw [published.rest]
      have marked : next.requestProvenance.find? id =
          some { p with publicationCompleted := true } := by
        rw [records, OrdMap.find?_modify, if_pos rfl, plan.record]
        rfl
      refine traced.publish setup (by rw [← traced.prompts id p plan.record, plan.exact])
        (fun x => ?_) (fun i inside => ?_) fun other p recorded => ?_
      · rcases published.block x with same | ⟨j, e, -, inside, at', unkeyed, -, -, eq⟩
        · exact Or.inl (by rw [same])
        · refine Or.inr ⟨unkeyed, j, full ▸ inside, ?_, by rw [eq]⟩
          rw [plan.table]
          obtain ⟨bound, rfl⟩ := List.getElem?_eq_some_iff.mp at'
          exact entry.nodup.idxOf_getElem j bound
      · rw [← setup.chainKey]
        exact after.keyed_of_published marked plan.exact rfl (by rw [setup.config]; exact inside)
      · rw [records, OrdMap.find?_modify] at recorded
        split at recorded
        · next same =>
            rw [Option.map_eq_some_iff] at recorded
            obtain ⟨before, found, rfl⟩ := recorded
            exact traced.prompts other before found
        · exact traced.prompts other p recorded
  | @republished id table p tokens plan completed same =>
      subst same
      exact traced.publish setup (by rw [← traced.prompts id p plan.record, plan.exact])
        (fun _ => Or.inl rfl)
        (fun _ inside => sound.keyed_of_published plan.record plan.exact completed inside)
        traced.prompts
  | appended _ appended =>
      refine evicting nofun history.prompts (stayed ?_)
      cases appended with
      | grown _ _ grown =>
          rw [grown.result]
          rfl
      | extended _ _ extended _ => exact extended.provenance
  | @released id table released =>
      refine traced.enroll setup released.key fun other p recorded => ?_
      rw [released.rest] at recorded
      change (manager.requestProvenance.erase id).find? other = _ at recorded
      rw [OrdMap.find?_erase] at recorded
      split at recorded
      · cases recorded
      next apart =>
      rw [Function.update_of_ne apart]
      exact traced.prompts other p recorded
  | evicted _ evicted => exact evicting nofun history.prompts (stayed evicted.provenance)

end KVCacheManager

end LlmLab.Serving
