import LlmLab.Serving.KVCache.Valid
import Mathlib.Algebra.Order.BigOperators.Group.List

/-!
# Steps of a physical block

What one write to one block does to `BlocksValid`: a block is evicted, taken from the free
set, acquired by a further request, published, grown by a decoded token, or dropped by a
released request.  Each step carries the claim of the request it serves along, as the list
of blocks that the request holds so far.
-/

namespace LlmLab.Serving

/-! ## Claims -/

section Claims

variable {tables : OrdMap RequestId (List Nat)} {owner other : RequestId} {held : List Nat}
  {id : Nat}

theorem occurrencesIn_insert :
    occurrencesIn (tables.insert owner held) id =
      held.count id + occurrencesIn (tables.erase owner) id := by
  unfold occurrencesIn
  rw [← OrdMap.insert_erase, OrdMap.total_insert (fun table : List Nat => table.count id) (by simp)]

theorem holdsIn_insert :
    HoldsIn (tables.insert owner held) other id ↔
      if other = owner then id ∈ held else HoldsIn tables other id := by
  unfold HoldsIn
  by_cases equal : other = owner <;> simp [equal]

theorem occurrencesIn_insert_nil (fresh : tables.find? owner = none) :
    occurrencesIn (tables.insert owner []) id = occurrencesIn tables id := by
  unfold occurrencesIn
  rw [OrdMap.total_insert (fun table : List Nat => table.count id) fresh]
  simp

theorem HoldsIn.insert_nil (fresh : tables.find? owner = none) (holds : HoldsIn tables other id) :
    HoldsIn (tables.insert owner []) other id := by
  rw [holdsIn_insert]
  split
  · next equal =>
      subst equal
      obtain ⟨table, found, -⟩ := holds
      rw [fresh] at found
      cases found
  · exact holds

/-- A block that a table holds is counted at least once. -/
theorem HoldsIn.occurrences_pos (holds : HoldsIn tables other id) :
    0 < occurrencesIn tables id := by
  obtain ⟨table, found, member⟩ := holds
  exact (List.count_pos_iff.mpr member).trans_le (OrdMap.le_total (fun table : List Nat => table.count id) found)

/-- Two tables that hold a block claim it twice. -/
theorem HoldsIn.two_le (first : HoldsIn tables owner id) (second : HoldsIn tables other id)
    (apart : other ≠ owner) : 2 ≤ occurrencesIn tables id := by
  obtain ⟨table, found, member⟩ := first
  obtain ⟨held, present, also⟩ := second
  have split : occurrencesIn tables id =
      table.count id + occurrencesIn (tables.erase owner) id :=
    OrdMap.total_erase (fun table : List Nat => table.count id) found
  have mine := List.count_pos_iff.mpr member
  have theirs : 0 < occurrencesIn (tables.erase owner) id :=
    HoldsIn.occurrences_pos ⟨held, by rw [OrdMap.find?_erase, if_neg apart, present], also⟩
  omega

end Claims

/-! ## One block -/

namespace BlockValid

variable {blockSize epoch epoch' occ occ' id : Nat} {free free' : Prop}
  {holds holds' : RequestId → Prop} {block : PhysicalKVBlock}

/-- What a block keeps when the rest of the manager moves on. -/
theorem mono (valid : BlockValid blockSize epoch free occ holds id block)
    (sameFree : free' ↔ free) (epoch_le : epoch ≤ epoch') (sameOcc : occ' = occ)
    (kept : ∀ request, holds request → holds' request) :
    BlockValid blockSize epoch' free' occ' holds' id block := by
  subst sameOcc
  cases valid with
  | free isFree occ => exact .free (sameFree.mpr isFree) occ
  | cached notFree occ pos le cacheable =>
      exact .cached (mt sameFree.mp notFree) occ pos (le.trans epoch_le) cacheable
  | shared notFree occ pos le cacheable =>
      exact .shared (mt sameFree.mp notFree) occ pos (le.trans epoch_le) cacheable
  | owned notFree occ holds valid_pos valid_le full pos le =>
      exact .owned (mt sameFree.mp notFree) occ (kept _ holds) valid_pos valid_le full pos
        (le.trans epoch_le)

theorem eq_free (valid : BlockValid blockSize epoch free occ holds id block) (isFree : free) :
    block = { blockId := id } ∧ occ = 0 := by
  cases valid with
  | free _ occ => exact ⟨rfl, occ⟩
  | cached notFree => exact absurd isFree notFree
  | shared notFree => exact absurd isFree notFree
  | owned notFree => exact absurd isFree notFree

theorem id_eq (valid : BlockValid blockSize epoch free occ holds id block) :
    block.blockId = id := by
  cases valid <;> rfl

end BlockValid

/-- An acquired block stays in the cacheable class. -/
theorem KVCacheManager.acquiredBlock_provenance (epoch : Nat) (block : PhysicalKVBlock)
    {p : KVBlockProvenance} (present : block.provenance = some p)
    (cacheable : p.cacheable = true) :
    ∃ q, (acquiredBlock epoch block).provenance = some q ∧ q.cacheable = true := by
  unfold acquiredBlock
  dsimp only
  split
  · exact ⟨.sharedPromptFull, rfl, rfl⟩
  · exact ⟨p, present, cacheable⟩

/-! ## The block list -/

namespace BlocksValid

variable {config : KVCacheConfig} {blocks : List PhysicalKVBlock} {free free' : OrdSet Nat}
  {epoch epoch' : Nat} {tables tables' : OrdMap RequestId (List Nat)} {tokens tokens' : Nat}
  {owner : RequestId} {held held' : List Nat} {id : Nat}

/-- Writing one block keeps the rest. -/
theorem modify (valid : BlocksValid config blocks free epoch tables tokens)
    (inside : id < config.totalNumBlocks) {f : PhysicalKVBlock → PhysicalKVBlock}
    (written : BlockValid config.blockSizeTokens epoch' (id ∈ free') (occurrencesIn tables' id)
      (HoldsIn tables' · id) id (f (blocks.getD id { blockId := id })))
    (epoch_le : epoch ≤ epoch') (sameFree : ∀ x, x ≠ id → (x ∈ free' ↔ x ∈ free))
    (sameOcc : ∀ x, x ≠ id → occurrencesIn tables' x = occurrencesIn tables x)
    (kept : ∀ x, x ≠ id → ∀ request, HoldsIn tables request x → HoldsIn tables' request x)
    (sum : tokens' + (blocks.getD id { blockId := id }).validTokenCount =
      tokens + (f (blocks.getD id { blockId := id })).validTokenCount) :
    BlocksValid config (blocks.modify id f) free' epoch' tables' tokens' where
  length := by rw [List.length_modify, valid.length]
  block x bound := by
    rw [getD_modify]
    split
    · next same =>
        obtain ⟨rfl, -⟩ := same
        exact written
    · next different =>
        have apart : x ≠ id := fun equal => different ⟨equal.symm, by rw [valid.length]; exact bound⟩
        exact (valid.block x bound).mono (sameFree x apart) epoch_le (sameOcc x apart)
          (kept x apart)
  represented := by
    have total := sum_map_modify blocks id f (·.validTokenCount) { blockId := id }
      (by rw [valid.length]; exact inside)
    have before := valid.represented
    omega

/-- The blocks stay valid under tables that make the same claims. -/
theorem congrTables (valid : BlocksValid config blocks free epoch tables tokens)
    (sameOcc : ∀ x, occurrencesIn tables' x = occurrencesIn tables x)
    (kept : ∀ x request, HoldsIn tables request x → HoldsIn tables' request x) :
    BlocksValid config blocks free epoch tables' tokens :=
  ⟨valid.length, fun x bound =>
    (valid.block x bound).mono Iff.rfl le_rfl (sameOcc x) (kept x), valid.represented⟩

/-- A new request starts with no claim. -/
theorem enter (valid : BlocksValid config blocks free epoch tables tokens)
    (fresh : tables.find? owner = none) :
    BlocksValid config blocks free epoch (tables.insert owner []) tokens :=
  valid.congrTables (fun _ => occurrencesIn_insert_nil fresh) fun _ _ => HoldsIn.insert_nil fresh

/-- A request without claims leaves. -/
theorem leave (valid : BlocksValid config blocks free epoch (tables.insert owner []) tokens) :
    BlocksValid config blocks free epoch (tables.erase owner) tokens := by
  refine valid.congrTables (fun x => ?_) fun x request holds => ?_
  · rw [occurrencesIn_insert, List.count_nil, Nat.zero_add]
  · rw [holdsIn_insert] at holds
    split at holds
    · cases holds
    · next different =>
        obtain ⟨table, found, member⟩ := holds
        exact ⟨table, by rw [OrdMap.find?_erase, if_neg different, found], member⟩

theorem mono_epoch (valid : BlocksValid config blocks free epoch tables tokens)
    (epoch_le : epoch ≤ epoch') : BlocksValid config blocks free epoch' tables tokens :=
  ⟨valid.length, fun x bound =>
    (valid.block x bound).mono Iff.rfl epoch_le rfl fun _ holds => holds, valid.represented⟩

/-! ### Evicting a cached block -/

/-- The block that an eviction leaves behind. -/
theorem cached_shape (valid : BlocksValid config blocks free epoch tables tokens)
    (inside : id < config.totalNumBlocks)
    (cached : (blocks.getD id { blockId := id }).state = .cached) :
    ∃ e key p, blocks.getD id { blockId := id } =
        { blockId := id, state := .cached, validTokenCount := config.blockSizeTokens
          lastAccessEpoch := e, prefixKey := some key, provenance := some p } ∧
      id ∉ free ∧ occurrencesIn tables id = 0 ∧ 0 < e ∧ e ≤ epoch ∧ p.cacheable = true := by
  have shape := valid.block id inside
  revert cached shape
  generalize blocks.getD id { blockId := id } = block
  intro cached shape
  cases shape with
  | free => cases cached
  | @cached e key p notFree occ pos le cacheable =>
      exact ⟨e, key, p, rfl, notFree, occ, pos, le, cacheable⟩
  | shared => cases cached
  | owned => cases cached

/-- To evict a cached block keeps the blocks valid. -/
theorem evict (valid : BlocksValid config blocks free epoch tables tokens)
    (inside : id < config.totalNumBlocks)
    (cached : (blocks.getD id { blockId := id }).state = .cached)
    {f : PhysicalKVBlock → PhysicalKVBlock}
    (freed : f (blocks.getD id { blockId := id }) = { blockId := id }) :
    BlocksValid config (blocks.modify id f) (free.insert id) epoch tables
        (tokens - config.blockSizeTokens) ∧ config.blockSizeTokens ≤ tokens := by
  obtain ⟨e, key, p, shape, -, unclaimed, -⟩ := valid.cached_shape inside cached
  have enough : config.blockSizeTokens ≤ tokens := by
    have member : (blocks.getD id { blockId := id }).validTokenCount ∈
        blocks.map (·.validTokenCount) := by
      have bound : id < blocks.length := valid.length ▸ inside
      rw [List.getD_eq_getElem?_getD, List.getElem?_eq_getElem bound]
      exact List.mem_map_of_mem (List.getElem_mem bound)
    have := List.single_le_sum (fun _ _ => Nat.zero_le _) _ member
    rw [valid.represented, shape] at this
    exact this
  refine ⟨valid.modify inside ?_ le_rfl (fun x different => ?_) (fun _ _ => rfl)
    (fun _ _ _ holds => holds) ?_, enough⟩
  · rw [freed]
    exact .free (OrdSet.mem_insert.mpr (Or.inl rfl)) unclaimed
  · rw [OrdSet.mem_insert, or_iff_right different]
  · rw [freed, shape]
    dsimp only
    omega

/-! ### Taking a free block -/

/-- To take a free block into a table keeps the blocks valid. -/
theorem take (valid : BlocksValid config blocks free epoch (tables.insert owner held) tokens)
    (inside : id < config.totalNumBlocks) (isFree : id ∈ free) (gained : held'.Perm (id :: held))
    {f : PhysicalKVBlock → PhysicalKVBlock} {e count : Nat} {p : KVBlockProvenance}
    (taken : f { blockId := id } =
      { blockId := id, state := .inUse, owner := some owner, referenceCount := 1
        validTokenCount := count, lastAccessEpoch := e, provenance := some p })
    (count_pos : 0 < count) (count_le : count ≤ config.blockSizeTokens)
    (full : p.cacheable = true → count = config.blockSizeTokens)
    (epoch_pos : 0 < e) (epoch_le : e ≤ epoch') (later : epoch ≤ epoch') :
    BlocksValid config (blocks.modify id f) (free.erase id) epoch' (tables.insert owner held')
      (tokens + count) := by
  obtain ⟨shape, unclaimed⟩ := (valid.block id inside).eq_free isFree
  rw [occurrencesIn_insert] at unclaimed
  have counts : ∀ x, held'.count x = (id :: held).count x := fun x => gained.count_eq x
  refine valid.modify inside ?_ later (fun x different => ?_) (fun x different => ?_)
    (fun x different request holds => ?_) ?_
  · rw [shape, taken]
    refine .owned (fun member => (OrdSet.mem_erase.mp member).1 rfl) ?_ ?_ count_pos count_le full
      epoch_pos epoch_le
    · rw [occurrencesIn_insert, counts, List.count_cons_self]
      omega
    · rw [holdsIn_insert, if_pos rfl]
      exact gained.mem_iff.mpr List.mem_cons_self
  · rw [OrdSet.mem_erase, and_iff_right different]
  · rw [occurrencesIn_insert, occurrencesIn_insert, counts,
      List.count_cons_of_ne (Ne.symm different)]
  · rw [holdsIn_insert] at holds ⊢
    split at holds
    · next same => rw [if_pos same]; exact gained.mem_iff.mpr (List.mem_cons_of_mem _ holds)
    · next other => rw [if_neg other]; exact holds
  · rw [shape, taken, Nat.add_zero]

/-! ### Acquiring a keyed block -/

/-- A keyed block is cached or shared; either way it holds a full block. -/
theorem keyed_shape (valid : BlocksValid config blocks free epoch tables tokens)
    {key : TokenBlockKey} (carries : (blocks.getD id { blockId := id }).prefixKey = some key) :
    id < config.totalNumBlocks ∧ id ∉ free ∧
      ∃ e p, 0 < e ∧ e ≤ epoch ∧ p.cacheable = true ∧ blocks.getD id { blockId := id } =
        { blockId := id
          state := if occurrencesIn tables id = 0 then .cached else .inUse
          referenceCount := occurrencesIn tables id, validTokenCount := config.blockSizeTokens
          lastAccessEpoch := e, prefixKey := some key, provenance := some p } := by
  have inside : id < config.totalNumBlocks := valid.length ▸ (valid.occupied carries).1
  refine ⟨inside, ?_⟩
  have shape := valid.block id inside
  revert carries shape
  generalize blocks.getD id { blockId := id } = block
  intro carries shape
  cases shape with
  | free => cases carries
  | @cached e key' p notFree occ pos le cacheable =>
      cases carries
      exact ⟨notFree, e, p, pos, le, cacheable, by simp [occ]⟩
  | @shared e key' p notFree occ pos le cacheable =>
      cases carries
      exact ⟨notFree, e, p, pos, le, cacheable, by simp [Nat.ne_of_gt occ]⟩
  | owned => cases carries

/-- To acquire a keyed block into a table keeps the blocks valid. -/
theorem acquire (valid : BlocksValid config blocks free epoch (tables.insert owner held) tokens)
    {key : TokenBlockKey} (carries : (blocks.getD id { blockId := id }).prefixKey = some key)
    (gained : held'.Perm (id :: held)) {e : Nat} (epoch_pos : 0 < e) (epoch_le : e ≤ epoch') 
    (later : epoch ≤ epoch') :
    BlocksValid config (blocks.modify id (KVCacheManager.acquiredBlock e)) free epoch'
      (tables.insert owner held') tokens := by
  obtain ⟨inside, notFree, e', p, -, -, cacheable, shape⟩ := valid.keyed_shape carries
  have counts : ∀ x, held'.count x = (id :: held).count x := fun x => gained.count_eq x
  have once : occurrencesIn (tables.insert owner held') id =
      occurrencesIn (tables.insert owner held) id + 1 := by
    rw [occurrencesIn_insert, occurrencesIn_insert, counts, List.count_cons_self]
    omega
  refine valid.modify inside ?_ later (fun _ _ => Iff.rfl) (fun x different => ?_)
    (fun x different request holds => ?_) ?_
  · obtain ⟨q, written, cacheable'⟩ := KVCacheManager.acquiredBlock_provenance e
      (blocks.getD id { blockId := id }) (by rw [shape]) cacheable
    rw [shape] at written ⊢
    unfold KVCacheManager.acquiredBlock at written ⊢
    dsimp only at written ⊢
    rw [once, written]
    exact .shared notFree (Nat.succ_pos _) epoch_pos epoch_le cacheable'
  · rw [occurrencesIn_insert, occurrencesIn_insert, counts,
      List.count_cons_of_ne (Ne.symm different)]
  · rw [holdsIn_insert] at holds ⊢
    split at holds
    · next same => rw [if_pos same]; exact gained.mem_iff.mpr (List.mem_cons_of_mem _ holds)
    · next other => rw [if_neg other]; exact holds
  · rfl

/-! ### Publishing and growing an owned block -/

/-- A claimed block without a key has one owner, who holds it. -/
theorem owned_shape (valid : BlocksValid config blocks free epoch tables tokens)
    (inside : id < config.totalNumBlocks) (holds : HoldsIn tables owner id)
    (unkeyed : (blocks.getD id { blockId := id }).prefixKey = none) :
    id ∉ free ∧ occurrencesIn tables id = 1 ∧ ∃ e count p holder, HoldsIn tables holder id ∧
      0 < count ∧ count ≤ config.blockSizeTokens ∧
      (p.cacheable = true → count = config.blockSizeTokens) ∧ 0 < e ∧ e ≤ epoch ∧
      blocks.getD id { blockId := id } =
        { blockId := id, state := .inUse, owner := some holder, referenceCount := 1
          validTokenCount := count, lastAccessEpoch := e, provenance := some p } := by
  have claimed := holds.occurrences_pos
  have shape := valid.block id inside
  revert unkeyed shape
  generalize blocks.getD id { blockId := id } = block
  intro unkeyed shape
  cases shape with
  | free _ unclaimed => omega
  | cached => cases unkeyed
  | shared => cases unkeyed
  | @owned e count holder p notFree occ holds count_pos count_le full pos le =>
      exact ⟨notFree, occ, e, count, p, holder, holds, count_pos, count_le, full, pos, le, rfl⟩

/-- To publish a computed full block keeps the blocks valid. -/
theorem publish (valid : BlocksValid config blocks free epoch tables tokens)
    (inside : id < config.totalNumBlocks) (holds : HoldsIn tables owner id)
    (unkeyed : (blocks.getD id { blockId := id }).prefixKey = none)
    (computed : (blocks.getD id { blockId := id }).provenance = some .computedPromptFull)
    (key : TokenBlockKey) :
    BlocksValid config
      (blocks.modify id fun block =>
        { block with prefixKey := some key, owner := none, lastAccessEpoch := epoch + 1 })
      free (epoch + 1) tables tokens := by
  obtain ⟨notFree, once, e, count, p, holder, -, -, -, full, -, -, shape⟩ :=
    valid.owned_shape inside holds unkeyed
  rw [shape, Option.some.injEq] at computed
  subst computed
  obtain rfl := full rfl
  refine valid.modify inside ?_ (Nat.le_succ _) (fun _ _ => Iff.rfl) (fun _ _ => rfl)
    (fun _ _ _ holds => holds) rfl
  rw [shape, once]
  exact .shared notFree Nat.one_pos (Nat.succ_pos _) le_rfl rfl

/-- To add a token to a block with room keeps the blocks valid. -/
theorem grow (valid : BlocksValid config blocks free epoch tables tokens)
    (inside : id < config.totalNumBlocks) (holds : HoldsIn tables owner id)
    (unkeyed : (blocks.getD id { blockId := id }).prefixKey = none)
    (room : (blocks.getD id { blockId := id }).validTokenCount ≠ config.blockSizeTokens) :
    BlocksValid config (blocks.modify id (KVCacheManager.grownBlock (epoch + 1))) free (epoch + 1)
      tables (tokens + 1) := by
  obtain ⟨notFree, once, e, count, p, holder, holds, count_pos, count_le, full, -, -, shape⟩ :=
    valid.owned_shape inside holds unkeyed
  rw [shape] at room
  refine valid.modify inside ?_ (Nat.le_succ _) (fun _ _ => Iff.rfl) (fun _ _ => rfl)
    (fun _ _ _ holds => holds) ?_
  · rw [shape]
    exact .owned notFree once holds (Nat.succ_pos _)
      (Nat.succ_le_of_lt (lt_of_le_of_ne count_le room))
      (fun cacheable => absurd (full cacheable) room) (Nat.succ_pos _) le_rfl
  · rw [shape]
    unfold KVCacheManager.grownBlock
    dsimp only
    omega

/-! ### Dropping a claim -/

/-- A claimed block is shared under its key, or owned. -/
theorem claimed_shape (valid : BlocksValid config blocks free epoch tables tokens)
    (inside : id < config.totalNumBlocks) (claimed : 0 < occurrencesIn tables id) :
    (∃ e key p, 0 < e ∧ e ≤ epoch ∧ p.cacheable = true ∧ blocks.getD id { blockId := id } =
        { blockId := id, state := .inUse, referenceCount := occurrencesIn tables id
          validTokenCount := config.blockSizeTokens, lastAccessEpoch := e
          prefixKey := some key, provenance := some p }) ∨
      (occurrencesIn tables id = 1 ∧ ∃ e count holder p, count ≤ tokens ∧
        blocks.getD id { blockId := id } =
          { blockId := id, state := .inUse, owner := some holder, referenceCount := 1
            validTokenCount := count, lastAccessEpoch := e, provenance := some p }) := by
  have shape := valid.block id inside
  have small : (blocks.getD id { blockId := id }).validTokenCount ≤ tokens := by
    have bound : id < blocks.length := valid.length ▸ inside
    rw [← valid.represented, List.getD_eq_getElem?_getD, List.getElem?_eq_getElem bound]
    exact List.single_le_sum (fun _ _ => Nat.zero_le _) _
      (List.mem_map_of_mem (List.getElem_mem bound))
  revert small shape
  generalize blocks.getD id { blockId := id } = block
  intro shape small
  cases shape with
  | free _ unclaimed => omega
  | cached _ unclaimed => omega
  | @shared e key p notFree occ pos le cacheable =>
      exact Or.inl ⟨e, key, p, pos, le, cacheable, rfl⟩
  | @owned e count holder p notFree occ holds count_pos count_le full pos le =>
      exact Or.inr ⟨occ, e, count, holder, p, small, rfl⟩

/-- Releasing one claim on a keyed block: the last reference leaves it cached. -/
theorem dropShared
    (valid : BlocksValid config blocks free epoch (tables.insert owner (id :: held)) tokens)
    (inside : id < config.totalNumBlocks) {f : PhysicalKVBlock → PhysicalKVBlock}
    {e k : Nat} {key : TokenBlockKey} {p : KVBlockProvenance}
    (references : occurrencesIn (tables.insert owner (id :: held)) id = k + 1)
    (pos : 0 < e) (le : e ≤ epoch) (cacheable : p.cacheable = true)
    (shape : blocks.getD id { blockId := id } =
        { blockId := id, state := .inUse, referenceCount := k + 1
          validTokenCount := config.blockSizeTokens, lastAccessEpoch := e
          prefixKey := some key, provenance := some p })
    (written : f (blocks.getD id { blockId := id }) =
        { blockId := id, state := if k = 0 then .cached else .inUse, referenceCount := k
          validTokenCount := config.blockSizeTokens, lastAccessEpoch := e
          prefixKey := some key, provenance := some p }) :
    BlocksValid config (blocks.modify id f) free epoch (tables.insert owner held) tokens := by
  have once : occurrencesIn (tables.insert owner held) id = k := by
    rw [occurrencesIn_insert, List.count_cons_self] at references
    rw [occurrencesIn_insert]
    omega
  have notFree : id ∉ free := fun isFree => by
    have unclaimed := ((valid.block id inside).eq_free isFree).2
    omega
  refine valid.modify inside ?_ le_rfl (fun _ _ => Iff.rfl) (fun x different => ?_)
    (fun x different request holds => ?_) ?_
  · rw [written, once]
    by_cases last : k = 0
    · subst last
      exact .cached notFree rfl pos le cacheable
    · rw [if_neg last]
      exact .shared notFree (Nat.pos_of_ne_zero last) pos le cacheable
  · rw [occurrencesIn_insert, occurrencesIn_insert, List.count_cons_of_ne (Ne.symm different)]
  · rw [holdsIn_insert] at holds ⊢
    split at holds
    · next same =>
        rw [if_pos same]
        exact (List.mem_cons.mp holds).resolve_left different
    · next other => rw [if_neg other]; exact holds
  · rw [written, shape]

/-- Releasing the claim on an owned block frees it. -/
theorem dropOwned
    (valid : BlocksValid config blocks free epoch (tables.insert owner (id :: held)) tokens)
    (inside : id < config.totalNumBlocks) {f : PhysicalKVBlock → PhysicalKVBlock}
    (references : occurrencesIn (tables.insert owner (id :: held)) id = 1)
    (written : f (blocks.getD id { blockId := id }) = { blockId := id })
    (count_le : (blocks.getD id { blockId := id }).validTokenCount ≤ tokens) :
    BlocksValid config (blocks.modify id f) (free.insert id) epoch (tables.insert owner held)
      (tokens - (blocks.getD id { blockId := id }).validTokenCount) := by
  refine valid.modify inside ?_ le_rfl (fun x different => ?_) (fun x different => ?_)
    (fun x different request holds => ?_) ?_
  · rw [written]
    refine .free (OrdSet.mem_insert.mpr (Or.inl rfl)) ?_
    rw [occurrencesIn_insert, List.count_cons_self] at references
    rw [occurrencesIn_insert]
    omega
  · rw [OrdSet.mem_insert, or_iff_right different]
  · rw [occurrencesIn_insert, occurrencesIn_insert, List.count_cons_of_ne (Ne.symm different)]
  · rw [holdsIn_insert] at holds ⊢
    split at holds
    · next same =>
        rw [if_pos same]
        exact (List.mem_cons.mp holds).resolve_left different
    · next other => rw [if_neg other]; exact holds
  · rw [written]
    dsimp only
    omega

end BlocksValid

end LlmLab.Serving
