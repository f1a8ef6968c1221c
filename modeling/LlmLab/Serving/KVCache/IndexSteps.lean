import LlmLab.Serving.KVCache.Valid

/-!
# Steps of the prefix index

The index follows the block keys: it is untouched while keys are, loses the id of an evicted
block, and gains the id of a published one.  `IndexOrdered` is the bucket order that the
sources keep by sorting and never check.
-/

namespace LlmLab.Serving

/-- A hash that reads only the key material, not the hash field. -/
def OfMaterial (hash : PrefixHashFunction) : Prop := ∀ key, hash key = hash key.material

/-- Every bucket lists its ids in increasing order. -/
def IndexOrdered (index : OrdMap UInt64 (List Nat)) : Prop :=
  ∀ hash ids, index.find? hash = some ids → ids.Pairwise (· < ·)

/-- The index after `id` leaves the bucket of `hash`. -/
def indexWithout (index : OrdMap UInt64 (List Nat)) (hash : UInt64) (bucket : List Nat)
    (id : Nat) : OrdMap UInt64 (List Nat) :=
  if bucket.erase id = [] then index.erase hash else index.insert hash (bucket.erase id)

/-- The index after `id` joins the bucket of `hash`. -/
def indexWith (index : OrdMap UInt64 (List Nat)) (hash : UInt64) (id : Nat) :
    OrdMap UInt64 (List Nat) :=
  index.insert hash (sortBy (fun id => id) ((index.find? hash).getD [] ++ [id]))

/-- What the index holds once an id is taken out of a bucket. -/
theorem find?_indexWithout {index : OrdMap UInt64 (List Nat)} {hash other : UInt64}
    {bucket ids : List Nat} {id : Nat}
    (found : (indexWithout index hash bucket id).find? other = some ids) :
    (other = hash ∧ ids = bucket.erase id ∧ ids ≠ []) ∨
      (other ≠ hash ∧ index.find? other = some ids) := by
  unfold indexWithout at found
  split at found
  · rw [OrdMap.find?_erase] at found
    split at found
    · cases found
    · next different => exact Or.inr ⟨different, found⟩
  · next nonempty =>
      rw [OrdMap.find?_insert] at found
      split at found
      · next same =>
          cases found
          exact Or.inl ⟨same, rfl, nonempty⟩
      · next different => exact Or.inr ⟨different, found⟩

theorem IndexOrdered.without {index : OrdMap UInt64 (List Nat)} (ordered : IndexOrdered index)
    {hash : UInt64} {bucket : List Nat} (present : index.find? hash = some bucket) (id : Nat) :
    IndexOrdered (indexWithout index hash bucket id) := by
  intro other ids found
  rcases find?_indexWithout found with ⟨-, rfl, -⟩ | ⟨-, found⟩
  · exact (ordered _ _ present).sublist List.erase_sublist
  · exact ordered _ _ found

/-- A new id keeps the buckets ordered. -/
theorem IndexOrdered.with {index : OrdMap UInt64 (List Nat)} (ordered : IndexOrdered index)
    {hash : UInt64} {id : Nat}
    (fresh : ∀ ids, index.find? hash = some ids → id ∉ ids) :
    IndexOrdered (indexWith index hash id) := by
  intro other ids found
  unfold indexWith at found
  rw [OrdMap.find?_insert] at found
  split at found
  · cases found
    have nodup : ((index.find? hash).getD [] ++ [id]).Nodup := by
      cases present : index.find? hash with
      | none => simp
      | some bucket =>
          have apart := fresh bucket present
          refine List.nodup_append.mpr ⟨(ordered _ _ present).imp ne_of_lt, by simp, ?_⟩
          rintro x member y one rfl
          rw [List.mem_singleton] at one
          subst one
          exact apart member
    have nodup' := (sortBy_perm (fun id => id) _).nodup_iff.mpr nodup
    refine ((sortBy_sorted (fun id => id) _).and nodup').imp fun {a b} related => ?_
    exact lt_of_le_of_ne related.1 related.2
  · exact ordered _ _ found

namespace IndexValid

variable {config : KVCacheConfig} {prefixConfig : PrefixCacheConfig}
  {hashFunction : PrefixHashFunction} {blocks blocks' : List PhysicalKVBlock}
  {index : OrdMap UInt64 (List Nat)}

/-- The index only looks at the keys. -/
theorem congrKeys (valid : IndexValid config prefixConfig hashFunction blocks index)
    (length : blocks'.length = blocks.length)
    (keys : ∀ x, (blocks'.getD x { blockId := x }).prefixKey =
      (blocks.getD x { blockId := x }).prefixKey) :
    IndexValid config prefixConfig hashFunction blocks' index where
  bucket hash ids found := by
    obtain ⟨nonempty, nodup, member⟩ := valid.bucket hash ids found
    refine ⟨nonempty, nodup, fun id inside => ?_⟩
    rw [length, keys]
    exact member id inside
  keyed id key carries := valid.keyed id key (by rw [← keys, carries])
  key id key carries := valid.key id key (by rw [← keys, carries])
  canonical a b keyA keyB carriesA carriesB :=
    valid.canonical a b keyA keyB (by rw [← keys, carriesA]) (by rw [← keys, carriesB])

/-- The keys after one block loses its own. -/
theorem keys_evicted {id : Nat} (inside : id < blocks.length)
    {f : PhysicalKVBlock → PhysicalKVBlock} (cleared : ∀ block, (f block).prefixKey = none)
    (x : Nat) : ((blocks.modify id f).getD x { blockId := x }).prefixKey =
      if x = id then none else (blocks.getD x { blockId := x }).prefixKey := by
  rw [getD_modify]
  by_cases same : x = id
  · subst same
    simp [inside, cleared]
  · simp [same, Ne.symm same]

/-- To evict a keyed block keeps the index valid. -/
theorem evict (valid : IndexValid config prefixConfig hashFunction blocks index) {id : Nat}
    {key : TokenBlockKey} (carries : (blocks.getD id { blockId := id }).prefixKey = some key)
    {bucket : List Nat} (present : index.find? key.blockHash = some bucket)
    {f : PhysicalKVBlock → PhysicalKVBlock} (cleared : ∀ block, (f block).prefixKey = none) :
    IndexValid config prefixConfig hashFunction (blocks.modify id f)
      (indexWithout index key.blockHash bucket id) := by
  obtain ⟨-, bucketNodup, members⟩ := valid.bucket _ _ present
  have inside : id < blocks.length := by
    by_contra outside
    simp [outside] at carries
  have kept : ∀ {x : Nat} {stored : TokenBlockKey},
      ((blocks.modify id f).getD x { blockId := x }).prefixKey = some stored →
      x ≠ id ∧ (blocks.getD x { blockId := x }).prefixKey = some stored := by
    intro x stored found
    rw [keys_evicted inside cleared] at found
    split at found
    · cases found
    · next different => exact ⟨different, found⟩
  refine ⟨fun hash ids found => ?_, fun x stored found => ?_, fun x stored found =>
    valid.key x stored (kept found).2, fun a b keyA keyB carriesA carriesB =>
    valid.canonical a b keyA keyB (kept carriesA).2 (kept carriesB).2⟩
  · rcases find?_indexWithout found with ⟨rfl, rfl, nonempty⟩ | ⟨different, found⟩
    · refine ⟨nonempty, bucketNodup.erase id, fun x member => ?_⟩
      obtain ⟨apart, member⟩ := bucketNodup.mem_erase_iff.mp member
      rw [List.length_modify, keys_evicted inside cleared, if_neg apart]
      exact members x member
    · obtain ⟨nonempty, nodup, inBucket⟩ := valid.bucket hash ids found
      refine ⟨nonempty, nodup, fun x member => ?_⟩
      obtain ⟨bound, stored, carries', hash_eq⟩ := inBucket x member
      have apart : x ≠ id := by
        rintro rfl
        rw [carries, Option.some.injEq] at carries'
        exact different (by rw [← hash_eq, carries'])
      rw [List.length_modify, keys_evicted inside cleared, if_neg apart]
      exact ⟨bound, stored, carries', hash_eq⟩
  · obtain ⟨apart, found⟩ := kept found
    obtain ⟨ids, listed, member⟩ := valid.keyed x stored found
    unfold indexWithout
    by_cases same : stored.blockHash = key.blockHash
    · rw [same, present, Option.some.injEq] at listed
      subst listed
      have remains : x ∈ bucket.erase id := bucketNodup.mem_erase_iff.mpr ⟨apart, member⟩
      rw [if_neg (List.ne_nil_of_mem remains), same]
      exact ⟨_, by rw [OrdMap.find?_insert, if_pos rfl], remains⟩
    · refine ⟨ids, ?_, member⟩
      split
      · rw [OrdMap.find?_erase, if_neg same, listed]
      · rw [OrdMap.find?_insert, if_neg same, listed]

/-- The keys after one block gains one. -/
theorem keys_published {id : Nat} (inside : id < blocks.length)
    {f : PhysicalKVBlock → PhysicalKVBlock} {key : TokenBlockKey}
    (set : ∀ block, (f block).prefixKey = some key) (x : Nat) :
    ((blocks.modify id f).getD x { blockId := x }).prefixKey =
      if x = id then some key else (blocks.getD x { blockId := x }).prefixKey := by
  rw [getD_modify]
  by_cases same : x = id
  · subst same
    simp [inside, set]
  · simp [same, Ne.symm same]

/-- An unkeyed block is in no bucket. -/
theorem unlisted (valid : IndexValid config prefixConfig hashFunction blocks index) {id : Nat}
    (unkeyed : (blocks.getD id { blockId := id }).prefixKey = none) {hash : UInt64}
    {ids : List Nat} (found : index.find? hash = some ids) : id ∉ ids := by
  intro member
  obtain ⟨-, -, members⟩ := valid.bucket hash ids found
  obtain ⟨-, key, carries, -⟩ := members id member
  rw [unkeyed] at carries
  cases carries

/-- To publish a block under fresh material keeps the index valid. -/
theorem publish (valid : IndexValid config prefixConfig hashFunction blocks index) {id : Nat}
    (inside : id < blocks.length)
    (unkeyed : (blocks.getD id { blockId := id }).prefixKey = none) {key : TokenBlockKey}
    (length : key.tokenIds.length = config.blockSizeTokens)
    (ns : key.modelNamespace = prefixConfig.modelNamespace)
    (salt : key.cacheSalt = prefixConfig.cacheSalt) (hashed : hashFunction key = key.blockHash)
    (fresh : ∀ x stored, (blocks.getD x { blockId := x }).prefixKey = some stored →
      stored.material ≠ key.material)
    {f : PhysicalKVBlock → PhysicalKVBlock} (set : ∀ block, (f block).prefixKey = some key) :
    IndexValid config prefixConfig hashFunction (blocks.modify id f)
      (indexWith index key.blockHash id) := by
  have split : ∀ {x : Nat} {stored : TokenBlockKey},
      ((blocks.modify id f).getD x { blockId := x }).prefixKey = some stored →
      (x = id ∧ stored = key) ∨
        (x ≠ id ∧ (blocks.getD x { blockId := x }).prefixKey = some stored) := by
    intro x stored found
    rw [keys_published inside set] at found
    split at found
    · next same =>
        cases found
        exact Or.inl ⟨same, rfl⟩
    · next different => exact Or.inr ⟨different, found⟩
  have old : ∀ {hash ids}, index.find? hash = some ids → ids ≠ [] ∧ ids.Nodup ∧ ∀ x ∈ ids,
      x < (blocks.modify id f).length ∧ ∃ key,
        ((blocks.modify id f).getD x { blockId := x }).prefixKey = some key ∧
          key.blockHash = hash := by
    intro hash ids found
    obtain ⟨nonempty, nodup, members⟩ := valid.bucket hash ids found
    refine ⟨nonempty, nodup, fun x member => ?_⟩
    have apart : x ≠ id := by
      rintro rfl
      exact valid.unlisted unkeyed found member
    rw [List.length_modify, keys_published inside set, if_neg apart]
    exact members x member
  have joined : ∀ x, x ∈ sortBy (fun id => id) ((index.find? key.blockHash).getD [] ++ [id]) ↔
      x ∈ (index.find? key.blockHash).getD [] ∨ x = id := by
    intro x
    rw [mem_sortBy, List.mem_append, List.mem_singleton]
  refine ⟨fun hash ids found => ?_, fun x stored found => ?_, fun x stored found => ?_,
    fun a b keyA keyB carriesA carriesB material => ?_⟩
  · unfold indexWith at found
    rw [OrdMap.find?_insert] at found
    split at found
    · next same =>
        subst same
        cases found
        refine ⟨List.ne_nil_of_mem ((joined id).mpr (Or.inr rfl)), ?_, fun x member => ?_⟩
        · refine (sortBy_perm (fun id => id) _).nodup_iff.mpr ?_
          cases present : index.find? key.blockHash with
          | none => simp
          | some bucket =>
              refine List.nodup_append.mpr ⟨(valid.bucket _ _ present).2.1, by simp, ?_⟩
              rintro x member y one rfl
              rw [List.mem_singleton] at one
              subst one
              exact valid.unlisted unkeyed present member
        · rcases (joined x).mp member with member | rfl
          · cases present : index.find? key.blockHash with
            | none => simp [present] at member
            | some bucket =>
                rw [present] at member
                exact (old present).2.2 x member
          · rw [List.length_modify, keys_published inside set, if_pos rfl]
            exact ⟨inside, key, rfl, rfl⟩
    · exact old found
  · unfold indexWith
    rcases split found with ⟨rfl, rfl⟩ | ⟨-, found⟩
    · exact ⟨_, by rw [OrdMap.find?_insert, if_pos rfl], (joined x).mpr (Or.inr rfl)⟩
    · obtain ⟨ids, listed, member⟩ := valid.keyed x stored found
      by_cases same : stored.blockHash = key.blockHash
      · rw [same] at listed ⊢
        exact ⟨_, by rw [OrdMap.find?_insert, if_pos rfl],
          (joined x).mpr (Or.inl (by rw [listed]; exact member))⟩
      · exact ⟨ids, by rw [OrdMap.find?_insert, if_neg same, listed], member⟩
  · rcases split found with ⟨-, rfl⟩ | ⟨-, found⟩
    · exact ⟨length, ns, salt, hashed⟩
    · exact valid.key x stored found
  · rcases split carriesA with ⟨rfl, rfl⟩ | ⟨-, storedA⟩ <;>
      rcases split carriesB with ⟨rfl, rfl⟩ | ⟨-, storedB⟩
    · rfl
    · exact absurd material.symm (fresh b keyB storedB)
    · exact absurd material (fresh a keyA storedA)
    · exact valid.canonical a b keyA keyB storedA storedB material

end IndexValid

end LlmLab.Serving
