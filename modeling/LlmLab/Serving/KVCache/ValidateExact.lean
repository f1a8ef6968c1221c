import LlmLab.Serving.KVCache.Valid
import Mathlib.Algebra.Order.BigOperators.Group.List
import Mathlib.Algebra.Group.Nat.Defs
import Mathlib.Data.List.Pairwise

/-!
# What `validate_invariants` accepts

Each Boolean check of `Validate.lean` is equivalent to its propositional form in
`Valid.lean`; `validateInvariants_iff` puts them together.
-/

namespace LlmLab.Serving

namespace KVCacheManager

variable {manager : KVCacheManager}

/-! ## The prompt record -/

/-- The check of a prompt record decides `ProvenanceValid`. -/
theorem validateProvenance_iff {id : RequestId} {table : List Nat}
    {p : RequestKVPromptProvenance} :
    manager.validateProvenance id table p = true ↔
      ProvenanceValid manager.config manager.prefixConfig.enabled id p ∧
        p.decodeBlockStartPosition ≤ table.length := by
  obtain ⟨requestId, eligible, exact, total, full, matched, start, stop, tail, decode,
    completed⟩ := p
  constructor
  · intro accepted
    cases exact with
    | none =>
        simp only [validateProvenance, Option.isNone_none, Bool.and_eq_true, Bool.or_true,
          decide_eq_true_eq, Bool.not_eq_true'] at accepted
        obtain ⟨⟨⟨rfl, ⟨⟨inside, -⟩, -⟩, -⟩, -⟩, rest⟩ := accepted
        obtain ⟨⟨⟨⟨⟨⟨⟨rfl, rfl⟩, rfl⟩, rfl⟩, rfl⟩, rfl⟩, noTail⟩, blocks⟩ := rest
        cases tail with
        | some tail => cases noTail
        | none =>
            refine ⟨?_, inside⟩
            split at blocks
            · next required counted =>
                obtain rfl := of_decide_eq_true blocks
                exact .countOnly counted
            · cases blocks
    | some tokens =>
        simp only [validateProvenance, Option.isNone_some, Bool.or_false, Bool.and_eq_true,
          decide_eq_true_eq, Bool.or_eq_true, Bool.not_eq_true'] at accepted
        obtain ⟨⟨⟨rfl, ⟨⟨inside, matched_le⟩, rfl⟩, rfl⟩, tailFits⟩, ⟨⟨⟨rfl, rfl⟩, rfl⟩, hasTail⟩,
          completion⟩ := accepted
        refine ⟨?_, inside⟩
        have complete : completed = true → manager.prefixConfig.enabled = true ∧
            start ≠ tokens.length / manager.config.blockSizeTokens := by
          intro done
          rcases completion with open' | closed
          · rw [done] at open'
            cases open'
          · simpa using closed
        have shape := @ProvenanceValid.exact _ _ requestId _ _ _ matched_le complete
        unfold exactProvenance at shape
        cases tail with
        | none =>
            have aligned : tokens.length % manager.config.blockSizeTokens = 0 := by
              simpa using hasTail
            simp only [decide_eq_true_eq] at tailFits
            simpa [aligned, tailFits] using shape
        | some position =>
            have unaligned : tokens.length % manager.config.blockSizeTokens ≠ 0 := by
              simpa using hasTail
            simp only [Bool.and_eq_true, decide_eq_true_eq] at tailFits
            obtain ⟨rfl, rfl⟩ := tailFits
            simpa [unaligned] using shape
  · rintro ⟨shape, inside⟩
    cases shape with
    | countOnly counted => simp_all [validateProvenance]
    | @exact tokens matched completed matched_le completion =>
        by_cases aligned : tokens.length % manager.config.blockSizeTokens = 0
        · cases completed <;> simp_all [validateProvenance]
        · cases completed <;> simp_all [validateProvenance]

/-! ## Positions and key chains -/

/-- The check of a position decides `PositionValid`. -/
theorem validatePosition_iff {p : RequestKVPromptProvenance}
    (bounded : p.matchedSharedPrefixBlocks ≤ p.cacheEligibleFullPromptBlocks)
    {position id : Nat} :
    manager.validatePosition p position id = true ↔
      id < manager.blocks.length ∧
        PositionValid manager.config.blockSizeTokens p position (manager.block id) := by
  unfold validatePosition PositionValid
  rw [Bool.and_eq_true, decide_eq_true_eq]
  refine and_congr_right fun _ => ?_
  cases (manager.block id).provenance with
  | none =>
      simp only [Bool.false_eq_true, false_iff]
      repeat' split
      all_goals simp
  | some provenance =>
      have cacheable : provenance.cacheable = true ↔
          provenance = .sharedPromptFull ∨ provenance = .computedPromptFull := by
        cases provenance <;> simp [KVBlockProvenance.cacheable]
      by_cases countOnly : p.exactPromptTokens = none
      · by_cases inPrompt : position < p.decodeBlockStartPosition <;> simp [countOnly, inPrompt]
      · by_cases shared : position < p.matchedSharedPrefixBlocks
        · simp [countOnly, shared, shared.trans_le bounded, cacheable]
        · by_cases full : position < p.cacheEligibleFullPromptBlocks
          · simp [countOnly, shared, full, cacheable, or_comm]
          · by_cases inPrompt : position < p.decodeBlockStartPosition <;>
              simp [countOnly, shared, full, inPrompt, and_assoc]

/-- A canonical twin is a block that carries the key. -/
theorem canonicalExists_iff
    (index : IndexValid manager.config manager.prefixConfig manager.hashFunction manager.blocks
      manager.prefixIndex) {key : TokenBlockKey} :
    manager.canonicalExists key = true ↔ manager.Keyed key := by
  unfold canonicalExists Keyed
  constructor
  · intro found
    split at found
    · cases found
    · next bucket present =>
        obtain ⟨x, member, equal⟩ := List.any_eq_true.mp found
        obtain ⟨-, -, keyed⟩ := index.bucket _ _ present
        obtain ⟨-, stored, carries, hash⟩ := keyed x member
        refine ⟨x, ?_⟩
        have carries' : (manager.block x).prefixKey = some stored := carries
        rw [carries'] at equal
        rw [carries', TokenBlockKey.eq_of_material (exactKeyMaterialEqual_iff.mp equal) hash]
  · rintro ⟨x, carries⟩
    obtain ⟨bucket, present, member⟩ := index.keyed x key carries
    rw [present]
    refine List.any_eq_true.mpr ⟨x, member, ?_⟩
    rw [carries]
    exact exactKeyMaterialEqual_iff.mpr rfl

/-- The check of a key decides `KeyValidAt`. -/
theorem validateKeyAt_iff
    (canonical : ∀ key, manager.canonicalExists key = true ↔ manager.Keyed key)
    {p : RequestKVPromptProvenance} (begins : p.computedFullBegin = p.matchedSharedPrefixBlocks)
    {position : Nat} {block : PhysicalKVBlock} {expected : TokenBlockKey} :
    manager.validateKeyAt p position block expected = true ↔
      KeyValidAt manager p position block expected := by
  unfold validateKeyAt KeyValidAt
  rw [begins]
  cases block.prefixKey with
  | none =>
      simp only [Bool.and_eq_true, Bool.or_eq_true, decide_eq_true_eq, Bool.not_eq_true',
        canonical, not_lt, reduceCtorEq, false_and, false_or, true_and]
      refine and_congr_right fun shared => ?_
      cases p.publicationCompleted <;> simp [not_lt.mpr shared]
  | some stored =>
      simp only [Bool.and_eq_true, Bool.or_eq_true, decide_eq_true_eq, reduceCtorEq, false_and,
        or_false, Option.some.injEq]
      refine and_congr_left fun _ => ?_
      rw [exactKeyMaterialEqual_iff]
      constructor
      · rintro ⟨material, hash⟩
        exact TokenBlockKey.eq_of_material material hash
      · rintro rfl
        exact ⟨rfl, rfl⟩

/-- The check of a chain is that of its positions. -/
theorem validateChain_iff {p : RequestKVPromptProvenance} {tokens : List Token}
    {table : List Nat} (remaining position : Nat)
    (inside : position + remaining ≤ tokens.length / manager.config.blockSizeTokens) :
    manager.validateChain p tokens table remaining position
        (manager.parentHashIn manager.prefixConfig.modelNamespace manager.prefixConfig.cacheSalt
          tokens position) = true ↔
      ∀ i, position ≤ i → i < position + remaining →
        manager.validateKeyAt p i (manager.block (table.getD i 0))
          (manager.chainKey tokens i) = true := by
  induction remaining generalizing position with
  | zero =>
      simp only [validateChain, Nat.add_zero, true_iff]
      intro i first last
      omega
  | succ remaining ih =>
      rw [validateChain, makeKey_eq (by omega)]
      simp only [Bool.and_eq_true]
      have tail := ih (position + 1) (by omega)
      rw [parentHashIn_succ] at tail
      change _ ∧ manager.validateChain p tokens table remaining (position + 1)
        (manager.chainKeyIn manager.prefixConfig.modelNamespace manager.prefixConfig.cacheSalt
          tokens position).blockHash = true ↔ _
      rw [tail]
      constructor
      · rintro ⟨first, later⟩ i low high
        rcases Nat.eq_or_lt_of_le low with rfl | above
        · exact first
        · exact later i above (by omega)
      · intro all
        exact ⟨all position le_rfl (by omega), fun i low high => all i (by omega) (by omega)⟩

/-- The check of an entry decides `EntryValid`. -/
theorem validateEntry_iff
    (canonical : ∀ key, manager.canonicalExists key = true ↔ manager.Keyed key)
    {id : RequestId} {table : List Nat} :
    manager.validateEntry id table = true ↔
      ∃ p, manager.requestProvenance.find? id = some p ∧ EntryValid manager id table p := by
  unfold validateEntry
  cases manager.requestProvenance.find? id with
  | none => simp
  | some p =>
      simp only [Bool.and_eq_true, decide_eq_true_eq, Option.some.injEq, exists_eq_left',
        validateProvenance_iff, List.all_eq_true, Prod.forall, List.mem_zipIdx_iff_getElem?]
      constructor
      · rintro ⟨⟨⟨shape, start⟩, nodup, positions⟩, chain⟩
        have at' : ∀ position x, table[position]? = some x → x < manager.blocks.length ∧
            PositionValid manager.config.blockSizeTokens p position (manager.block x) :=
          fun position x found =>
            (validatePosition_iff shape.matched_le).mp (positions x position found)
        refine ⟨shape, start, nodup, fun x member => ?_, fun position x found =>
          (at' position x found).2, fun tokens exact position x inside found => ?_⟩
        · obtain ⟨position, found⟩ := List.mem_iff_getElem?.mp member
          exact (at' position x found).1
        · rw [exact] at chain
          have walk := (validateChain_iff _ 0 (by rw [Nat.zero_add, shape.full_eq exact])).mp chain
            position (Nat.zero_le _) (by omega)
          rw [List.getD_eq_getElem?_getD, found] at walk
          exact (validateKeyAt_iff canonical shape.begin_eq).mp walk
      · intro entry
        refine ⟨⟨⟨entry.record, entry.start⟩, entry.nodup, fun x position found =>
          (validatePosition_iff entry.record.matched_le).mpr
            ⟨entry.inside x (List.mem_of_getElem? found), entry.position position x found⟩⟩, ?_⟩
        cases exact : p.exactPromptTokens with
        | none => rfl
        | some tokens =>
            refine (validateChain_iff _ 0 (by rw [Nat.zero_add, entry.record.full_eq exact])).mpr
              fun position _ inside => ?_
            rw [Nat.zero_add] at inside
            have room : position < table.length :=
              inside.trans_le (entry.record.full_le.trans entry.start)
            refine (validateKeyAt_iff canonical entry.record.begin_eq).mpr
              (entry.chain tokens exact position _ inside ?_)
            rw [List.getD_eq_getElem?_getD, List.getElem?_eq_getElem room]
            rfl

/-! ## Blocks -/

/-- A block claimed once is claimed by the request the check finds first. -/
theorem soleRequest_of_once {id : Nat} (once : manager.occurrences id = 1) :
    ∃ request, manager.soleRequest id = some request ∧
      ∀ other, manager.Holds other id ↔ other = request := by
  obtain ⟨request, table, found, member⟩ : ∃ request table,
      manager.blockTables.find? request = some table ∧ id ∈ table := by
    by_contra none
    push Not at none
    have zero : manager.occurrences id = 0 := OrdMap.total_eq_zero fun request table found =>
      List.count_eq_zero.mpr (none request table found)
    omega
  have unique : ∀ other, manager.Holds other id → other = request := by
    rintro other ⟨held, present, inHeld⟩
    by_contra different
    have first := OrdMap.total_erase (·.count id) found
    have second := OrdMap.le_total (fun table : List Nat => table.count id)
      (show (manager.blockTables.erase request).find? other = some held by
        rw [OrdMap.find?_erase, if_neg different, present])
    have countTable := List.count_pos_iff.mpr member
    have countHeld := List.count_pos_iff.mpr inHeld
    unfold occurrences at once
    omega
  unfold soleRequest
  cases search : manager.blockTables.entries.find? (fun entry => entry.2.contains id) with
  | none =>
      have absent := List.find?_eq_none.mp search _ (OrdMap.find?_eq_some_iff.mp found)
      simp [member] at absent
  | some entry =>
      have inside := OrdMap.find?_eq_some_iff.mpr (List.mem_of_find?_eq_some search)
      have contains : id ∈ entry.2 := by simpa using List.find?_some search
      have same := unique entry.1 ⟨entry.2, inside, contains⟩
      refine ⟨request, by simp [same], fun other => ⟨unique other, ?_⟩⟩
      rintro rfl
      exact ⟨table, found, member⟩

/-- The check of a block decides `BlockValid`, and that its key is indexed. -/
theorem validateBlock_iff {id : Nat} :
    manager.validateBlock id = true ↔
      BlockValid manager.config.blockSizeTokens manager.accessEpoch (id ∈ manager.freeBlocks)
          (manager.occurrences id) (manager.Holds · id) id (manager.block id) ∧
        ((manager.block id).prefixKey.isSome = true →
          manager.indexed id (manager.block id) = true) := by
  have unkeyed : ∀ block : PhysicalKVBlock, block.prefixKey = none →
      manager.indexed id block = false := fun block none => by
    unfold indexed
    rw [none]
  unfold validateBlock
  obtain ⟨blockId, state, owner, references, valid, epoch, key, provenance⟩ := manager.block id
  constructor
  · intro accepted
    cases state with
    | free =>
        cases owner <;> cases key <;> cases provenance <;>
          simp only [Bool.and_eq_true, decide_eq_true_eq, Option.isNone_none, Option.isNone_some,
            Bool.false_eq_true, and_false, false_and] at accepted
        obtain ⟨⟨rfl, -⟩, ⟨⟨⟨⟨⟨⟨⟨free, occ⟩, -⟩, rfl⟩, rfl⟩, rfl⟩, -⟩, -⟩, -⟩ := accepted
        exact ⟨.free free occ, by simp⟩
    | cached =>
        cases owner <;> cases key <;> cases provenance <;>
          simp only [Bool.and_eq_true, decide_eq_true_eq, Option.isNone_none, Option.isNone_some,
            Option.isSome_none, Option.isSome_some, Bool.false_eq_true, and_false, false_and,
            if_true, Bool.not_eq_true', decide_eq_false_iff_not, Bool.or_eq_true, ne_eq,
            Bool.true_and] at accepted
        obtain ⟨⟨rfl, -⟩, ⟨⟨⟨notFree, -⟩, epoch_pos⟩, epoch_le⟩, ⟨full, -⟩,
          ⟨⟨⟨⟨occ, rfl⟩, -⟩, -⟩, indexed⟩, cacheable⟩ := accepted
        rw [cacheable] at full
        obtain rfl := full.resolve_left (by simp)
        exact ⟨.cached notFree occ (Nat.pos_of_ne_zero epoch_pos) epoch_le cacheable,
          fun _ => indexed⟩
    | inUse =>
        cases owner <;> cases key <;> cases provenance <;>
          simp only [Bool.and_eq_true, decide_eq_true_eq, Option.isNone_none, Option.isNone_some,
            Option.isSome_none, Option.isSome_some, Bool.false_eq_true, and_false, false_and,
            if_true, if_false, Bool.not_eq_true', decide_eq_false_iff_not, Bool.or_eq_true, ne_eq,
            Bool.true_and, and_true, reduceCtorEq] at accepted
        · next key provenance =>
            obtain ⟨⟨rfl, -⟩, ⟨⟨⟨notFree, -⟩, epoch_pos⟩, epoch_le⟩, ⟨full, -⟩,
              ⟨references_pos, rfl⟩, indexed, cacheable⟩ := accepted
            rw [cacheable] at full
            obtain rfl := full.resolve_left (by simp)
            exact ⟨.shared notFree (Nat.pos_of_ne_zero references_pos)
              (Nat.pos_of_ne_zero epoch_pos) epoch_le cacheable, fun _ => indexed⟩
        · next owner provenance =>
            obtain ⟨⟨rfl, valid_le⟩, ⟨⟨⟨notFree, valid_pos⟩, epoch_pos⟩, epoch_le⟩, ⟨full, -⟩,
              ⟨-, rfl⟩, ⟨once, -⟩, sole⟩ := accepted
            obtain ⟨request, found, unique⟩ := soleRequest_of_once once
            rw [found, Option.some.injEq] at sole
            rw [once]
            refine ⟨.owned notFree rfl ((unique owner).mpr sole) (Nat.pos_of_ne_zero valid_pos)
              valid_le (fun cacheable => ?_) (Nat.pos_of_ne_zero epoch_pos) epoch_le, by simp⟩
            rw [cacheable] at full
            exact full.resolve_left (by simp)
  · rintro ⟨shape, indexed⟩
    cases shape with
    | free free occ => simp_all
    | cached notFree occ epoch_pos epoch_le cacheable =>
        have size := manager.config.blockSize_pos
        simp_all
        omega
    | shared notFree occ epoch_pos epoch_le cacheable =>
        have size := manager.config.blockSize_pos
        simp_all
        omega
    | @owned e valid owner p notFree occ holds valid_pos valid_le full epoch_pos epoch_le =>
        obtain ⟨request, sole, unique⟩ := soleRequest_of_once occ
        obtain rfl := (unique owner).mp holds
        have noIndex := unkeyed { blockId := id, state := .inUse, owner := some owner
                                  referenceCount := 1, validTokenCount := valid
                                  lastAccessEpoch := epoch, provenance := some p } rfl
        cases cacheable : p.cacheable
        · simp_all
          omega
        · obtain rfl := full cacheable
          simp_all
          omega

theorem foldlM_represented (blocks : List PhysicalKVBlock) (start : Nat)
    (fits : start + (blocks.map (·.validTokenCount)).sum ≤ uint64Max) :
    blocks.foldlM
      (fun represented b =>
        if represented > uint64Max - b.validTokenCount then none
        else some (represented + b.validTokenCount)) start =
      some (start + (blocks.map (·.validTokenCount)).sum) := by
  induction blocks generalizing start with
  | nil => simp
  | cons block rest ih =>
      simp only [List.map_cons, List.sum_cons] at fits
      rw [List.foldlM_cons, if_neg (by omega), Option.bind_eq_bind, Option.bind_some,
        ih (start + block.validTokenCount) (by omega), List.map_cons, List.sum_cons]
      congr 1
      omega

/-- The summation never overflows, since no block holds more than its capacity. -/
theorem representedTotal_eq (length : manager.blocks.length = manager.config.totalNumBlocks)
    (capacity : ∀ block ∈ manager.blocks,
      block.validTokenCount ≤ manager.config.blockSizeTokens)
    (free : ∀ block ∈ manager.blocks, block.state = .free → block.validTokenCount = 0) :
    manager.representedTotal = some (manager.blocks.map (·.validTokenCount)).sum := by
  have filtered : ((manager.blocks.filter (fun b => b.state ≠ .free)).map
      (·.validTokenCount)).sum = (manager.blocks.map (·.validTokenCount)).sum := by
    generalize manager.blocks = blocks at free
    induction blocks with
    | nil => rfl
    | cons block rest ih =>
        have tail := ih fun other member => free other (List.mem_cons_of_mem _ member)
        by_cases isFree : block.state = .free
        · rw [List.filter_cons_of_neg (by simp [isFree]), tail, List.map_cons, List.sum_cons,
            free block List.mem_cons_self isFree, Nat.zero_add]
        · rw [List.filter_cons_of_pos (by simp [isFree]), List.map_cons, List.sum_cons, tail,
            List.map_cons, List.sum_cons]
  have bounded : (manager.blocks.map (·.validTokenCount)).sum ≤ uint64Max := by
    have weight := List.sum_le_card_nsmul (manager.blocks.map (·.validTokenCount))
      manager.config.blockSizeTokens fun valid member => by
        obtain ⟨block, inside, rfl⟩ := List.mem_map.mp member
        exact capacity block inside
    rw [List.length_map, length, Nat.nsmul_eq_mul] at weight
    exact weight.trans manager.config.capacity_le
  unfold representedTotal
  rw [foldlM_represented _ 0 (by rw [filtered]; omega), filtered, Nat.zero_add]

/-! ## The index -/

/-- The three index checks: buckets, keyed blocks, and distinct key material. -/
theorem indexValid_iff
    (bound : ∀ id key, (manager.block id).prefixKey = some key → id < manager.blocks.length)
    (occupied : ∀ id key, (manager.block id).prefixKey = some key →
      (manager.block id).state ≠ .free) :
    IndexValid manager.config manager.prefixConfig manager.hashFunction manager.blocks
        manager.prefixIndex ↔
      (manager.prefixIndex.entries.all (fun bucket =>
          !bucket.2.isEmpty && decide bucket.2.Nodup &&
          bucket.2.all (manager.validateIndexed bucket.1)) = true ∧
        (manager.allIndexed.Pairwise fun a b => a ≠ b ∧ manager.sameMaterial a b = false) ∧
        ∀ id, (manager.block id).prefixKey.isSome = true →
          manager.indexed id (manager.block id) = true) := by
  constructor
  · intro index
    refine ⟨List.all_eq_true.mpr fun entry member => ?_, ?_, fun id keyed => ?_⟩
    · obtain ⟨hash, bucket⟩ := entry
      obtain ⟨nonempty, nodup, ids⟩ := index.bucket hash bucket (OrdMap.find?_eq_some_iff.mpr member)
      simp only [Bool.and_eq_true, Bool.not_eq_true', List.isEmpty_eq_false_iff, decide_eq_true_eq,
        List.all_eq_true]
      refine ⟨⟨nonempty, nodup⟩, fun id inside => ?_⟩
      obtain ⟨-, key, carries, hash_eq⟩ := ids id inside
      obtain ⟨length, ns, salt, hashed⟩ := index.key id key carries
      have carries' : (manager.block id).prefixKey = some key := carries
      unfold validateIndexed
      rw [carries']
      simp [bound id key carries, hash_eq, occupied id key carries, length, ns, salt, hashed]
    · have distinct : ∀ a b keyA keyB, (manager.block a).prefixKey = some keyA →
          (manager.block b).prefixKey = some keyB → a ≠ b → manager.sameMaterial a b = false := by
        intro a b keyA keyB carriesA carriesB different
        unfold sameMaterial
        rw [carriesA, carriesB, Bool.eq_false_iff]
        exact fun equal => different
          (index.canonical a b keyA keyB carriesA carriesB (exactKeyMaterialEqual_iff.mp equal))
      unfold allIndexed
      rw [List.pairwise_flatMap]
      constructor
      · rintro ⟨hash, bucket⟩ member
        obtain ⟨-, nodup, ids⟩ := index.bucket hash bucket (OrdMap.find?_eq_some_iff.mpr member)
        refine nodup.imp_of_mem fun {a b} inA inB different => ⟨different, ?_⟩
        obtain ⟨-, keyA, carriesA, -⟩ := ids a inA
        obtain ⟨-, keyB, carriesB, -⟩ := ids b inB
        exact distinct a b keyA keyB carriesA carriesB different
      · refine manager.prefixIndex.sorted.imp_of_mem fun {first second} inFirst inSecond before =>
          fun a inA b inB => ?_
        obtain ⟨-, -, idsFirst⟩ := index.bucket _ _ (OrdMap.find?_eq_some_iff.mpr inFirst)
        obtain ⟨-, -, idsSecond⟩ := index.bucket _ _ (OrdMap.find?_eq_some_iff.mpr inSecond)
        obtain ⟨-, keyA, carriesA, hashA⟩ := idsFirst a inA
        obtain ⟨-, keyB, carriesB, hashB⟩ := idsSecond b inB
        have different : a ≠ b := by
          rintro rfl
          rw [carriesA, Option.some.injEq] at carriesB
          rw [← hashA, ← hashB, carriesB] at before
          exact lt_irrefl _ before
        exact ⟨different, distinct a b keyA keyB carriesA carriesB different⟩
    · obtain ⟨key, carries⟩ := Option.isSome_iff_exists.mp keyed
      obtain ⟨bucket, present, member⟩ := index.keyed id key carries
      obtain ⟨-, nodup, -⟩ := index.bucket _ _ present
      unfold indexed
      rw [carries]
      simp only [present, decide_eq_true_eq]
      exact List.count_eq_one_of_mem nodup member
  · rintro ⟨buckets, pairwise, keyed⟩
    have entry : ∀ hash bucket, manager.prefixIndex.find? hash = some bucket →
        bucket ≠ [] ∧ bucket.Nodup ∧ ∀ id ∈ bucket, manager.validateIndexed hash id = true := by
      intro hash bucket present
      have checked := List.all_eq_true.mp buckets _ (OrdMap.find?_eq_some_iff.mp present)
      simpa only [Bool.and_eq_true, Bool.not_eq_true', List.isEmpty_eq_false_iff,
        decide_eq_true_eq, List.all_eq_true, and_assoc] using checked
    have listed : ∀ id key, (manager.block id).prefixKey = some key →
        ∃ bucket, manager.prefixIndex.find? key.blockHash = some bucket ∧ id ∈ bucket := by
      intro id key carries
      have once := keyed id (by rw [carries]; rfl)
      unfold indexed at once
      rw [carries] at once
      cases present : manager.prefixIndex.find? key.blockHash with
      | none => simp [present] at once
      | some bucket =>
          simp only [present, decide_eq_true_eq] at once
          exact ⟨bucket, rfl, List.count_pos_iff.mp (by omega)⟩
    have shape : ∀ hash id, manager.validateIndexed hash id = true →
        ∃ key, (manager.block id).prefixKey = some key ∧ key.blockHash = hash ∧
          key.tokenIds.length = manager.config.blockSizeTokens ∧
          key.modelNamespace = manager.prefixConfig.modelNamespace ∧
          key.cacheSalt = manager.prefixConfig.cacheSalt ∧
          manager.hashFunction key = key.blockHash := by
      intro hash id checked
      unfold validateIndexed at checked
      cases carries : (manager.block id).prefixKey with
      | none => simp [carries] at checked
      | some key =>
          simp only [carries, Bool.and_eq_true, decide_eq_true_eq] at checked
          obtain ⟨-, ⟨⟨⟨⟨hash_eq, -⟩, length⟩, ns⟩, salt⟩, hashed⟩ := checked
          exact ⟨key, rfl, hash_eq, length, ns, salt, hashed⟩
    refine ⟨fun hash bucket present => ?_, listed, fun id key carries => ?_,
      fun a b keyA keyB carriesA carriesB material => ?_⟩
    · obtain ⟨nonempty, nodup, checked⟩ := entry hash bucket present
      refine ⟨nonempty, nodup, fun id member => ?_⟩
      obtain ⟨key, carries, hash_eq, -⟩ := shape hash id (checked id member)
      exact ⟨bound id key carries, key, carries, hash_eq⟩
    · obtain ⟨bucket, present, member⟩ := listed id key carries
      obtain ⟨stored, carries', -, rest⟩ := shape _ id ((entry _ bucket present).2.2 id member)
      have same : (manager.block id).prefixKey = some key := carries
      rw [same, Option.some.injEq] at carries'
      subst carries'
      exact rest
    · by_contra different
      have inAll : ∀ id key, (manager.block id).prefixKey = some key → id ∈ manager.allIndexed := by
        intro id key carries
        obtain ⟨bucket, present, member⟩ := listed id key carries
        exact List.mem_flatMap.mpr ⟨_, OrdMap.find?_eq_some_iff.mp present, member⟩
      have symmetric : Std.Symm fun a b => a ≠ b ∧ manager.sameMaterial a b = false := ⟨by
        rintro a b ⟨different, apart⟩
        refine ⟨different.symm, ?_⟩
        unfold sameMaterial at apart ⊢
        cases keyA : (manager.block a).prefixKey <;> cases keyB : (manager.block b).prefixKey <;>
          simp_all only [Bool.eq_false_iff]
        exact fun equal => apart
          (exactKeyMaterialEqual_iff.mpr (exactKeyMaterialEqual_iff.mp equal).symm)⟩
      have apart := (pairwise.forall (inAll a keyA carriesA) (inAll b keyB carriesB) different).2
      have carriesA' : (manager.block a).prefixKey = some keyA := carriesA
      have carriesB' : (manager.block b).prefixKey = some keyB := carriesB
      unfold sameMaterial at apart
      rw [carriesA', carriesB', Bool.eq_false_iff] at apart
      exact apart (exactKeyMaterialEqual_iff.mpr material)

/-! ## The whole check -/

/-- `validate_invariants` decides `Valid`. -/
theorem validateInvariants_iff : manager.validateInvariants = true ↔ manager.Valid := by
  unfold validateInvariants
  simp only [Bool.and_eq_true, decide_eq_true_eq]
  constructor
  · rintro ⟨⟨⟨⟨⟨⟨⟨length, peak⟩, tables⟩, entries⟩, perBlock⟩, represented⟩, buckets⟩, pairwise⟩
    have checked : ∀ id < manager.blocks.length, manager.validateBlock id = true :=
      fun id inside => List.all_eq_true.mp perBlock id (List.mem_range.mpr inside)
    have keyedInside : ∀ id key, (manager.block id).prefixKey = some key →
        id < manager.blocks.length := by
      intro id key carries
      by_contra outside
      simp [block, outside] at carries
    have blocks : BlocksValid manager.config manager.blocks manager.freeBlocks manager.accessEpoch
        manager.blockTables (manager.blocks.map (·.validTokenCount)).sum :=
      ⟨length, fun id inside => (validateBlock_iff.mp (checked id (length ▸ inside))).1, rfl⟩
    have index := (indexValid_iff keyedInside fun id key carries =>
      (blocks.occupied carries).2).mpr ⟨buckets, pairwise, fun id keyed => by
        obtain ⟨key, carries⟩ := Option.isSome_iff_exists.mp keyed
        exact (validateBlock_iff.mp (checked id (keyedInside id key carries))).2 keyed⟩
    have total := representedTotal_eq length (fun block member => (blocks.capacity block member).1)
      fun block member => (blocks.capacity block member).2
    rw [total, Option.some.injEq] at represented
    rw [represented] at blocks
    have entry : ∀ id table, manager.blockTables.find? id = some table →
        ∃ p, manager.requestProvenance.find? id = some p ∧ EntryValid manager id table p :=
      fun id table found => (validateEntry_iff fun _ => canonicalExists_iff index).mp
        (List.all_eq_true.mp entries _ (OrdMap.find?_eq_some_iff.mp found))
    exact ⟨peak, fun id p found => OrdMap.find?_isSome_of_size_eq tables
      (fun id table found => (entry id table found).imp fun _ both => both.1) found, entry,
      blocks, index⟩
  · intro valid
    have keyedInside : ∀ id key, (manager.block id).prefixKey = some key →
        id < manager.blocks.length := fun id key carries => (valid.blocks.occupied carries).1
    obtain ⟨buckets, pairwise, keyed⟩ := (indexValid_iff keyedInside fun id key carries =>
      (valid.blocks.occupied carries).2).mp valid.index
    have sizes := OrdMap.size_eq_of_sameKeys
      (fun id table found => (valid.entries id table found).imp fun _ both => both.1) valid.tables
    refine ⟨⟨⟨⟨⟨⟨⟨valid.blocks.length, valid.peak⟩, sizes⟩,
      List.all_eq_true.mpr fun entry member => ?_⟩, List.all_eq_true.mpr fun id member => ?_⟩, ?_⟩,
      buckets⟩, pairwise⟩
    · exact (validateEntry_iff fun _ => canonicalExists_iff valid.index).mpr
        (valid.entries _ _ (OrdMap.find?_eq_some_iff.mpr member))
    · exact validateBlock_iff.mpr
        ⟨valid.blocks.block id (valid.blocks.length ▸ List.mem_range.mp member), keyed id⟩
    · rw [representedTotal_eq valid.blocks.length
        (fun block member => (valid.blocks.capacity block member).1)
        fun block member => (valid.blocks.capacity block member).2, valid.blocks.represented]

end KVCacheManager

end LlmLab.Serving
