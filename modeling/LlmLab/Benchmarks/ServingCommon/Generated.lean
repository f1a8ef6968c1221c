import LlmLab.Benchmarks.ServingCommon.Generator

/-!
# Generated workloads

The requests of a generated workload have distinct ids and come in the order of their arrivals;
`write_tsv` numbers them in that order except where simultaneous requests cross a power of ten.
Prompts share the tokens of their prefix group and no others.
-/

namespace LlmLab.Benchmarks

variable {random : RandomSource} {config : Record} {records : List Record} {manifest : Record}
  {name : Text} {seed : Nat} {times : List Int} {index : Nat}

/-! ## Identity and order -/

theorem generatedId_injective (name : Text) : Function.Injective (generatedId name) :=
  fun _ _ same => padded_injective 4
    (List.map_injective_iff.mpr codePoint_injective (List.append_cancel_left same))

theorem codePoint_lt {c d : Char} (less : c < d) : codePoint c < codePoint d := less

theorem generatedId_lt {left right : Nat} (less : padded 4 left < padded 4 right) :
    generatedId name left < generatedId name right :=
  List.append_left_lt (List.map_lt (fun _ _ => codePoint_lt) less)

section Fields

variable {entry : Int × Nat}

theorem requestOrder_generatedAt (random : RandomSource) :
    requestOrder (generatedAt random name seed entry) =
      toLex (entry.1, generatedId name entry.2) := rfl

end Fields

/-- The request at an index. -/
theorem generatedWorkload_getElem? :
    (generatedWorkload random name seed times)[index]? =
      times[index]?.map fun time => generatedAt random name seed (time, index) := by
  rw [generatedWorkload, List.getElem?_map, List.getElem?_zipIdx, Option.map_map, Nat.zero_add]
  rfl

theorem nodup_generatedWorkload :
    ((generatedWorkload random name seed times).map fun record => record.str "request_id").Nodup := by
  have ids : (generatedWorkload random name seed times).map
      (fun record => record.str "request_id") =
        (List.range' 0 times.length).map (generatedId name) := by
    rw [generatedWorkload, List.map_map, ← List.zipIdx_map_snd 0 times, List.map_map]
    rfl
  rw [ids]
  exact (List.nodup_range' _).map (generatedId_injective name)

theorem arrivals_generatedWorkload :
    (generatedWorkload random name seed times).map (fun record => record.int "arrival_time_us") =
      times := by
  rw [generatedWorkload, List.map_map]
  exact List.zipIdx_map_fst 0 times

/-- `generate_records` succeeds on exactly the configurations that name a class, a count and a
seed, schedule the arrivals and keep within the limit of the class; it then makes as many accepted
records of the class as asked for, under distinct ids and in the order of their arrivals. -/
theorem generateRecords_exact (random : RandomSource) (config : Record) :
    ((∃ records manifest, generateRecords random config = .ok (records, manifest)) ↔
      ∃ workloadClass count seed times, config.Configures workloadClass count seed ∧
        config.Arrives random count seed times ∧
        ∀ limit ∈ (WorkloadClass.ofText workloadClass).countLimit, count ≤ limit) ∧
    ∀ records manifest, generateRecords random config = .ok (records, manifest) →
      (config.get "request_count").int? = some (records.length : Int) ∧
      (records.map fun record => record.str "request_id").Nodup ∧
      (records.map fun record => record.int "arrival_time_us").Pairwise (· ≤ ·) ∧
      ∀ record ∈ records, record.Accepted ∧
        (record.get "workload_class").str? = (config.get "workload_class").str? := by
  constructor
  · simp only [generateRecords_eq_ok]
    constructor
    · rintro ⟨_, _, name, count, seed, times, configures, arrives, few, -, -⟩
      exact ⟨name, count, seed, times, configures, arrives, few⟩
    · rintro ⟨name, count, seed, times, configures, arrives, few⟩
      exact ⟨_, _, name, count, seed, times, configures, arrives, few, rfl, rfl⟩
  · intro records manifest generated
    obtain ⟨name, count, seed, times, configures, arrives, few, rfl, -⟩ :=
      generateRecords_eq_ok.mp generated
    obtain ⟨length, sorted, -⟩ := arrives.schedule
    refine ⟨?_, nodup_generatedWorkload, ?_, fun record member =>
      ⟨accepted_generatedWorkload configures.listed arrives few record member, ?_⟩⟩
    · rw [configures.count, generatedWorkload, List.length_map, List.length_zipIdx, length]
    · rw [arrivals_generatedWorkload]
      exact sorted
    · obtain ⟨entry, -, rfl⟩ := List.mem_map.mp member
      exact configures.named.symm

/-- At each power of ten from `10000` on, where the index outgrows its four digits, the next
request arrives later. -/
def PartedAtPowers (times : List Int) : Prop :=
  ∀ digits, 4 ≤ digits → ∀ before after, times[10 ^ digits - 1]? = some before →
    times[10 ^ digits]? = some after → before < after

/-- Sorted times that part at the powers of ten give records in the order of `write_tsv`. -/
theorem generatedWorkload_pairwise (sorted : times.Pairwise (· ≤ ·)) (parted : PartedAtPowers times) :
    (generatedWorkload random name seed times).Pairwise
      fun left right => requestOrder left ≤ requestOrder right := by
  rw [generatedWorkload, List.pairwise_map, List.pairwise_iff_getElem]
  intro left right leftInside rightInside before
  simp only [List.getElem_zipIdx, requestOrder_generatedAt, Nat.zero_add, Prod.Lex.toLex_le_toLex]
  have reach := List.pairwise_iff_getElem.mp sorted
  rw [List.length_zipIdx] at leftInside rightInside
  rcases Int.lt_or_eq_of_le (reach left right leftInside rightInside before) with earlier | same
  · exact Or.inl earlier
  refine Or.inr ⟨same, le_of_lt (generatedId_lt (padded_lt before fun digits wide _ short => ?_))⟩
  by_contra long
  -- A power of ten between two simultaneous requests parts none of those in between.
  have ten : 0 < 10 ^ digits := Nat.pow_pos (by decide)
  have jump := parted digits wide _ _ (List.getElem?_eq_getElem (by omega))
    (List.getElem?_eq_getElem (by omega : 10 ^ digits < times.length))
  have first : times[left] ≤ times[10 ^ digits - 1] := by
    rcases Nat.lt_or_eq_of_le (Nat.le_sub_one_of_lt short) with below | equal
    · exact reach left _ leftInside (by omega) below
    · simp only [equal, le_refl]
  have last : times[10 ^ digits] ≤ times[right] := by
    rcases Nat.lt_or_eq_of_le (Nat.le_of_not_lt long) with below | equal
    · exact reach _ right (by omega) rightInside below
    · simp only [equal, le_refl]
  omega

/-- A workload that is in the order of `write_tsv` parts at the powers of ten. -/
theorem partedAtPowers_of_sorted
    (sorted : sortBy requestOrder (generatedWorkload random name seed times) =
      generatedWorkload random name seed times) : PartedAtPowers times := by
  intro digits wide before after foundBefore foundAfter
  have ten : 1 < 10 ^ digits := Nat.one_lt_pow (by omega) (by decide)
  have ordered := sortBy_sorted requestOrder (generatedWorkload random name seed times)
  rw [sorted, generatedWorkload, List.pairwise_map, List.pairwise_iff_getElem] at ordered
  obtain ⟨insideBefore, rfl⟩ := List.getElem?_eq_some_iff.mp foundBefore
  obtain ⟨insideAfter, rfl⟩ := List.getElem?_eq_some_iff.mp foundAfter
  have next := ordered (10 ^ digits - 1) (10 ^ digits) (by rwa [List.length_zipIdx])
    (by rwa [List.length_zipIdx]) (by omega)
  simp only [List.getElem_zipIdx, requestOrder_generatedAt, Nat.zero_add,
    Prod.Lex.toLex_le_toLex] at next
  rcases next with earlier | ⟨-, inOrder⟩
  · exact earlier
  · exact absurd (generatedId_lt (padded_pow_lt wide (by omega))) (not_lt.mpr inOrder)

theorem sorted_iff_partedAtPowers (sorted : times.Pairwise (· ≤ ·)) :
    sortBy requestOrder (generatedWorkload random name seed times) =
      generatedWorkload random name seed times ↔ PartedAtPowers times := by
  refine ⟨partedAtPowers_of_sorted, fun parted => ?_⟩
  refine (eq_sortBy (fun left leftIn right rightIn same => ?_) (List.Perm.refl _)
    (generatedWorkload_pairwise sorted parted)).symm
  exact List.inj_on_of_nodup_map nodup_generatedWorkload leftIn rightIn
    (congrArg (fun key => (ofLex key).2) same)

theorem partedAtPowers_iff :
    PartedAtPowers times ↔
      ∀ digits, 4 ≤ digits → ∀ before after,
        (generatedWorkload random name seed times)[10 ^ digits - 1]? = some before →
        (generatedWorkload random name seed times)[10 ^ digits]? = some after →
          before.int "arrival_time_us" < after.int "arrival_time_us" := by
  simp only [generatedWorkload_getElem?, Option.map_eq_some_iff]
  constructor
  · rintro parted digits wide _ _ ⟨before, foundBefore, rfl⟩ ⟨after, foundAfter, rfl⟩
    exact parted digits wide before after foundBefore foundAfter
  · intro parted digits wide before after foundBefore foundAfter
    exact parted digits wide _ _ ⟨before, foundBefore, rfl⟩ ⟨after, foundAfter, rfl⟩

/-- A source of the least numbers. -/
def steady : RandomSource where
  delay := fun _ _ _ => .ok 0
  randint := fun _ _ low _ => low
  delay_nonneg := fun _ _ _ _ _ same => (Except.ok.inj same).le
  randint_bounds := fun _ _ _ _ below => ⟨le_rfl, below⟩

/-- Requests that arrive all at once. -/
def burstConfig (workloadClass : String) (count : Nat) : Record :=
  [(text "schema_version", .str (text workloadSchemaVersion)),
    (text "workload_class", .str (text workloadClass)), (text "request_count", .int count),
    (text "seed", .int 7), (text "arrival", .obj [(text "mode", .str (text "burst"))])]

theorem generateRecords_burstConfig (workloadClass : String) (count : Nat)
    (listed : text workloadClass ∈ workloadClasses)
    (few : ∀ limit ∈ (WorkloadClass.ofText (text workloadClass)).countLimit, count ≤ limit) :
    generateRecords steady (burstConfig workloadClass count) =
      .ok (generatedWorkload steady (text workloadClass) 7 (List.replicate count 0),
        generatedManifest (burstConfig workloadClass count) (text workloadClass) count 7) :=
  generateRecords_eq_ok.mpr ⟨text workloadClass, count, 7, List.replicate count 0,
    ⟨by simp [burstConfig, generatorFields], rfl, rfl, listed, rfl, rfl⟩,
    ⟨[(text "mode", .str (text "burst"))], 0, rfl, rfl, le_rfl, .burst rfl⟩, few, rfl, rfl⟩

/-- `write_tsv` numbers the generated requests in the order of their generation if and only if no
simultaneous requests cross a power of ten from `10000` on. -/
theorem sortBy_generated_iff (generated : generateRecords random config = .ok (records, manifest)) :
    sortBy requestOrder records = records ↔
      ∀ digits, 4 ≤ digits → ∀ before after, records[10 ^ digits - 1]? = some before →
        records[10 ^ digits]? = some after →
          before.int "arrival_time_us" < after.int "arrival_time_us" := by
  obtain ⟨name, count, seed, times, -, arrives, -, rfl, -⟩ := generateRecords_eq_ok.mp generated
  exact (sorted_iff_partedAtPowers arrives.schedule.2.1).trans partedAtPowers_iff

/-- Among 10001 simultaneous requests the last one is not the last by its id. -/
theorem sortBy_generated_iff_burst :
    let records := generatedWorkload steady (text "burst") 7 (List.replicate 10001 0)
    (sortBy requestOrder records = records ↔
      ∀ digits, 4 ≤ digits → ∀ before after, records[10 ^ digits - 1]? = some before →
        records[10 ^ digits]? = some after →
          before.int "arrival_time_us" < after.int "arrival_time_us") ∧
      sortBy requestOrder records ≠ records := by
  intro records
  have exact : sortBy requestOrder records = records ↔ _ := sortBy_generated_iff
    (generateRecords_burstConfig "burst" 10001 (by decide) fun _ none => nomatch none)
  refine ⟨exact, fun sorted => ?_⟩
  have request : ∀ index < 10001, records[index]? =
      some (generatedAt steady (text "burst") 7 (0, index)) := fun index inside => by
    rw [generatedWorkload_getElem?, List.getElem?_replicate, if_pos inside]
    rfl
  have parted := exact.mp sorted 4 le_rfl _ _ (request (10 ^ 4 - 1) (by decide))
    (request (10 ^ 4) (by decide))
  exact absurd parted (by decide +kernel)

/-! ## Shared prompts -/

namespace WorkloadClass

/-- How many tokens the prompts of one prefix group begin with. -/
def sharedLength : WorkloadClass → Nat
  | .sharedSystemPrompt => 64
  | .codingAgent => 128
  | .mixed => 96
  | _ => 0

/-- Where the tokens of the prefix groups begin. -/
def sharedBase : WorkloadClass → Nat
  | .sharedSystemPrompt => 10000
  | .codingAgent => 30000
  | .mixed => 70000
  | _ => 0

/-- Where the tokens that belong to one request begin. -/
def ownBase : WorkloadClass → Nat
  | .sharedSystemPrompt => 20000
  | .codingAgent => 50000
  | .mixed => 80000
  | _ => 0

/-- The number of a request's prefix group. -/
def groupOf : WorkloadClass → Nat → Nat
  | .codingAgent, index => index % 2
  | _, _ => 0

/-- The name of a prefix group. -/
def groupName : WorkloadClass → Nat → String
  | .sharedSystemPrompt, _ => "shared-system-v1"
  | .codingAgent, group => "coding-tools-" ++ toString group
  | _, _ => "mixed-coding"

end WorkloadClass

section Sharing

variable {workloadClass : WorkloadClass} {rngSeed : Nat} {tokens others : List Int}
  {group otherGroup : String} {other : Nat}

/-- An exact prompt: the tokens of the group, then those of the request. -/
structure ExactPrompt (workloadClass : WorkloadClass) (index : Nat) (tokens : List Int)
    (group : String) : Prop where
  parts : ∃ own, 0 < own ∧ own ≤ 10000 ∧ tokens =
    sharedTokens (workloadClass.groupOf index) workloadClass.sharedLength workloadClass.sharedBase ++
      sharedTokens index own workloadClass.ownBase
  named : group = workloadClass.groupName (workloadClass.groupOf index)

/-- The exact prompt of a shape, by its class. -/
theorem exactPrompt (exact : (requestShape random workloadClass rngSeed index).prompt =
    .inl (tokens, group)) : ExactPrompt workloadClass index tokens group := by
  cases workloadClass with
  | chat => cases exact
  | burst => cases exact
  | overload => cases exact
  | sharedSystemPrompt =>
      obtain ⟨rfl, rfl⟩ := Prod.mk.inj (Sum.inl.inj exact)
      exact ⟨⟨8 + index % 5, by omega, by omega, rfl⟩, rfl⟩
  | codingAgent =>
      obtain ⟨rfl, rfl⟩ := Prod.mk.inj (Sum.inl.inj exact)
      exact ⟨⟨24 + index % 17, by omega, by omega, rfl⟩, rfl⟩
  | mixed =>
      unfold requestShape at exact
      dsimp only at exact
      split at exact
      · cases exact
      · cases exact
      · obtain ⟨rfl, rfl⟩ := Prod.mk.inj (Sum.inl.inj exact)
        exact ⟨⟨16 + index % 9, by omega, by omega, rfl⟩, rfl⟩
      · cases exact

/-- The tokens of the groups lie below those of the requests. -/
theorem sharedBase_le_ownBase (workloadClass : WorkloadClass) (index : Nat) :
    workloadClass.sharedBase + workloadClass.groupOf index * 10000 + workloadClass.sharedLength ≤
      workloadClass.ownBase ∧ workloadClass.sharedLength ≤ 10000 := by
  have parity := Nat.mod_lt index (by decide : 0 < 2)
  cases workloadClass <;>
    simp only [WorkloadClass.sharedBase, WorkloadClass.groupOf, WorkloadClass.sharedLength,
      WorkloadClass.ownBase] <;> omega

/-- The name of a group tells its number. -/
theorem groupName_eq_iff (workloadClass : WorkloadClass) (index other : Nat) :
    workloadClass.groupName (workloadClass.groupOf index) =
        workloadClass.groupName (workloadClass.groupOf other) ↔
      workloadClass.groupOf index = workloadClass.groupOf other := by
  refine ⟨fun same => ?_, congrArg _⟩
  cases workloadClass with
  | codingAgent =>
      have digits := congrArg String.toList ((String.append_right_inj _).mp same)
      simp only [Nat.toString_eq_repr, Nat.toList_repr] at digits
      rw [← @Nat.ofDigitChars_ten_toDigits (WorkloadClass.codingAgent.groupOf index), digits,
        Nat.ofDigitChars_ten_toDigits]
  | _ => rfl

theorem disjoint_sharedTokens {left right length length' base base' : Nat}
    (apart : base + left * 10000 + length ≤ base' + right * 10000) :
    (sharedTokens left length base).Disjoint (sharedTokens right length' base') := by
  intro token leftIn rightIn
  obtain ⟨first, inside, rfl⟩ := mem_sharedTokens.mp leftIn
  obtain ⟨second, -, same⟩ := mem_sharedTokens.mp rightIn
  omega

/-- Tokens of different numbers over one base. -/
theorem disjoint_sharedTokens_of_ne {left right length length' base : Nat} (apart : left ≠ right)
    (short : length ≤ 10000) (short' : length' ≤ 10000) :
    (sharedTokens left length base).Disjoint (sharedTokens right length' base) := by
  rcases Nat.lt_or_gt_of_ne apart with before | after
  · exact disjoint_sharedTokens (by omega)
  · exact List.disjoint_symm (disjoint_sharedTokens (by omega))

/-- The prompts of one group share what the group begins with, and prompts share nothing else. -/
structure SharesGroup (length : Nat) (sameGroup : Prop) (left right : List Int) : Prop where
  common : sameGroup → left.take length = right.take length
  longer : length < left.length
  own : (left.drop length).Disjoint right
  foreign : ¬ sameGroup → left.Disjoint right

/-- Two exact prompts of one class share tokens as their groups say. -/
theorem ExactPrompt.shares (apart : index ≠ other)
    (left : ExactPrompt workloadClass index tokens group)
    (right : ExactPrompt workloadClass other others otherGroup) :
    SharesGroup workloadClass.sharedLength (group = otherGroup) tokens others := by
  obtain ⟨own, some, few, rfl⟩ := left.parts
  obtain ⟨own', -, few', rfl⟩ := right.parts
  obtain ⟨below, short⟩ := sharedBase_le_ownBase workloadClass index
  obtain ⟨below', -⟩ := sharedBase_le_ownBase workloadClass other
  have sameGroup : group = otherGroup ↔ workloadClass.groupOf index = workloadClass.groupOf other := by
    rw [left.named, right.named, groupName_eq_iff]
  have length : ∀ group length base, (sharedTokens group length base).length = length :=
    fun _ _ _ => by rw [sharedTokens, List.length_map, List.length_range]
  have front : ∀ (group : Nat) (rest : List Int),
      (sharedTokens group workloadClass.sharedLength workloadClass.sharedBase ++ rest).take
        workloadClass.sharedLength =
      sharedTokens group workloadClass.sharedLength workloadClass.sharedBase := fun group rest => by
    rw [List.take_append_of_le_length (by rw [length]), List.take_of_length_le (by rw [length])]
  have ownApart : (sharedTokens index own workloadClass.ownBase).Disjoint
      (sharedTokens other own' workloadClass.ownBase) :=
    disjoint_sharedTokens_of_ne apart few few'
  have ownShared : (sharedTokens index own workloadClass.ownBase).Disjoint
      (sharedTokens (workloadClass.groupOf other) workloadClass.sharedLength
        workloadClass.sharedBase) :=
    List.disjoint_symm (disjoint_sharedTokens (below'.trans (Nat.le_add_right _ _)))
  refine ⟨fun same => ?_, ?_, ?_, fun different => ?_⟩
  · rw [front, front, sameGroup.mp same]
  · rw [List.length_append, length, length]
    omega
  · rw [List.drop_append_of_le_length (by rw [length]), List.drop_of_length_le (by rw [length]),
      List.nil_append, List.disjoint_append_right]
    exact ⟨ownShared, ownApart⟩
  · rw [List.disjoint_append_left, List.disjoint_append_right, List.disjoint_append_right]
    exact ⟨⟨disjoint_sharedTokens_of_ne (fun same => different (sameGroup.mpr same)) short short,
      disjoint_sharedTokens (below.trans (Nat.le_add_right _ _))⟩, ownShared, ownApart⟩

/-- A generated record with an exact prompt. -/
theorem exactPrompt_of_contains {entry : Int × Nat}
    (present : (generatedAt random name seed entry).contains "prompt_tokens" = true) :
    ∃ tokens group, ExactPrompt (.ofText name) entry.2 tokens group ∧
      (generatedAt random name seed entry).ints "prompt_tokens" = tokens ∧
      (generatedAt random name seed entry).str "prefix_group" = text group := by
  have exact := @exactPrompt random entry.2 (.ofText name) (recordSeed seed)
  unfold generatedAt generatedRecord at present ⊢
  generalize requestShape random (.ofText name) (recordSeed seed) entry.2 = shape at *
  obtain ⟨⟨tokens, group⟩ | size, most⟩ := shape
  · refine ⟨tokens, group, exact rfl, ?_, rfl⟩
    change (tokens.map Json.int).map _ = tokens
    rw [List.map_map]
    exact List.map_id tokens
  · cases present

/-- Two generated requests with exact prompts share the first tokens of their prefix group when
they have one group, and no token besides. -/
theorem generated_shares (generated : generateRecords random config = .ok (records, manifest))
    (apart : index ≠ other) {left right : Record} (atIndex : records[index]? = some left)
    (atOther : records[other]? = some right) (exact : left.contains "prompt_tokens" = true)
    (exact' : right.contains "prompt_tokens" = true) :
    SharesGroup (WorkloadClass.ofText (left.str "workload_class")).sharedLength
      (left.str "prefix_group" = right.str "prefix_group") (left.ints "prompt_tokens")
      (right.ints "prompt_tokens") := by
  obtain ⟨name, count, seed, times, -, -, -, rfl, -⟩ := generateRecords_eq_ok.mp generated
  rw [generatedWorkload_getElem?] at atIndex atOther
  obtain ⟨time, -, rfl⟩ := Option.map_eq_some_iff.mp atIndex
  obtain ⟨time', -, rfl⟩ := Option.map_eq_some_iff.mp atOther
  obtain ⟨tokens, group, prompt, found, named⟩ := exactPrompt_of_contains exact
  obtain ⟨others, otherGroup, prompt', found', named'⟩ := exactPrompt_of_contains exact'
  rw [found, found', named, named', text_injective.eq_iff]
  exact prompt.shares apart prompt'

theorem generated_shares_two :
    let left := generatedAt steady (text "shared_system_prompt") 7 (0, 0)
    let right := generatedAt steady (text "shared_system_prompt") 7 (0, 1)
    SharesGroup 64 (left.str "prefix_group" = right.str "prefix_group")
      (left.ints "prompt_tokens") (right.ints "prompt_tokens") :=
  @generated_shares steady (burstConfig "shared_system_prompt" 2) _ _ 0 1
    (generateRecords_burstConfig "shared_system_prompt" 2 (by decide) (by decide)) (by decide) _ _
    rfl rfl rfl rfl

end Sharing

end LlmLab.Benchmarks
