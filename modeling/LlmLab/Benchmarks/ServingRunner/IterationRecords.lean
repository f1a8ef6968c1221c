import LlmLab.Benchmarks.ServingRunner.ContinuousRun
import LlmLab.Benchmarks.ServingRunner.Delivery
import Mathlib.Algebra.Order.Field.Basic

/-!
# Iteration records pass

The record of every trace entry of a continuous run passes `validate_native_records`.
-/

namespace LlmLab.Benchmarks

open LlmLab.Serving

/-! ## Quotients -/

/-- A division of counters that rounds the exact quotient, as the division of doubles does. -/
def RoundsQuotients (divide : Int → Int → FloatNumeral) : Prop :=
  ∃ round : Rat → Rat, Monotone round ∧ round 0 = 0 ∧ round 1 = 1 ∧
    ∀ count total, 0 ≤ count → count ≤ 2 ^ 64 → 0 < total → total ≤ 2 ^ 64 →
      (divide count total).value = some (round (count / total))

section Quotients

variable {divide : Int → Int → FloatNumeral} {count more total : Int}

/-- A quotient that does not exceed one is printed as a number of the unit interval. -/
theorem RoundsQuotients.unit (rounds : RoundsQuotients divide) (low : 0 ≤ count)
    (high : count ≤ total) (positive : 0 < total) (fits : total ≤ 2 ^ 64) :
    ∃ value, (divide count total).value = some value ∧ 0 ≤ value ∧ value ≤ 1 := by
  obtain ⟨round, mono, zero, one, rounded⟩ := rounds
  have whole : (0 : Rat) < total := Int.cast_pos.mpr positive
  refine ⟨_, rounded count total low (high.trans fits) positive fits, ?_, ?_⟩
  · rw [← zero]
    exact mono (div_nonneg (Int.cast_nonneg low) whole.le)
  · rw [← one]
    exact mono ((div_le_one whole).mpr (Int.cast_le.mpr high))

theorem RoundsQuotients.finite (rounds : RoundsQuotients divide) (low : 0 ≤ count)
    (high : count ≤ 2 ^ 64) (positive : 0 < total) (fits : total ≤ 2 ^ 64) :
    ∃ value, (divide count total).value = some value ∧ 0 ≤ value := by
  obtain ⟨round, mono, zero, -, rounded⟩ := rounds
  refine ⟨_, rounded count total low high positive fits, ?_⟩
  rw [← zero]
  exact mono (div_nonneg (Int.cast_nonneg low) (Int.cast_nonneg positive.le))

/-- A larger count has no smaller quotient. -/
theorem RoundsQuotients.not_less (rounds : RoundsQuotients divide) (low : 0 ≤ count)
    (less : count ≤ more) (high : more ≤ 2 ^ 64) (positive : 0 < total) (fits : total ≤ 2 ^ 64) :
    (Runner.double (divide more total)).less (Runner.double (divide count total)) = false := by
  obtain ⟨round, mono, -, -, rounded⟩ := rounds
  have larger := rounded more total (low.trans less) high positive fits
  have smaller := rounded count total low (less.trans high) positive fits
  unfold Json.less
  rw [number?_double larger, number?_double smaller]
  refine decide_eq_false (not_lt.mpr (mono ?_))
  exact div_le_div_of_nonneg_right (Int.cast_le.mpr less) (Int.cast_nonneg positive.le)

theorem RoundsQuotients.zero (rounds : RoundsQuotients divide) (positive : 0 < total)
    (fits : total ≤ 2 ^ 64) : (divide 0 total).value = some 0 := by
  obtain ⟨round, -, zero, -, rounded⟩ := rounds
  rw [rounded 0 total le_rfl (by decide) positive fits, Int.cast_zero, zero_div, zero]

/-- A printed quotient passes where Python computes the same one. -/
theorem passes_quotient {value : Rat} {name context : String}
    (finite : (divide count total).value = some value) :
    Passes (fun _ => True) (exactNumber (Runner.double (divide count total))
      (.float (divide count total)) name context) :=
  passes_exactNumber rfl (isNumber_double _) (equal_double finite finite)

theorem passes_unitInterval {value : FloatNumeral} {quotient : Rat} {name context : String}
    {nullable : Bool} (finite : value.value = some quotient) (low : 0 ≤ quotient)
    (high : quotient ≤ 1) :
    Passes (fun _ => True) (numberInUnitInterval (Runner.double value) name context nullable) := by
  refine passes_reject fun bad => ?_
  rw [isNumber_double, number?_double finite, Option.any_some, decide_eq_true low,
    decide_eq_true high] at bad
  exact Bool.noConfusion bad.1

end Quotients

/-! ## The fields of an iteration -/

/-- What the record of a trace entry shows. -/
structure ShowsIteration (divide : Int → Int → FloatNumeral) (totalBlocks : Nat)
    (entry : BatchTraceEntry) (record : Record) : Prop where
  keys : ∀ key, key ∈ record.map Prod.fst ↔ key ∈ iterationRecordFields
  number : record.get "iteration_number" = .int entry.iterationNumber
  start : record.get "start_time_us" = .int entry.startTimestampUs
  finish : record.get "end_time_us" = .int entry.endTimestampUs
  policy : record.get "policy" = .str (text entry.policy.name)
  prefills : record.get "prefill_ids" = Runner.idsJson entry.plan.prefillRequestIds
  decodes : record.get "decode_ids" = Runner.idsJson entry.plan.decodeRequestIds
  deferred : record.get "deferred" = .arr (entry.plan.deferredRequests.map Runner.deferralJson)
  sequences : record.get "scheduled_sequences" = .int entry.plan.scheduledSequenceCount
  prefillTokens : record.get "scheduled_prefill_tokens" = .int entry.plan.totalPrefillTokens
  decodeTokens : record.get "scheduled_decode_tokens" = .int entry.plan.totalDecodeTokens
  tokens : record.get "total_scheduled_tokens" = .int entry.plan.totalScheduledTokens
  allocated : record.get "kv_allocated" = .int entry.allocatedKvBlocks
  free : record.get "kv_free" = .int entry.freeKvBlocks
  utilization : record.get "kv_utilization" =
    Runner.double (divide entry.allocatedKvBlocks totalBlocks)
  fragmentation : record.get "internal_fragmentation_tokens" =
    .int entry.internalFragmentationTokens
  represented : record.get "represented_kv_tokens" = .int entry.representedKvTokens
  cached : record.get "cached_blocks" = .int entry.cachedKvBlocks
  shared : record.get "shared_referenced_blocks" = .int entry.referencedSharedKvBlocks
  hits : record.get "prefix_hits" =
    .int (ContinuousBatchingEngine.prefixHits entry.plan.prefillWork)
  misses : record.get "prefix_misses" =
    .int (ContinuousBatchingEngine.prefixMisses entry.plan.prefillWork)
  matched : record.get "matched_tokens" =
    .int (Runner.sum64 (entry.plan.prefillWork.map (·.matchedPrefixTokenCount)))
  evicted : record.get "evicted_ids" = Runner.idsJson entry.plan.plannedEvictionIds
  stall : record.get "stall" = .bool entry.plan.deferredOnly
  counts : ∀ name ∈ iterationAmounts, IsCount (record.get name)

/-- What stands in the record that `write_iteration` writes. -/
theorem showsIteration {divide : Int → Int → FloatNumeral} {totalBlocks : Nat}
    {entry : BatchTraceEntry} :
    ShowsIteration divide totalBlocks entry (Runner.writeIteration divide totalBlocks entry) := by
  constructor
  case keys =>
    intro key
    rw [Runner.writeIteration, Runner.mem_keys_named]
    refine mem_map_text ?_ ?_ <;> simp only [List.map_cons, List.map_nil] <;> decide +kernel
  case hits =>
    simp [Runner.writeIteration, Runner.get_named, List.lookup_cons, Runner.number,
      ContinuousBatchingEngine.prefixHits, List.countP_filter, Bool.and_comm]
  case misses =>
    simp [Runner.writeIteration, Runner.get_named, List.lookup_cons, Runner.number,
      ContinuousBatchingEngine.prefixMisses, List.countP_filter, Bool.and_comm]
  case counts =>
    have count : ∀ number, IsCount (Runner.number number) :=
      fun number => ⟨number, rfl, Int.natCast_nonneg number⟩
    simp only [iterationAmounts, Runner.writeIteration, Runner.get_named, List.forall_mem_cons]
    simp [List.lookup_cons, count]
  all_goals
    simp [Runner.writeIteration, Runner.get_named, List.lookup_cons, Runner.number, Runner.string]

theorem isOf_iteration {divide : Int → Int → FloatNumeral} {totalBlocks : Nat}
    {entry : BatchTraceEntry} :
    IsOf "iteration" (Runner.writeIteration divide totalBlocks entry) := by
  constructor <;>
    simp [Runner.writeIteration, Runner.get_named, List.lookup_cons, Runner.string]

/-! ## The checks of an iteration -/

section Checks

open ContinuousBatchingEngine (EntrySound)

variable {divide : Int → Int → FloatNumeral} {name context : String} {known : List Int}
  {ids : List Nat} {entry : BatchTraceEntry} {record : Record}

theorem idsJson_eq (ids : List Nat) :
    Runner.idsJson ids = .arr ((ids.map Nat.cast).map Json.int) :=
  congrArg Json.arr (List.map_map ..).symm

theorem isNaturals_ids : isNaturals (Runner.idsJson ids) = true := by
  simp [isNaturals, Runner.idsJson, Runner.number, Json.arr?, Json.int?]

/-- Distinct ids of known requests are taken as they are. -/
theorem passes_idArray (nodup : ids.Nodup) (listed : ∀ id ∈ ids, (id : Int) ∈ known) :
    Passes (· = ids.map Nat.cast) (idArray (Runner.idsJson ids) name context known) := by
  have read : ((Runner.idsJson ids).arr?.getD []).filterMap Json.int? = ids.map Nat.cast := by
    unfold Runner.idsJson
    rw [Json.arr?, Option.getD_some, List.filterMap_map, ← List.filterMap_eq_map]
    rfl
  have foreign : (ids.map (Nat.cast : Nat → Int)).filter
      (fun id => known.contains id = false) = [] := by
    refine List.filter_eq_nil_iff.mpr fun id member missing => ?_
    obtain ⟨number, inside, rfl⟩ := List.mem_map.mp member
    rw [List.contains_iff_mem.mpr (listed number inside)] at missing
    cases of_decide_eq_true missing
  unfold idArray
  simp only [read, foreign]
  refine (passes_reject (by simp [Runner.idsJson, Json.arr?])).andThen
    ((passes_reject (by rw [isNaturals_ids]; decide)).andThen
    ((passes_reject (not_not.mpr (nodup.map Nat.cast_injective))).andThen
    ((passes_rejectShowing (not_not.mpr rfl)).andThen rfl)))

theorem oneOf_deferralReason (reason : DeferralReason) : oneOf (Runner.string reason.name)
    ["sequence budget", "token budget", "KV capacity"] = true := by
  unfold Runner.string
  rw [oneOf_text]
  cases reason <;> decide

/-- The deferrals of an iteration name distinct requests. -/
theorem passes_checkDeferred {deferred : List DeferredRequest} {first : Nat} {seen : List Int}
    (nodup : (seen ++ deferred.map fun item => (item.requestId : Int)).Nodup)
    (listed : ∀ item ∈ deferred, (item.requestId : Int) ∈ known) :
    Passes (· = seen ++ deferred.map fun item => (item.requestId : Int))
      (((deferred.map Runner.deferralJson).zipIdx first).foldlM (checkDeferred known context)
        seen) := by
  induction deferred generalizing first seen with
  | nil => simp
  | cons item rest ih =>
      rw [List.forall_mem_cons] at listed
      rw [List.map_cons, List.append_cons] at nodup
      have fresh : (item.requestId : Int) ∉ seen := fun member =>
        (List.nodup_append.mp (List.nodup_append.mp nodup).1).2.2 _ member _ (by simp) rfl
      have here : Passes (· = seen ++ [(item.requestId : Int)])
          (checkDeferred known context seen (Runner.deferralJson item, first)) := by
        have subject : Record.get (Runner.named [("request_id", Runner.number item.requestId),
            ("reason", Runner.string item.reason.name)]) "request_id" =
            .int item.requestId := by
          simp [Runner.get_named, Runner.number]
        have reason : Record.get (Runner.named [("request_id", Runner.number item.requestId),
            ("reason", Runner.string item.reason.name)]) "reason" =
            Runner.string item.reason.name := by
          simp [Runner.get_named, List.lookup_cons]
        have keys : (Runner.named [("request_id", Runner.number item.requestId),
            ("reason", Runner.string item.reason.name)]).map Prod.fst =
            [text "request_id", text "reason"] := by
          simp [Runner.named]
        unfold checkDeferred Runner.deferralJson
        simp only [Json.obj?, Option.getD_some, subject, Json.int?, reason]
        refine (passes_reject ?_).andThen ((passes_reject ?_).andThen
          ((passes_rejectShowing fresh).andThen
          ((passes_requireOneOf (oneOf_deferralReason _)).andThen rfl)))
        · rw [not_or, not_not]
          refine ⟨by simp, ?_⟩
          rw [keys]
          decide +kernel
        · exact not_not.mpr listed.1
      rw [List.map_cons, List.map_cons, List.zipIdx_cons, List.foldlM_cons]
      have later := @ih (first + 1) (seen ++ [(item.requestId : Int)]) nodup listed.2
      rw [List.append_assoc] at later
      exact here.known later

/-- What the validator knows of the configuration of a continuous run. -/
structure Configured (config : NativeConfig) (batching : ContinuousBatchingConfig) : Prop where
  mode : config.executionMode = text "continuous_batching"
  policy : config.schedulingPolicy = text batching.schedulingPolicy.name
  totalBlocks : config.totalBlocks = batching.kvCacheConfig.totalNumBlocks
  blockSizeTokens : config.blockSizeTokens = batching.kvCacheConfig.blockSizeTokens

variable {config : NativeConfig} {batching : ContinuousBatchingConfig}

/-- The capacity is a positive counter. -/
theorem kvBlocks_range (batching : ContinuousBatchingConfig) :
    (0 : Int) < batching.kvCacheConfig.totalNumBlocks ∧
      (batching.kvCacheConfig.totalNumBlocks : Int) ≤ 2 ^ 64 := by
  have positive := batching.kvCacheConfig.blocks_pos
  have capacity := (Nat.le_mul_of_pos_right batching.kvCacheConfig.totalNumBlocks
    batching.kvCacheConfig.blockSize_pos).trans batching.kvCacheConfig.capacity_le
  unfold uint64Max at capacity
  omega

/-- The block counts of an iteration add up to the configured capacity. -/
theorem passes_checkIterationCapacity (rounds : RoundsQuotients divide)
    (configured : Configured config batching) (sound : EntrySound batching entry)
    (shows : ShowsIteration divide batching.kvCacheConfig.totalNumBlocks entry record) :
    Passes (fun _ => True) (checkIterationCapacity divide (some config) record context) := by
  obtain ⟨positive, fits⟩ := kvBlocks_range batching
  have blocks := sound.blocks
  have slots := sound.slots
  obtain ⟨value, finite, -, -⟩ := @RoundsQuotients.unit divide entry.allocatedKvBlocks _ rounds
    (by omega) (by omega) positive fits
  unfold checkIterationCapacity
  dsimp only
  rw [int_eq shows.allocated, int_eq shows.free, int_eq shows.represented, shows.utilization,
    shows.fragmentation, configured.totalBlocks, configured.blockSizeTokens]
  refine (passes_conserved_int (by omega)).andThen ((passes_quotient finite).andThen
    (passes_conserved_int ?_))
  have slots' : (entry.representedKvTokens : Int) + entry.internalFragmentationTokens =
      entry.allocatedKvBlocks * batching.kvCacheConfig.blockSizeTokens := by
    exact_mod_cast slots
  omega

/-- An iteration that stalls has nothing scheduled. -/
theorem EntrySound.idle (sound : EntrySound batching entry)
    (only : entry.plan.deferredOnly = true) : entry.plan.prefillRequestIds = [] ∧
      entry.plan.decodeRequestIds = [] ∧ entry.plan.totalScheduledTokens = 0 := by
  have none : entry.plan.scheduledSequenceCount = 0 :=
    of_decide_eq_true ((Bool.and_eq_true ..).mp only).1
  unfold BatchPlan.scheduledSequenceCount at none
  have noPrefills : entry.plan.prefillRequestIds = [] := List.length_eq_zero_iff.mp (by omega)
  have noDecodes : entry.plan.decodeRequestIds = [] := List.length_eq_zero_iff.mp (by omega)
  have noWork : entry.plan.prefillWork = [] :=
    List.map_eq_nil_iff.mp (sound.prefills.symm.trans noPrefills)
  refine ⟨noPrefills, noDecodes, ?_⟩
  rw [sound.tokens, sound.prefillTokens, sound.decodeTokens, noWork, noDecodes]
  rfl

/-- The record of a trace entry passes after those of the entries before it. -/
theorem passes_validateIterationRecord (rounds : RoundsQuotients divide)
    (configured : Configured config batching) (sound : EntrySound batching entry)
    (once : entry.plan.mentioned.Nodup)
    (listed : ∀ id ∈ entry.plan.mentioned, (id : Int) ∈ known) {previous : Int × Int}
    (number : previous.1 < entry.iterationNumber) (start : previous.2 ≤ entry.startTimestampUs)
    {line : Nat}
    (shows : ShowsIteration divide batching.kvCacheConfig.totalNumBlocks entry record) :
    Passes (· = ((entry.iterationNumber : Int), entry.endTimestampUs))
      (validateIterationRecord divide (some config) known previous (line, record)) := by
  obtain ⟨positive, fits⟩ := kvBlocks_range batching
  have blocks := sound.blocks
  have forward := sound.forward
  obtain ⟨scheduled, deferredOnce, apart⟩ := List.nodup_append.mp once
  obtain ⟨prefillsOnce, decodesOnce, distinct⟩ := List.nodup_append.mp scheduled
  obtain ⟨value, finite, low, high⟩ := @RoundsQuotients.unit divide entry.allocatedKvBlocks _
    rounds (by omega) (by omega) positive fits
  have deferredIds : (entry.plan.deferredRequests.map fun item => (item.requestId : Int)).Nodup := by
    have mapped := deferredOnce.map (Nat.cast_injective (R := Int))
    rwa [List.map_map] at mapped
  unfold validateIterationRecord
  dsimp only
  rw [shows.policy, shows.prefills, shows.decodes, shows.deferred, shows.utilization, shows.stall,
    shows.sequences, shows.decodeTokens, shows.tokens, shows.evicted]
  refine (passes_closedFields shows.keys).andThen
    ((passes_fieldInt shows.number (by simp)).known
    ((passes_fieldInt shows.start sound.start).known
    ((passes_fieldInt shows.finish (sound.start.trans forward)).known
    ((passes_reject (not_le.mpr number)).andThen ((passes_reject (by omega)).andThen
    ((passes_requireOneOf ?_).andThen
    ((passes_idArray prefillsOnce fun id member => listed id (by simp [BatchPlan.mentioned, member])).known
    ((passes_idArray decodesOnce fun id member => listed id (by simp [BatchPlan.mentioned, member])).known
    ((passes_reject ?_).andThen ((passes_reject (by simp [Json.arr?])).andThen
    ((@passes_checkDeferred _ _ _ 0 [] deferredIds fun item member =>
      listed _ (List.mem_append_right _ (List.mem_map_of_mem member))).known
    ((passes_reject ?_).andThen ((passes_forM fun name member => ?_).andThen
    ((passes_conserved_int ?_).andThen ((passes_conserved_int ?_).andThen
    ((passes_conserved_int ?_).andThen ((passes_unitInterval finite low high).andThen
    ((passes_reject (by simp [Json.bool?])).andThen
    ((passes_reject (by rw [isNaturals_ids]; decide)).andThen ((passes_reject ?_).andThen
    ((passes_reject ?_).andThen
    ((passes_checkIterationCapacity rounds configured sound shows).andThen
    ((passes_reject ?_).andThen rfl)))))))))))))))))))))))
  · rw [oneOf_text]
    cases entry.policy <;> decide
  · rw [List.any_eq_true]
    rintro ⟨id, among, both⟩
    obtain ⟨number, prefills, rfl⟩ := List.mem_map.mp among
    obtain ⟨other, decodes, same⟩ := List.mem_map.mp (List.contains_iff_mem.mp both)
    exact distinct number prefills number (Nat.cast_injective same ▸ decodes) rfl
  · rw [List.any_eq_true]
    rintro ⟨id, among, both⟩
    obtain ⟨item, waits, rfl⟩ := List.mem_map.mp among
    rw [List.contains_iff_mem, ← List.map_append] at both
    obtain ⟨other, works, same⟩ := List.mem_map.mp both
    exact apart other works item.requestId (List.mem_map_of_mem waits) (Nat.cast_injective same)
  · obtain ⟨number, found, low⟩ := shows.counts name member
    exact (passes_fieldInt found low).andThen trivial
  · rw [List.length_map, List.length_map, BatchPlan.scheduledSequenceCount, Nat.cast_add]
  · rw [List.length_map, sound.decodeTokens]
  · rw [int_eq shows.prefillTokens, int_eq shows.decodeTokens, sound.tokens, Nat.cast_add]
  · rw [ints_eq (shows.evicted.trans (idsJson_eq _))]
    exact not_not.mpr (sound.evictions.map Nat.cast_injective)
  · rintro ⟨stall, work⟩
    obtain ⟨noPrefills, noDecodes, noTokens⟩ := EntrySound.idle sound (Option.some.inj stall)
    rw [noPrefills, noDecodes, int_eq shows.tokens, noTokens] at work
    simp at work
  · have cached := sound.cached
    have shared := sound.shared
    rw [int_eq shows.allocated, int_eq shows.cached, int_eq shows.shared]
    omega

/-- The records of a trace pass one after another. -/
theorem passes_validateIterationRecords (rounds : RoundsQuotients divide)
    (configured : Configured config batching) {trace : List BatchTraceEntry}
    (sound : ∀ entry ∈ trace, EntrySound batching entry)
    (once : ∀ entry ∈ trace, entry.plan.mentioned.Nodup)
    (listed : ∀ entry ∈ trace, ∀ id ∈ entry.plan.mentioned, (id : Int) ∈ known)
    (counted : trace.Pairwise fun first second => first.iterationNumber < second.iterationNumber)
    (sorted : trace.Pairwise fun first second => first.endTimestampUs ≤ second.startTimestampUs)
    {previous : Int × Int} (after : ∀ entry ∈ trace,
      previous.1 < entry.iterationNumber ∧ previous.2 ≤ entry.startTimestampUs) {first : Nat} :
    Passes (fun _ => True) ((numbered (trace.map
      (Runner.writeIteration divide batching.kvCacheConfig.totalNumBlocks)) first).foldlM
        (validateIterationRecord divide (some config) known) previous) := by
  induction trace generalizing previous first with
  | nil => trivial
  | cons entry trace ih =>
      rw [List.forall_mem_cons] at sound once listed after
      rw [List.pairwise_cons] at counted sorted
      rw [List.map_cons, numbered, List.zipIdx_cons, List.map_cons, List.foldlM_cons]
      refine (passes_validateIterationRecord rounds configured sound.1 once.1 listed.1 after.1.1
        after.1.2 showsIteration).known
        (ih sound.2 once.2 listed.2 counted.2 sorted.2 fun later member => ⟨?_, ?_⟩)
      · exact Nat.cast_lt.mpr (counted.1 later member)
      · exact sorted.1 later member

/-- The records of a run pass when all its requests are known. -/
theorem passes_iterations {engine : ContinuousBatchingEngine} {requests : List Request}
    (rounds : RoundsQuotients divide) (configured : Configured config engine.config)
    (accounted : engine.Accounted requests)
    (listed : ∀ id request, engine.requests.find? id = some request → (id : Int) ∈ known) :
    Passes (fun _ => True) ((numbered (iterationsOf divide engine) 1).foldlM
      (validateIterationRecord divide (some config) known) (0, 0)) := by
  have numbers := accounted.conserved.numbered
  refine passes_validateIterationRecords rounds configured accounted.recorded.shown.entries
    accounted.timeline.once (fun entry member id mentioned => ?_) ?_ accounted.sorted.1
    fun entry member => ⟨?_, (accounted.recorded.shown.entries entry member).start⟩
  · obtain ⟨request, found⟩ := accounted.timeline.known entry member id mentioned
    exact listed id request found
  · refine List.pairwise_iff_getElem.mpr fun i j low high before => ?_
    rw [numbers i _ (List.getElem?_eq_getElem low), numbers j _ (List.getElem?_eq_getElem high)]
    exact Nat.succ_lt_succ before
  · obtain ⟨i, found⟩ := List.mem_iff_getElem?.mp member
    rw [numbers i entry found]
    exact Nat.cast_pos.mpr (Nat.succ_pos i)

end Checks

end LlmLab.Benchmarks
