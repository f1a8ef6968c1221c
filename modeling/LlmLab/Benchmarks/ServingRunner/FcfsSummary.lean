import LlmLab.Benchmarks.ServingRunner.FcfsRun

/-!
# The summary of a single-active run

The summary that `run_fcfs` writes passes the checks of `validate_native_records` on its fields and
on what it says of the requests.
-/

namespace LlmLab.Benchmarks

open LlmLab.Serving

/-! ## The fields of the summary -/

/-- What the summary of a single-active run shows. -/
structure ShowsSummary (nowUs : Int) (promptTokens generatedTokens submitted : Nat)
    (summary : Record) : Prop where
  keys : ∀ key, key ∈ summary.map Prod.fst ↔ key ∈ summaryRecordFields
  counts : ∀ name ∈ requiredInts, IsCount (summary.get name)
  /-- The fields that only a continuous run has. -/
  nulls : ∀ name ∈ nullableInts ++ ["kv_current_utilization", "kv_peak_utilization"],
    summary.get name = .null
  mode : summary.get "execution_mode" = .str (text "single_active_fcfs")
  policy : summary.get "scheduling_policy" = .null
  status : summary.get "run_status" = .str (text "completed")
  averageBatch : summary.get "average_batch_size" = if submitted = 0 then .null else .int 1
  maxBatch : summary.get "max_batch_size" = .int (if submitted = 0 then 0 else 1)
  hitRate : summary.get "prefix_token_hit_rate" = .null
  makespan : summary.get "makespan_us" = .int nowUs
  submitted : ∀ name ∈ ["submitted", "completed"], summary.get name = .int submitted
  prompts : ∀ name ∈ ["submitted_prompt_tokens", "scheduled_prefill_tokens"],
    summary.get name = .int promptTokens
  generated : ∀ name ∈ ["generated_tokens", "scheduled_decode_tokens"],
    summary.get name = .int generatedTokens
  zeros : ∀ name ∈ ["cancelled", "rejected", "stalled", "matched_prefix_tokens",
    "prefix_lookups", "prefix_lookup_hits", "prefix_lookup_misses",
    "cache_eligible_prompt_tokens", "saved_simulated_prefill_tokens"], summary.get name = .int 0

/-- What stands in the summary that `run_fcfs` writes. -/
theorem showsSummary {nowUs : Int} {promptTokens generatedTokens submitted : Nat}
    (nonneg : 0 ≤ nowUs) : ShowsSummary nowUs promptTokens generatedTokens submitted
      (Runner.fcfsSummary nowUs promptTokens generatedTokens submitted) := by
  constructor
  case keys =>
    intro key
    rw [Runner.fcfsSummary, Runner.mem_keys_named]
    refine mem_map_text ?_ ?_ <;> simp only [List.map_cons, List.map_nil] <;> decide +kernel
  case counts =>
    have zero : IsCount (.int 0) := ⟨0, rfl, le_rfl⟩
    have clock : IsCount (.int nowUs) := ⟨nowUs, rfl, nonneg⟩
    have size : IsCount (.int (if submitted = 0 then 0 else 1)) := ⟨_, rfl, by split <;> decide⟩
    have count : ∀ number, IsCount (Runner.number number) :=
      fun number => ⟨number, rfl, Int.natCast_nonneg number⟩
    simp only [requiredInts, Runner.fcfsSummary, Runner.get_named, List.forall_mem_cons]
    simp [List.lookup_cons, count, zero, clock, size]
  case nulls =>
    simp only [nullableInts, Runner.fcfsSummary, Runner.get_named, List.forall_mem_cons,
      List.cons_append, List.nil_append]
    simp [List.lookup_cons]
  all_goals
    simp [Runner.fcfsSummary, Runner.get_named, List.lookup_cons, Runner.number, Runner.string]

/-! ## The checks of the summary -/

section Summary

variable {nowUs : Int} {promptTokens generatedTokens submitted : Nat} {summary : Record}
  {context : String}

theorem oneOf_fcfs : oneOf (.str (text "single_active_fcfs")) ["single_active_fcfs"] = true := by
  rw [oneOf_text]
  decide

/-- The fields of the summary are of their types. -/
theorem passes_checkSummaryFields
    (shows : ShowsSummary nowUs promptTokens generatedTokens submitted summary)
    {config : NativeConfig} (mode : config.executionMode = text "single_active_fcfs") :
    Passes (fun _ => True) (checkSummaryFields (some config) summary context) := by
  unfold checkSummaryFields checkContinuousPolicy checkConfiguredMode
  rw [shows.mode, shows.policy, shows.status, shows.averageBatch]
  simp only [oneOf_fcfs, if_true, mode]
  refine (passes_closedFields shows.keys).andThen ((passes_requireOneOf ?_).andThen
    ((passes_reject ?_).andThen (Passes.andThen (P := fun _ => True) ?_
    (Passes.andThen (P := fun _ => True) ?_ ((passes_requireOneOf ?_).andThen ((passes_forM fun name member => ?_).andThen
    ((passes_forM fun name member => ?_).andThen ((passes_reject ?_).andThen
    (passes_forM fun name member => passes_reject ?_)))))))))
  · rw [oneOf_text]
    decide
  · exact fun bad => absurd bad.2 (by decide)
  · rw [if_neg (by rw [oneOf_text]; decide)]
    trivial
  · exact (passes_conserved (Json.equal_of_same .str rfl)).andThen
      (passes_conserved (Json.equal_of_same .null rfl))
  · rw [oneOf_text]
    decide
  · obtain ⟨number, found, low⟩ := shows.counts name member
    exact (passes_fieldInt found low).andThen trivial
  · have found := shows.nulls name (List.mem_append_left _ member)
    exact (@passes_nullableInt _ _ _ none found fun _ absent => by cases absent).andThen trivial
  · split
    · exact fun bad => absurd bad.1 (by decide)
    · exact fun bad => absurd bad.2 (by simp [Json.isNumber, Json.number?])
  · have absent : summary.get name = .null := by
      rcases List.mem_append.mp (show name ∈ ["kv_current_utilization", "kv_peak_utilization"] ++
        ["prefix_token_hit_rate"] from member) with gauge | rate
      · exact shows.nulls name (List.mem_append_right _ gauge)
      · rw [List.mem_singleton.mp rate]
        exact shows.hitRate
    rw [absent]
    exact fun bad => bad.2.elim (by decide) (by decide)

variable {quotient divide : Int → Int → FloatNumeral} {deliveries : List (Delivery quotient)}

theorem stateCount_served (served : ∀ delivery ∈ deliveries, delivery.Served) :
    stateCount (deliveries.map Delivery.shown) "Finished" = deliveries.length ∧
      stateCount (deliveries.map Delivery.shown) "Cancelled" = 0 := by
  refine ⟨(stateCount_shown .finished).trans ?_,
    (stateCount_shown .cancelled).trans ?_⟩
  · rw [List.countP_eq_length.mpr fun delivery member =>
      decide_eq_true (served delivery member).finished]
  · rw [List.countP_eq_zero.mpr fun delivery member => ?_]
    · rfl
    · rw [(served delivery member).finished]
      decide

/-- The clock of a run whose last request finishes at its end. -/
structure EndsAt (deliveries : List (Delivery quotient)) (nowUs : Int) : Prop where
  bound : ∀ delivery ∈ deliveries, ∀ finishUs,
    delivery.entry.request.finishTimeUs = some finishUs → finishUs ≤ nowUs
  reached : nowUs = 0 ∨
    ∃ delivery ∈ deliveries, delivery.entry.request.finishTimeUs = some nowUs

theorem EndsAt.nonneg (ends : EndsAt deliveries nowUs) : 0 ≤ nowUs := by
  rcases ends.reached with zero | ⟨delivery, -, finish⟩
  · exact zero.ge
  · have reported := delivery.sound.reported
    obtain ⟨-, ⟨start, admitted, before⟩, -⟩ := reported.finish finish
    exact (reported.arrival.trans (reported.admitted start admitted).2.1).trans before

theorem EndsAt.latestTime (ends : EndsAt deliveries nowUs) :
    latestTime (deliveries.map Delivery.shown) [] = nowUs := by
  rw [Benchmarks.latestTime, List.map_nil, List.append_nil, finishes_shown]
  refine foldl_max_eq (fun time member => ?_) ends.nonneg ?_
  · obtain ⟨delivery, inside, finish⟩ := List.mem_filterMap.mp member
    exact ends.bound delivery inside time finish
  · exact ends.reached.imp Eq.symm fun ⟨delivery, inside, finish⟩ =>
      List.mem_filterMap.mpr ⟨delivery, inside, finish⟩

/-- The summary counts and adds up the request records. -/
theorem passes_checkRequestTotals (ends : EndsAt deliveries nowUs)
    (served : ∀ delivery ∈ deliveries, delivery.Served)
    (shows : ShowsSummary nowUs (deliveries.map fun delivery =>
      delivery.entry.request.promptLength).sum (deliveries.map fun delivery =>
      delivery.entry.request.generatedTokenCount).sum deliveries.length summary) :
    Passes (fun _ => True) (checkRequestTotals divide (deliveries.map Delivery.shown) [] summary
      context) := by
  have zero : ∀ name ∈ ["cancelled", "rejected", "stalled", "matched_prefix_tokens",
      "prefix_lookups", "prefix_lookup_hits", "prefix_lookup_misses",
      "cache_eligible_prompt_tokens", "saved_simulated_prefill_tokens"], summary.int name = 0 :=
    fun name member => int_eq (shows.zeros name member)
  have completed : summary.int "completed" = deliveries.length :=
    int_eq (shows.submitted _ (by simp))
  have prompts := @total_shown quotient deliveries "prompt_tokens_original" _
    fun delivery _ => delivery.shows.original
  have scheduled := @total_shown quotient deliveries "prompt_tokens_scheduled" _
    fun delivery member => by rw [delivery.shows.scheduled, (served delivery member).scheduled]
  have generated := @total_shown quotient deliveries "generated_tokens" _
    fun delivery _ => delivery.shows.generated
  have matched : total (deliveries.map Delivery.shown) "prompt_tokens_matched" = 0 := by
    rw [@total_shown quotient deliveries "prompt_tokens_matched" (fun _ => 0)
      fun delivery member => by rw [delivery.shows.matched, (served delivery member).matched]]
    simp
  unfold checkRequestTotals
  simp only [List.length_map, (stateCount_served served).1, (stateCount_served served).2, ends.latestTime,
    shows.status, shows.makespan, shows.hitRate, completed, zero "cancelled" (by simp),
    zero "rejected" (by simp), zero "stalled" (by simp), zero "prefix_lookup_hits" (by simp),
    zero "prefix_lookup_misses" (by simp), zero "cache_eligible_prompt_tokens" (by simp),
    shows.submitted "submitted" (by simp), shows.submitted "completed" (by simp),
    shows.zeros "cancelled" (by simp), shows.zeros "prefix_lookups" (by simp),
    shows.zeros "saved_simulated_prefill_tokens" (by simp),
    shows.zeros "matched_prefix_tokens" (by simp)]
  refine (passes_conserved_int rfl).andThen ((passes_conserved_int rfl).andThen
    ((passes_conserved_int rfl).andThen ((passes_reject (by simp)).andThen
    ((passes_reject ?_).andThen ((passes_reject ?_).andThen ((passes_conserved_int rfl).andThen
    ((passes_forM ?_).andThen ((passes_conserved_int rfl).andThen
    (passes_exactNumber_null.andThen (passes_conserved_int rfl))))))))))
  · simp
  · rw [oneOf_text]
    exact fun bad => absurd bad.1 (by decide)
  · simp only [List.forall_mem_cons]
    refine ⟨?_, ?_, ?_, ?_, ?_, List.forall_mem_nil _⟩
    · rw [prompts, shows.prompts _ (by simp)]
      exact passes_conserved_int rfl
    · rw [scheduled, shows.prompts _ (by simp)]
      exact passes_conserved_int rfl
    · rw [generated, shows.generated _ (by simp)]
      exact passes_conserved_int rfl
    · rw [generated, shows.generated _ (by simp)]
      exact passes_conserved_int rfl
    · rw [matched, shows.zeros _ (by simp)]
      exact passes_conserved_int rfl

/-- A single-active summary leaves the fields of the continuous engine empty. -/
theorem passes_checkSummaryMode {config : Option NativeConfig}
    (shows : ShowsSummary nowUs promptTokens generatedTokens deliveries.length summary) :
    Passes (fun _ => True) (checkSummaryMode divide config (deliveries.map Delivery.shown) []
      summary context) := by
  have empty : deliveries.map Delivery.shown = [] ↔ deliveries.length = 0 := by
    rw [List.map_eq_nil_iff, List.length_eq_zero_iff]
  unfold checkSummaryMode checkFcfsSummary
  rw [shows.mode, if_pos oneOf_fcfs, shows.averageBatch, shows.maxBatch]
  simp only [empty]
  refine (passes_reject (by simp)).andThen ((passes_forM fun name member => ?_).andThen
    (Passes.andThen (P := fun _ => True) ?_ (passes_conserved_int rfl)))
  · rw [shows.nulls name (by revert name; simp [nullableInts])]
    exact passes_reject (by decide)
  · split
    · exact passes_exactNumber_null
    · exact passes_exactNumber rfl rfl (equal_int_iff.mpr rfl)

end Summary

end LlmLab.Benchmarks
