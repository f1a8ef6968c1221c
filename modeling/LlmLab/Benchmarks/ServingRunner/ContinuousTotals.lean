import LlmLab.Benchmarks.ServingRunner.IterationRecords

/-!
# The totals of a continuous run

The statistics of the engine at the end of a run are the sums over the records that are written of
its requests and of its iterations.
-/

namespace LlmLab.Benchmarks

open LlmLab.Serving

open ContinuousBatchingEngine (Accounted EntrySound)

variable {divide : Int → Int → FloatNumeral} {batching : ContinuousBatchingConfig}
  {workload native : List Record} {result : RunResult} {engine : ContinuousBatchingEngine}
  {deliveries : List (Delivery divide)}

namespace Ran

theorem accounted (ran : Ran divide batching workload native result engine deliveries) :
    ∃ requests, engine.Accounted requests :=
  let ⟨_, requests, reports⟩ := ran.ends
  ⟨requests, reports.accounted⟩

theorem numbers_nodup (ran : Ran divide batching workload native result engine deliveries) :
    (deliveries.map Delivery.number).Nodup := by
  rw [ran.covers.numbers]
  exact List.nodup_range' _

/-! ## Requests -/

/-- A sum over the requests of the engine is one over the deliveries. -/
theorem total_eq (ran : Ran divide batching workload native result engine deliveries)
    (weight : Request → Nat) : engine.requests.total weight =
      (deliveries.map fun delivery => weight delivery.entry.request).sum := by
  refine OrdMap.total_eq_sum ran.numbers_nodup fun id request => ⟨fun found => ?_, ?_⟩
  · obtain ⟨delivery, member, number, same⟩ := ran.all id request found
    exact ⟨delivery, member, number, same.symm⟩
  · rintro ⟨delivery, member, rfl, rfl⟩
    exact (ran.traced delivery member).found

theorem requestsIn_eq (ran : Ran divide batching workload native result engine deliveries)
    (state : RequestState) : engine.requestsIn state =
      deliveries.countP fun delivery => delivery.entry.request.state = state :=
  (ran.total_eq _).trans (sum_map_ite ..)

/-- The tokens that were generated fit their counter. -/
theorem generated_eq (ran : Ran divide batching workload native result engine deliveries) :
    (deliveries.map fun delivery => delivery.entry.request.generatedTokenCount).sum =
        engine.statistics.totalDecodeTokensScheduled ∧
      engine.statistics.totalDecodeTokensScheduled ≤ uint64Max := by
  obtain ⟨requests, accounted⟩ := ran.accounted
  exact ⟨(accounted.conserved.generated.trans (ran.total_eq _)).symm,
    accounted.carries.bounded.decodes⟩

/-- The state of a run is that of its requests. -/
theorem settled (ran : Ran divide batching workload native result engine deliveries) :
    (deliveries.countP fun delivery => delivery.entry.request.state = .cancelled) = 0 ∧
      (result = .completed → engine.statistics.stalledIterationCount = 0 ∧
        (deliveries.countP fun delivery => delivery.entry.request.state = .finished) =
          deliveries.length) ∧
      (result = .stalled → 0 < engine.statistics.stalledIterationCount ∧
        (deliveries.countP fun delivery => delivery.entry.request.state = .finished) <
          deliveries.length) := by
  obtain ⟨_, requests, reports⟩ := ran.ends
  have accounted := reports.accounted
  have uncancelled : ∀ delivery ∈ deliveries, delivery.entry.request.state ≠ .cancelled :=
    fun delivery member => accounted.settled (ran.traced delivery member).found
  refine ⟨?_, fun completed => ?_, fun stalled => ?_⟩
  · rw [List.countP_eq_zero]
    exact fun delivery member same => uncancelled delivery member (of_decide_eq_true same)
  · obtain ⟨none, all⟩ := reports.completed completed
    refine ⟨none, List.countP_eq_length.mpr fun delivery member => decide_eq_true ?_⟩
    exact (all _ _ (ran.traced delivery member).found).resolve_right (uncancelled delivery member)
  · obtain ⟨some', id, request, found, open', -⟩ := reports.stalled stalled
    obtain ⟨delivery, member, -, rfl⟩ := ran.all id request found
    refine ⟨some', lt_of_le_of_ne List.countP_le_length fun whole => open' ?_⟩
    exact of_decide_eq_true (List.countP_eq_length.mp whole delivery member)

/-! ## Prefills -/

/-- A sum over the prefills of the trace is one over those of the deliveries. -/
theorem sum_prefills (ran : Ran divide batching workload native result engine deliveries)
    (weight : PrefillWork → Nat) : (engine.prefills.map weight).sum =
      (deliveries.map fun delivery =>
        ((Runner.prefillsOf engine.planTrace delivery.number).map weight).sum).sum := by
  obtain ⟨requests, accounted⟩ := ran.accounted
  have inside : ∀ work ∈ engine.prefills, work.requestId ∈ deliveries.map Delivery.number :=
    fun work member => by
      obtain ⟨entry, among, listed⟩ := List.mem_flatMap.mp member
      obtain ⟨request, found, -⟩ := accounted.recorded.charged entry among work listed
      obtain ⟨delivery, present, number, -⟩ := ran.all _ request found
      exact number ▸ List.mem_map_of_mem present
  rw [← sum_map_filter_key ran.numbers_nodup inside weight, List.map_map]
  rfl

/-- The matched and the scheduled prompt tokens are those of the deliveries. -/
theorem prompts_eq (ran : Ran divide batching workload native result engine deliveries) :
    (deliveries.map fun delivery => delivery.entry.matched).sum =
        engine.statistics.totalMatchedPrefixTokens ∧
      (deliveries.map fun delivery => delivery.entry.scheduled).sum =
        engine.statistics.totalPrefillTokensScheduled := by
  obtain ⟨requests, accounted⟩ := ran.accounted
  have conserved := accounted.conserved
  have matched : engine.statistics.totalMatchedPrefixTokens =
      (engine.prefills.map (·.matchedPrefixTokenCount)).sum := by
    rw [conserved.saved, ← accounted.balanced.copied]
    exact accounted.balanced.saved.trans (sum_map_flatMap ..).symm
  have scheduled : engine.statistics.totalPrefillTokensScheduled =
      (engine.prefills.map (·.promptTokenCount)).sum := by
    rw [conserved.prefills]
    refine (congrArg List.sum (List.map_congr_left fun entry member => ?_)).trans
      (sum_map_flatMap ..).symm
    exact (accounted.recorded.shown.entries entry member).prefillTokens
  rw [matched, scheduled, ran.sum_prefills, ran.sum_prefills]
  exact ⟨congrArg List.sum (List.map_congr_left fun delivery member =>
      (ran.traced delivery member).matched),
    congrArg List.sum (List.map_congr_left fun delivery member =>
      (ran.traced delivery member).scheduled)⟩

/-! ## The clock -/

/-- Every request finishes with an iteration. -/
theorem finish_le (ran : Ran divide batching workload native result engine deliveries)
    {delivery : Delivery divide} (member : delivery ∈ deliveries) {finishUs : Int}
    (finish : delivery.entry.request.finishTimeUs = some finishUs) : finishUs ≤ engine.nowUs := by
  obtain ⟨requests, accounted⟩ := ran.accounted
  obtain ⟨finished, -⟩ := delivery.sound.reported.finish finish
  obtain ⟨-, last, same, listed⟩ :=
    accounted.ending (ran.traced delivery member).found finished
  obtain rfl := Option.some.inj (finish.symm.trans same)
  refine accounted.sorted.2 last ?_
  split_ifs at listed
  · have among : last ∈ prefillEntries engine.planTrace delivery.number := by
      rw [listed]
      exact List.mem_singleton_self last
    exact (List.mem_filter.mp among).1
  · exact (List.mem_filter.mp (List.mem_of_getLast? listed)).1

/-- The clock stands at the end of the last iteration. -/
theorem latestTime_eq (ran : Ran divide batching workload native result engine deliveries) :
    latestTime (deliveries.map Delivery.shown) (iterationsOf divide engine) = engine.nowUs := by
  obtain ⟨requests, accounted⟩ := ran.accounted
  have ends : (iterationsOf divide engine).map (fun record => record.int "end_time_us") =
      engine.planTrace.map (·.endTimestampUs) := by
    rw [List.map_map]
    exact List.map_congr_left fun entry _ => int_eq showsIteration.finish
  rw [latestTime, finishes_shown, ends]
  refine foldl_max_eq (fun time member => ?_) accounted.recorded.shown.nonneg ?_
  · rcases List.mem_append.mp member with finish | end'
    · obtain ⟨delivery, inside, finish⟩ := List.mem_filterMap.mp finish
      exact ran.finish_le inside finish
    · obtain ⟨entry, inside, rfl⟩ := List.mem_map.mp end'
      exact accounted.sorted.2 entry inside
  · rw [accounted.timeline.now, boundary]
    cases last : engine.planTrace.getLast? with
    | none => exact Or.inl rfl
    | some entry =>
        exact Or.inr (List.mem_append_right _ (List.mem_map_of_mem (List.mem_of_getLast? last)))

end Ran

end LlmLab.Benchmarks
