import LlmLab.Benchmarks.ServingCommon.NativeRecords
import LlmLab.Lib.Sweep

/-!
# The queue depth

The queue-depth sweep of `analyze_records` in `serving_common.py`.  Requests queue from their
arrival to their admission; the sweep walks over both kinds of events up to the end of the run and
adds up the depth over time.
-/

namespace LlmLab.Benchmarks

/-! ## The sweep -/

/-- The events of the queue up to the end of the window: one up for an arrival, one down for an
admission. -/
def queueDepthEvents (requests : List Record) (windowEnd : Int) : List LevelStep :=
  requests.flatMap fun record =>
    let arrival := record.int "arrival_time_us"
    (if arrival ≤ windowEnd then [(arrival, 1)] else []) ++
      match (record.get "admitted_time_us").int? with
      | some admitted => if admitted ≤ windowEnd then [(admitted, -1)] else []
      | none => []

/-- The variables of the loop. -/
structure QueueSweep where
  depth : Int
  maximumDepth : Int
  weightedDepth : Int
  previous : Int
deriving DecidableEq, Repr

/-- The loop body. -/
def QueueSweep.step (sweep : QueueSweep) (event : LevelStep) : QueueSweep :=
  { depth := sweep.depth + event.2
    maximumDepth := max sweep.maximumDepth (sweep.depth + event.2)
    weightedDepth := sweep.weightedDepth + sweep.depth * max 0 (event.1 - sweep.previous)
    previous := event.1 }

def QueueSweep.start (firstArrival : Int) : QueueSweep := ⟨0, 0, 0, firstArrival⟩

/-- The earliest arrival, zero without requests. -/
def firstArrival (requests : List Record) : Int :=
  ((requests.map fun record => record.int "arrival_time_us").min?).getD 0

/-- The loop over the sorted events. -/
def queueSweep (requests : List Record) (windowEnd : Int) : QueueSweep :=
  (sortBy stepOrder (queueDepthEvents requests windowEnd)).foldl QueueSweep.step
    (.start (firstArrival requests))

/-- What `analyze_records` reports of the queue. -/
structure QueueDepth where
  weightedDepth : Int
  /-- The quotient before Python rounds it to a float. -/
  averageQueueDepth : Option Rat
  maximumQueueDepth : Int
deriving DecidableEq, Repr

def queueDepth (requests : List Record) (windowEnd : Int) : QueueDepth :=
  let sweep := queueSweep requests windowEnd
  let weightedDepth := sweep.weightedDepth + sweep.depth * max 0 (windowEnd - sweep.previous)
  let queueDuration := windowEnd - firstArrival requests
  { weightedDepth
    averageQueueDepth :=
      if queueDuration ≤ 0 then none else some ((weightedDepth : Rat) / (queueDuration : Rat))
    maximumQueueDepth := sweep.maximumDepth }

/-- `analyze_records`, as far as the queue goes. -/
def analyzeRecords (divide : Int → Int → FloatNumeral) (config : Option NativeConfig)
    (workload : Option (List Record)) (records : List Json) :
    Except NativeError QueueDepth := do
  let (requests, _, summary) ← validateNativeRecords divide config workload records
  return queueDepth requests (summary.int "makespan_us")

/-! ## The integral -/

/-- A request is not admitted before it arrives. -/
def Record.Ordered (record : Record) : Prop :=
  ∀ admitted, (record.get "admitted_time_us").int? = some admitted →
    record.int "arrival_time_us" ≤ admitted

/-- How long a request waits inside the window, to its end when it is never admitted. -/
def waiting (windowEnd : Int) (record : Record) : Int :=
  min ((record.get "admitted_time_us").int?.getD windowEnd) windowEnd - record.int "arrival_time_us"

/-- The waiting time of all requests that arrive inside the window. -/
def totalWaiting (requests : List Record) (windowEnd : Int) : Int :=
  ((requests.filter fun record => record.int "arrival_time_us" ≤ windowEnd).map
    (waiting windowEnd)).sum

variable {requests : List Record} {windowEnd : Int}

theorem queueDepthEvents_cons (record : Record) :
    queueDepthEvents (record :: requests) windowEnd =
      queueDepthEvents [record] windowEnd ++ queueDepthEvents requests windowEnd := by
  simp [queueDepthEvents]

/-- The events of one request: none when it arrives after the window, else its arrival and, inside
the window, its admission. -/
inductive RequestEvents (windowEnd : Int) (record : Record) : List LevelStep → Prop
  | late : windowEnd < record.int "arrival_time_us" → RequestEvents windowEnd record []
  | queued : record.int "arrival_time_us" ≤ windowEnd →
      waiting windowEnd record = windowEnd - record.int "arrival_time_us" →
      RequestEvents windowEnd record [(record.int "arrival_time_us", 1)]
  | admitted (time : Int) : record.int "arrival_time_us" ≤ time → time ≤ windowEnd →
      waiting windowEnd record = time - record.int "arrival_time_us" →
      RequestEvents windowEnd record [(record.int "arrival_time_us", 1), (time, -1)]

/-- The sweep adds exactly these events for an ordered record. -/
theorem requestEvents {record : Record} (ordered : record.Ordered) :
    RequestEvents windowEnd record (queueDepthEvents [record] windowEnd) := by
  simp only [queueDepthEvents, List.flatMap_cons, List.flatMap_nil, List.append_nil]
  split
  · next inside =>
      cases found : (record.get "admitted_time_us").int? with
      | none => exact .queued inside (by simp [waiting, found])
      | some admitted =>
          have after := ordered admitted found
          by_cases early : admitted ≤ windowEnd
          · simp only [if_pos early, List.singleton_append]
            exact .admitted admitted after early (by simp [waiting, found, early])
          · simp only [if_neg early, List.append_nil]
            exact .queued inside (by simp [waiting, found, (not_le.mp early).le])
  · next outside =>
      cases found : (record.get "admitted_time_us").int? with
      | none => exact .late (not_le.mp outside)
      | some admitted =>
          have after := ordered admitted found
          have never : ¬ admitted ≤ windowEnd := by omega
          simp only [if_neg never, List.append_nil]
          exact .late (not_le.mp outside)

namespace RequestEvents

variable {record : Record} {events : List LevelStep}

theorem mem (shape : RequestEvents windowEnd record events) {event : LevelStep}
    (member : event ∈ events) :
    record.int "arrival_time_us" ≤ event.1 ∧ event.1 ≤ windowEnd ∧
      (event.2 = 1 ∨ event.2 = -1) := by
  cases shape with
  | late => cases member
  | queued inside =>
      obtain rfl := List.mem_singleton.mp member
      exact ⟨le_rfl, inside, Or.inl rfl⟩
  | admitted time after inside =>
      rcases List.mem_pair.mp member with rfl | rfl
      · exact ⟨le_rfl, after.trans inside, Or.inl rfl⟩
      · exact ⟨after, inside, Or.inr rfl⟩

theorem area_eq (shape : RequestEvents windowEnd record events) :
    area windowEnd events =
      if record.int "arrival_time_us" ≤ windowEnd then waiting windowEnd record else 0 := by
  cases shape with
  | late outside => rw [if_neg (not_le.mpr outside), area_nil]
  | queued inside waits =>
      rw [if_pos inside, waits]
      simp [area]
  | admitted time after inside waits =>
      rw [if_pos (after.trans inside), waits]
      simp [area]

/-- The admission of a request comes no earlier than its arrival. -/
theorem balanced (shape : RequestEvents windowEnd record events) (time : Int) :
    countSteps (-1) time events ≤ countSteps 1 time events := by
  cases shape with
  | late => exact le_rfl
  | queued => simp [countSteps]
  | admitted admitted after =>
      by_cases early : admitted ≤ time
      · simp [countSteps, early, after.trans early]
      · simp [countSteps, early]

end RequestEvents

/-- Events of ordered requests lie between the first arrival and the end of the window. -/
theorem mem_queueDepthEvents (ordered : ∀ record ∈ requests, record.Ordered) {event : LevelStep}
    (member : event ∈ queueDepthEvents requests windowEnd) :
    firstArrival requests ≤ event.1 ∧ event.1 ≤ windowEnd ∧ (event.2 = 1 ∨ event.2 = -1) := by
  obtain ⟨record, listed, inside⟩ := List.mem_flatMap.mp member
  have single : event ∈ queueDepthEvents [record] windowEnd :=
    List.mem_flatMap.mpr ⟨record, List.mem_singleton_self record, inside⟩
  obtain ⟨after, before, unit⟩ := (requestEvents (ordered record listed)).mem single
  refine ⟨le_trans ?_ after, before, unit⟩
  have arrives := List.mem_map_of_mem (f := fun record : Record => record.int "arrival_time_us")
    listed
  rw [firstArrival]
  cases first : (requests.map fun record => record.int "arrival_time_us").min? with
  | none =>
      rw [List.min?_eq_none_iff.mp first] at arrives
      cases arrives
  | some least => exact (List.min?_eq_some_iff.mp first).2 _ arrives

theorem balanced_queueDepthEvents (ordered : ∀ record ∈ requests, record.Ordered) (time : Int) :
    countSteps (-1) time (queueDepthEvents requests windowEnd) ≤
      countSteps 1 time (queueDepthEvents requests windowEnd) := by
  induction requests with
  | nil => exact le_rfl
  | cons record requests ih =>
      have shape : RequestEvents windowEnd record (queueDepthEvents [record] windowEnd) :=
        requestEvents (ordered record List.mem_cons_self)
      have here := shape.balanced time
      have later := ih fun other member => ordered other (List.mem_cons_of_mem record member)
      rw [queueDepthEvents_cons]
      simp only [countSteps, List.countP_append] at here later ⊢
      omega

theorem area_queueDepthEvents (ordered : ∀ record ∈ requests, record.Ordered) :
    area windowEnd (queueDepthEvents requests windowEnd) = totalWaiting requests windowEnd := by
  induction requests with
  | nil => rfl
  | cons record requests ih =>
      have later := ih fun other member => ordered other (List.mem_cons_of_mem record member)
      rw [queueDepthEvents_cons, area_append, later,
        (requestEvents (ordered record List.mem_cons_self)).area_eq]
      simp only [totalWaiting, List.filter_cons, decide_eq_true_eq]
      split
      · rw [List.map_cons, List.sum_cons]
      · rw [zero_add]

/-! ## The loop -/

/-- After the events taken so far the depth is their level and the weighted depth their area. -/
structure QueueSweep.Follows (sweep : QueueSweep) (first : Int) (taken : List LevelStep) :
    Prop where
  depth : sweep.depth = level taken
  weightedDepth : sweep.weightedDepth = area sweep.previous taken
  reached : ∀ bound, first ≤ bound → (∀ event ∈ taken, event.1 ≤ bound) → sweep.previous ≤ bound

theorem QueueSweep.Follows.step {sweep : QueueSweep} {first : Int} {taken : List LevelStep}
    {event : LevelStep} (follows : sweep.Follows first taken) (start : first ≤ event.1)
    (before : ∀ earlier ∈ taken, earlier.1 ≤ event.1) :
    (sweep.step event).Follows first (taken ++ [event]) := by
  have ahead := follows.reached event.1 start before
  have now : (sweep.step event).previous = event.1 := rfl
  exact {
    depth := by
      rw [level_concat, ← follows.depth]
      rfl
    weightedDepth := by
      change sweep.weightedDepth + sweep.depth * max 0 (event.1 - sweep.previous) = _
      rw [max_eq_right (by omega), follows.weightedDepth, follows.depth, area_concat, now,
        sub_self, mul_zero, add_zero, area_later sweep.previous event.1]
    reached := fun bound _ inside => inside event (List.mem_append_right _ List.mem_cons_self) }

theorem foldl_step_follows {first : Int} {taken : List LevelStep}
    (sorted : taken.Pairwise fun a b => stepOrder a ≤ stepOrder b)
    (start : ∀ event ∈ taken, first ≤ event.1) :
    (taken.foldl QueueSweep.step (.start first)).Follows first taken := by
  induction taken using List.reverseRecOn with
  | nil => exact ⟨rfl, rfl, fun bound low _ => low⟩
  | append_singleton taken event ih =>
      rw [List.foldl_concat]
      obtain ⟨front, -, before⟩ := List.pairwise_append.mp sorted
      refine (ih front fun other member => start other (List.mem_append_left _ member)).step
        (start event (List.mem_append_right _ List.mem_cons_self)) fun earlier member => ?_
      rcases stepOrder_le_iff.mp (before earlier member event List.mem_cons_self) with less | same
      · exact less.le
      · exact same.1.le

/-- The sweep over the first events has followed them. -/
theorem queueSweep_take_follows (ordered : ∀ record ∈ requests, record.Ordered) (count : Nat) :
    (((sortBy stepOrder (queueDepthEvents requests windowEnd)).take count).foldl QueueSweep.step
      (.start (firstArrival requests))).Follows (firstArrival requests)
        ((sortBy stepOrder (queueDepthEvents requests windowEnd)).take count) :=
  foldl_step_follows ((sortBy_sorted stepOrder _).sublist (List.take_sublist count _))
    fun _ member => (mem_queueDepthEvents ordered
      (mem_sortBy.mp (List.mem_of_mem_take member))).1

/-- The depth never goes below zero. -/
theorem depth_nonneg (ordered : ∀ record ∈ requests, record.Ordered) (count : Nat) :
    0 ≤ (((sortBy stepOrder (queueDepthEvents requests windowEnd)).take count).foldl
      QueueSweep.step (.start (firstArrival requests))).depth := by
  rw [(queueSweep_take_follows ordered count).depth]
  exact level_take_nonneg (fun event member => (mem_queueDepthEvents ordered member).2.2)
    (balanced_queueDepthEvents ordered) count

/-- The weighted depth is the total waiting time inside the window. -/
theorem weightedDepth_eq (ordered : ∀ record ∈ requests, record.Ordered) :
    (queueDepth requests windowEnd).weightedDepth = totalWaiting requests windowEnd := by
  have follows := @queueSweep_take_follows requests windowEnd ordered
    (sortBy stepOrder (queueDepthEvents requests windowEnd)).length
  rw [List.take_length] at follows
  change (queueSweep requests windowEnd).Follows _ _ at follows
  have perm := sortBy_perm stepOrder (queueDepthEvents requests windowEnd)
  have depth := follows.depth.trans (level_perm perm)
  have weighted := follows.weightedDepth.trans (area_perm _ perm)
  change (queueSweep requests windowEnd).weightedDepth +
    (queueSweep requests windowEnd).depth *
      max 0 (windowEnd - (queueSweep requests windowEnd).previous) = _
  rw [weighted, depth, ← area_queueDepthEvents ordered,
    area_later (queueSweep requests windowEnd).previous windowEnd]
  cases events : queueDepthEvents requests windowEnd with
  | nil => simp
  | cons event rest =>
      -- With an event inside the window the sweep ends inside it.
      have inside : ∀ other ∈ queueDepthEvents requests windowEnd,
          firstArrival requests ≤ other.1 ∧ other.1 ≤ windowEnd := fun other member =>
        ⟨(mem_queueDepthEvents ordered member).1, (mem_queueDepthEvents ordered member).2.1⟩
      have first := inside event (by rw [events]; exact List.mem_cons_self)
      have last := follows.reached windowEnd (first.1.trans first.2) fun other member =>
        (inside other (mem_sortBy.mp member)).2
      rw [max_eq_right (by omega)]

/-! ## Accepted streams -/

theorem reject_eq_ok {context message : String} {condition : Prop} [Decidable condition]
    {done : Unit} : reject context condition message = .ok done ↔ ¬ condition :=
  throwIf_eq_ok

theorem fieldInt_eq_ok {record : Record} {name context : String} {value : Int}
    (result : fieldInt record name context = .ok value) : value = record.int name := by
  unfold fieldInt at result
  rw [Record.int]
  split at result
  · cases result
  · next number found =>
      obtain ⟨_, -, result⟩ := except_bind_eq_ok.mp result
      rw [found]
      exact (Except.ok.inj result).symm

theorem nullableInt_eq_ok {record : Record} {name context : String} {value : Option Int}
    (result : nullableInt record name context = .ok value) :
    value = (record.get name).int? := by
  unfold nullableInt at result
  split at result
  · next null =>
      cases found : record.get name with
      | null => exact (Except.ok.inj result).symm
      | _ => rw [found] at null; cases null
  · split at result
    · cases result
    · next number found =>
        obtain ⟨_, -, result⟩ := except_bind_eq_ok.mp result
        rw [found]
        exact (Except.ok.inj result).symm

theorem checkLifecycle_ordered {record : Record} {context : String} {done : Unit}
    (result : checkLifecycle record context = .ok done) : record.Ordered := by
  simp only [checkLifecycle, except_bind_eq_ok, reject_eq_ok] at result
  obtain ⟨arrival, arrival_eq, _, -, _, -, _, -, _, -, _, -, admitted, admitted_eq, _, -, _, -,
    -, -, -, -, -, -, -, -, -, -, -, precedes, -⟩ := result
  intro time found
  rw [fieldInt_eq_ok arrival_eq, nullableInt_eq_ok admitted_eq, found] at precedes
  simpa using precedes

theorem validateRequestRecord_ordered {divide : Int → Int → FloatNumeral}
    {seen next : List Text × List Int} {item : Nat × Record}
    (result : validateRequestRecord divide seen item = .ok next) : item.2.Ordered := by
  simp only [validateRequestRecord, except_bind_eq_ok] at result
  obtain ⟨_, -, _, -, _, lifecycle, -⟩ := result
  exact checkLifecycle_ordered lifecycle

/-- No request of an accepted stream is admitted before it arrives. -/
theorem validateNativeRecords_ordered {divide : Int → Int → FloatNumeral}
    {config : Option NativeConfig} {workload : Option (List Record)} {records : List Json}
    {requests iterations : List Record} {summary : Record}
    (accepted : validateNativeRecords divide config workload records =
      .ok (requests, iterations, summary)) : ∀ record ∈ requests, record.Ordered := by
  unfold validateNativeRecords at accepted
  obtain ⟨indexed, -, accepted⟩ := except_bind_eq_ok.mp accepted
  split at accepted
  · simp only [except_bind_eq_ok] at accepted
    obtain ⟨_, -, seen, checked, _, -, _, -, _, -, _, -, _, -, returned⟩ := accepted
    obtain ⟨rfl, -⟩ := Prod.mk.inj (Except.ok.inj returned)
    intro record member
    obtain ⟨item, listed, rfl⟩ := List.mem_map.mp member
    obtain ⟨before, after, result⟩ := foldlM_each checked item listed
    exact validateRequestRecord_ordered result
  · cases accepted

/-- On every accepted stream the depth is never negative on the way through the events, the
weighted depth is the total waiting time inside the window, and the average depth times the length
of the window is that total. -/
theorem analyzeRecords_queueDepth {divide : Int → Int → FloatNumeral}
    {config : Option NativeConfig} {workload : Option (List Record)} {records : List Json}
    {requests iterations : List Record} {summary : Record}
    (accepted : validateNativeRecords divide config workload records =
      .ok (requests, iterations, summary)) :
    ∃ depth, analyzeRecords divide config workload records = .ok depth ∧
      (∀ count, 0 ≤ (((sortBy stepOrder (queueDepthEvents requests
        (summary.int "makespan_us"))).take count).foldl QueueSweep.step
          (.start (firstArrival requests))).depth) ∧
      depth.weightedDepth = totalWaiting requests (summary.int "makespan_us") ∧
      (firstArrival requests < summary.int "makespan_us" →
        ∃ average, depth.averageQueueDepth = some average ∧
          average * ((summary.int "makespan_us" - firstArrival requests : Int) : Rat) =
            (totalWaiting requests (summary.int "makespan_us") : Rat)) := by
  have ordered := validateNativeRecords_ordered accepted
  refine ⟨queueDepth requests (summary.int "makespan_us"), ?_, depth_nonneg ordered,
    weightedDepth_eq ordered, fun window => ?_⟩
  · rw [analyzeRecords, accepted]
    rfl
  · have duration : ((summary.int "makespan_us" - firstArrival requests : Int) : Rat) ≠ 0 := by
      exact_mod_cast (by omega : summary.int "makespan_us" - firstArrival requests ≠ 0)
    refine ⟨_, if_neg (by omega), ?_⟩
    rw [div_mul_cancel₀ _ duration]
    exact congrArg _ (weightedDepth_eq ordered)

/-- A request of one token, served from its admission to its finish or never admitted. -/
def queuedRequest (number : Nat) (arrival : Int) (served : Option (Int × Int)) : Json :=
  let metric := fun since : Int × Int → Int =>
    optional (served.map fun times => since times - arrival)
  let once := fun amount : Json => if served.isSome then amount else .int 0
  .obj ([("record_type", .str (text "request")), ("schema_version", .str (text simulatorSchemaVersion)),
    ("evidence_type", .str (text "SIMULATED")), ("internal_id", .int number),
    ("request_id", .str (text ("chat-" ++ toString number))),
    ("workload_class", .str (text "chat")), ("prefix_group", .null), ("deadline_us", .null),
    ("metadata", .obj []), ("prompt_tokens", .null), ("arrival_time_us", .int arrival),
    ("admitted_time_us", optional (served.map Prod.fst)),
    ("first_token_time_us", optional (served.map Prod.snd)),
    ("finish_time_us", optional (served.map Prod.snd)), ("queue_delay_us", metric Prod.fst),
    ("ttft_us", metric Prod.snd), ("end_to_end_latency_us", metric Prod.snd), ("tpot_us", .null),
    ("prompt_tokens_original", .int 1), ("prompt_tokens_matched", .int 0),
    ("prompt_tokens_scheduled", once (.int 1)), ("generated_tokens", once (.int 1)),
    ("max_new_tokens", .int 1),
    ("final_state", .str (text (if served.isSome then "Finished" else "Waiting"))),
    ("reason", .null), ("decode_token_times_us", .arr (served.toList.map fun times => .int times.2)),
    ("inter_token_latencies_us", .arr [])].map fun member => (text member.1, member.2))

/-- The summary of a run that has served two of three such requests. -/
def queuedSummary : Json :=
  .obj ([("record_type", .str (text "summary")), ("schema_version", .str (text simulatorSchemaVersion)),
    ("evidence_type", .str (text "SIMULATED")), ("execution_mode", .str (text "single_active_fcfs")),
    ("scheduling_policy", .null), ("run_status", .str (text "stalled")), ("submitted", .int 3),
    ("completed", .int 2), ("cancelled", .int 0), ("rejected", .int 0), ("stalled", .int 1),
    ("makespan_us", .int 7), ("scheduling_iterations", .null), ("nonempty_batches", .null),
    ("idle_iterations", .null), ("total_scheduled_sequences", .null), ("average_batch_size", .int 1),
    ("max_batch_size", .int 1), ("max_scheduled_tokens", .null), ("deferred_requests", .int 0),
    ("current_allocated_blocks", .null), ("current_free_blocks", .null),
    ("peak_allocated_blocks", .null), ("kv_current_utilization", .null),
    ("kv_peak_utilization", .null), ("represented_kv_tokens", .null),
    ("internal_fragmentation_tokens", .null), ("cached_blocks", .null),
    ("shared_referenced_blocks", .null), ("kv_allocation_failures", .int 0),
    ("kv_capacity_deferrals", .int 0), ("prefix_lookups", .int 0), ("prefix_lookup_hits", .int 0),
    ("prefix_lookup_misses", .int 0), ("matched_prefix_blocks", .int 0),
    ("cache_eligible_prompt_tokens", .int 0), ("collision_verifications", .int 0),
    ("matched_prefix_tokens", .int 0), ("prefix_token_hit_rate", .null),
    ("saved_simulated_prefill_tokens", .int 0), ("eviction_count", .int 0),
    ("submitted_prompt_tokens", .int 3), ("scheduled_prefill_tokens", .int 2),
    ("generated_tokens", .int 2), ("scheduled_decode_tokens", .int 2)].map
      fun member => (text member.1, member.2))

/-- At 2 the first request is admitted and the other two arrive; the third one waits to the end. -/
def queuedStream : List Json :=
  [queuedRequest 1 0 (some (2, 5)), queuedRequest 2 2 (some (5, 7)), queuedRequest 3 2 none,
    queuedSummary]

/-- A division that this stream does not ask for. -/
def unusedDivide (_ _ : Int) : FloatNumeral := ⟨"0.0", some 0, Json.printable_of_all rfl⟩

/-- Three requests, one of them never admitted: a weighted depth of 10 over 7 microseconds. -/
theorem analyzeRecords_queueDepth_sample :
    ∃ depth, analyzeRecords unusedDivide none none queuedStream = .ok depth ∧
      depth.weightedDepth = 10 ∧
      ∃ average, depth.averageQueueDepth = some average ∧ average * 7 = 10 := by
  -- The stream is accepted, and its requests wait for 2, 3 and 5 in a window of 7.
  have fine : (validateNativeRecords unusedDivide none none queuedStream).toOption.any
      (fun result => totalWaiting result.1 (result.2.2.int "makespan_us") = 10 &&
        firstArrival result.1 = 0 && result.2.2.int "makespan_us" = 7) = true := by
    decide +kernel
  cases accepted : validateNativeRecords unusedDivide none none queuedStream with
  | error error =>
      rw [accepted] at fine
      cases fine
  | ok result =>
      obtain ⟨requests, iterations, summary⟩ := result
      rw [accepted] at fine
      simp only [Except.toOption, Option.any_some, Bool.and_eq_true, decide_eq_true_eq] at fine
      obtain ⟨⟨waiting, first⟩, makespan⟩ := fine
      obtain ⟨depth, result, -, weighted, averaged⟩ := analyzeRecords_queueDepth accepted
      rw [waiting, first, makespan] at averaged
      exact ⟨depth, result, weighted.trans waiting, averaged (by decide)⟩

end LlmLab.Benchmarks
