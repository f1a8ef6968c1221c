import LlmLab.Benchmarks.ServingRunner.FcfsSummary
import LlmLab.Benchmarks.ServingRunner.Output

/-!
# The stream of a single-active run

`run` takes what `run_fcfs` writes for a transported workload: it completes the request records,
and `validate_native_records` accepts them with their summary.
-/

namespace LlmLab.Benchmarks

open LlmLab.Serving

/-! ## The stream -/

section Stream

variable {quotient divide : Int → Int → FloatNumeral} {deliveries : List (Delivery quotient)}
  {workload : List Record} {nowUs : Int} {record summary : Record} {kind : String}

theorem isOf_fcfsSummary {promptTokens generatedTokens submitted : Nat} :
    IsOf "summary" (Runner.fcfsSummary nowUs promptTokens generatedTokens submitted) := by
  constructor <;>
    simp [Runner.fcfsSummary, Runner.get_named, List.lookup_cons, Runner.string]

/-- The completed records of all deliveries and their summary pass every check. -/
theorem passes_fcfsRecords
    (alike : ∀ delivery ∈ deliveries, DividesAlike quotient divide delivery.entry.request)
    (covers : Covers deliveries workload)
    (distinct : (workload.map fun source => source.str "request_id").Nodup)
    (ends : EndsAt deliveries nowUs) (served : ∀ delivery ∈ deliveries, delivery.Served)
    (isOf : IsOf "summary" summary)
    (shows : ShowsSummary nowUs (deliveries.map fun delivery =>
      delivery.entry.request.promptLength).sum (deliveries.map fun delivery =>
      delivery.entry.request.generatedTokenCount).sum deliveries.length summary)
    {config : NativeConfig} (mode : config.executionMode = text "single_active_fcfs") :
    Passes (· = (deliveries.map Delivery.shown, [], summary))
      (validateNativeRecords divide (some config) (some workload)
        ((deliveries.map Delivery.shown ++ [summary]).map .obj)) :=
  passes_validateNativeRecords alike covers distinct isOf (List.forall_mem_nil _) trivial
    (fun _ => passes_checkSummaryFields shows mode)
    (fun _ => passes_checkRequestTotals ends served shows)
    fun _ => passes_checkSummaryMode shows

/-- `run` completes the lines and validates them. -/
theorem receiveRecords_lines {loads : Text → Except String Json} {contents : Bytes}
    {config : NativeConfig} {result : List Record × List Record × Record}
    (covers : Covers deliveries workload)
    (distinct : (workload.map fun source => source.str "request_id").Nodup)
    (isOf : IsOf "summary" summary)
    (read : readJsonl loads contents = .ok (deliveries.map Delivery.record ++ [summary]))
    (accepted : validateNativeRecords divide (some config) (some workload)
      ((deliveries.map Delivery.shown ++ [summary]).map .obj) = .ok result) :
    receiveRecords loads divide config workload contents = .ok result := by
  have terminal : ¬ ((deliveries.map Delivery.record ++ [summary]).getLast?.any
      fun last => oneOf (last.get "record_type") ["summary"]) = false := by
    rw [List.getLast?_concat, Option.any_some, isOf.type, Bool.not_eq_false, oneOf_text]
    exact List.mem_singleton_self _
  have completed := mapM_decorate covers distinct (List.forall_mem_nil _) isOf
  rw [List.nil_append, List.nil_append] at completed
  unfold receiveRecords
  rw [read, except_ok_bind, throwIf_of_not terminal, except_ok_bind, completed, except_ok_bind]
  exact accepted

/-- As many records are read as are received. -/
theorem length_of_receiveRecords {loads : Text → Except String Json} {contents : Bytes}
    {config : NativeConfig} {requests iterations : List Record}
    (received : receiveRecords loads divide config workload contents =
      .ok (requests, iterations, summary)) :
    ∃ read, readJsonl loads contents = .ok read ∧
      read.length = requests.length + iterations.length + 1 := by
  obtain ⟨read, found, received⟩ := except_bind_eq_ok.mp received
  obtain ⟨_, -, received⟩ := except_bind_eq_ok.mp received
  obtain ⟨records, completed, accepted⟩ := except_bind_eq_ok.mp received
  refine ⟨read, found, ?_⟩
  rw [(forall₂_of_mapM completed).length_eq, ← validateNativeRecords_length accepted,
    List.length_map]

/-! ## The strings of the stream -/

theorem Delivery.encodable_record (delivery : Delivery quotient) :
    (Json.obj delivery.record).EachString Encodable := by
  obtain ⟨input, -, -, written⟩ := delivery.written
  rw [written, eachString_writeRequest fun _ => encodable_of_ascii]
  exact ⟨encodable_inputString, encodable_inputString⟩

/-- The line of a request is whole when its id is. -/
theorem Delivery.oneLine_record (delivery : Delivery quotient) :
    delivery.record.OneLine ↔ Unbroken (delivery.entry.source.str "request_id") := by
  obtain ⟨input, named, classed, written⟩ := delivery.written
  obtain ⟨id, found, -⟩ := delivery.sound.accepted.requestId
  obtain ⟨name, known, listed⟩ := delivery.sound.accepted.workloadClass
  rw [oneLine_iff_eachString, written, eachString_writeRequest fun _ => unbroken_of_ascii, named,
    classed, str?_eq_some_iff.mp found, str?_eq_some_iff.mp listed, Json.eachString_str,
    Json.eachString_str, Record.str, found]
  exact and_iff_left (unbroken_of_ascii (ascii_workloadClass known))

theorem encodable_lines {promptTokens generatedTokens submitted : Nat} :
    ∀ record ∈ deliveries.map Delivery.record ++
      [Runner.fcfsSummary nowUs promptTokens generatedTokens submitted],
      (Json.obj record).EachString Encodable := by
  rw [List.forall_mem_append, List.forall_mem_map, List.forall_mem_singleton]
  exact ⟨fun delivery _ => delivery.encodable_record,
    eachString_fcfsSummary fun _ => encodable_of_ascii⟩

/-- The lines of a run are whole when the ids of its workload are. -/
theorem Covers.oneLine_iff (covers : Covers deliveries workload)
    {promptTokens generatedTokens submitted : Nat} :
    (∀ record ∈ deliveries.map Delivery.record ++
      [Runner.fcfsSummary nowUs promptTokens generatedTokens submitted], record.OneLine) ↔
      ∀ source ∈ workload, Unbroken (source.str "request_id") := by
  have summary := oneLine_iff_eachString.mpr (@eachString_fcfsSummary Unbroken
    (fun _ => unbroken_of_ascii) nowUs promptTokens generatedTokens submitted)
  rw [List.forall_mem_append, List.forall_mem_map, List.forall_mem_singleton,
    and_iff_left summary]
  simp only [Delivery.oneLine_record]
  constructor
  · intro each source member
    rw [← @mem_sortBy _ _ _ requestOrder, covers.sources] at member
    obtain ⟨delivery, inside, rfl⟩ := List.mem_map.mp member
    exact each delivery inside
  · exact fun each delivery inside => each _ (covers.source_mem inside)

/-- Quotients of integers that a double holds are the same for the runner and for Python. -/
def AlikeOnDoubles (quotient divide : Int → Int → FloatNumeral) : Prop :=
  ∀ count total, 0 ≤ count → count ≤ 2 ^ 53 → 0 < total → total ≤ 2 ^ 53 →
    ∃ value, (quotient count total).value = some value ∧ (divide count total).value = some value

/-- What `run_fcfs` writes for a transported workload, when a double holds its times and its token
counts, is received if and only if no request id contains one of the three line boundaries that
`json_escape` leaves as they are: the records of the requests, in the order of the workload, and
their summary pass every check. -/
theorem receiveRecords_runFcfs {loads : Text → Except String Json} {format : NumeralFormat}
    (alike : AlikeOnDoubles quotient divide)
    {backend : SimulatedBackend} {inputs : List Runner.InputRequest} {native : List Record}
    (carried : Carried workload inputs)
    (prompts : (workload.map fun source => source.int "prompt_token_count").sum ≤ uint64Max)
    (outputs : (workload.map fun source => source.int "max_new_tokens").sum ≤ 2 ^ 53)
    (clock : (Runner.fcfsEngine backend inputs).nowUs ≤ 2 ^ 53)
    {config : NativeConfig} (mode : config.executionMode = text "single_active_fcfs")
    (ran : Runner.runFcfs quotient backend inputs = .ok native)
    (inverts : InvertsPrinted loads format native) :
    (∃ requests summary,
      receiveRecords loads divide config workload (Runner.output format native) =
        .ok (requests, [], summary) ∧
      requests.map (fun record => record.str "request_id") =
        (sortBy requestOrder workload).map fun source => source.str "request_id") ↔
    ∀ source ∈ workload, Unbroken (source.str "request_id") := by
  obtain ⟨deliveries, covers, served, rfl, bound, reached⟩ := runFcfs_deliveries carried ran
  have ends : EndsAt deliveries (Runner.fcfsEngine backend inputs).nowUs := ⟨bound, reached⟩
  -- The counters of the runner do not wrap around.
  have promptsFit : (deliveries.map fun delivery =>
      delivery.entry.request.promptLength).sum ≤ uint64Max := by
    have same := covers.sum_eq fun delivery => delivery.sound.counts
    omega
  have few : (deliveries.map fun delivery =>
      delivery.entry.request.generatedTokenCount).sum ≤ 2 ^ 53 := by
    have same := covers.sum_eq fun delivery => delivery.maxNewTokens
    have less : (deliveries.map fun delivery =>
        delivery.entry.request.generatedTokenCount).sum ≤
        (deliveries.map fun delivery => delivery.entry.request.maxNewTokens).sum :=
      List.sum_le_sum fun delivery _ => delivery.sound.reported.limit
    omega
  have outputsFit := few.trans (show 2 ^ 53 ≤ uint64Max by decide)
  have times : ∀ delivery ∈ deliveries, DividesAlike quotient divide delivery.entry.request :=
    fun delivery member => by
      have part := (List.single_le_sum (fun _ _ => Nat.zero_le _) _
        (List.mem_map_of_mem member)).trans few
      exact Delivery.dividesAlike alike
        (fun finishUs finish => (bound delivery member finishUs finish).trans clock)
        (Nat.cast_le.mpr part)
  rw [sum64_eq promptsFit, sum64_eq outputsFit] at inverts ⊢
  have isOf := @isOf_fcfsSummary (Runner.fcfsEngine backend inputs).nowUs
    (deliveries.map fun delivery => delivery.entry.request.promptLength).sum
    (deliveries.map fun delivery => delivery.entry.request.generatedTokenCount).sum
    deliveries.length
  rw [← covers.oneLine_iff]
  constructor
  · rintro ⟨requests, summary, received, named⟩
    obtain ⟨read, found, length⟩ := length_of_receiveRecords received
    have count := congrArg List.length named
    rw [List.length_map, covers.sources, List.length_map, List.length_map] at count
    refine oneLine_of_readJsonl encodable_lines found ?_
    rw [length, count, List.length_append, List.length_map]
    rfl
  · intro oneLine
    obtain ⟨result, accepted, rfl⟩ := (passes_fcfsRecords times covers carried.distinct ends served
      isOf (showsSummary ends.nonneg) mode).exists_ok
    refine ⟨_, _, receiveRecords_lines covers carried.distinct isOf
      (readJsonl_output encodable_lines inverts oneLine) accepted, ?_⟩
    rw [List.map_map, covers.sources, List.map_map]
    exact List.map_congr_left fun delivery _ => delivery.str_shown

/-- Exact quotients of counters. -/
def exactDivide (count total : Int) : FloatNumeral := ⟨"", some (count / total), by simp⟩

/-- The inputs of a request with an exact prompt and one whose prompt is only counted. -/
def transportInputs : List Runner.InputRequest :=
  [⟨Request.initial 1 0 (.countOnly 1) 1, asciiBytes ['a'], asciiBytes "chat".toList⟩,
    ⟨Request.initial 2 0 (.exactTokens [-5]) 1, asciiBytes ['b'], asciiBytes "chat".toList⟩]

theorem carried_transportSample : Carried transportSample transportInputs := by
  have listed : (sortBy requestOrder transportSample).zipIdx 1 =
      [(sampleRecord (text "a"), 1), (sampleRecord (text "b") ++
        [(text "prompt_tokens", .arr [.int (-5)])], 2)] := rfl
  have accepted : ∀ record : Record, validateWorkloadRecord (.obj record) 1 = .ok record →
      record.Accepted := fun _ result => (validateWorkloadRecord_eq_ok.mp result).2
  refine ⟨List.forall_mem_cons.mpr ⟨?_, List.forall_mem_singleton.mpr ?_⟩, by decide +kernel, ?_⟩
  · exact accepted _ rfl
  · exact accepted _ rfl
  · rw [listed]
    refine .cons ?_ (.cons ?_ .nil)
    all_goals
      constructor <;> decide +kernel

/-- A workload of one request whose id is a line separator. -/
def separatorInputs : List Runner.InputRequest :=
  [⟨Request.initial 1 0 (.countOnly 1) 1, [0xe2, 0x80, 0xa8], asciiBytes "chat".toList⟩]

theorem carried_separator : Carried [sampleRecord [0x2028]] separatorInputs := by
  refine ⟨List.forall_mem_singleton.mpr (validateWorkloadRecord_eq_ok.mp
    (rfl : validateWorkloadRecord (.obj (sampleRecord [0x2028])) 1 = _)).2, by decide, ?_⟩
  have listed : (sortBy requestOrder [sampleRecord [0x2028]]).zipIdx 1 =
      [(sampleRecord [0x2028], 1)] := rfl
  rw [listed]
  refine .cons ?_ .nil
  constructor <;> decide +kernel

/-- A `json.loads` that knows the lines of some native records. -/
def loadsNative (native : List Record) : Text → Except String Json :=
  loadsFrom (fun record => (Json.obj record).compact Json.dumpsFormat) .obj native

theorem exists_invertsPrinted {inputs : List Runner.InputRequest}
    (apart : (Runner.runFcfs exactDivide SimulationEngine.sampleBackend inputs).toOption.any
      (fun native => (native.map fun record =>
        (Json.obj record).compact Json.dumpsFormat).Nodup) = true) :
    ∃ native, Runner.runFcfs exactDivide SimulationEngine.sampleBackend inputs = .ok native ∧
      InvertsPrinted (loadsNative native) Json.dumpsFormat native := by
  cases ran : Runner.runFcfs exactDivide SimulationEngine.sampleBackend inputs with
  | error error =>
      rw [ran] at apart
      cases apart
  | ok native =>
      rw [ran] at apart
      exact ⟨native, rfl, fun record member => loadsFrom_of_mem (of_decide_eq_true apart) member⟩

def sampleConfig : NativeConfig := ⟨text "single_active_fcfs", text "DecodeFirst", 8, 4⟩

/-- Two requests are received; one whose id is a line separator is not. -/
theorem receiveRecords_runFcfs_sample :
    (∃ native, Runner.runFcfs exactDivide SimulationEngine.sampleBackend transportInputs =
        .ok native ∧ ∃ requests summary,
      receiveRecords (loadsNative native) exactDivide sampleConfig transportSample
        (Runner.output Json.dumpsFormat native) = .ok (requests, [], summary) ∧
      requests.map (fun record => record.str "request_id") =
        (sortBy requestOrder transportSample).map fun source => source.str "request_id") ∧
    ∃ native, Runner.runFcfs exactDivide SimulationEngine.sampleBackend separatorInputs =
        .ok native ∧ ¬ ∃ requests summary,
      receiveRecords (loadsNative native) exactDivide sampleConfig [sampleRecord [0x2028]]
        (Runner.output Json.dumpsFormat native) = .ok (requests, [], summary) ∧
      requests.map (fun record => record.str "request_id") =
        (sortBy requestOrder [sampleRecord [0x2028]]).map fun source => source.str "request_id" := by
  have alike : AlikeOnDoubles exactDivide exactDivide := fun _ _ _ _ _ _ => ⟨_, rfl, rfl⟩
  obtain ⟨native, ran, inverts⟩ := @exists_invertsPrinted transportInputs (by decide +kernel)
  obtain ⟨broken, ranBroken, invertsBroken⟩ :=
    @exists_invertsPrinted separatorInputs (by decide +kernel)
  refine ⟨⟨native, ran, (receiveRecords_runFcfs alike carried_transportSample (by decide +kernel)
    (by decide +kernel) (by decide +kernel) rfl ran inverts).mpr ?_⟩, broken, ranBroken, ?_⟩
  · have ids : transportSample.map (fun source => source.str "request_id") =
        [text "b", text "a"] := rfl
    intro source member
    have id := List.mem_map_of_mem (f := fun source : Record => source.str "request_id") member
    rw [ids] at id
    refine unbroken_of_ascii ?_
    rcases List.mem_pair.mp id with same | same <;> rw [same] <;> exact ascii_text (by decide)
  · rw [receiveRecords_runFcfs alike carried_separator (by decide +kernel) (by decide +kernel)
      (by decide +kernel) rfl ranBroken invertsBroken]
    intro each
    exact each _ (List.mem_singleton_self _) 0x2028 (by decide +kernel) (by decide)

end Stream

end LlmLab.Benchmarks
