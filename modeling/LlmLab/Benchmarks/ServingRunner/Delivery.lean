import LlmLab.Benchmarks.ServingRunner.Lossless
import LlmLab.Benchmarks.ServingRunner.RequestRecords
import Mathlib.Algebra.BigOperators.Ring.Finset

/-!
# The requests of a native run

The request records that a run writes for a transported workload, whatever its engine: `run`
completes them from the workload, and `validate_native_records` finds them to be the workload's.
-/

namespace LlmLab.Benchmarks

open LlmLab.Serving

/-! ## What a run delivers -/

/-- A request of a run, with the record that is written of it. -/
structure Delivery (quotient : Int → Int → FloatNumeral) where
  entry : RequestEntry
  number : Nat
  record : Record
  sound : entry.Sound
  numbered : entry.request.requestId = number
  arrival : entry.request.arrivalTimeUs = entry.source.int "arrival_time_us"
  maxNewTokens : (entry.request.maxNewTokens : Int) = entry.source.int "max_new_tokens"
  written : ∃ input, Runner.inputString input.externalId = entry.source.get "request_id" ∧
    Runner.inputString input.workloadClass = entry.source.get "workload_class" ∧
    record = Runner.writeRequest quotient input entry.request entry.matched entry.scheduled
      entry.times

namespace Delivery

variable {quotient : Int → Int → FloatNumeral} (delivery : Delivery quotient)

/-- The record once it is completed from the workload. -/
def shown : Record := decorated delivery.entry.source delivery.record

theorem shows : delivery.entry.Shown quotient delivery.shown := by
  obtain ⟨input, id, -, written⟩ := delivery.written
  unfold shown
  rw [written]
  exact showsRequest id

end Delivery

/-- A workload and the inputs that the native process reads of it. -/
structure Carried (workload : List Record) (inputs : List Runner.InputRequest) : Prop where
  accepted : ∀ source ∈ workload, source.Accepted
  distinct : (workload.map fun source => source.str "request_id").Nodup
  transported : List.Forall₂ Transported ((sortBy requestOrder workload).zipIdx 1) inputs

section Deliveries

variable {quotient : Int → Int → FloatNumeral} {workload : List Record}
  {inputs : List Runner.InputRequest}

theorem inputString_transported {numbered : Record × Nat} {input : Runner.InputRequest}
    (accepted : numbered.1.Accepted) (transported : Transported numbered input) :
    Runner.inputString input.externalId = numbered.1.get "request_id" ∧
      Runner.inputString input.workloadClass = numbered.1.get "workload_class" := by
  obtain ⟨id, found, -⟩ := accepted.requestId
  obtain ⟨name, -, classed⟩ := accepted.workloadClass
  rw [Runner.inputString, decodeUtf8_encodeUtf8 transported.externalId, Option.getD_some,
    Record.str, found, Runner.inputString, decodeUtf8_encodeUtf8 transported.workloadClass,
    Option.getD_some, Record.str, classed]
  exact ⟨(str?_eq_some_iff.mp found).symm, (str?_eq_some_iff.mp classed).symm⟩

/-- The counts and times that a writer prints of the inputs. -/
structure Figures where
  matched : Runner.InputRequest → Nat
  scheduled : Runner.InputRequest → Nat
  times : Runner.InputRequest → List Int

/-- What a run has left of an input. -/
structure LeftOf (figures : Figures) (input : Runner.InputRequest) (final : Request) : Prop where
  submission : final.submission = input.request
  reported : Reported final (figures.matched input) (figures.scheduled input) (figures.times input)

/-- A delivery shows what a run has left of an input. -/
structure Delivery.Shows (figures : Figures) (delivery : Delivery quotient)
    (input : Runner.InputRequest) : Prop where
  submission : delivery.entry.request.submission = input.request
  matched : delivery.entry.matched = figures.matched input
  scheduled : delivery.entry.scheduled = figures.scheduled input
  times : delivery.entry.times = figures.times input

/-- Every input, its record and what the engine made of it, as one delivery. -/
theorem exists_deliveries {figures : Figures} {numbered : List (Record × Nat)}
    {finals : List Request} (accepted : ∀ entry ∈ numbered, entry.1.Accepted)
    (transported : List.Forall₂ Transported numbered inputs)
    (left : List.Forall₂ (LeftOf figures) inputs finals) :
    ∃ deliveries : List (Delivery quotient),
      numbered = deliveries.map (fun delivery => (delivery.entry.source, delivery.number)) ∧
      finals = deliveries.map (fun delivery => delivery.entry.request) ∧
      List.Forall₂ (Delivery.Shows figures) deliveries inputs ∧
      (inputs.zip finals).map (fun pair => Runner.writeRequest quotient pair.1 pair.2
        (figures.matched pair.1) (figures.scheduled pair.1) (figures.times pair.1)) =
        deliveries.map Delivery.record := by
  induction transported generalizing finals with
  | nil =>
      cases left
      exact ⟨[], rfl, rfl, .nil, rfl⟩
  | @cons entry input numbered inputs here _ ih =>
      cases left with
      | @cons _ final _ finals left rest =>
          rw [List.forall_mem_cons] at accepted
          obtain ⟨deliveries, same, ends, shows, records⟩ := ih accepted.2 rest
          have submitted := left.submission
          have number := congrArg Request.requestId submitted
          have arrival := congrArg Request.arrivalTimeUs submitted
          have output := congrArg Request.maxNewTokens submitted
          have prompt := congrArg Request.promptLength submitted
          have names := inputString_transported accepted.1 here
          refine ⟨⟨⟨entry.1, final, figures.matched input, figures.scheduled input,
            figures.times input⟩, entry.2, _,
            ⟨accepted.1, (congrArg Nat.cast prompt).trans here.promptLength, left.reported⟩,
            number.trans here.internalId, arrival.trans here.arrival,
            (congrArg Nat.cast output).trans here.maxNewTokens,
            ⟨input, names.1, names.2, rfl⟩⟩ :: deliveries, ?_, ?_, ?_, ?_⟩
          · rw [List.map_cons, ← same]
          · rw [List.map_cons, ← ends]
          · exact .cons ⟨submitted, rfl, rfl, rfl⟩ shows
          · exact congrArg (List.cons _) records

namespace Carried

theorem accepted_of_numbered (carried : Carried workload inputs) :
    ∀ entry ∈ (sortBy requestOrder workload).zipIdx 1, entry.1.Accepted :=
  fun _ member => carried.accepted _ (mem_sortBy.mp (List.fst_mem_of_mem_zipIdx member))

theorem ids (carried : Carried workload inputs) :
    ((inputs.map Runner.InputRequest.request).map Request.requestId).Nodup := by
  have same : (inputs.map Runner.InputRequest.request).map Request.requestId =
      ((sortBy requestOrder workload).zipIdx 1).map Prod.snd := by
    rw [List.map_map]
    exact map_eq_map_of_forall₂ carried.transported.flip fun _ _ transported =>
      transported.internalId
  rw [same, List.zipIdx_map_snd]
  exact List.nodup_range' _

theorem pristine (carried : Carried workload inputs) :
    ∀ request ∈ inputs.map Runner.InputRequest.request,
      request.Pristine ∧ 0 ≤ request.arrivalTimeUs := by
  intro request member
  obtain ⟨input, inside, rfl⟩ := List.mem_map.mp member
  obtain ⟨entry, listed, transported⟩ := exists_mem_of_forall₂ carried.transported inside
  refine ⟨transported.pristine, ?_⟩
  rw [transported.arrival]
  exact (carried.accepted_of_numbered entry listed).int_nonneg.1

end Carried

end Deliveries

/-! ## The workload of a run -/

section Workload

variable {quotient : Int → Int → FloatNumeral} {deliveries : List (Delivery quotient)}
  {delivery : Delivery quotient} {workload : List Record}

/-- The deliveries are those of the workload, in its order and numbered from one. -/
def Covers (deliveries : List (Delivery quotient)) (workload : List Record) : Prop :=
  (sortBy requestOrder workload).zipIdx 1 =
    deliveries.map fun delivery => (delivery.entry.source, delivery.number)

namespace Covers

theorem sources (covers : Covers deliveries workload) :
    sortBy requestOrder workload = deliveries.map fun delivery => delivery.entry.source := by
  have same := congrArg (List.map Prod.fst) covers
  rwa [List.zipIdx_map_fst, List.map_map] at same

theorem numbers (covers : Covers deliveries workload) :
    deliveries.map Delivery.number = List.range' 1 (sortBy requestOrder workload).length := by
  have same := congrArg (List.map Prod.snd) covers
  rw [List.zipIdx_map_snd, List.map_map] at same
  exact same.symm

theorem source_mem (covers : Covers deliveries workload) (member : delivery ∈ deliveries) :
    delivery.entry.source ∈ workload := by
  rw [← @mem_sortBy _ _ _ requestOrder, covers.sources]
  exact List.mem_map_of_mem member

theorem names_perm (covers : Covers deliveries workload) :
    (deliveries.map fun delivery => delivery.entry.name).Perm
      (workload.map fun source => source.str "request_id") := by
  have perm := (sortBy_perm requestOrder workload).map fun source => source.str "request_id"
  rwa [covers.sources, List.map_map] at perm

/-- A delivery stands in the sorted workload where its number says. -/
theorem position (covers : Covers deliveries workload)
    (distinct : (workload.map fun source => source.str "request_id").Nodup)
    (member : delivery ∈ deliveries) : (sortBy requestOrder workload).findIdx
      (fun record => record.str "request_id" = delivery.entry.source.str "request_id") + 1 =
      delivery.number := by
  have listed : (delivery.entry.source, delivery.number) ∈
      (sortBy requestOrder workload).zipIdx 1 := by
    rw [covers]
    exact List.mem_map_of_mem member
  obtain ⟨low, found⟩ := List.mk_mem_zipIdx_iff_le_and_getElem?_sub.mp listed
  obtain ⟨inside, same⟩ := List.getElem?_eq_some_iff.mp found
  have apart : ((sortBy requestOrder workload).map fun source => source.str "request_id").Nodup :=
    ((sortBy_perm requestOrder workload).map _).nodup_iff.mpr distinct
  have place : (sortBy requestOrder workload).findIdx
      (fun record => record.str "request_id" = delivery.entry.source.str "request_id") =
      delivery.number - 1 := by
    refine (List.findIdx_eq inside).mpr ⟨?_, fun earlier before => ?_⟩
    · rw [same]
      exact decide_eq_true rfl
    · refine decide_eq_false fun equal => ?_
      have indices := List.pairwise_iff_getElem.mp (List.pairwise_map.mp apart) earlier
        (delivery.number - 1) (before.trans inside) inside before
      rw [same] at indices
      exact indices equal
  omega

theorem find (covers : Covers deliveries workload)
    (distinct : (workload.map fun source => source.str "request_id").Nodup)
    (member : delivery ∈ deliveries) : workload.find?
      (fun source => source.str "request_id" = delivery.entry.source.str "request_id") =
      some delivery.entry.source := by
  cases found : workload.find?
      fun source => source.str "request_id" = delivery.entry.source.str "request_id" with
  | none =>
      exact absurd (decide_eq_true rfl) (List.find?_eq_none.mp found _ (covers.source_mem member))
  | some source =>
      have named : source.str "request_id" = delivery.entry.source.str "request_id" := by
        simpa using List.find?_some found
      exact congrArg some (List.inj_on_of_nodup_map distinct (List.mem_of_find?_eq_some found)
        (covers.source_mem member) named)

end Covers

theorem Delivery.str_shown (delivery : Delivery quotient) :
    delivery.shown.str "request_id" = delivery.entry.source.str "request_id" := by
  rw [Record.str, delivery.shows.requestId, Record.str]

theorem get_eq_int {source : Record} {name : String} {low : Int}
    (isInt : (source.get name).IsInt low) : source.get name = .int (source.int name) := by
  obtain ⟨number, found, -⟩ := isInt
  rw [Record.int, found]
  exact int?_eq_some_iff.mp found

/-- The requests of the run are those of the workload. -/
theorem passes_checkWorkload (covers : Covers deliveries workload)
    (distinct : (workload.map fun source => source.str "request_id").Nodup) :
    Passes (fun _ => True) (checkWorkload (deliveries.map Delivery.shown) (some workload)) := by
  have external : (deliveries.map Delivery.shown).map (fun record => record.str "request_id") =
      deliveries.map fun delivery => delivery.entry.name := by
    rw [List.map_map]
    exact List.map_congr_left fun delivery _ => delivery.str_shown
  unfold checkWorkload
  rw [external]
  refine (passes_throwIf (not_not.mpr distinct)).andThen ((passes_throwIf ?_).andThen
    (passes_forM fun record member => ?_))
  · rw [Bool.or_eq_true, List.any_eq_true, List.any_eq_true]
    rintro (⟨id, inside, missing⟩ | ⟨id, inside, missing⟩)
    · have listed := covers.names_perm.mem_iff.mpr inside
      rw [decide_eq_true_iff, List.contains_iff_mem.mpr listed] at missing
      cases missing
    · have listed := covers.names_perm.mem_iff.mp inside
      rw [decide_eq_true_iff, List.contains_iff_mem.mpr listed] at missing
      cases missing
  · obtain ⟨delivery, inside, rfl⟩ := List.mem_map.mp member
    have accepted := delivery.sound.accepted
    have shows := delivery.shows
    have counts : (delivery.entry.request.promptLength : Int) =
        delivery.entry.source.int "prompt_token_count" := delivery.sound.counts
    simp only [delivery.str_shown, covers.find distinct inside]
    refine passes_forM ?_
    simp only [envelope, List.forall_mem_cons]
    refine ⟨?_, passes_conservedFor shows.workloadClass, passes_conservedFor shows.prefixGroup,
      passes_conservedFor shows.deadline, passes_conservedFor shows.metadata,
      passes_conservedFor shows.promptTokens, ?_, ?_, ?_, List.forall_mem_nil _⟩
    · rw [shows.internalId, delivery.numbered, ← covers.position distinct inside]
      exact passes_conservedFor (congrArg Json.int (by push_cast; rfl))
    · rw [shows.arrival, get_eq_int accepted.arrival, delivery.arrival]
      exact passes_conservedFor rfl
    · rw [shows.original, get_eq_int accepted.promptCount, counts]
      exact passes_conservedFor rfl
    · rw [shows.maxNewTokens, get_eq_int accepted.maxNewTokens, delivery.maxNewTokens]
      exact passes_conservedFor rfl

/-- A sum over the completed records. -/
theorem total_shown {name : String} {count : Delivery quotient → Nat}
    (each : ∀ delivery ∈ deliveries, delivery.shown.get name = .int (count delivery)) :
    total (deliveries.map Delivery.shown) name = ((deliveries.map count).sum : Nat) := by
  rw [total, List.map_map, Nat.cast_list_sum, List.map_map]
  exact congrArg List.sum (List.map_congr_left fun delivery member => int_eq (each delivery member))

/-- The finish times that the completed records show. -/
theorem finishes_shown : (deliveries.map Delivery.shown).filterMap
    (fun record => (record.get "finish_time_us").int?) =
    deliveries.filterMap fun delivery => delivery.entry.request.finishTimeUs := by
  rw [List.filterMap_map]
  refine List.filterMap_congr fun delivery _ => ?_
  change (delivery.shown.get "finish_time_us").int? = _
  rw [delivery.shows.finish, int?_optional]

/-- The requests in a state are those whose records show it. -/
theorem stateCount_shown (state : RequestState) :
    stateCount (deliveries.map Delivery.shown) state.name =
      (deliveries.countP fun delivery => delivery.entry.request.state = state : Nat) := by
  rw [stateCount, List.countP_map]
  refine congrArg Nat.cast (List.countP_congr fun delivery _ => ?_)
  change oneOf (delivery.shown.get "final_state") [state.name] = true ↔ _
  rw [delivery.shows.state, oneOf_name, decide_eq_true_iff]

end Workload

/-! ## The records of a run -/

section Stream

variable {quotient divide : Int → Int → FloatNumeral} {deliveries : List (Delivery quotient)}
  {workload : List Record} {record summary : Record} {kind : String}

/-- The fields that every record of the stream has. -/
structure IsOf (kind : String) (record : Record) : Prop where
  type : record.get "record_type" = .str (text kind)
  schema : record.get "schema_version" = .str (text simulatorSchemaVersion)
  evidence : record.get "evidence_type" = .str (text "SIMULATED")

theorem Delivery.isOf_record (delivery : Delivery quotient) : IsOf "request" delivery.record := by
  obtain ⟨input, -, -, written⟩ := delivery.written
  rw [written]
  constructor <;>
    simp [Runner.writeRequest, Runner.get_named, List.lookup_cons, Runner.string]

theorem Delivery.requestId_record (delivery : Delivery quotient) :
    delivery.record.get "request_id" = delivery.entry.source.get "request_id" := by
  obtain ⟨input, named, -, written⟩ := delivery.written
  rw [← named, written]
  simp [Runner.writeRequest, Runner.get_named, List.lookup_cons]

theorem Delivery.isOf_shown (delivery : Delivery quotient) : IsOf "request" delivery.shown := by
  have written := delivery.isOf_record
  constructor <;>
    simp [Delivery.shown, get_decorated, written.type, written.schema, written.evidence]

/-- A record of a known type passes as it is. -/
theorem nativeRecord_eq_ok {line : Nat} (isOf : IsOf kind record)
    (known : kind ∈ nativeRecordTypes) : nativeRecord (.obj record, line) = .ok (line, record) := by
  have type : oneOf (record.get "record_type") nativeRecordTypes = true := by
    rw [isOf.type, oneOf_text]
    exact known
  have schema : ¬ oneOf (record.get "schema_version") [simulatorSchemaVersion] = false := by
    rw [Bool.not_eq_false, isOf.schema, oneOf_text]
    exact List.mem_singleton_self _
  have evidence : ¬ oneOf (record.get "evidence_type") ["SIMULATED"] = false := by
    rw [Bool.not_eq_false, isOf.evidence, oneOf_text]
    exact List.mem_singleton_self _
  have fine : Passes (· = (line, record)) (nativeRecord (.obj record, line)) := by
    unfold nativeRecord
    exact (passes_requireOneOf type).andThen ((passes_reject schema).andThen
      ((passes_reject evidence).andThen rfl))
  obtain ⟨_, result, rfl⟩ := fine.exists_ok
  exact result

theorem ofType_of_isOf {items : List (Nat × Record)} (each : ∀ item ∈ items, IsOf kind item.2)
    {other : String} : ofType other items = if kind = other then items else [] := by
  have type : ∀ item ∈ items, oneOf (item.2.get "record_type") [other] = true ↔ kind = other :=
    fun item member => by
      rw [(each item member).type, oneOf_text, List.mem_singleton]
  unfold ofType
  split
  · next same => exact List.filter_eq_self.mpr fun item member => (type item member).mpr same
  · next apart =>
      exact List.filter_eq_nil_iff.mpr fun item member => mt (type item member).mp apart

/-- `run` completes the record of a request. -/
theorem decorate_record {delivery : Delivery quotient} (covers : Covers deliveries workload)
    (distinct : (workload.map fun source => source.str "request_id").Nodup)
    (member : delivery ∈ deliveries) :
    decorate workload delivery.record = .ok delivery.shown := by
  have id : delivery.record.str "request_id" = delivery.entry.source.str "request_id" := by
    rw [Record.str, Record.str, delivery.requestId_record]
  have request : oneOf (delivery.record.get "record_type") ["request"] = true := by
    rw [delivery.isOf_record.type, oneOf_text]
    exact List.mem_singleton_self _
  have hashable : ¬ (delivery.record.get "request_id").isHashable = false := by
    obtain ⟨name, found, -⟩ := delivery.sound.accepted.requestId
    rw [delivery.requestId_record, str?_eq_some_iff.mp found]
    exact Bool.noConfusion
  unfold decorate
  rw [if_pos request, id, throwIf_of_not hashable]
  simp only [except_ok_bind, covers.find distinct member]
  rfl

/-- The records as the lines they stand on. -/
def numbered (records : List Record) (first : Nat) : List (Nat × Record) :=
  (records.zipIdx first).map Prod.swap

theorem numbered_append {records more : List Record} {first : Nat} :
    numbered (records ++ more) first =
      numbered records first ++ numbered more (first + records.length) := by
  rw [numbered, List.zipIdx_append, List.map_append]
  rfl

theorem map_snd_numbered {records : List Record} {first : Nat} :
    (numbered records first).map Prod.snd = records :=
  (List.map_map ..).trans (List.zipIdx_map_fst first records)

theorem mem_of_mem_numbered {records : List Record} {first : Nat} {item : Nat × Record}
    (member : item ∈ numbered records first) : item.2 ∈ records := by
  rw [← @map_snd_numbered records first]
  exact List.mem_map_of_mem member

/-- Records of known types are numbered and kept. -/
theorem mapM_nativeRecord {records : List Record} {first : Nat}
    (known : ∀ record ∈ records, ∃ kind ∈ nativeRecordTypes, IsOf kind record) :
    ((records.map Json.obj).zipIdx first).mapM nativeRecord = .ok (numbered records first) := by
  rw [List.zipIdx_map]
  refine mapM_map_eq_ok fun item member => ?_
  obtain ⟨kind, listed, isOf⟩ := known item.1 (List.fst_mem_of_mem_zipIdx member)
  exact nativeRecord_eq_ok isOf listed

theorem Covers.names_nodup (covers : Covers deliveries workload)
    (distinct : (workload.map fun source => source.str "request_id").Nodup) :
    ((deliveries.map Delivery.entry).map RequestEntry.name).Nodup := by
  rw [List.map_map]
  exact covers.names_perm.nodup_iff.mpr distinct

theorem Covers.numbers_nodup (covers : Covers deliveries workload) :
    ((deliveries.map Delivery.entry).map RequestEntry.number).Nodup := by
  have counted : (deliveries.map Delivery.entry).map RequestEntry.number =
      (deliveries.map Delivery.number).map Nat.cast := by
    rw [List.map_map, List.map_map]
    exact List.map_congr_left fun delivery _ => congrArg Nat.cast delivery.numbered
  rw [counted, covers.numbers]
  exact (List.nodup_range' _).map Nat.cast_injective

theorem shown_lines {first : Nat} :
    List.Forall₂ (fun (entry : RequestEntry) item => entry.Shown quotient item.2)
      (deliveries.map Delivery.entry) (numbered (deliveries.map Delivery.shown) first) := by
  rw [← List.forall₂_map_right_iff (f := Prod.snd), map_snd_numbered, List.forall₂_map_left_iff,
    List.forall₂_map_right_iff, List.forall₂_same]
  exact fun delivery _ => delivery.shows

/-- The lines of a type in a stream of iterations, requests and one summary. -/
theorem ofType_stream {iterations requests : List Record}
    (traced : ∀ record ∈ iterations, IsOf "iteration" record)
    (each : ∀ record ∈ requests, IsOf "request" record) (isOf : IsOf "summary" summary)
    {other : String} :
    ofType other (numbered (iterations ++ requests ++ [summary]) 1) =
      (if "iteration" = other then numbered iterations 1 else []) ++
      (if "request" = other then numbered requests (1 + iterations.length) else []) ++
        if "summary" = other then
          [(1 + (iterations ++ requests).length, summary)] else [] := by
  have lastly : ∀ item ∈ [(1 + (iterations ++ requests).length, summary)],
      IsOf "summary" item.2 := List.forall_mem_singleton.mpr isOf
  rw [numbered_append, numbered_append, ← ofType_of_isOf lastly,
    ← ofType_of_isOf fun item member => each _ (mem_of_mem_numbered member),
    ← ofType_of_isOf fun item member => traced _ (mem_of_mem_numbered member)]
  exact (List.filter_append ..).trans (congrArg (· ++ _) (List.filter_append ..))

/-- The checks on a stream that has been taken apart into its types. -/
def checkStream (divide : Int → Int → FloatNumeral) (config : Option NativeConfig)
    (workload : Option (List Record)) (iterations requests : List Record) (summary : Record) :
    Except NativeError (List Record × List Record × Record) := do
  let (_, nativeIds) ← (numbered requests (1 + iterations.length)).foldlM
    (validateRequestRecord divide) ([], [])
  let _ ← (numbered iterations 1).foldlM (validateIterationRecord divide config nativeIds) (0, 0)
  let context :=
    "summary record at result line " ++ toString (1 + (iterations ++ requests).length)
  checkSummaryFields config summary context
  checkRequestTotals divide requests iterations summary context
  checkSummaryMode divide config requests iterations summary context
  checkWorkload requests workload
  return (requests, iterations, summary)

/-- A stream whose records say what they are comes apart. -/
theorem validateNativeRecords_stream {config : Option NativeConfig}
    {envelope : Option (List Record)} {iterations requests : List Record}
    (traced : ∀ record ∈ iterations, IsOf "iteration" record)
    (each : ∀ record ∈ requests, IsOf "request" record) (isOf : IsOf "summary" summary) :
    validateNativeRecords divide config envelope
      ((iterations ++ requests ++ [summary]).map .obj) =
      checkStream divide config envelope iterations requests summary := by
  have known : ∀ record ∈ iterations ++ requests ++ [summary],
      ∃ kind ∈ nativeRecordTypes, IsOf kind record := by
    rw [List.forall_mem_append, List.forall_mem_append, List.forall_mem_singleton]
    exact ⟨⟨fun record member => ⟨"iteration", by decide, traced record member⟩,
      fun record member => ⟨"request", by decide, each record member⟩⟩, "summary", by decide, isOf⟩
  have terminal : ¬ oneOf (summary.get "record_type") ["summary"] = false := by
    rw [Bool.not_eq_false, isOf.type, oneOf_text]
    exact List.mem_singleton_self _
  have ending : (numbered (iterations ++ requests ++ [summary]) 1).getLast? =
      some (1 + (iterations ++ requests).length, summary) := by
    rw [numbered_append]
    exact List.getLast?_concat
  have lines := @ofType_stream _ _ _ traced each isOf
  have summaryLines := @lines "summary"
  have requestLines := @lines "request"
  have iterationLines := @lines "iteration"
  rw [if_neg (by decide), if_neg (by decide), if_pos rfl, List.nil_append,
    List.nil_append] at summaryLines
  rw [if_neg (by decide), if_pos rfl, if_neg (by decide), List.append_nil,
    List.nil_append] at requestLines
  rw [if_pos rfl, if_neg (by decide), if_neg (by decide), List.append_nil,
    List.append_nil] at iterationLines
  unfold validateNativeRecords checkStream
  rw [mapM_nativeRecord known, except_ok_bind, summaryLines, requestLines, iterationLines, ending]
  simp only [map_snd_numbered]
  rw [throwIf_of_not terminal, except_ok_bind]

/-- The completed records of all deliveries pass, with the iterations and the summary that the
engine adds to them. -/
theorem passes_validateNativeRecords {config : Option NativeConfig} {iterations : List Record}
    (alike : ∀ delivery ∈ deliveries, DividesAlike quotient divide delivery.entry.request)
    (covers : Covers deliveries workload)
    (distinct : (workload.map fun source => source.str "request_id").Nodup)
    (isOf : IsOf "summary" summary) (traced : ∀ record ∈ iterations, IsOf "iteration" record)
    (iterates : Passes (fun _ => True) ((numbered iterations 1).foldlM (validateIterationRecord
      divide config ((deliveries.map Delivery.entry).map RequestEntry.number)) (0, 0)))
    (fields : ∀ context, Passes (fun _ => True) (checkSummaryFields config summary context))
    (totals : ∀ context, Passes (fun _ => True)
      (checkRequestTotals divide (deliveries.map Delivery.shown) iterations summary context))
    (mode : ∀ context, Passes (fun _ => True)
      (checkSummaryMode divide config (deliveries.map Delivery.shown) iterations summary context)) :
    Passes (· = (deliveries.map Delivery.shown, iterations, summary))
      (validateNativeRecords divide config (some workload)
        ((iterations ++ deliveries.map Delivery.shown ++ [summary]).map .obj)) := by
  have sound : ∀ entry ∈ deliveries.map Delivery.entry,
      entry.Sound ∧ DividesAlike quotient divide entry.request := fun entry member => by
    obtain ⟨delivery, inside, rfl⟩ := List.mem_map.mp member
    exact ⟨delivery.sound, alike delivery inside⟩
  rw [validateNativeRecords_stream traced
    (List.forall_mem_map.mpr fun delivery _ => delivery.isOf_shown) isOf]
  unfold checkStream
  refine (RequestEntry.passes_validateRequestRecords (fun entry member => (sound entry member).1)
    (fun entry member => (sound entry member).2) shown_lines ?_ ?_).known
    (iterates.andThen ((fields _).andThen ((totals _).andThen ((mode _).andThen
    ((passes_checkWorkload covers distinct).andThen rfl)))))
  · exact covers.names_nodup distinct
  · exact covers.numbers_nodup

theorem decorate_other (isOf : IsOf kind record) (other : kind ≠ "request") :
    decorate workload record = .ok record := by
  unfold decorate
  rw [if_neg]
  rw [isOf.type, oneOf_text, List.mem_singleton]
  exact other

/-- `run` completes the records of the requests and leaves the others as they are. -/
theorem mapM_decorate {iterations : List Record} (covers : Covers deliveries workload)
    (distinct : (workload.map fun source => source.str "request_id").Nodup)
    (traced : ∀ record ∈ iterations, IsOf "iteration" record) (isOf : IsOf "summary" summary) :
    (iterations ++ deliveries.map Delivery.record ++ [summary]).mapM (decorate workload) =
      .ok (iterations ++ deliveries.map Delivery.shown ++ [summary]) := by
  have completed := mapM_map_eq_ok fun delivery member => decorate_record covers distinct member
  have kept := @mapM_map_eq_ok _ _ _ _ (decorate workload) id id iterations fun record member =>
    decorate_other (traced record member) (by decide)
  rw [List.map_id] at kept
  rw [List.mapM_append, List.mapM_append, completed, kept]
  simp only [except_ok_bind, List.mapM_cons, List.mapM_nil, decorate_other isOf (by decide)]
  rfl

/-- The mean time between the tokens of a delivery is found alike when its times and its tokens lie
where the divisions agree. -/
theorem Delivery.dividesAlike {bound : Int} {delivery : Delivery quotient}
    (alike : ∀ count total, 0 ≤ count → count ≤ bound → 0 < total → total ≤ bound →
      ∃ value, (quotient count total).value = some value ∧ (divide count total).value = some value)
    (early : ∀ finishUs, delivery.entry.request.finishTimeUs = some finishUs → finishUs ≤ bound)
    (few : delivery.entry.request.generatedTokenCount ≤ bound) :
    DividesAlike quotient divide delivery.entry.request := by
  intro first finish firstToken ends several
  have reported := delivery.sound.reported
  have member : first ∈ delivery.entry.times :=
    List.mem_of_mem_head? (reported.firstToken ▸ firstToken)
  obtain ⟨start, -, low, after⟩ := reported.admitted_of_mem member
  have before := (reported.finish ends).2.2 first member
  have latest := early finish ends
  exact alike _ _ (by omega) (by omega) (by omega) (by omega)

theorem Covers.sum_eq (covers : Covers deliveries workload) {name : String}
    {count : Delivery quotient → Nat}
    (each : ∀ delivery : Delivery quotient, (count delivery : Int) = delivery.entry.source.int name) :
    ((deliveries.map count).sum : Int) = (workload.map fun source => source.int name).sum := by
  rw [Nat.cast_list_sum, List.map_map, ← ((sortBy_perm requestOrder workload).map _).sum_eq,
    covers.sources, List.map_map]
  exact congrArg List.sum (List.map_congr_left fun delivery _ => each delivery)

end Stream

end LlmLab.Benchmarks
