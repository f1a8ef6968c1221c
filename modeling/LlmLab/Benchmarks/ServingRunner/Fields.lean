import LlmLab.Benchmarks.ServingRunner.Writer

/-!
# The fields of a written record

What stands under a name in a record that the runner writes, and in one that `run` has completed
from the workload.
-/

namespace LlmLab.Benchmarks

open LlmLab.Serving

variable {record source : Record} {name other : String} {value : Json}

namespace Runner

variable {fields : List (String × Json)}

theorem get_named : (named fields).get name = (fields.lookup name).getD .null := by
  unfold named Record.get
  induction fields with
  | nil => rfl
  | cons field rest ih =>
      obtain ⟨key, value⟩ := field
      rw [List.map_cons, List.lookup_cons]
      by_cases same : key = name
      · rw [List.find?_cons_of_pos (by simp [same]), same, beq_self_eq_true]
        rfl
      · rw [List.find?_cons_of_neg (by simpa using mt (@text_injective _ _) same), ih,
          beq_false_of_ne (Ne.symm same)]

theorem mem_keys_named {key : Text} :
    key ∈ (named fields).map Prod.fst ↔ key ∈ (fields.map Prod.fst).map text := by
  rw [named, List.map_map, List.map_map]
  rfl

end Runner

namespace Record

theorem contains_iff_mem :
    record.contains name = true ↔ text name ∈ record.map Prod.fst := by
  simp [contains]

theorem find?_eq_none (absent : record.contains name ≠ true) :
    record.find? (fun member => member.1 = text name) = none := by
  refine List.find?_eq_none.mpr fun member inside same => absent (contains_iff_mem.mpr ?_)
  rw [← of_decide_eq_true same]
  exact List.mem_map_of_mem inside

/-- What stands under a name after an assignment. -/
theorem get_set : (record.set name value).get other =
    if other = name then value else record.get other := by
  unfold set
  split
  · next present =>
      have keeps : ((fun member : Text × Json => decide (member.1 = text other)) ∘
          fun member => if member.1 = text name then (member.1, value) else member) =
          fun member => decide (member.1 = text other) := by
        funext member
        dsimp only [Function.comp]
        split <;> rfl
      rw [get, get, List.find?_map, keeps]
      cases found : record.find? fun member => member.1 = text other with
      | none =>
          have apart : other ≠ name := fun same => by
            obtain ⟨member, inside, key⟩ := List.mem_map.mp (contains_iff_mem.mp present)
            exact List.find?_eq_none.mp found member inside (decide_eq_true (same ▸ key))
          rw [if_neg apart]
          rfl
      | some member =>
          have key : member.1 = text other := by simpa using List.find?_some found
          simp only [Option.map_some, Option.getD_some, key, text_injective.eq_iff]
          split <;> rfl
  · next absent =>
      rw [get, get, List.find?_append]
      by_cases same : other = name
      · rw [same, find?_eq_none absent, if_pos rfl, Option.none_or,
          List.find?_cons_of_pos (by simp)]
        rfl
      · rw [if_neg same, List.find?_cons_of_neg (by
          simpa using mt (@text_injective _ _) (Ne.symm same)), List.find?_nil, Option.or_none]

/-- Setting a field adds its name and no other. -/
theorem mem_keys_set {key : Text} : key ∈ (record.set name value).map Prod.fst ↔
    key = text name ∨ key ∈ record.map Prod.fst := by
  unfold set
  split
  · next present =>
      have keys : (record.map fun member : Text × Json =>
          if member.1 = text name then (member.1, value) else member).map Prod.fst =
          record.map Prod.fst := by
        rw [List.map_map]
        refine List.map_congr_left fun member _ => ?_
        dsimp only [Function.comp]
        split <;> rfl
      rw [keys]
      refine ⟨Or.inr, fun either => either.elim (fun same => ?_) id⟩
      rw [same]
      exact contains_iff_mem.mp present
  · rw [List.map_append, List.mem_append, List.map_singleton, List.mem_singleton]
    exact or_comm

end Record

/-- Lists with the same names have the same texts. -/
theorem mem_map_text {names names' : List String} (forth : names ⊆ names') (back : names' ⊆ names)
    {key : Text} : key ∈ names.map text ↔ key ∈ names'.map text :=
  ⟨fun member => List.map_subset text forth member, fun member => List.map_subset text back member⟩

/-! ## Sums -/

theorem foldl_add64 {values : List Nat} {start : Nat} (fits : start + values.sum ≤ uint64Max) :
    values.foldl (fun total value => (total + value) % 2 ^ 64) start = start + values.sum := by
  induction values generalizing start with
  | nil => rfl
  | cons value values ih =>
      rw [List.sum_cons, ← add_assoc] at fits
      have small : (start + value) % 2 ^ 64 = start + value := by
        refine Nat.mod_eq_of_lt ?_
        have bound : uint64Max < 2 ^ 64 := by decide
        omega
      rw [List.foldl_cons, small, ih fits, List.sum_cons, add_assoc]

/-- A sum that fits into the counter is exact. -/
theorem sum64_eq {values : List Nat} (fits : values.sum ≤ uint64Max) :
    Runner.sum64 values = values.sum := by
  have counted := @foldl_add64 values 0 (by rwa [Nat.zero_add])
  rwa [Nat.zero_add] at counted

/-! ## Requests -/

section Decorated

theorem get_decorated : (decorated source record).get name =
    if name = "prompt_tokens" then source.get "prompt_tokens"
    else if name = "metadata" then
      if source.contains "metadata" then source.get "metadata" else .obj []
    else if name = "deadline_us" then source.get "deadline_us"
    else if name = "prefix_group" then source.get "prefix_group"
    else if name = "workload_class" then source.get "workload_class"
    else record.get name := by
  simp only [decorated, Record.get_set]

theorem mem_keys_decorated {key : Text} : key ∈ (decorated source record).map Prod.fst ↔
    key ∈ ["prompt_tokens", "metadata", "deadline_us", "prefix_group", "workload_class"].map text ∨
      key ∈ record.map Prod.fst := by
  simp only [decorated, Record.mem_keys_set, List.map_cons, List.map_nil, List.mem_cons,
    List.not_mem_nil, or_false, or_assoc]

end Decorated

/-- What a request record shows once it is completed from the workload. -/
structure ShowsRequest (divide : Int → Int → FloatNumeral) (source : Record) (request : Request)
    (matched scheduled : Nat) (times : List Int) (record : Record) : Prop where
  keys : ∀ key, key ∈ record.map Prod.fst ↔ key ∈ requestRecordFields
  internalId : record.get "internal_id" = .int request.requestId
  requestId : record.get "request_id" = source.get "request_id"
  workloadClass : record.get "workload_class" = source.get "workload_class"
  prefixGroup : record.get "prefix_group" = source.get "prefix_group"
  deadline : record.get "deadline_us" = source.get "deadline_us"
  metadata : record.get "metadata" =
    if source.contains "metadata" then source.get "metadata" else .obj []
  promptTokens : record.get "prompt_tokens" = source.get "prompt_tokens"
  arrival : record.get "arrival_time_us" = .int request.arrivalTimeUs
  admitted : record.get "admitted_time_us" = optional request.admittedTimeUs
  firstToken : record.get "first_token_time_us" = optional request.firstTokenTimeUs
  finish : record.get "finish_time_us" = optional request.finishTimeUs
  queueDelay : record.get "queue_delay_us" =
    optional (request.admittedTimeUs.map fun time => time - request.arrivalTimeUs)
  ttft : record.get "ttft_us" = if 0 < request.generatedTokenCount then
    optional (request.firstTokenTimeUs.map fun time => time - request.arrivalTimeUs) else .null
  latency : record.get "end_to_end_latency_us" =
    optional (request.finishTimeUs.map fun time => time - request.arrivalTimeUs)
  tpot : record.get "tpot_us" = Runner.tpot divide request
  original : record.get "prompt_tokens_original" = .int request.promptLength
  matched : record.get "prompt_tokens_matched" = .int matched
  scheduled : record.get "prompt_tokens_scheduled" = .int scheduled
  generated : record.get "generated_tokens" = .int request.generatedTokenCount
  maxNewTokens : record.get "max_new_tokens" = .int request.maxNewTokens
  state : record.get "final_state" = .str (text request.state.name)
  reason : record.get "reason" = .null
  decodeTimes : record.get "decode_token_times_us" = .arr (times.map .int)
  gaps : record.get "inter_token_latencies_us" =
    .arr ((times.zip times.tail).map fun pair => .int (pair.2 - pair.1))

theorem showsRequest {divide : Int → Int → FloatNumeral} {input : Runner.InputRequest}
    {request : Request} {matched scheduled : Nat} {times : List Int}
    (id : Runner.inputString input.externalId = source.get "request_id") :
    ShowsRequest divide source request matched scheduled times
      (decorated source (Runner.writeRequest divide input request matched scheduled times)) := by
  constructor
  case keys =>
    intro key
    rw [mem_keys_decorated, Runner.writeRequest, Runner.mem_keys_named, ← List.mem_append,
      ← List.map_append]
    refine mem_map_text ?_ ?_ <;>
      simp only [List.map_cons, List.map_nil, List.cons_append, List.nil_append] <;> decide +kernel
  all_goals
    simp [get_decorated, Runner.writeRequest, Runner.get_named, List.lookup_cons, Runner.number,
      Runner.string, id]

end LlmLab.Benchmarks
