import LlmLab.Benchmarks.ServingCommon.Json
import LlmLab.Lib.ExceptLogic
import Mathlib.Data.Prod.Lex

/-!
# Workload records

`validate_workload_record` of `serving_common.py` and the records it accepts.
-/

namespace LlmLab.Benchmarks

/-- `ValidationError`: its message, and the values of the input that the message shows. -/
structure ValidationError where
  message : String
  shown : List Json

/-- An error with a message alone. -/
def invalid (message : String) : ValidationError := ⟨message, []⟩

/-- The error with the place it was found at in front. -/
def ValidationError.within (context : String) (error : ValidationError) : ValidationError :=
  { error with message := context ++ error.message }

def workloadSchemaVersion : String := "serving-workload-v1"

/-- `WORKLOAD_CLASSES`. -/
def workloadClasses : List Text :=
  ["chat", "shared_system_prompt", "coding_agent", "mixed", "overload", "burst"].map text

/-- `_require_int`. -/
def requireInt (value : Json) (name : String) (minimum : Int) : Except ValidationError Int :=
  match value.int? with
  | none => .error (invalid (name ++ " must be an integer"))
  | some number =>
      if number < minimum then .error (invalid (name ++ " must be >= " ++ toString minimum))
      else .ok number

/-- `_require_str`. -/
def requireStr (value : Json) (name : String) (allowEmpty : Bool) : Except ValidationError Text :=
  match value.str? with
  | none => .error (invalid (name ++ " must be a " ++ possibly ++ "string"))
  | some string =>
      if string = [] ∧ allowEmpty = false then
        .error (invalid (name ++ " must be a " ++ possibly ++ "string"))
      else .ok string
where
  possibly := if allowEmpty then "possibly empty " else ""

/-- The fields a workload record may have. -/
def workloadFields : List Text :=
  ["schema_version", "request_id", "arrival_time_us", "prompt_token_count", "prompt_tokens",
    "max_new_tokens", "workload_class", "prefix_group", "deadline_us", "metadata"].map text

/-- A check of a field that may be missing. -/
def whenPresent (record : Record) (name : String)
    (check : Json → Except ValidationError Unit) : Except ValidationError Unit :=
  if record.contains name then check (record.get name) else .ok ()

/-- A token of `prompt_tokens`, with its index. -/
def requireToken (token : Json × Nat) : Except ValidationError Unit := do
  let name := "prompt_tokens[" ++ toString token.2 ++ "]"
  let value ← requireInt token.1 name (-(2 ^ 31))
  throwIf (value > 2 ^ 31 - 1) (invalid (name ++ " exceeds signed 32-bit range"))

def requirePromptTokens (promptCount : Int) (value : Json) : Except ValidationError Unit :=
  match value.arr? with
  | none => .error (invalid "prompt_tokens must be an array")
  | some tokens => do
      tokens.zipIdx.forM requireToken
      throwIf ((tokens.length : Int) ≠ promptCount)
        (invalid "prompt_token_count must equal len(prompt_tokens)")

/-- The checks of `validate_workload_record` on a dict. -/
def checkWorkloadRecord (record : Record) : Except ValidationError Unit := do
  let unknown := record.filter fun member => workloadFields.contains member.1 = false
  throwIf (unknown ≠ [])
    ⟨"unknown fields; put extensions under metadata",
      (sortBy id (unknown.map Prod.fst)).map Json.str⟩
  throwIf ((record.get "schema_version").str? ≠ some (text workloadSchemaVersion))
    ⟨"incompatible schema_version; expected " ++ workloadSchemaVersion,
      [record.get "schema_version"]⟩
  let _ ← requireStr (record.get "request_id") "request_id" false
  let _ ← requireInt (record.get "arrival_time_us") "arrival_time_us" 0
  let promptCount ← requireInt (record.get "prompt_token_count") "prompt_token_count" 0
  let _ ← requireInt (record.get "max_new_tokens") "max_new_tokens" 0
  let workloadClass ← requireStr (record.get "workload_class") "workload_class" false
  throwIf (workloadClasses.contains workloadClass = false)
    ⟨"unknown workload_class", [.str workloadClass]⟩
  whenPresent record "prompt_tokens" (requirePromptTokens promptCount)
  whenPresent record "prefix_group" fun value => do
    let _ ← requireStr value "prefix_group" false
  whenPresent record "deadline_us" fun value => do
    let _ ← requireInt value "deadline_us" 0
  whenPresent record "metadata" fun value =>
    throwIf (value.obj?.isNone = true) (invalid "metadata must be an object")

/-- `validate_workload_record`. -/
def validateWorkloadRecord (record : Json) (lineNumber : Nat) : Except ValidationError Record :=
  let context := "JSONL line " ++ toString lineNumber ++ ": "
  match record.obj? with
  | none => .error ((invalid "record must be an object").within context)
  | some members =>
      match checkWorkloadRecord members with
      | .error error => .error (error.within context)
      | .ok _ => .ok members

theorem ascii_workloadClass {name : Text} (known : name ∈ workloadClasses) : Ascii name := by
  obtain ⟨s, listed, rfl⟩ := List.mem_map.mp known
  have plain : ∀ s ∈ ["chat", "shared_system_prompt", "coding_agent", "mixed", "overload", "burst"],
      s.toList.all (fun c => decide (c.toNat < 0x80)) = true := by decide
  exact ascii_text (plain s listed)

/-! ## What is accepted -/

/-- An integer of at least the minimum. -/
def Json.IsInt (minimum : Int) (value : Json) : Prop :=
  ∃ number, value.int? = some number ∧ minimum ≤ number

/-- A string that is not empty. -/
def Json.IsName (value : Json) : Prop := ∃ string, value.str? = some string ∧ string ≠ []

/-- Tokens in the signed 32-bit range, as many as the record counts. -/
def Json.IsPrompt (count : Int) (value : Json) : Prop :=
  ∃ tokens, value.arr? = some tokens ∧ (tokens.length : Int) = count ∧
    ∀ token ∈ tokens, ∃ number, token.int? = some number ∧ -(2 ^ 31) ≤ number ∧ number ≤ 2 ^ 31 - 1

namespace Record

/-- The integer under a name; an accepted record has one under each of its counts. -/
def int (record : Record) (name : String) : Int := (record.get name).int?.getD 0

/-- The string under a name. -/
def str (record : Record) (name : String) : Text := (record.get name).str?.getD []

/-- The integers of an array under a name. -/
def ints (record : Record) (name : String) : List Int :=
  ((record.get name).arr?.getD []).map fun item => item.int?.getD 0

/-- A record that `validate_workload_record` returns. -/
structure Accepted (record : Record) : Prop where
  known : ∀ member ∈ record, member.1 ∈ workloadFields
  schema : (record.get "schema_version").str? = some (text workloadSchemaVersion)
  requestId : (record.get "request_id").IsName
  arrival : (record.get "arrival_time_us").IsInt 0
  promptCount : (record.get "prompt_token_count").IsInt 0
  maxNewTokens : (record.get "max_new_tokens").IsInt 0
  workloadClass : ∃ name ∈ workloadClasses, (record.get "workload_class").str? = some name
  promptTokens : record.contains "prompt_tokens" = true →
    (record.get "prompt_tokens").IsPrompt (record.int "prompt_token_count")
  prefixGroup : record.contains "prefix_group" = true → (record.get "prefix_group").IsName
  deadline : record.contains "deadline_us" = true → (record.get "deadline_us").IsInt 0
  metadata : record.contains "metadata" = true → (record.get "metadata").obj?.isSome = true

end Record

/-- The order in which requests are numbered. -/
def requestOrder (record : Record) : Int ×ₗ Text :=
  toLex (record.int "arrival_time_us", record.str "request_id")

theorem requireInt_eq_ok {value : Json} {name : String} {minimum number : Int} :
    requireInt value name minimum = .ok number ↔ value.int? = some number ∧ minimum ≤ number := by
  unfold requireInt
  split
  · next none => simp [none]
  · next found some =>
      rw [some, Option.some.injEq]
      split
      · next low => exact ⟨fun bad => (nomatch bad), fun ⟨same, high⟩ => by omega⟩
      · next high => exact ⟨fun same => ⟨Except.ok.inj same, (Except.ok.inj same) ▸ Int.not_lt.mp high⟩,
          fun both => congrArg Except.ok both.1⟩

theorem requireStr_eq_ok {value : Json} {name : String} {string : Text} :
    requireStr value name false = .ok string ↔ value.str? = some string ∧ string ≠ [] := by
  unfold requireStr
  split
  · next none => simp [none]
  · next found some =>
      rw [some, Option.some.injEq]
      split
      · next empty =>
          exact ⟨fun bad => (nomatch bad), fun ⟨same, nonempty⟩ => absurd (same ▸ empty.1) nonempty⟩
      · next nonempty =>
          exact ⟨fun same => ⟨Except.ok.inj same, fun empty =>
            nonempty ⟨(Except.ok.inj same).trans empty, rfl⟩⟩, fun both => congrArg Except.ok both.1⟩

theorem whenPresent_eq_ok {record : Record} {name : String}
    {check : Json → Except ValidationError Unit} {done : Unit} :
    whenPresent record name check = .ok done ↔
      (record.contains name = true → check (record.get name) = .ok done) := by
  unfold whenPresent
  split
  · next present => simp [present]
  · next absent => simp [absent]

theorem requireToken_eq_ok {token : Json × Nat} {done : Unit} :
    requireToken token = .ok done ↔
      ∃ number, token.1.int? = some number ∧ -(2 ^ 31) ≤ number ∧ number ≤ 2 ^ 31 - 1 := by
  unfold requireToken
  simp only [except_bind_eq_ok, requireInt_eq_ok, throwIf_eq_ok, and_assoc, not_lt]

theorem forM_eq_ok {α ε : Type} {check : α → Except ε Unit} {xs : List α}
    {done : Unit} : xs.forM check = .ok done ↔ ∀ x ∈ xs, check x = .ok done := by
  induction xs with
  | nil => exact ⟨fun _ _ member => (nomatch member), fun _ => rfl⟩
  | cons x xs ih =>
      change (check x >>= fun _ => xs.forM check) = _ ↔ _
      rw [except_bind_eq_ok, List.forall_mem_cons]
      exact ⟨fun ⟨_, first, rest⟩ => ⟨first, ih.mp rest⟩,
        fun ⟨first, rest⟩ => ⟨(), first, ih.mpr rest⟩⟩

/-- A prompt is accepted exactly when it lists as many tokens as counted, each in 32 bits. -/
theorem requirePromptTokens_eq_ok {count : Int} {value : Json} {done : Unit} :
    requirePromptTokens count value = .ok done ↔ value.IsPrompt count := by
  unfold requirePromptTokens Json.IsPrompt
  split
  · next none => simp [none]
  · next tokens some =>
      rw [except_bind_eq_ok]
      simp only [forM_eq_ok, throwIf_eq_ok, requireToken_eq_ok, some, Option.some.injEq]
      constructor
      · rintro ⟨-, each, length⟩
        refine ⟨tokens, rfl, not_not.mp length, fun token member => ?_⟩
        obtain ⟨index, inside, rfl⟩ := List.getElem_of_mem member
        exact each (tokens[index], index) (List.mk_mem_zipIdx_iff_getElem?.mpr (by simp [inside]))
      · rintro ⟨_, rfl, length, each⟩
        exact ⟨(), fun token member => each token.1 (List.fst_mem_of_mem_zipIdx member),
          not_not.mpr length⟩

theorem unknown_eq_nil {record : Record} :
    record.filter (fun member => decide (workloadFields.contains member.1 = false)) = [] ↔
      ∀ member ∈ record, member.1 ∈ workloadFields := by
  rw [List.filter_eq_nil_iff]
  refine forall₂_congr fun member _ => ?_
  rw [decide_eq_true_iff, Bool.not_eq_false, List.contains_iff_mem]

/-- The checks pass on exactly the accepted records. -/
theorem checkWorkloadRecord_eq_ok {record : Record} {done : Unit} :
    checkWorkloadRecord record = .ok done ↔ record.Accepted := by
  unfold checkWorkloadRecord
  simp only [except_bind_eq_ok, throwIf_eq_ok, requireInt_eq_ok, requireStr_eq_ok,
    whenPresent_eq_ok, requirePromptTokens_eq_ok, not_not]
  constructor
  · rintro ⟨-, known, -, schema, _, requestId, _, arrival, count, promptCount, _, maxNewTokens,
      name, workloadClass, -, listed, _, promptTokens, _, prefixGroup, _, deadline, metadata⟩
    have total : record.int "prompt_token_count" = count := by
      rw [Record.int, promptCount.1, Option.getD_some]
    exact {
      known := unknown_eq_nil.mp known
      schema, requestId := ⟨_, requestId⟩, arrival := ⟨_, arrival⟩
      promptCount := ⟨_, promptCount⟩, maxNewTokens := ⟨_, maxNewTokens⟩
      workloadClass := ⟨name, by simpa using listed, workloadClass.1⟩
      promptTokens := fun present => total ▸ promptTokens present
      prefixGroup := fun present =>
        let ⟨_, checked, _⟩ := prefixGroup present
        ⟨_, checked⟩
      deadline := fun present =>
        let ⟨_, checked, _⟩ := deadline present
        ⟨_, checked⟩
      metadata := fun present => by
        simpa [Option.isSome_iff_ne_none] using metadata present }
  · intro accepted
    obtain ⟨_, requestId⟩ := accepted.requestId
    obtain ⟨_, arrival⟩ := accepted.arrival
    obtain ⟨count, promptCount⟩ := accepted.promptCount
    obtain ⟨_, maxNewTokens⟩ := accepted.maxNewTokens
    obtain ⟨name, listed, workloadClass⟩ := accepted.workloadClass
    have total : record.int "prompt_token_count" = count := by
      rw [Record.int, promptCount.1, Option.getD_some]
    have named : name ≠ [] := by
      rintro rfl
      exact absurd listed (by decide)
    refine ⟨(), unknown_eq_nil.mpr accepted.known, (), accepted.schema, _, requestId, _, arrival,
      count, promptCount, _, maxNewTokens, name, ⟨workloadClass, named⟩, (), by simpa using listed,
      (), fun present => total ▸ accepted.promptTokens present, (), fun present => ?_, (),
      fun present => ?_, fun present => ?_⟩
    · obtain ⟨_, checked⟩ := accepted.prefixGroup present
      exact ⟨_, checked, rfl⟩
    · obtain ⟨_, checked⟩ := accepted.deadline present
      exact ⟨_, checked, rfl⟩
    · simpa [Option.isSome_iff_ne_none] using accepted.metadata present

/-- The order of its items does not matter to a record's acceptance. -/
theorem Record.Accepted.sorted {record : Record} (accepted : record.Accepted) :
    Record.Accepted (Json.sortedMembers record) := by
  have isInt : ∀ name, (record.get name).IsInt 0 →
      (Record.get (Json.sortedMembers record) name).IsInt 0 := fun name holds => by
    rw [Json.get_sortedMembers, Json.IsInt, Json.int?_sortKeys]
    exact holds
  have isName : ∀ name, (record.get name).IsName →
      (Record.get (Json.sortedMembers record) name).IsName := fun name holds => by
    rw [Json.get_sortedMembers, Json.IsName, Json.str?_sortKeys]
    exact holds
  exact {
    known := fun member inside => by
      obtain ⟨source, listed, same⟩ := Json.mem_keys_sortedMembers.mp ⟨member, inside, rfl⟩
      exact same ▸ accepted.known source listed
    schema := by
      rw [Json.get_sortedMembers, Json.str?_sortKeys]
      exact accepted.schema
    requestId := isName _ accepted.requestId
    arrival := isInt _ accepted.arrival
    promptCount := isInt _ accepted.promptCount
    maxNewTokens := isInt _ accepted.maxNewTokens
    workloadClass := by
      rw [Json.get_sortedMembers, Json.str?_sortKeys]
      exact accepted.workloadClass
    promptTokens := fun present => by
      rw [Json.contains_sortedMembers] at present
      obtain ⟨tokens, found, length, each⟩ := accepted.promptTokens present
      refine ⟨tokens.map Json.sortKeys, ?_, ?_, fun token inside => ?_⟩
      · rw [Json.get_sortedMembers, Json.arr?_sortKeys, found]
        rfl
      · rw [List.length_map, Record.int, Json.get_sortedMembers, Json.int?_sortKeys]
        exact length
      · obtain ⟨source, listed, rfl⟩ := List.mem_map.mp inside
        rw [Json.int?_sortKeys]
        exact each source listed
    prefixGroup := fun present =>
      isName _ (accepted.prefixGroup (Json.contains_sortedMembers record _ ▸ present))
    deadline := fun present =>
      isInt _ (accepted.deadline (Json.contains_sortedMembers record _ ▸ present))
    metadata := fun present => by
      rw [Json.get_sortedMembers, Json.isSome_obj?_sortKeys]
      exact accepted.metadata (Json.contains_sortedMembers record _ ▸ present) }

/-- A value passes exactly when it is an accepted dict, and comes back as it is. -/
theorem validateWorkloadRecord_eq_ok {value : Json} {lineNumber : Nat} {record : Record} :
    validateWorkloadRecord value lineNumber = .ok record ↔
      value = .obj record ∧ record.Accepted := by
  cases value with
  | obj members =>
      rw [← @checkWorkloadRecord_eq_ok record (), Json.obj.injEq]
      simp only [validateWorkloadRecord, Json.obj?]
      cases checked : checkWorkloadRecord members with
      | error error =>
          refine ⟨(nomatch ·), ?_⟩
          rintro ⟨rfl, again⟩
          rw [again] at checked
          cases checked
      | ok _ =>
          constructor
          · rintro ⟨⟩
            exact ⟨rfl, checked⟩
          · rintro ⟨rfl, -⟩
            rfl
  | _ => exact ⟨(nomatch ·), fun both => nomatch both.1⟩

end LlmLab.Benchmarks
