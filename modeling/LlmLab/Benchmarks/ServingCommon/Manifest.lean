import LlmLab.Benchmarks.ServingCommon.Generated
import LlmLab.Benchmarks.ServingCommon.Jsonl

/-!
# Workload manifests

`validate_workload_manifest` of `serving_common.py` accepts what `generate_serving_workload.py`
has written, after both the workload and its manifest have gone through their files.
-/

namespace LlmLab.Benchmarks

/-- `classes != {manifest_class}`. -/
def requireClass (manifestClass : Json) (records : List Record) : Except GeneratorError Unit :=
  if records.isEmpty then .ok () else do
    throwIf (manifestClass.isHashable = false) .unhashable
    refuseIf (records.any (fun record => !(record.get "workload_class").equal manifestClass) = true)
      (invalid "workload manifest workload_class mismatch")

/-- A field of `generator_config` against the manifest. -/
def requireField (manifest generatorConfig : Record) (field : String) :
    Except GeneratorError Unit :=
  let expected := manifest.get (if field = "schema_version" then "workload_schema_version" else field)
  refuseIf ((generatorConfig.get field).equal expected = false)
    (invalid ("workload manifest generator_config " ++ field ++ " mismatch"))

section Validation

variable (random : RandomSource) (sha256 : Bytes → Text)

/-- The comparison of the records with what the configuration generates. -/
def requireRegenerated (generatorConfig : Record) (records : List Record) :
    Except GeneratorError Unit := do
  let regenerated ← generateRecords random generatorConfig
  refuseIf (Json.equalItems (regenerated.1.map .obj) (records.map .obj) = false)
    (invalid "workload records do not match generator_config")

/-- `validate_workload_manifest` of accepted records; `contents` is the workload file's. -/
def validateWorkloadManifest (manifest : Record) (records : List Record) (contents : Bytes)
    (expectedSeed : Option Int) : Except GeneratorError Unit := do
  refuseIf ((manifest.get "schema_version").equal (.str (text manifestSchemaVersion)) = false)
    (invalid "incompatible workload manifest schema")
  let expectedSchema := (records.head?.map fun record => record.get "schema_version").getD
    (.str (text workloadSchemaVersion))
  refuseIf ((manifest.get "workload_schema_version").equal expectedSchema = false)
    (invalid "workload manifest schema mismatch")
  refuseIf ((manifest.get "request_count").equal (.int records.length) = false)
    (invalid "workload manifest request_count mismatch")
  refuseIf ((manifest.get "workload_sha256").equal (.str (sha256 contents)) = false)
    (invalid "workload manifest SHA-256 mismatch")
  requireClass (manifest.get "workload_class") records
  let generatorConfig ← checked (requireObject (manifest.get "generator_config")
    "workload manifest generator_config must be an object")
  ["schema_version", "workload_class", "request_count", "seed"].forM
    (requireField manifest generatorConfig)
  refuseIf ((manifest.get "seed").equal (generatorConfig.get "seed") = false)
    (invalid "workload manifest seed mismatch")
  refuseIf (expectedSeed.any (fun seed => !(manifest.get "seed").equal (.int seed)) = true)
    (invalid "workload manifest seed does not match serving run_seed")
  let arrival ← checked (requireObject (generatorConfig.get "arrival")
    "workload manifest generator arrival configuration is invalid")
  throwIf ((arrival.get "mode").isHashable = false) .unhashable
  refuseIf ((arrival.get "mode").str?.any (fun mode => arrivalModels.contains mode) = false)
    (invalid "workload manifest generator arrival configuration is invalid")
  let generator ← checked
    (requireStr (manifest.get "generator") "workload manifest generator" false)
  throwIf (manifest.contains "seed" = false) (.missingKey "seed")
  let arrivals ← arrivalTimes random generatorConfig records.length (manifest.get "seed")
  refuseIf (Json.equalItems (records.map fun record => record.get "arrival_time_us")
      (arrivals.map .int) = false)
    (invalid "workload manifest generator arrival parameters mismatch")
  if generator = text generatorName then requireRegenerated random generatorConfig records
  else .ok ()

/-- The manifest that `generate_serving_workload.py` writes beside the workload. -/
def writtenManifest (manifest : Record) (contents : Bytes) : Record :=
  manifest ++ [(text "workload_sha256", .str (sha256 contents))]

end Validation

/-! ## Values after a file -/

namespace Json

variable {value other : Json}

theorem int?_of_same (same : value.Same other) : value.int? = other.int? := by
  rw [← int?_sortKeys value, same, int?_sortKeys]

theorem str?_of_same (same : value.Same other) : value.str? = other.str? := by
  rw [← str?_sortKeys value, same, str?_sortKeys]

theorem eq_str_of_str? {s : Text} (found : value.str? = some s) : value = .str s := by
  cases value with
  | str found' => exact congrArg Json.str (Option.some.inj found)
  | _ => cases found

theorem eq_int_of_int? {number : Int} (found : value.int? = some number) : value = .int number := by
  cases value with
  | int found' => exact congrArg Json.int (Option.some.inj found)
  | _ => cases found

theorem eq_str_of_same {s : Text} (same : value.Same (.str s)) : value = .str s :=
  eq_str_of_str? (str?_of_same same)

theorem eq_int_of_same {number : Int} (same : value.Same (.int number)) : value = .int number :=
  eq_int_of_int? (int?_of_same same)

theorem eq_obj_of_same {members : Record} (same : value.Same (.obj members)) :
    ∃ items : Record, value = .obj items ∧ (Json.obj items).Same (.obj members) := by
  cases value with
  | obj items => exact ⟨items, rfl, same⟩
  | _ => simp [Same, sortKeys] at same

theorem eq_ints_of_same {numbers : List Int} (same : value.Same (.arr (numbers.map .int))) :
    value = .arr (numbers.map .int) := by
  cases value with
  | arr items =>
      unfold Same at same
      rw [sortKeys, sortKeys, sortKeysItems_eq, sortKeysItems_eq, arr.injEq] at same
      have pairs : List.Forall₂ Eq (items.map sortKeys) ((numbers.map Json.int).map sortKeys) :=
        same ▸ List.forall₂_refl _
      rw [List.map_map, List.forall₂_map_left_iff, List.forall₂_map_right_iff] at pairs
      refine congrArg Json.arr (List.forall₂_eq_eq_eq ▸ ?_)
      rw [List.forall₂_map_right_iff]
      exact pairs.imp fun _ _ sorted => eq_int_of_same sorted
  | _ => simp [Same, sortKeys] at same

end Json

namespace Record

variable {config other arrival arrival' : Record}

theorem sortedMembers_of_same (same : (Json.obj other).Same (.obj config)) :
    Json.sortedMembers other = Json.sortedMembers config :=
  Json.obj.inj same

theorem get_of_same (same : (Json.obj other).Same (.obj config)) (name : String) :
    (other.get name).Same (config.get name) := by
  rw [Json.Same, ← Json.get_sortedMembers, sortedMembers_of_same same, Json.get_sortedMembers]

theorem contains_of_same (same : (Json.obj other).Same (.obj config)) (name : String) :
    other.contains name = config.contains name := by
  rw [← Json.contains_sortedMembers, sortedMembers_of_same same, Json.contains_sortedMembers]

theorem getD_of_same (same : (Json.obj other).Same (.obj config)) (name : String) (default : Json) :
    (other.getD name default).Same (config.getD name default) := by
  unfold getD
  rw [contains_of_same same]
  split
  · exact get_of_same same name
  · rfl

theorem Configures.of_same {name : Text} {count seed : Nat}
    (configures : config.Configures name count seed) (same : (Json.obj other).Same (.obj config)) :
    other.Configures name count seed where
  known := fun member inside => by
    obtain ⟨entry, listed, key⟩ := Json.mem_keys_sortedMembers.mpr ⟨member, inside, rfl⟩
    rw [sortedMembers_of_same same] at listed
    obtain ⟨source, among, key'⟩ := Json.mem_keys_sortedMembers.mp ⟨entry, listed, key⟩
    exact key' ▸ configures.known source among
  schema := (Json.str?_of_same (get_of_same same _)).trans configures.schema
  named := (Json.str?_of_same (get_of_same same _)).trans configures.named
  listed := configures.listed
  count := (Json.int?_of_same (get_of_same same _)).trans configures.count
  seed := (Json.int?_of_same (get_of_same same _)).trans configures.seed

end Record

variable {random : RandomSource} {sha256 : Bytes → Text} {config other arrival arrival' : Record}
  {name : Text} {count seed : Nat} {start : Int} {times : List Int}

/-- A schedule does not depend on the order in which the configuration lists its items. -/
theorem Schedules.of_same {seed : Json} (schedules : Schedules random seed arrival count start times)
    (same : (Json.obj arrival').Same (.obj arrival)) :
    Schedules random seed arrival' count start times := by
  have strings := fun name => Json.str?_of_same (Record.get_of_same same name)
  have integers := fun name => Json.int?_of_same (Record.get_of_same same name)
  cases schedules with
  | burst mode => exact .burst ((strings _).trans mode)
  | fixedInterval mode every positive =>
      exact .fixedInterval ((strings _).trans mode) ((integers _).trans every) positive
  | manual mode lists =>
      have listed : arrival.get "timestamps_us" = .arr (times.map .int) := by
        have found := lists.listed
        cases value : arrival.get "timestamps_us" with
        | arr items =>
            rw [value] at found
            exact congrArg Json.arr (Option.some.inj found)
        | _ =>
            rw [value] at found
            cases found
      have kept := Json.eq_ints_of_same (listed ▸ Record.get_of_same same "timestamps_us")
      exact .manual ((strings _).trans mode)
        ⟨by rw [kept]; rfl, lists.length, lists.nonneg, lists.sorted⟩
  | exponential mode every positive length paces =>
      exact .exponential ((strings _).trans mode) ((integers _).trans every) positive length paces

theorem Record.Arrives.of_same (arrives : config.Arrives random count seed times)
    (same : (Json.obj other).Same (.obj config)) : other.Arrives random count seed times := by
  obtain ⟨arrival, start, object, starts, early, schedules⟩ := arrives
  have kept := Record.getD_of_same same "arrival" (.obj [])
  rw [object] at kept
  obtain ⟨arrival', object', same'⟩ := Json.eq_obj_of_same kept
  exact ⟨arrival', start, object',
    (Json.int?_of_same (Record.getD_of_same same' _ _)).trans starts, early,
    schedules.of_same same'⟩

/-- A schedule has a mode, so the `arrival` object is there. -/
theorem Record.Arrives.mode (arrives : config.Arrives random count seed times) :
    ∃ arrival : Record, config.get "arrival" = .obj arrival ∧
      ∃ mode ∈ arrivalModels, arrival.get "mode" = .str mode := by
  obtain ⟨arrival, start, object, -, -, schedules⟩ := arrives
  have named : ∃ mode ∈ arrivalModels, (arrival.get "mode").str? = some mode := by
    cases schedules with
    | burst mode => exact ⟨_, by decide, mode⟩
    | fixedInterval mode => exact ⟨_, by decide, mode⟩
    | manual mode => exact ⟨_, by decide, mode⟩
    | exponential mode => exact ⟨_, by decide, mode⟩
  obtain ⟨mode, listed, found⟩ := named
  unfold Record.getD at object
  split at object
  · exact ⟨arrival, object, mode, listed, Json.eq_str_of_str? found⟩
  · obtain rfl := Json.obj.inj object
    cases found

/-! ## Acceptance -/

theorem equal_str (s : Text) : (Json.str s).equal (.str s) = true :=
  Json.equal_of_same .str rfl

theorem equal_int (number : Int) : (Json.int number).equal (.int number) = true :=
  Json.equal_of_same .int rfl

/-- A generated record equals itself however its items are ordered. -/
theorem comparable_generatedRecord (name : Text) (index : Nat) (arrival : Int)
    (shape : RequestShape) : (Json.obj (generatedRecord name index arrival shape)).Comparable := by
  obtain ⟨⟨tokens, group⟩ | size, most⟩ := shape
  · refine .obj ((List.nodup_map_iff text_injective).mpr (by decide : ["schema_version",
      "request_id", "arrival_time_us", "prompt_token_count", "max_new_tokens", "workload_class",
      "prompt_tokens", "prefix_group"].Nodup)) ?_
    have exact : (Json.arr (tokens.map .int)).Comparable := .arr fun item inside => by
      obtain ⟨token, -, rfl⟩ := List.mem_map.mp inside
      exact .int
    simp only [generatedRecord, List.cons_append, List.nil_append, List.forall_mem_cons]
    exact ⟨.str, .str, .int, .int, .int, .str, exact, .str, List.forall_mem_nil _⟩
  · refine .obj ((List.nodup_map_iff text_injective).mpr (by decide : ["schema_version",
      "request_id", "arrival_time_us", "prompt_token_count", "max_new_tokens",
      "workload_class"].Nodup)) ?_
    simp only [generatedRecord, List.append_nil, List.forall_mem_cons]
    exact ⟨.str, .str, .int, .int, .int, .str, List.forall_mem_nil _⟩

theorem forM_requireField {manifest generatorConfig : Record} {fields : List String} {done : Unit}
    (each : ∀ field ∈ fields, (generatorConfig.get field).equal (manifest.get
      (if field = "schema_version" then "workload_schema_version" else field)) = true) :
    fields.forM (requireField manifest generatorConfig) = .ok done := by
  induction fields with
  | nil => rfl
  | cons field fields ih =>
      rw [List.forall_mem_cons] at each
      change (requireField manifest generatorConfig field >>= fun _ => fields.forM _) = _
      rw [except_bind_eq_ok]
      exact ⟨(), refuseIf_eq_ok.mpr (by rw [each.1]; decide), ih each.2⟩

section Acceptance

variable {read : List Record} {manifest stored : Record} {contents : Bytes}

/-- The records read from a file that holds a generated workload. -/
def ReadGenerated (random : RandomSource) (name : Text) (seed : Nat) (times : List Int)
    (read : List Record) : Prop :=
  List.Forall₂ (fun record entry => (Json.obj record).Same (.obj (generatedAt random name seed entry)))
    read times.zipIdx

theorem ReadGenerated.length_eq (same : ReadGenerated random name seed times read) :
    read.length = times.length := by
  rw [List.Forall₂.length_eq same, List.length_zipIdx]

/-- A string that all generated records have under a name. -/
theorem ReadGenerated.str (same : ReadGenerated random name seed times read) {field : String}
    {value : Text} (each : ∀ entry, (generatedAt random name seed entry).get field = .str value) :
    ∀ record ∈ read, record.get field = .str value := fun record member => by
  obtain ⟨entry, -, agrees⟩ := exists_mem_of_forall₂ same.flip member
  exact Json.eq_str_of_same (each entry ▸ Record.get_of_same agrees field)

theorem ReadGenerated.arrivals (same : ReadGenerated random name seed times read) :
    Json.equalItems (read.map fun record => record.get "arrival_time_us") (times.map .int) = true := by
  have mapped : times.map Json.int = times.zipIdx.map fun entry => Json.int entry.1 := by
    conv_lhs => rw [← List.zipIdx_map_fst 0 times, List.map_map]
    rfl
  rw [mapped]
  refine Json.equalItems_of_forall₂ ?_
  rw [List.forall₂_map_left_iff, List.forall₂_map_right_iff]
  refine List.Forall₂.imp (fun record entry agrees => ?_) same
  have kept : record.get "arrival_time_us" = .int entry.1 :=
    Json.eq_int_of_same (Record.get_of_same agrees "arrival_time_us")
  rw [kept]
  exact equal_int entry.1

theorem ReadGenerated.regenerated (same : ReadGenerated random name seed times read) :
    Json.equalItems ((generatedWorkload random name seed times).map .obj) (read.map .obj) = true := by
  refine Json.equalItems_of_forall₂ ?_
  rw [generatedWorkload, List.map_map, List.forall₂_map_left_iff, List.forall₂_map_right_iff]
  exact List.Forall₂.flip (List.Forall₂.imp (fun record entry agrees =>
    Json.equal_of_same (comparable_generatedRecord _ _ _ _) agrees.symm) same)

theorem requireClass_eq_ok {manifestClass : Json} {done : Unit}
    (hashable : manifestClass.isHashable = true)
    (each : ∀ record ∈ read, (record.get "workload_class").equal manifestClass = true) :
    requireClass manifestClass read = .ok done := by
  unfold requireClass
  split
  · rfl
  · rw [except_bind_eq_ok]
    refine ⟨(), throwIf_eq_ok.mpr (by simp [hashable]), refuseIf_eq_ok.mpr ?_⟩
    rw [List.any_eq_true]
    rintro ⟨record, member, differs⟩
    rw [each record member] at differs
    cases differs

/-- What a stored copy of a generated manifest says. -/
structure Stores (sha256 : Bytes → Text) (config : Record) (name : Text) (count seed : Nat)
    (contents : Bytes) (stored : Record) : Prop where
  schema : stored.get "schema_version" = .str (text manifestSchemaVersion)
  workloadSchema : stored.get "workload_schema_version" = .str (text workloadSchemaVersion)
  workloadClass : stored.get "workload_class" = .str name
  count : stored.get "request_count" = .int count
  seed : stored.get "seed" = .int seed
  seeded : stored.contains "seed" = true
  digest : stored.get "workload_sha256" = .str (sha256 contents)
  generator : stored.get "generator" = .str (text generatorName)
  config : ∃ inner : Record,
    stored.get "generator_config" = .obj inner ∧ (Json.obj inner).Same (.obj config)

theorem Stores.of_same (same : (Json.obj stored).Same
      (.obj (writtenManifest sha256 (generatedManifest config name count seed) contents))) :
    Stores sha256 config name count seed contents stored where
  schema := Json.eq_str_of_same (Record.get_of_same same "schema_version")
  workloadSchema := Json.eq_str_of_same (Record.get_of_same same "workload_schema_version")
  workloadClass := Json.eq_str_of_same (Record.get_of_same same "workload_class")
  count := Json.eq_int_of_same (Record.get_of_same same "request_count")
  seed := Json.eq_int_of_same (Record.get_of_same same "seed")
  seeded := Record.contains_of_same same "seed"
  digest := Json.eq_str_of_same (Record.get_of_same same "workload_sha256")
  generator := Json.eq_str_of_same (Record.get_of_same same "generator")
  config := Json.eq_obj_of_same (Record.get_of_same same "generator_config")

/-- The fields that the manifest and its configuration share agree. -/
theorem Stores.agrees {inner : Record} (stores : Stores sha256 config name count seed contents stored)
    (configures : inner.Configures name count seed) :
    ∀ field ∈ ["schema_version", "workload_class", "request_count", "seed"],
      (inner.get field).equal (stored.get
        (if field = "schema_version" then "workload_schema_version" else field)) = true := by
  have schema : inner.get "schema_version" = .str (text workloadSchemaVersion) :=
    Json.eq_str_of_str? configures.schema
  have named : inner.get "workload_class" = .str name := Json.eq_str_of_str? configures.named
  have counted : inner.get "request_count" = .int count := Json.eq_int_of_int? configures.count
  have seeded : inner.get "seed" = .int seed := Json.eq_int_of_int? configures.seed
  simp only [List.forall_mem_cons]
  refine ⟨?_, ?_, ?_, ?_, List.forall_mem_nil _⟩
  · rw [if_pos trivial, schema, stores.workloadSchema, equal_str]
  · rw [if_neg (by decide), named, stores.workloadClass, equal_str]
  · rw [if_neg (by decide), counted, stores.count, equal_int]
  · rw [if_neg (by decide), seeded, stores.seed, equal_int]

theorem ReadGenerated.schema (same : ReadGenerated random name seed times read) :
    (read.head?.map fun record => record.get "schema_version").getD
      (.str (text workloadSchemaVersion)) = .str (text workloadSchemaVersion) := by
  cases read with
  | nil => rfl
  | cons record read => exact same.str (fun _ => rfl) record List.mem_cons_self

/-- The read records pass the check against a stored copy of their manifest. -/
theorem validateWorkloadManifest_of_read {expectedSeed : Option Int}
    (configures : config.Configures name count seed)
    (arrives : config.Arrives random count seed times)
    (few : ∀ limit ∈ (WorkloadClass.ofText name).countLimit, count ≤ limit)
    (stores : Stores sha256 config name count seed contents stored)
    (readSame : ReadGenerated random name seed times read)
    (expected : ∀ value ∈ expectedSeed, value = seed) :
    validateWorkloadManifest random sha256 stored read contents expectedSeed = .ok () := by
  obtain ⟨inner, object, innerSame⟩ := stores.config
  have innerConfigures := configures.of_same innerSame
  have innerArrives := arrives.of_same innerSame
  have innerSeed : inner.get "seed" = .int seed := Json.eq_int_of_int? innerConfigures.seed
  obtain ⟨arrival, arrivalObject, mode, listed, named⟩ := innerArrives.mode
  have length : read.length = count := readSame.length_eq.trans arrives.schedule.1
  have regenerated : generateRecords random inner =
      .ok (generatedWorkload random name seed times, generatedManifest inner name count seed) :=
    generateRecords_eq_ok.mpr ⟨name, count, seed, times, innerConfigures, innerArrives, few, rfl, rfl⟩
  unfold validateWorkloadManifest requireRegenerated
  simp only [except_bind_eq_ok, refuseIf_eq_ok, throwIf_eq_ok, checked_eq_ok, requireObject_eq_ok,
    requireStr_eq_ok]
  refine ⟨(), by rw [stores.schema, equal_str]; decide, (), ?_, (), ?_, (),
    by rw [stores.digest, equal_str]; decide, (), ?_, inner, object, (),
    forM_requireField (stores.agrees innerConfigures), (), ?_, (), ?_, arrival, arrivalObject, (),
    ?_, (), ?_, text generatorName, ⟨by rw [stores.generator]; rfl, by decide⟩, (), ?_, times, ?_,
    (), ?_, ?_⟩
  · rw [stores.workloadSchema, readSame.schema, equal_str]
    decide
  · rw [stores.count, length, equal_int]
    decide
  · rw [stores.workloadClass]
    refine requireClass_eq_ok rfl fun record member => ?_
    rw [readSame.str (fun _ => rfl) record member, equal_str]
  · rw [stores.seed, innerSeed, equal_int]
    decide
  · rw [stores.seed, Option.any_eq_true]
    rintro ⟨value, found, differs⟩
    rw [expected value found, equal_int] at differs
    cases differs
  · rw [named]
    exact Bool.noConfusion
  · rw [named]
    change ¬ (arrivalModels.contains mode = false)
    rw [Bool.not_eq_false]
    exact List.contains_iff_mem.mpr listed
  · rw [stores.seeded]
    exact Bool.noConfusion
  · rw [length, stores.seed]
    exact arrivalTimes_eq_ok.mpr innerArrives
  · rw [readSame.arrivals]
    decide
  · rw [if_pos rfl, except_bind_eq_ok]
    exact ⟨_, regenerated, refuseIf_eq_ok.mpr (by rw [readSame.regenerated]; decide)⟩

end Acceptance

/-! ## The workload file -/

theorem ascii_generatedId (known : name ∈ workloadClasses) (index : Nat) :
    Ascii (generatedId name index) := by
  refine ascii_append (ascii_append (ascii_workloadClass known) (ascii_text rfl)) fun c member => ?_
  obtain ⟨digit, inside, rfl⟩ := List.mem_map.mp member
  exact Nat.lt_of_le_of_lt (digit_bounds (isDigit_of_mem_padded inside)).2 (by decide)

theorem ascii_groupName (workloadClass : WorkloadClass) (index : Nat) :
    Ascii (text (workloadClass.groupName (workloadClass.groupOf index))) := by
  cases workloadClass with
  | codingAgent =>
      change Ascii (text ("coding-tools-" ++ toString (index % 2)))
      rcases Nat.mod_two_eq_zero_or_one index with even | odd
      · rw [even]
        exact ascii_text rfl
      · rw [odd]
        exact ascii_text rfl
  | sharedSystemPrompt => exact (ascii_text rfl : Ascii (text "shared-system-v1"))
  | _ => exact (ascii_text rfl : Ascii (text "mixed-coding"))

/-- Everything a generated record says is ASCII. -/
theorem ascii_generatedAt (known : name ∈ workloadClasses) (entry : Int × Nat) :
    (Json.obj (generatedAt random name seed entry)).EachString Ascii := by
  have exact := @exactPrompt random entry.2 (.ofText name) (recordSeed seed)
  unfold generatedAt generatedRecord
  generalize requestShape random (.ofText name) (recordSeed seed) entry.2 = shape at *
  have ids := ascii_generatedId known entry.2
  have classes := ascii_workloadClass known
  obtain ⟨⟨tokens, group⟩ | size, most⟩ := shape
  · have named : Ascii (text group) := by
      rw [(exact rfl).named]
      exact ascii_groupName _ _
    refine Json.eachString_obj.mpr ?_
    simp only [List.cons_append, List.nil_append, List.forall_mem_cons]
    exact ⟨⟨ascii_text rfl, Json.eachString_str.mpr (ascii_text rfl)⟩,
      ⟨ascii_text rfl, Json.eachString_str.mpr ids⟩, ⟨ascii_text rfl, Json.eachString_int⟩,
      ⟨ascii_text rfl, Json.eachString_int⟩, ⟨ascii_text rfl, Json.eachString_int⟩,
      ⟨ascii_text rfl, Json.eachString_str.mpr classes⟩, ⟨ascii_text rfl, Json.eachString_ints⟩,
      ⟨ascii_text rfl, Json.eachString_str.mpr named⟩, List.forall_mem_nil _⟩
  · refine Json.eachString_obj.mpr ?_
    simp only [List.append_nil, List.forall_mem_cons]
    exact ⟨⟨ascii_text rfl, Json.eachString_str.mpr (ascii_text rfl)⟩,
      ⟨ascii_text rfl, Json.eachString_str.mpr ids⟩, ⟨ascii_text rfl, Json.eachString_int⟩,
      ⟨ascii_text rfl, Json.eachString_int⟩, ⟨ascii_text rfl, Json.eachString_int⟩,
      ⟨ascii_text rfl, Json.eachString_str.mpr classes⟩, List.forall_mem_nil _⟩

theorem oneLine_generatedAt (known : name ∈ workloadClasses) (entry : Int × Nat) :
    (generatedAt random name seed entry).OneLine :=
  oneLine_iff_eachString.mpr fun s found => unbroken_of_ascii (ascii_generatedAt known entry s found)

theorem ascii_line (known : name ∈ workloadClasses) (entry : Int × Nat) :
    Ascii (generatedAt random name seed entry).line := by
  intro c printed
  rcases (Json.shown_compact printed).2 with plain | mentioned
  · exact Nat.lt_trans plain (by decide)
  · obtain ⟨s, found, inside⟩ := Json.mentions_sortKeys.mp mentioned
    exact ascii_generatedAt known entry s found c inside

/-- All other integers of a generated record are small: it prints when its arrival time does. -/
theorem printable_generatedAt {entry : Int × Nat}
    (accepted : (generatedAt random name seed entry).Accepted) :
    (Json.obj (generatedAt random name seed entry)).Printable ↔ PrintableInt entry.1 := by
  have sound := requestShape_sound random (.ofText name) (recordSeed seed) entry.2
  have printed : ∀ {number : Int}, -(2 ^ 31) ≤ number → number ≤ 2 ^ 31 - 1 →
      (Json.int number).Printable := fun low high =>
    Json.printable_int.mpr (printableInt_of_lt (by omega))
  have others : ∀ {s : Text}, (Json.str s).Printable := List.forall_mem_nil _
  have promptTokens := accepted.promptTokens
  unfold generatedAt generatedRecord at promptTokens ⊢
  generalize requestShape random (.ofText name) (recordSeed seed) entry.2 = shape at *
  have outputs := @printed shape.maxNewTokens (by have := sound.bounded; omega)
    (by have := sound.bounded; omega)
  obtain ⟨⟨tokens, group⟩ | size, most⟩ := shape
  · have short := (sound.grouped tokens group rfl).2
    have counts := @printed (tokens.length : Int) (by omega) (by omega)
    have exact : (Json.arr (tokens.map .int)).Printable := by
      obtain ⟨_, listed, -, each⟩ := promptTokens rfl
      obtain rfl := Option.some.inj listed
      refine Json.printable_arr.mpr fun item member => ?_
      obtain ⟨number, found, low, high⟩ := each item member
      rw [Json.eq_int_of_int? found]
      exact printed low high
    rw [Json.printable_obj]
    simp only [List.cons_append, List.nil_append, List.forall_mem_cons, Json.printable_int]
    exact ⟨fun each => each.2.2.1, fun arrival => ⟨others, others, arrival,
      Json.printable_int.mp counts, Json.printable_int.mp outputs, others, exact, others,
      List.forall_mem_nil _⟩⟩
  · have bounds := sound.counted size rfl
    have counts := @printed size (by omega) (by omega)
    rw [Json.printable_obj]
    simp only [List.append_nil, List.forall_mem_cons, Json.printable_int]
    exact ⟨fun each => each.2.2.1, fun arrival => ⟨others, others, arrival,
      Json.printable_int.mp counts, Json.printable_int.mp outputs, others,
      List.forall_mem_nil _⟩⟩

/-- A generated workload is written exactly when its arrival times print. -/
theorem writeWorkload_generated (known : name ∈ workloadClasses)
    (accepted : ∀ record ∈ generatedWorkload random name seed times, record.Accepted)
    (force : Bool) :
    (∃ contents, writeWorkload (generatedWorkload random name seed times) false force =
      .ok contents) ↔
        ∀ record ∈ generatedWorkload random name seed times,
          PrintableInt (record.int "arrival_time_us") := by
  have ascii : Ascii (terminated lineFeed
      ((generatedWorkload random name seed times).map Record.line)) := by
    intro c member
    obtain ⟨line, listed, inside⟩ := List.mem_flatMap.mp member
    obtain ⟨record, among, rfl⟩ := List.mem_map.mp listed
    obtain ⟨entry, -, rfl⟩ := List.mem_map.mp among
    rcases List.mem_append.mp inside with printed | ending
    · exact ascii_line known entry c printed
    · rw [List.mem_singleton.mp ending]
      decide
  obtain ⟨bytes, encoded⟩ := encodeUtf8_of_ascii ascii
  have fit : (∀ record ∈ generatedWorkload random name seed times, (Json.obj record).Printable) ↔
      ∀ record ∈ generatedWorkload random name seed times,
        PrintableInt (record.int "arrival_time_us") := by
    refine forall₂_congr fun record member => ?_
    obtain ⟨entry, -, rfl⟩ := List.mem_map.mp member
    exact printable_generatedAt (accepted _ member)
  simp only [writeWorkload_eq_ok, encoded, ← fit]
  exact ⟨fun written => written.elim fun _ parts => parts.2.1,
    fun each => ⟨bytes, fun present => (by cases present), each, rfl⟩⟩

/-- A generated workload is written unless one of its arrival times has more digits than `str`
prints; what is written is read back as the same records, and passes the check against its
manifest, however a JSON file has ordered the manifest's items. -/
theorem generatedWorkload_validates {records : List Record} {manifest : Record}
    {loads : Text → Except String Json} (sha256 : Bytes → Text) (force : Bool)
    (generated : generateRecords random config = .ok (records, manifest))
    (inverts : Inverts loads records) :
    ((∃ contents, writeWorkload records false force = .ok contents) ↔
      ∀ record ∈ records, PrintableInt (record.int "arrival_time_us")) ∧
    ∀ contents, writeWorkload records false force = .ok contents →
      ∃ read, readWorkload loads contents = .ok read ∧ ReadBack read records ∧
        ∀ (stored : Record) (expectedSeed : Option Int),
          (Json.obj stored).Same (.obj (writtenManifest sha256 manifest contents)) →
          (∀ value ∈ expectedSeed, (config.get "seed").int? = some value) →
          validateWorkloadManifest random sha256 stored read contents expectedSeed = .ok () := by
  obtain ⟨name, count, seed, times, configures, arrives, few, rfl, rfl⟩ :=
    generateRecords_eq_ok.mp generated
  have accepted := @accepted_generatedWorkload random config count times name seed
    configures.listed arrives few
  refine ⟨writeWorkload_generated configures.listed accepted force, fun contents written => ?_⟩
  have result := readWorkload_of_oneLine accepted nodup_generatedWorkload inverts written
    fun record member => by
      obtain ⟨entry, -, rfl⟩ := List.mem_map.mp member
      exact oneLine_generatedAt configures.listed entry
  have same := @readBack_sortedMembers (generatedWorkload random name seed times)
  refine ⟨_, result, same, fun stored expectedSeed agrees expected => ?_⟩
  refine validateWorkloadManifest_of_read configures arrives few (.of_same agrees) ?_ fun value found => ?_
  · unfold ReadBack generatedWorkload at same
    rwa [List.forall₂_map_right_iff] at same
  · exact Option.some.inj ((expected value found).symm.trans configures.seed)

/-- Two requests one microsecond apart. -/
def intervalConfig (start : Int) : Record :=
  [(text "schema_version", .str (text workloadSchemaVersion)),
    (text "workload_class", .str (text "burst")), (text "request_count", .int 2),
    (text "seed", .int 7), (text "arrival", .obj [(text "mode", .str (text "fixed_interval")),
      (text "start_time_us", .int start), (text "interval_us", .int 1)])]

def intervalWorkload (start : Int) : List Record :=
  generatedWorkload steady (text "burst") 7 ((List.range 2).map fun index : Nat => start + index * 1)

theorem arrives_intervalConfig {start : Int} (early : 0 ≤ start) :
    (intervalConfig start).Arrives steady 2 7
      ((List.range 2).map fun index : Nat => start + index * 1) :=
  ⟨_, start, rfl, rfl, early, .fixedInterval rfl rfl le_rfl⟩

theorem generateRecords_intervalConfig {start : Int} (early : 0 ≤ start) :
    generateRecords steady (intervalConfig start) = .ok (intervalWorkload start,
      generatedManifest (intervalConfig start) (text "burst") 2 7) :=
  generateRecords_eq_ok.mpr ⟨text "burst", 2, 7, _,
    ⟨by simp [intervalConfig, generatorFields], rfl, rfl, by decide, rfl, rfl⟩,
    arrives_intervalConfig early, fun _ none => (nomatch none), rfl, rfl⟩

/-- Two requests at one interval; from a start of 4300 digits the second one is not printed. -/
theorem generatedWorkload_validates_interval :
    (∃ contents, writeWorkload (intervalWorkload 0) false false = .ok contents ∧
      ∃ read, readWorkload (loadsAmong (intervalWorkload 0)) contents = .ok read ∧
        ReadBack read (intervalWorkload 0) ∧
        ∀ (stored : Record) (expectedSeed : Option Int),
          (Json.obj stored).Same (.obj (writtenManifest (fun _ => text "digest")
            (generatedManifest (intervalConfig 0) (text "burst") 2 7) contents)) →
          (∀ value ∈ expectedSeed, ((intervalConfig 0).get "seed").int? = some value) →
          validateWorkloadManifest steady (fun _ => text "digest") stored read contents
            expectedSeed = .ok ()) ∧
    ¬ ∃ contents, writeWorkload (intervalWorkload ((10 : Int) ^ maxStrDigits - 1)) false false =
      .ok contents := by
  constructor
  · obtain ⟨writes, passes⟩ := generatedWorkload_validates (fun _ => text "digest") false
      (generateRecords_intervalConfig le_rfl) (inverts_loadsAmong (by decide +kernel))
    obtain ⟨contents, written⟩ := writes.mpr (by decide +kernel)
    exact ⟨contents, written, passes contents written⟩
  · have early : 0 ≤ (10 : Int) ^ maxStrDigits - 1 := Int.sub_nonneg.mpr (Int.pow_pos (by decide))
    have accepted := @accepted_generatedWorkload steady _ 2 _ (text "burst") 7 (by decide)
      (arrives_intervalConfig early) (fun _ none => nomatch none)
    rw [intervalWorkload, writeWorkload_generated (by decide) accepted]
    intro each
    -- The second request arrives at the least integer that is too long.
    have second := printableInt_iff.mp (each _ (List.mem_cons_of_mem _ (List.mem_singleton_self _)))
    change ((10 : Int) ^ maxStrDigits - 1 + (1 : Nat) * 1).natAbs < _ at second
    rw [show (10 : Int) ^ maxStrDigits - 1 + (1 : Nat) * 1 = (10 ^ maxStrDigits : Nat) by
      push_cast; omega, Int.natAbs_natCast] at second
    exact lt_irrefl _ second

end LlmLab.Benchmarks
