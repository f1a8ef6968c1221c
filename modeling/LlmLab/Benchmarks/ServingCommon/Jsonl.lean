import LlmLab.Benchmarks.ServingCommon.Workload

/-!
# Workload files

`write_workload` and `read_workload` of `serving_common.py`: one record a line, printed by
`canonical_json`.  The writer ends each line with a line feed; the reader cuts the file at every
line boundary that `str.splitlines` knows, and three of those are not escaped in a JSON string.
-/

namespace LlmLab.Benchmarks

/-- What reading and writing a workload raises. -/
inductive WorkloadError where
  | validation (error : ValidationError)
  | fileExists (message : String)
  /-- `ValueError`: an integer too long to be printed. -/
  | valueError (message : String)
  | unicodeEncode
  | unicodeDecode

/-- `write_workload`: what the file holds afterwards. -/
def writeWorkload (records : List Record) (present force : Bool) : Except WorkloadError Bytes := do
  throwIf (present = true ∧ force = false) (.fileExists "refusing to overwrite; use --force")
  let lines ← (records.mapM fun record => (Json.obj record).canonicalJson).mapError .valueError
  match encodeUtf8 (lines.flatMap fun line => line ++ [lineFeed]) with
  | none => .error .unicodeEncode
  | some bytes => .ok bytes

section Reading

-- `json.loads`, or the message of its `JSONDecodeError`.
variable (loads : Text → Except String Json)

/-- The loop body of `read_workload`; `seen` holds the request ids of the records read so far. -/
def readWorkloadLine (records : List Record) (line : Text × Nat) :
    Except ValidationError (List Record) := do
  let context := "JSONL line " ++ toString line.2 ++ ": "
  throwIf (line.1.all isSpace = true) (invalid (context ++ "blank lines are not allowed"))
  let value ← (loads line.1).mapError fun message =>
    invalid (context ++ "malformed JSON: " ++ message)
  let record ← validateWorkloadRecord value line.2
  throwIf (record.str "request_id" ∈ records.map fun seen => seen.str "request_id")
    ⟨context ++ "duplicate request_id", [record.get "request_id"]⟩
  return records ++ [record]

/-- `read_workload`. -/
def readWorkload (contents : Bytes) : Except WorkloadError (List Record) :=
  match decodeUtf8 contents with
  | none => .error .unicodeDecode
  | some t => (((splitlines (universalNewlines t)).zipIdx 1).foldlM (readWorkloadLine loads)
      []).mapError .validation

end Reading

/-! ## The lines of a written workload -/

/-- The line boundaries that a JSON string shows as they are. -/
def unescapedBoundaries : List Nat := [0x85, 0x2028, 0x2029]

/-- What a record prints as. -/
def Record.line (record : Record) : Text := (Json.obj record).sortKeys.compact Json.dumpsFormat

/-- A record none of whose strings contains such a boundary. -/
def Record.OneLine (record : Record) : Prop :=
  ∀ c, (Json.obj record).Mentions c → c.val ∉ unescapedBoundaries

variable {record : Record} {records : List Record} {c : CodePoint}

theorem isLineBoundary_iff :
    isLineBoundary c = true ↔ c.val < 0x20 ∧ isLineBoundary c = true ∨ c.val ∈ unescapedBoundaries := by
  simp only [isLineBoundary, unescapedBoundaries, List.contains_iff_mem, List.mem_cons,
    List.not_mem_nil, or_false]
  omega

/-- A printed value is one line exactly when its strings contain no unescaped boundary. -/
theorem clean_compact_iff {format : NumeralFormat} {value : Json} :
    (∀ c ∈ value.compact format, isLineBoundary c = false) ↔
      ∀ c, value.Mentions c → c.val ∉ unescapedBoundaries := by
  constructor
  · intro clean c mentioned unescaped
    have high : 0x7f ≤ c.val := by
      simp only [unescapedBoundaries, List.mem_cons, List.not_mem_nil, or_false] at unescaped
      omega
    exact Bool.eq_false_iff.mp (clean c (Json.mem_compact high mentioned))
      (isLineBoundary_iff.mpr (Or.inr unescaped))
  · intro oneLine c printed
    have shown := Json.shown_compact printed
    refine Bool.eq_false_iff.mpr fun boundary => ?_
    rcases isLineBoundary_iff.mp boundary with ⟨low, -⟩ | unescaped
    · exact absurd shown.1 (Nat.not_le_of_lt low)
    · rcases shown.2 with ascii | mentioned
      · simp only [unescapedBoundaries, List.mem_cons, List.not_mem_nil, or_false] at unescaped
        omega
      · exact oneLine c mentioned unescaped

/-- A text without an unescaped boundary. -/
def Unbroken (s : Text) : Prop := ∀ c ∈ s, c.val ∉ unescapedBoundaries

theorem unbroken_of_ascii {s : Text} (ascii : Ascii s) : Unbroken s := by
  intro c inside boundary
  have low := ascii c inside
  simp only [unescapedBoundaries, List.mem_cons, List.not_mem_nil, or_false] at boundary
  omega

theorem oneLine_iff_eachString : record.OneLine ↔ (Json.obj record).EachString Unbroken :=
  ⟨fun oneLine s found c inside => oneLine c ⟨s, found, inside⟩,
    fun each c mentioned => mentioned.elim fun s both => each s both.1 c both.2⟩

theorem carriageReturn_notMem_compact {format : NumeralFormat} {value : Json} :
    carriageReturn ∉ value.compact format :=
  fun printed => absurd (Json.shown_compact printed).1 (by decide)

/-- A file of lines without carriage returns is cut at its line boundaries. -/
theorem splitlines_terminated {lines : List Text}
    (absent : ∀ line ∈ lines, carriageReturn ∉ line) :
    splitlines (universalNewlines (terminated lineFeed lines)) =
      linesBy isLineBoundary (terminated lineFeed lines) := by
  have nowhere : carriageReturn ∉ terminated lineFeed lines := by
    intro member
    obtain ⟨line, listed, inside⟩ := List.mem_flatMap.mp member
    rcases List.mem_append.mp inside with printed | ending
    · exact absent line listed printed
    · exact absurd (List.mem_singleton.mp ending) (by decide)
  rw [universalNewlines_of_notMem nowhere, splitlines, joinCrLf_of_notMem nowhere]

theorem oneLine_iff : record.OneLine ↔ ∀ c ∈ record.line, isLineBoundary c = false := by
  rw [Record.line, clean_compact_iff]
  exact forall_congr' fun c => imp_congr_left Json.mentions_sortKeys.symm

theorem oneLine_iff_all :
    record.OneLine ↔ record.line.all (fun c => !isLineBoundary c) = true := by
  rw [oneLine_iff, List.all_eq_true]
  exact forall₂_congr fun c _ => by rw [Bool.not_eq_true']

/-- Records print when all their integers do. -/
theorem mapM_canonicalJson_eq_ok {lines : List Text} :
    (records.mapM fun record => (Json.obj record).canonicalJson) = .ok lines ↔
      lines = records.map Record.line ∧ ∀ record ∈ records, (Json.obj record).Printable :=
  mapM_eq_ok_iff fun record _ line => by
    rw [Json.canonicalJson_eq_ok, Record.line, eq_comm, and_comm]

/-- When a workload is written, and as which bytes. -/
theorem writeWorkload_eq_ok {present force : Bool} {contents : Bytes} :
    writeWorkload records present force = .ok contents ↔ (present = true → force = true) ∧
      (∀ record ∈ records, (Json.obj record).Printable) ∧
      encodeUtf8 (terminated lineFeed (records.map Record.line)) = some contents := by
  unfold writeWorkload
  simp only [except_bind_eq_ok, throwIf_eq_ok, mapError_eq_ok, mapM_canonicalJson_eq_ok]
  constructor
  · rintro ⟨-, absent, lines, ⟨rfl, fit⟩, encoded⟩
    refine ⟨by simpa using absent, fit, ?_⟩
    split at encoded
    · cases encoded
    · next bytes found =>
        rw [terminated, found, Except.ok.inj encoded]
  · rintro ⟨absent, fit, encoded⟩
    refine ⟨(), by simpa using absent, _, ⟨rfl, fit⟩, ?_⟩
    rw [terminated] at encoded
    rw [encoded]

/-- What `read_workload` sees of a written file. -/
theorem writeWorkload_lines {present force : Bool} {contents : Bytes}
    (written : writeWorkload records present force = .ok contents) :
    decodeUtf8 contents = some (terminated lineFeed (records.map Record.line)) := by
  obtain ⟨-, -, encoded⟩ := writeWorkload_eq_ok.mp written
  exact decodeUtf8_encodeUtf8 encoded

theorem splitlines_lines :
    splitlines (universalNewlines (terminated lineFeed (records.map Record.line))) =
      linesBy isLineBoundary (terminated lineFeed (records.map Record.line)) :=
  splitlines_terminated fun _ listed => by
    obtain ⟨record, -, rfl⟩ := List.mem_map.mp listed
    exact carriageReturn_notMem_compact

/-! ## Reading back -/

theorem str_sortedMembers (record : Record) (name : String) :
    Record.str (Json.sortedMembers record) name = record.str name := by
  rw [Record.str, Record.str, Json.get_sortedMembers, Json.str?_sortKeys]

section ReadBack

variable {loads : Text → Except String Json}

/-- A line that holds one printed record is read as that record. -/
theorem readWorkloadLine_printed {seen : List Record} {lineNumber : Nat}
    (accepted : record.Accepted) (inverts : loads record.line = .ok (Json.obj record).sortKeys)
    (fresh : record.str "request_id" ∉ seen.map fun other => other.str "request_id") :
    readWorkloadLine loads seen (record.line, lineNumber) =
      .ok (seen ++ [Json.sortedMembers record]) := by
  have visible : ¬ (record.line.all isSpace = true) := by
    intro blank
    have opening : codePoint '\x7b' ∈ record.line :=
      List.mem_append_left _ (List.mem_append_left _ (List.mem_singleton_self _))
    exact absurd (List.all_eq_true.mp blank _ opening) (by decide)
  have valid : validateWorkloadRecord (Json.obj record).sortKeys lineNumber =
      .ok (Json.sortedMembers record) :=
    validateWorkloadRecord_eq_ok.mpr ⟨Json.sortKeys_obj record, accepted.sorted⟩
  rw [readWorkloadLine, throwIf_of_not visible, inverts]
  simp only [except_ok_bind, Except.mapError, valid]
  rw [throwIf_of_not (by rw [str_sortedMembers]; exact fresh)]
  rfl

/-- As many records are read as there are lines. -/
theorem length_of_readWorkloadLines {lines : List (Text × Nat)} {seen read : List Record}
    (result : lines.foldlM (readWorkloadLine loads) seen = .ok read) :
    read.length = seen.length + lines.length := by
  induction lines generalizing seen with
  | nil =>
      obtain rfl := Except.ok.inj result
      rfl
  | cons line lines ih =>
      rw [List.foldlM_cons] at result
      obtain ⟨next, step, rest⟩ := except_bind_eq_ok.mp result
      have grown : next.length = seen.length + 1 := by
        simp only [readWorkloadLine, except_bind_eq_ok] at step
        obtain ⟨-, -, _, -, record, -, -, -, appended⟩ := step
        rw [← Except.ok.inj appended, List.length_append, List.length_singleton]
      rw [ih rest, grown, List.length_cons]
      omega

/-- Lines that are all read give accepted records with distinct ids. -/
theorem accepted_of_readWorkloadLines {lines : List (Text × Nat)} {seen read : List Record}
    (accepted : ∀ record ∈ seen, record.Accepted)
    (distinct : (seen.map fun record => record.str "request_id").Nodup)
    (result : lines.foldlM (readWorkloadLine loads) seen = .ok read) :
    (∀ record ∈ read, record.Accepted) ∧
      (read.map fun record => record.str "request_id").Nodup := by
  induction lines generalizing seen with
  | nil =>
      obtain rfl := Except.ok.inj result
      exact ⟨accepted, distinct⟩
  | cons line lines ih =>
      rw [List.foldlM_cons] at result
      obtain ⟨next, first, rest⟩ := except_bind_eq_ok.mp result
      unfold readWorkloadLine at first
      obtain ⟨_, -, first⟩ := except_bind_eq_ok.mp first
      obtain ⟨value, -, first⟩ := except_bind_eq_ok.mp first
      obtain ⟨record, valid, first⟩ := except_bind_eq_ok.mp first
      obtain ⟨_, new, first⟩ := except_bind_eq_ok.mp first
      obtain rfl := Except.ok.inj first
      refine ih (List.forall_mem_append.mpr ⟨accepted, List.forall_mem_singleton.mpr
        (validateWorkloadRecord_eq_ok.mp valid).2⟩) ?_ rest
      rw [List.map_append, List.map_singleton, ← List.concat_eq_append]
      exact distinct.concat (throwIf_eq_ok.mp new)

/-- The records of a workload that is read are accepted and have distinct ids. -/
theorem accepted_of_readWorkload {contents : Bytes} {records : List Record}
    (read : readWorkload loads contents = .ok records) : (∀ record ∈ records, record.Accepted) ∧
      (records.map fun record => record.str "request_id").Nodup := by
  unfold readWorkload at read
  split at read
  · cases read
  · next t _ =>
      cases result : ((splitlines (universalNewlines t)).zipIdx 1).foldlM (readWorkloadLine loads)
        [] with
      | error error =>
          rw [result] at read
          cases read
      | ok records' =>
          rw [result] at read
          obtain rfl := Except.ok.inj read
          exact accepted_of_readWorkloadLines (List.forall_mem_nil _) List.nodup_nil result

/-- The printed lines of accepted records with distinct ids are read as these records. -/
theorem readWorkloadLines_printed {seen : List Record} {first : Nat}
    (accepted : ∀ record ∈ records, record.Accepted)
    (inverts : ∀ record ∈ records, loads record.line = .ok (Json.obj record).sortKeys)
    (distinct : ((seen ++ records).map fun record => record.str "request_id").Nodup) :
    ((records.map Record.line).zipIdx first).foldlM (readWorkloadLine loads) seen =
      .ok (seen ++ records.map Json.sortedMembers) := by
  induction records generalizing seen first with
  | nil => exact congrArg Except.ok (List.append_nil seen).symm
  | cons record records ih =>
      have fresh : record.str "request_id" ∉ seen.map fun other => other.str "request_id" := by
        rw [List.map_append, List.map_cons] at distinct
        exact fun earlier =>
          (List.nodup_append.mp distinct).2.2 _ earlier _ List.mem_cons_self rfl
      have later : ((seen ++ [Json.sortedMembers record] ++ records).map
          fun record => record.str "request_id").Nodup := by
        rw [List.map_append, List.map_cons] at distinct
        rw [List.append_assoc, List.singleton_append, List.map_append, List.map_cons,
          str_sortedMembers]
        exact distinct
      rw [List.map_cons, List.zipIdx_cons, List.foldlM_cons,
        readWorkloadLine_printed (accepted record List.mem_cons_self)
          (inverts record List.mem_cons_self) fresh, except_ok_bind,
        ih (fun other member => accepted other (List.mem_cons_of_mem record member))
          (fun other member => inverts other (List.mem_cons_of_mem record member)) later,
        List.append_assoc, List.singleton_append, List.map_cons]

/-- The records read are the records written, as Python compares them. -/
def ReadBack (read records : List Record) : Prop :=
  List.Forall₂ (fun got put => (Json.obj got).Same (.obj put)) read records

/-- One record is read from each line, so there are as many lines as records. -/
theorem oneLine_of_readBack {present force : Bool} {contents : Bytes} {read : List Record}
    (written : writeWorkload records present force = .ok contents)
    (result : readWorkload loads contents = .ok read) (same : ReadBack read records) :
    ∀ record ∈ records, record.OneLine := by
  have ends : isLineBoundary lineFeed = true := by decide
  unfold readWorkload at result
  rw [writeWorkload_lines written] at result
  simp only [splitlines_lines] at result
  have count : (linesBy isLineBoundary (terminated lineFeed (records.map Record.line))).length =
      (records.map Record.line).length := by
    have length := length_of_readWorkloadLines (mapError_eq_ok.mp result)
    rw [List.length_nil, Nat.zero_add, List.length_zipIdx] at length
    rw [← length, same.length_eq, List.length_map]
  intro record member
  exact oneLine_iff.mpr
    ((length_linesBy_terminated_iff ends).mp count _ (List.mem_map_of_mem member))

/-- `json.loads` inverts `canonical_json` on the records. -/
def Inverts (loads : Text → Except String Json) (records : List Record) : Prop :=
  ∀ record ∈ records, ∀ line, (Json.obj record).canonicalJson = .ok line →
    loads line = .ok (Json.obj record).sortKeys

/-- A written workload whose records each stand on one line is read with their keys in order. -/
theorem readWorkload_of_oneLine {present force : Bool} {contents : Bytes}
    (accepted : ∀ record ∈ records, record.Accepted)
    (distinct : (records.map fun record => record.str "request_id").Nodup)
    (inverts : Inverts loads records)
    (written : writeWorkload records present force = .ok contents)
    (oneLine : ∀ record ∈ records, record.OneLine) :
    readWorkload loads contents = .ok (records.map Json.sortedMembers) := by
  have ends : isLineBoundary lineFeed = true := by decide
  have apart : linesBy isLineBoundary (terminated lineFeed (records.map Record.line)) =
      records.map Record.line := by
    refine linesBy_terminated (fun line listed => ?_) ends
    obtain ⟨record, member, rfl⟩ := List.mem_map.mp listed
    exact oneLine_iff.mp (oneLine record member)
  have fit := (writeWorkload_eq_ok.mp written).2.1
  have whole := @readWorkloadLines_printed records loads [] 1 accepted (fun record member =>
    inverts record member _ (Json.canonicalJson_eq_ok.mpr ⟨fit record member, rfl⟩)) distinct
  unfold readWorkload
  rw [writeWorkload_lines written]
  simp only [splitlines_lines, apart, whole]
  rfl

theorem readBack_sortedMembers : ReadBack (records.map Json.sortedMembers) records := by
  rw [ReadBack, List.forall₂_map_left_iff, List.forall₂_same]
  exact fun record _ => Json.same_sortedMembers record

/-- A written workload is read back as the same records if and only if no string of them contains
one of the three line boundaries that the JSON text shows unescaped. -/
theorem readWorkload_writeWorkload_iff {present force : Bool} {contents : Bytes}
    (accepted : ∀ record ∈ records,
      ∃ lineNumber, validateWorkloadRecord (.obj record) lineNumber = .ok record)
    (distinct : (records.map fun record => record.str "request_id").Nodup)
    (inverts : Inverts loads records)
    (written : writeWorkload records present force = .ok contents) :
    (∃ read, readWorkload loads contents = .ok read ∧ ReadBack read records) ↔
      ∀ record ∈ records, record.OneLine := by
  constructor
  · rintro ⟨read, result, same⟩
    exact oneLine_of_readBack written result same
  · intro oneLine
    refine ⟨_, readWorkload_of_oneLine (fun record member => ?_) distinct inverts written oneLine,
      readBack_sortedMembers⟩
    obtain ⟨lineNumber, result⟩ := accepted record member
    exact (validateWorkloadRecord_eq_ok.mp result).2

end ReadBack

/-- A count-only request, by its id. -/
def sampleRecord (requestId : Text) : Record :=
  [(text "schema_version", .str (text workloadSchemaVersion)), (text "request_id", .str requestId),
    (text "arrival_time_us", .int 0), (text "prompt_token_count", .int 1),
    (text "max_new_tokens", .int 1), (text "workload_class", .str (text "chat"))]

/-- A `json.loads` that knows what some records print as. -/
def loadsFrom (line : Record → Text) (value : Record → Json) (records : List Record) (t : Text) :
    Except String Json :=
  match records.find? fun record => line record = t with
  | some record => .ok (value record)
  | none => .error "Expecting value"

theorem loadsFrom_of_mem {line : Record → Text} {value : Record → Json}
    (apart : (records.map line).Nodup) (member : record ∈ records) :
    loadsFrom line value records (line record) = .ok (value record) := by
  have found : records.find? (fun other => line other = line record) = some record := by
    cases result : records.find? fun other => line other = line record with
    | none => exact absurd (decide_eq_true rfl) (List.find?_eq_none.mp result _ member)
    | some other =>
        have same : line other = line record := by simpa using List.find?_some result
        exact congrArg some
          (List.inj_on_of_nodup_map apart (List.mem_of_find?_eq_some result) member same)
  rw [loadsFrom, found]

def loadsAmong (records : List Record) : Text → Except String Json :=
  loadsFrom Record.line (fun record => (Json.obj record).sortKeys) records

theorem inverts_loadsAmong (apart : (records.map Record.line).Nodup) :
    Inverts (loadsAmong records) records := by
  intro record member line printed
  obtain ⟨-, rfl⟩ := Json.canonicalJson_eq_ok.mp printed
  exact loadsFrom_of_mem apart member

/-- Two requests whose ids JSON escapes: a quote and a backslash, and a line tabulation. -/
def escapedSample : List Record :=
  [sampleRecord (text "say \"hi\\"), sampleRecord [0x0b]]

/-- Both ids are written as escapes, and read back. -/
theorem readWorkload_writeWorkload_escaped :
    ∃ contents, writeWorkload escapedSample false false = .ok contents ∧
      ∃ read, readWorkload (loadsAmong escapedSample) contents = .ok read ∧
        ReadBack read escapedSample := by
  cases written : writeWorkload escapedSample false false with
  | error error =>
      have fine : (writeWorkload escapedSample false false).isOk = true := by
        decide +kernel
      rw [written] at fine
      cases fine
  | ok contents =>
      refine ⟨contents, rfl, (readWorkload_writeWorkload_iff (List.forall_mem_cons.mpr
        ⟨⟨1, rfl⟩, List.forall_mem_singleton.mpr ⟨1, rfl⟩⟩) (by decide +kernel)
        (inverts_loadsAmong (by decide +kernel)) written).mpr
        (List.forall_mem_cons.mpr ⟨?_, List.forall_mem_singleton.mpr ?_⟩)⟩
      · rw [oneLine_iff_all]
        decide +kernel
      · rw [oneLine_iff_all]
        decide +kernel

/-- A line separator in a request id is written as it is, and the file is not read back. -/
theorem readWorkload_writeWorkload_separator :
    validateWorkloadRecord (.obj (sampleRecord [0x2028])) 1 = .ok (sampleRecord [0x2028]) ∧
      ∃ contents, writeWorkload [sampleRecord [0x2028]] false false = .ok contents ∧
        ∀ loads, ¬ ∃ read, readWorkload loads contents = .ok read ∧
          ReadBack read [sampleRecord [0x2028]] := by
  refine ⟨rfl, ?_⟩
  cases written : writeWorkload [sampleRecord [0x2028]] false false with
  | error error =>
      have fine : (writeWorkload [sampleRecord [0x2028]] false false).isOk = true := by
        decide +kernel
      rw [written] at fine
      cases fine
  | ok contents =>
      refine ⟨contents, rfl, ?_⟩
      rintro loads ⟨read, result, same⟩
      have oneLine := oneLine_of_readBack written result same _ (List.mem_singleton_self _)
      have cut : (sampleRecord [0x2028]).line.all
          (fun c => !isLineBoundary c) = false := by
        decide +kernel
      rw [oneLine_iff_all, cut] at oneLine
      cases oneLine

end LlmLab.Benchmarks
