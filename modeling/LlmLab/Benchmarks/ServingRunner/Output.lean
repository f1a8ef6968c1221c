import LlmLab.Benchmarks.ServingRunner.Lossless
import LlmLab.Benchmarks.ServingRunner.Writer

/-!
# The output of the native runner

The bytes that `serving_benchmark_runner.cpp` writes for its records, with its `json_escape`, and
`read_jsonl` of `serving_common.py`, which cuts them at every line boundary that `str.splitlines`
knows.
-/

namespace LlmLab.Benchmarks

open LlmLab.Serving

namespace Runner

/-! ## Writing -/

/-- The hexadecimal digits of `std::hex` at a width of four, for a number of at most two. -/
def hex4 (value : Nat) : String :=
  "00" ++ String.ofList [Nat.digitChar (value / 16), Nat.digitChar (value % 16)]

/-- What `json_escape` writes for a byte. -/
def escapeByte (byte : UInt8) : Bytes :=
  match byte.toNat with
  | 0x22 => asciiBytes "\\\"".toList
  | 0x5c => asciiBytes "\\\\".toList
  | 0x08 => asciiBytes "\\b".toList
  | 0x0c => asciiBytes "\\f".toList
  | 0x0a => asciiBytes "\\n".toList
  | 0x0d => asciiBytes "\\r".toList
  | 0x09 => asciiBytes "\\t".toList
  | value => if value < 0x20 then asciiBytes ("\\u" ++ hex4 value).toList else [byte]

/-- `json_escape`. -/
def jsonEscape (bytes : Bytes) : Bytes := bytes.flatMap escapeByte

/-- A string in quotation marks. -/
def printString (s : Text) : Bytes :=
  asciiBytes "\"".toList ++ jsonEscape ((encodeUtf8 s).getD []) ++ asciiBytes "\"".toList

section Print

-- How the stream shows doubles at a precision of 17 digits.
variable (format : NumeralFormat)

mutual

/-- What the runner writes for a value. -/
def print : Json → Bytes
  | .null => asciiBytes "null".toList
  | .bool true => asciiBytes "true".toList
  | .bool false => asciiBytes "false".toList
  | .int value => asciiBytes (toString value).toList
  | .float value => asciiBytes (format.numeral value).toList
  | .str value => printString value
  | .arr items =>
      asciiBytes "[".toList ++ (asciiBytes ",".toList).intercalate (printItems items) ++
        asciiBytes "]".toList
  | .obj members =>
      asciiBytes "\x7b".toList ++ (asciiBytes ",".toList).intercalate (printMembers members) ++
        asciiBytes "\x7d".toList

def printItems : List Json → List Bytes
  | [] => []
  | item :: items => print item :: printItems items

def printMembers : List (Text × Json) → List Bytes
  | [] => []
  | member :: members => printMember member :: printMembers members

def printMember : Text × Json → Bytes
  | (key, value) => printString key ++ asciiBytes ":".toList ++ print value

end

/-- The contents of the output file. -/
def output (records : List Record) : Bytes :=
  records.flatMap fun record => print format (.obj record) ++ [newline]

end Print

end Runner

/-! ## Reading -/

section Reading

-- `json.loads`, or the message of its `JSONDecodeError`.
variable (loads : Text → Except String Json)

/-- The loop body of `read_jsonl`. -/
def readJsonlLine (line : Text × Nat) : Except NativeError Record := do
  let place := "result line " ++ toString line.2 ++ ": "
  let value ← (loads line.1).mapError fun message =>
    .validation (invalid (place ++ "malformed JSON: " ++ message))
  match value.obj? with
  | none => .error (.validation (invalid (place ++ "record must be an object")))
  | some record => .ok record

/-- `read_jsonl`. -/
def readJsonl (contents : Bytes) : Except NativeError (List Record) :=
  match decodeUtf8 contents with
  | none => .error .unicodeDecode
  | some t => ((splitlines (universalNewlines t)).zipIdx 1).mapM (readJsonlLine loads)

/-- `run` from the output of the native process to its validated records. -/
def receiveRecords (divide : Int → Int → FloatNumeral) (config : NativeConfig)
    (workload : List Record) (contents : Bytes) :
    Except NativeError (List Record × List Record × Record) := do
  let native ← readJsonl loads contents
  throwIf (native.getLast?.any (fun last => oneOf (last.get "record_type") ["summary"]) = false)
    (.validation (invalid "native runner did not emit a terminal summary"))
  let records ← native.mapM (decorate workload)
  validateNativeRecords divide (some config) (some workload) (records.map .obj)

end Reading

/-! ## The text of the output -/

/-- `json_escape` escapes the characters that `json.dumps` escapes, and in the same way. -/
theorem encodeUtf8_escape (c : Char) :
    encodeUtf8 (Json.escape (codePoint c)) =
      some ((String.utf8EncodeChar c).flatMap Runner.escapeByte) := by
  by_cases ascii : c.toNat < 0x80
  · have each : ∀ value : Fin 0x80,
        encodeUtf8 (Json.escape ⟨value.val, Nat.lt_trans value.isLt (by decide)⟩) =
          some (Runner.escapeByte (UInt8.ofNat value.val)) := by
      decide +kernel
    rw [utf8EncodeChar_ascii ascii, List.flatMap_singleton]
    exact each ⟨c.toNat, ascii⟩
  · have plain : Json.escape (codePoint c) = [codePoint c] := by
      rw [Json.escape, if_neg, if_neg, if_neg (by rw [codePoint_val]; omega)]
      · exact fun same => ascii (by rw [codePoint_injective same]; decide)
      · exact fun same => ascii (by rw [codePoint_injective same]; decide)
    have kept : (String.utf8EncodeChar c).flatMap Runner.escapeByte = String.utf8EncodeChar c := by
      refine (List.flatMap_congr fun byte member => ?_).trans (List.flatMap_singleton' _)
      -- The bytes of the character lie above ASCII.
      have high : ¬ byte.toNat < 0x80 := fun low =>
        ascii (toNat_of_mem_utf8EncodeChar low member ▸ low)
      unfold Runner.escapeByte
      split
      all_goals first | omega | exact if_neg (by omega)
    rw [plain, kept, encodeUtf8, CodePoint.char?_eq_some_iff.mpr rfl]
    simp [encodeUtf8]

theorem Runner.printItems_eq (format : NumeralFormat) (items : List Json) :
    Runner.printItems format items = items.map (Runner.print format) := by
  induction items with
  | nil => rfl
  | cons item items ih => rw [Runner.printItems, ih, List.map_cons]

theorem Runner.printMembers_eq (format : NumeralFormat) (members : List (Text × Json)) :
    Runner.printMembers format members = members.map fun member =>
      Runner.printString member.1 ++ asciiBytes ":".toList ++ Runner.print format member.2 := by
  induction members with
  | nil => rfl
  | cons member members ih => rw [Runner.printMembers, ih, List.map_cons, Runner.printMember]

/-- A text that has an encoding. -/
def Encodable (s : Text) : Prop := ∃ bytes, encodeUtf8 s = some bytes

theorem encodeUtf8_flatMap_escape {s : Text} {bytes : Bytes} (encoded : encodeUtf8 s = some bytes) :
    encodeUtf8 (s.flatMap Json.escape) = some (Runner.jsonEscape bytes) := by
  obtain ⟨chars, rfl, rfl⟩ := encodeUtf8_eq_some_iff.mp encoded
  clear encoded
  induction chars with
  | nil => rfl
  | cons c chars ih =>
      rw [List.map_cons, List.flatMap_cons, List.flatMap_cons, Runner.jsonEscape,
        List.flatMap_append]
      exact encodeUtf8_append.mpr ⟨_, _, encodeUtf8_escape c, ih, rfl⟩

theorem encodeUtf8_quote {s : Text} (encodable : Encodable s) :
    encodeUtf8 (Json.quote s) = some (Runner.printString s) := by
  obtain ⟨bytes, encoded⟩ := encodable
  rw [Json.quote, Runner.printString, encoded]
  have mark : encodeUtf8 (text "\"") = some (asciiBytes "\"".toList) := rfl
  exact encodeUtf8_append.mpr ⟨_, _, encodeUtf8_append.mpr
    ⟨_, _, mark, encodeUtf8_flatMap_escape encoded, rfl⟩, mark, rfl⟩

/-- The bytes of the runner are the JSON text of the value. -/
theorem encodeUtf8_compact {format : NumeralFormat} {value : Json}
    (encodable : value.EachString Encodable) :
    encodeUtf8 (value.compact format) = some (Runner.print format value) := by
  have plain : ∀ {s : String}, s.toList.all (fun c => decide (c.toNat < 0x80)) = true →
      encodeUtf8 (text s) = some (asciiBytes s.toList) := fun ascii =>
    encodeUtf8_ascii fun c member => of_decide_eq_true (List.all_eq_true.mp ascii c member)
  induction value using Json.induct with
  | null => exact plain rfl
  | bool value =>
      cases value
      · exact plain rfl
      · exact plain rfl
  | int value => exact encodeUtf8_toString value
  | float value =>
      exact encodeUtf8_ascii fun c member => (format.printable value c member).2.trans (by decide)
  | str value => exact encodeUtf8_quote (Json.eachString_str.mp encodable)
  | arr items ih =>
      rw [Json.eachString_arr] at encodable
      rw [Json.compact, Json.compactItems_eq, Runner.print, Runner.printItems_eq]
      refine encodeUtf8_append.mpr ⟨_, _, encodeUtf8_append.mpr ⟨_, _, plain rfl,
        encodeUtf8_intercalate_of (plain rfl) ?_, rfl⟩, plain rfl, rfl⟩
      rw [List.forall₂_map_left_iff, List.forall₂_map_right_iff, List.forall₂_same]
      exact fun item member => ih item member (encodable item member)
  | obj members ih =>
      rw [Json.eachString_obj] at encodable
      rw [Json.compact, Json.compactMembers_eq, Runner.print, Runner.printMembers_eq]
      refine encodeUtf8_append.mpr ⟨_, _, encodeUtf8_append.mpr ⟨_, _, plain rfl,
        encodeUtf8_intercalate_of (plain rfl) ?_, rfl⟩, plain rfl, rfl⟩
      rw [List.forall₂_map_left_iff, List.forall₂_map_right_iff, List.forall₂_same]
      intro member inside
      exact encodeUtf8_append.mpr ⟨_, _, encodeUtf8_append.mpr
        ⟨_, _, encodeUtf8_quote (encodable member inside).1, plain rfl, rfl⟩,
        ih member inside (encodable member inside).2, rfl⟩

/-! ## The lines of the output -/

section Lines

variable {format : NumeralFormat} {records : List Record} {loads : Text → Except String Json}

/-- The texts of the lines. -/
def jsonLines (format : NumeralFormat) (records : List Record) : List Text :=
  records.map fun record => (Json.obj record).compact format

theorem decodeUtf8_output
    (encodable : ∀ record ∈ records, (Json.obj record).EachString Encodable) :
    decodeUtf8 (Runner.output format records) =
      some (terminated lineFeed (jsonLines format records)) := by
  refine decodeUtf8_encodeUtf8 ?_
  induction records with
  | nil => rfl
  | cons record records ih =>
      rw [List.forall_mem_cons] at encodable
      rw [jsonLines, List.map_cons, terminated_cons, Runner.output, List.flatMap_cons,
        List.append_assoc]
      have ending : encodeUtf8 [lineFeed] = some [Runner.newline] := rfl
      exact encodeUtf8_append.mpr ⟨_, _, encodeUtf8_compact encodable.1,
        encodeUtf8_append.mpr ⟨_, _, ending, ih encodable.2, rfl⟩, rfl⟩

theorem splitlines_jsonLines :
    splitlines (universalNewlines (terminated lineFeed (jsonLines format records))) =
      linesBy isLineBoundary (terminated lineFeed (jsonLines format records)) :=
  splitlines_terminated fun _ listed => by
    obtain ⟨record, -, rfl⟩ := List.mem_map.mp listed
    exact carriageReturn_notMem_compact

/-- `json.loads` inverts what the runner prints of the records. -/
def InvertsPrinted (loads : Text → Except String Json) (format : NumeralFormat)
    (records : List Record) : Prop :=
  ∀ record ∈ records, loads ((Json.obj record).compact format) = .ok (.obj record)

/-- Records of one line each are read back. -/
theorem readJsonl_output
    (encodable : ∀ record ∈ records, (Json.obj record).EachString Encodable)
    (inverts : InvertsPrinted loads format records)
    (oneLine : ∀ record ∈ records, record.OneLine) :
    readJsonl loads (Runner.output format records) = .ok records := by
  have apart : linesBy isLineBoundary (terminated lineFeed (jsonLines format records)) =
      jsonLines format records := by
    refine linesBy_terminated (fun line listed => ?_) (by decide)
    obtain ⟨record, member, rfl⟩ := List.mem_map.mp listed
    exact clean_compact_iff.mpr (oneLine record member)
  have each : ((jsonLines format records).zipIdx 1).mapM (readJsonlLine loads) = .ok records := by
    rw [jsonLines, List.zipIdx_map]
    refine (mapM_map_eq_ok fun item member => ?_).trans
      (congrArg Except.ok (List.zipIdx_map_fst 1 records))
    change readJsonlLine loads ((Json.obj item.1).compact format, item.2) = _
    rw [readJsonlLine, inverts item.1 (List.fst_mem_of_mem_zipIdx member)]
    rfl
  unfold readJsonl
  rw [decodeUtf8_output encodable]
  simp only [splitlines_jsonLines, apart]
  exact each

/-- When as many records are read as were printed, each of them is one line. -/
theorem oneLine_of_readJsonl {read : List Record}
    (encodable : ∀ record ∈ records, (Json.obj record).EachString Encodable)
    (result : readJsonl loads (Runner.output format records) = .ok read)
    (length : read.length = records.length) : ∀ record ∈ records, record.OneLine := by
  unfold readJsonl at result
  rw [decodeUtf8_output encodable] at result
  simp only [splitlines_jsonLines] at result
  have lines := (forall₂_of_mapM result).length_eq
  rw [List.length_zipIdx, length] at lines
  have ends : isLineBoundary lineFeed = true := by decide
  have clean := (@length_linesBy_terminated_iff _ _ _ (jsonLines format records) ends).mp
    (by rw [lines, jsonLines, List.length_map])
  exact fun record member => clean_compact_iff.mp (clean _ (List.mem_map_of_mem member))

end Lines

/-! ## The strings of the lines -/

section Strings

variable {holds : Text → Prop} {divide : Int → Int → FloatNumeral}

theorem eachString_null : Json.null.EachString holds := List.forall_mem_nil _

theorem eachString_optional {value : Option Int} : (optional value).EachString holds := by
  cases value with
  | none => exact eachString_null
  | some number => exact Json.eachString_int

theorem eachString_double {value : FloatNumeral} : (Runner.double value).EachString holds := by
  unfold Runner.double
  split
  · split
    · exact Json.eachString_int
    · exact eachString_null
  · exact eachString_null

theorem eachString_tpot {request : Request} : (Runner.tpot divide request).EachString holds := by
  unfold Runner.tpot
  split
  · split
    · exact eachString_double
    · exact eachString_null
  · exact eachString_null

theorem eachString_named {fields : List (String × Json)} :
    (Json.obj (Runner.named fields)).EachString holds ↔
      ∀ field ∈ fields, holds (text field.1) ∧ field.2.EachString holds := by
  rw [Json.eachString_obj, Runner.named, List.forall_mem_map]

section Literals

variable (literal : ∀ s, Ascii s → holds s)
include literal

theorem holds_text {s : String} (plain : s.toList.all (fun c => decide (c.toNat < 0x80)) = true) :
    holds (text s) := literal _ (ascii_text plain)

theorem eachString_string {s : String}
    (plain : s.toList.all (fun c => decide (c.toNat < 0x80)) = true) :
    (Runner.string s).EachString holds := Json.eachString_str.mpr (holds_text literal plain)

/-- Besides literals a request record shows the two strings of the input. -/
theorem eachString_writeRequest {input : Runner.InputRequest}
    {request : Request} {matched scheduled : Nat} {times : List Int} :
    (Json.obj (Runner.writeRequest divide input request matched scheduled times)).EachString holds ↔
      (Runner.inputString input.externalId).EachString holds ∧
        (Runner.inputString input.workloadClass).EachString holds := by
  have ttft : (if 0 < request.generatedTokenCount then optional (request.firstTokenTimeUs.map
      fun time => time - request.arrivalTimeUs) else .null).EachString holds := by
    split
    · exact eachString_optional
    · exact eachString_null
  have state : (Runner.string request.state.name).EachString holds := by
    cases request.state <;> exact eachString_string literal rfl
  have gaps : (Json.arr ((times.zip times.tail).map fun pair =>
      .int (pair.2 - pair.1))).EachString holds := by
    rw [Json.eachString_arr, List.forall_mem_map]
    exact fun _ _ => Json.eachString_int
  rw [Runner.writeRequest, eachString_named]
  simp (disch := decide) only [List.forall_mem_cons, holds_text literal, eachString_string literal,
    Runner.number, eachString_null, ttft, state, gaps, eachString_optional, eachString_tpot, Json.eachString_int, Json.eachString_ints,
    true_and, and_true, List.not_mem_nil, false_imp_iff, implies_true]

theorem eachString_fcfsSummary {nowUs : Int} {promptTokens generatedTokens submitted : Nat} :
    (Json.obj (Runner.fcfsSummary nowUs promptTokens generatedTokens submitted)).EachString holds := by
  have average : (if submitted = 0 then Json.null else .int 1).EachString holds := by
    split
    · exact eachString_null
    · exact Json.eachString_int
  rw [Runner.fcfsSummary, eachString_named]
  simp (disch := decide) only [List.forall_mem_cons, holds_text literal, eachString_string literal,
    Runner.number, eachString_null, average, Json.eachString_int, true_and, List.not_mem_nil,
    false_imp_iff, implies_true]

end Literals

theorem encodable_of_ascii {s : Text} (ascii : Ascii s) : Encodable s := encodeUtf8_of_ascii ascii

theorem encodable_inputString {bytes : Bytes} : (Runner.inputString bytes).EachString Encodable := by
  refine Json.eachString_str.mpr ?_
  unfold decodeUtf8
  cases bytes.toByteArray.utf8Decode? with
  | none => exact ⟨[], rfl⟩
  | some chars => exact ⟨_, encodeUtf8_eq_some_iff.mpr ⟨chars.toList, rfl, rfl⟩⟩

end Strings

end LlmLab.Benchmarks
