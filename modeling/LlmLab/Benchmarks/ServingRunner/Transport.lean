import LlmLab.Benchmarks.ServingCommon.Jsonl
import LlmLab.Serving.Request

/-!
# The workload on its way to the native runner

`write_tsv` of `run_serving_simulation.py` and `read_workload` of `serving_benchmark_runner.cpp`,
with its `parse_integer` and `split`.
-/

namespace LlmLab.Benchmarks

open LlmLab.Serving

/-! ## Writing -/

def tsvHeader : String :=
  "internal_id\trequest_id\tworkload_class\tarrival_time_us\tprompt_token_count\t" ++
    "prompt_tokens\tmax_new_tokens"

/-- The column of the tokens, with a dash for a prompt that is only counted. -/
def tsvTokens (record : Record) : Text :=
  if record.contains "prompt_tokens" then
    (text ",").intercalate ((record.ints "prompt_tokens").map fun token => text (toString token))
  else text "-"

def tsvFields (internalId : Nat) (record : Record) : List Text :=
  [text (toString (internalId : Int)), record.str "request_id", record.str "workload_class",
    text (toString (record.int "arrival_time_us")),
    text (toString (record.int "prompt_token_count")), tsvTokens record,
    text (toString (record.int "max_new_tokens"))]

/-- The integers among the fields. -/
def tsvIntegers (internalId : Nat) (record : Record) : List Int :=
  [(internalId : Int), record.int "arrival_time_us", record.int "prompt_token_count",
    record.int "max_new_tokens"] ++
  if record.contains "prompt_tokens" then record.ints "prompt_tokens" else []

/-- A tab or a line break. -/
def isTsvControl (c : CodePoint) : Bool :=
  c = codePoint '\t' || c = codePoint '\n' || c = codePoint '\r'

/-- What `stream.write` adds to a UTF-8 file. -/
def encoded (t : Text) : Except WorkloadError Bytes :=
  match encodeUtf8 t with
  | none => .error .unicodeEncode
  | some bytes => .ok bytes

/-- The loop body of `write_tsv`. -/
def writeTsvLine (numbered : Record × Nat) : Except WorkloadError Bytes := do
  let fields := tsvFields numbered.2 numbered.1
  throwIf (∃ number ∈ tsvIntegers numbered.2 numbered.1, ¬ PrintableInt number)
    (.valueError exceedsMaxStrDigits)
  throwIf (fields.any (fun field => field.any isTsvControl) = true)
    (.validation (invalid "TSV string fields cannot contain tabs or line breaks"))
  encoded ((text "\t").intercalate fields ++ [lineFeed])

/-- `write_tsv` on validated records: what the file holds. -/
def writeTsv (records : List Record) : Except WorkloadError Bytes := do
  let header ← encoded (text tsvHeader ++ [lineFeed])
  let ordered := sortBy requestOrder records
  let lines ← (ordered.zipIdx 1).mapM writeTsvLine
  return header ++ lines.flatten

/-! ## Reading -/

namespace Runner

structure InputRequest where
  request : Request
  externalId : Bytes
  workloadClass : Bytes
deriving DecidableEq

def uint64 : IntegerType := ⟨0, uint64Max⟩
def int64 : IntegerType := ⟨int64Min, int64Max⟩
def int32 : IntegerType := ⟨-(2 ^ 31), 2 ^ 31 - 1⟩

/-- The bytes of a `std::string` as they appear in a message. -/
def shown (bytes : Bytes) : String := String.ofList (bytes.map fun byte => Char.ofNat byte.toNat)

/-- `parse_integer`: the whole text has to be a number of the type. -/
def parseInteger (type : IntegerType) (value : Bytes) (name : String) : Except Exn Int :=
  match readInteger type value with
  | none => .error (.invalidArgument ("invalid " ++ name ++ ": " ++ shown value))
  | some parsed => .ok parsed

/-- `split`: the fields between the delimiters, at least one. -/
def split (value : Bytes) (delimiter : UInt8) : List Bytes := value.splitOn delimiter

def tab : UInt8 := 9
def newline : UInt8 := 10
def comma : UInt8 := 44
def dash : UInt8 := 45

def parseToken (value : Bytes) : Except Exn Token := do
  return Int32.ofInt (← parseInteger int32 value "prompt token")

/-- The tokens of an exact prompt. -/
def parseTokens (value : Bytes) : Except Exn (List Token) :=
  if value = [] then .ok [] else (split value comma).mapM parseToken

/-- The loop body of `read_workload`.  The maps of the ids seen hold those of the requests read so
far. -/
def readWorkloadLine (requests : List InputRequest) (line : Bytes × Nat) :
    Except Exn (List InputRequest) :=
  let place := "workload TSV line " ++ toString line.2 ++ ": "
  match split line.1 tab with
  | [id, externalId, workloadClass, arrivalTime, promptTokenCount, promptTokens, maxNewTokens] => do
      let internalId ← parseInteger uint64 id "internal_id"
      let arrival ← parseInteger int64 arrivalTime "arrival_time_us"
      let promptCount ← parseInteger uint64 promptTokenCount "prompt_token_count"
      let output ← parseInteger uint64 maxNewTokens "max_new_tokens"
      throwIf (internalId.toNat ∈ requests.map fun seen => seen.request.requestId)
        (.invalidArgument (place ++ "duplicate internal_id"))
      throwIf (externalId = [] ∨ externalId ∈ requests.map InputRequest.externalId)
        (.invalidArgument (place ++ "empty or duplicate request_id"))
      throwIf (workloadClass = []) (.invalidArgument (place ++ "empty workload_class"))
      let counted ← Request.create internalId.toNat arrival (.countOnly promptCount.toNat)
        output.toNat
      if promptTokens = [dash] then return requests ++ [⟨counted, externalId, workloadClass⟩]
      else do
        let tokens ← parseTokens promptTokens
        throwIf (tokens.length ≠ promptCount.toNat)
          (.invalidArgument (place ++ "prompt count/token mismatch"))
        let exact ← Request.create internalId.toNat arrival (.exactTokens tokens) output.toNat
        return requests ++ [⟨exact, externalId, workloadClass⟩]
  | _ => .error (.invalidArgument (place ++ "expected 7 fields"))

/-- `read_workload` on the contents of the file. -/
def readWorkload (contents : Bytes) : Except Exn (List InputRequest) :=
  match linesBy (· = newline) contents with
  | [] => .error (.invalidArgument "invalid workload TSV header")
  | header :: lines => do
      throwIf (header ≠ asciiBytes tsvHeader.toList)
        (.invalidArgument "invalid workload TSV header")
      (lines.zipIdx 2).foldlM readWorkloadLine []

end Runner

end LlmLab.Benchmarks
