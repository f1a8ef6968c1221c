import LlmLab.Benchmarks.LlamaBench.Plan
import LlmLab.Lib.ExceptLogic

/-!
# The durable run

`run_llama_bench.py`: the records of `run.jsonl`, the summary beside them, and `run`, which goes
through the plan once, skips what is recorded and stops at an interrupt or at the time limit.

The world of one run (its clock, the commands it executes, the model files) is a `Session`.  The
readers of the tool's output and the digest of a configuration are a `Host`.
-/

namespace LlmLab.Benchmarks.LlamaBench

inductive Status where
  | success
  | failed
  | timedOut
  | parseError
deriving DecidableEq, Repr

inductive RunStatus where
  | running
  | failed
  | interrupted
  | completed
deriving DecidableEq, Repr

/-- A row of `parse_llama_bench`. -/
structure ParsedRow where
  modelName : String
  modelSize : Option String
  backend : String
  threadCount : Int
  promptTokens : Option Nat
  generatedTokens : Option Nat
  promptTokensPerSecond : Option Rat
  generationTokensPerSecond : Option Rat
  testIdentifier : String
deriving DecidableEq

/-- What `execute` returns. -/
structure ExecutionResult where
  stdout : String
  stderr : String
  returnCode : Option Int
  elapsedSeconds : Rat
  timedOut : Bool
deriving DecidableEq

structure Record where
  runId : String
  caseId : String
  invocationId : String
  modelLogicalId : String
  modelFilename : String
  quantization : String
  modelSha256 : Option String
  modelFileSize : Option Nat
  repetition : Nat
  warmup : Bool
  startedAt : String
  status : Status
  peakRssKib : Option Nat
  reportedKvCacheBytes : Option Nat
  memoryMeasurementSource : Option String
  mmapEnabled : Bool
  case : Case
  result : ExecutionResult
  parsedResults : List ParsedRow
  parseError : Option String
deriving DecidableEq

/-- A row of `normalized.csv`: a parsed row with what its record adds. -/
structure NormalizedRow extends ParsedRow where
  timestampUtc : String
  modelLogicalId : String
  modelFilename : String
  quantization : String
  modelSha256 : Option String
  modelFileSize : Option Nat
  invocationId : String
  batchSize : Nat
  ubatchSize : Nat
  contextSize : Nat
  kvKeyType : String
  kvValueType : String
  peakRssKib : Option Nat
  reportedKvCacheBytes : Option Nat
  memoryMeasurementSource : Option String
  mmapEnabled : Bool
  repetition : Nat
  elapsedSeconds : Rat
deriving DecidableEq

structure Summary where
  runId : String
  configFingerprint : String
  plannedInvocations : Nat
  completedInvocations : Nat
  successfulInvocations : Nat
  failedInvocations : Nat
  timedOutInvocations : Nat
  lastCompletedCase : Option String
  elapsedSeconds : Rat
  runStatus : RunStatus
  maxTotalSeconds : Option Rat

structure Csv where
  incomplete : Bool
  rows : List NormalizedRow

/-- The files of an output directory. -/
structure Directory where
  runJsonl : Option (List Record)
  runSummary : Option Summary
  normalizedCsv : Option Csv

/-- An output directory before its first run. -/
def Directory.fresh : Directory := ⟨none, none, none⟩

/-- The records of `run.jsonl`; none where there is no file. -/
def Directory.records (files : Directory) : List Record := files.runJsonl.getD []

structure RunOptions where
  resume : Bool
  retryFailures : Bool
  forceResume : Bool
  allowPartialAnalysis : Bool
  writeCsv : Bool
  maxTotalSeconds : Option Rat

/-- What the world does when an invocation is reached; no result is a `KeyboardInterrupt`. -/
structure Turn where
  now : Rat
  startedAt : String
  execution : Option ExecutionResult
  recordedAt : Rat

/-- A model file as `verify_models` sees it. -/
structure ModelFile where
  size : Nat
  sha256 : String

structure Session where
  uuid : String
  start : Rat
  turn : Invocation → Turn
  finish : Rat
  modelFile : Path → Option ModelFile

structure Host where
  configFingerprint : BenchmarkConfig → String
  parseLlamaBench : String → Except String (List ParsedRow)
  parseTimeVerbose : String → Option Nat
  parseKvCacheBytes : String → Option Nat

/-- `verify_models` for one model. -/
def verifyModel (session : Session) (model : ModelSpec) : Except ConfigError Unit :=
  if model.sha256.isNone && model.byteSize.isNone then .ok ()
  else match session.modelFile model.path with
    | none => .error ⟨"model file does not exist: " ++ model.path.directory ++ "/" ++
        model.path.name⟩
    | some file =>
        if model.byteSize.any (· ≠ file.size) then
          .error ⟨"model file size mismatch: " ++ model.logicalId⟩
        else if model.sha256.any (· ≠ file.sha256) then
          .error ⟨"model checksum mismatch: " ++ model.logicalId⟩
        else .ok ()

/-- `verify_models`. -/
def verifyModels (config : BenchmarkConfig) (session : Session) : Except ConfigError Unit :=
  (models config).forM (verifyModel session)

/-- `_latest`. -/
def latestRecords (records : List Record) : Dict String Record :=
  latest Record.invocationId records

/-- `_successful`. -/
def successful (record : Record) : Bool := record.status = .success

/-- The rows a measured, successful record contributes. -/
def rowsOf (record : Record) : List NormalizedRow :=
  if record.warmup || !successful record then []
  else record.parsedResults.map fun row =>
    { row with
      timestampUtc := record.startedAt, modelLogicalId := record.modelLogicalId
      modelFilename := record.modelFilename, quantization := record.quantization
      modelSha256 := record.modelSha256, modelFileSize := record.modelFileSize
      invocationId := record.invocationId, batchSize := record.case.batchSize
      ubatchSize := record.case.ubatchSize, contextSize := record.case.contextSize
      kvKeyType := record.case.kvKeyType, kvValueType := record.case.kvValueType
      peakRssKib := record.peakRssKib, reportedKvCacheBytes := record.reportedKvCacheBytes
      memoryMeasurementSource := record.memoryMeasurementSource
      mmapEnabled := record.mmapEnabled, repetition := record.repetition
      elapsedSeconds := record.result.elapsedSeconds }

/-- `normalized_records`. -/
def normalizedRecords (records : List Record) : List NormalizedRow :=
  (latestRecords records).values.flatMap rowsOf

/-- The status of an execution, its parsed rows and the message of the parser. -/
def outcomeOf (host : Host) (result : ExecutionResult) :
    Status × List ParsedRow × Option String :=
  if result.timedOut then (.timedOut, [], none)
  else if result.returnCode ≠ some 0 then (.failed, [], none)
  else match host.parseLlamaBench result.stdout with
    | .ok parsed => (.success, parsed, none)
    | .error message => (.parseError, [], if message.isEmpty then none else some message)

/-- The record `run` appends for an executed invocation. -/
def recordOf (host : Host) (config : BenchmarkConfig) (runId : String) (invocation : Invocation)
    (turn : Turn) (result : ExecutionResult) : Record :=
  let (status, parsed, parseError) := outcomeOf host result
  { runId, caseId := invocation.caseId, invocationId := invocation.invocationId
    modelLogicalId := invocation.model.logicalId
    modelFilename := invocation.model.path.name
    quantization := invocation.model.quantization
    modelSha256 := invocation.model.sha256, modelFileSize := invocation.model.byteSize
    repetition := invocation.repetition, warmup := invocation.warmup
    startedAt := turn.startedAt, status
    peakRssKib := if config.measureMemory then host.parseTimeVerbose result.stderr else none
    reportedKvCacheBytes := host.parseKvCacheBytes (result.stdout ++ "\n" ++ result.stderr)
    memoryMeasurementSource := if config.measureMemory then some "GNU time -v" else none
    mmapEnabled := config.mmap, case := invocation.case, result, parsedResults := parsed
    parseError }

/-- The counters of a summary, taken from the latest records. -/
def Summary.count (summary : Summary) (latest : Dict String Record) : Summary :=
  let successes := latest.values.countP successful
  { summary with
    completedInvocations := latest.size
    successfulInvocations := successes
    failedInvocations := latest.size - successes
    timedOutInvocations := latest.values.countP (·.status = .timedOut) }

/-- How the loop over the plan ends. -/
inductive Ending where
  | finished
  | timeLimited
  | interrupted
deriving DecidableEq, Repr

/-- What the loop over the plan carries; `executed` are the invocations it announces. -/
structure Progress where
  files : Directory
  existing : List Record
  latest : Dict String Record
  summary : Summary
  executed : List Invocation

/-- The progress lines printed before an invocation is executed. -/
def Progress.announce (progress : Progress) (invocation : Invocation) : Progress :=
  { progress with executed := progress.executed ++ [invocation] }

/-- `append_record` and what `run` updates after it. -/
def Progress.append (progress : Progress) (invocation : Invocation) (record : Record)
    (elapsedSeconds : Rat) : Progress :=
  let latest := progress.latest.set invocation.invocationId record
  let summary := { progress.summary.count latest with
    lastCompletedCase := some invocation.caseId, elapsedSeconds }
  { files := { progress.files with
      runJsonl := some (progress.files.records ++ [record]), runSummary := some summary }
    existing := progress.existing ++ [record]
    latest, summary, executed := progress.executed }

/-- Whether an earlier record lets `run` pass over an invocation. -/
def skips (options : RunOptions) : Option Record → Bool
  | none => false
  | some previous => !options.retryFailures || successful previous

/-- Whether the limit of the whole matrix is reached. -/
def limitReached (options : RunOptions) (elapsed : Rat) : Bool :=
  options.maxTotalSeconds.any (· ≤ elapsed)

/-- The loop of `run` over the plan; `before` is the elapsed time of the earlier runs. -/
def runPlan (host : Host) (config : BenchmarkConfig) (options : RunOptions) (session : Session)
    (runId : String) (before : Rat) : List Invocation → Progress → Progress × Ending
  | [], progress => (progress, .finished)
  | invocation :: rest, progress =>
      if skips options (progress.latest.get? invocation.invocationId) then
        runPlan host config options session runId before rest progress
      else
        let turn := session.turn invocation
        if limitReached options (before + turn.now - session.start) then
          ({ progress with summary := { progress.summary with runStatus := .failed } },
            .timeLimited)
        else
          match turn.execution with
          | none => (progress.announce invocation, .interrupted)
          | some result =>
              let record := recordOf host config runId invocation turn result
              runPlan host config options session runId before rest
                ((progress.announce invocation).append invocation record
                  (before + turn.recordedAt - session.start))

/-- What a run leaves behind; `returned` is nothing where `KeyboardInterrupt` is raised again. -/
structure RunResult where
  files : Directory
  executed : List Invocation
  ending : Ending
  returned : Option Nat

/-- The CSV file after a run; an incomplete one is labelled, and written only on request. -/
def csvFile (options : RunOptions) (complete : Bool) (rows : List NormalizedRow) : Option Csv :=
  if complete || options.writeCsv || options.allowPartialAnalysis then some ⟨!complete, rows⟩
  else none

/-- The `finally` block and the CSV file. -/
def finishRun (options : RunOptions) (session : Session) (before : Rat) (plan : List Invocation)
    (progress : Progress) (ending : Ending) : RunResult :=
  let complete := (plan.filter (!·.warmup)).all fun invocation =>
    (progress.latest.get? invocation.invocationId).isSome
  let summary := { progress.summary with
    elapsedSeconds := before + session.finish - session.start
    runStatus := if ending = .interrupted then .interrupted
      else if complete then .completed else progress.summary.runStatus }
  let rows := normalizedRecords progress.existing
  { files := { progress.files with
      runSummary := some summary
      normalizedCsv := csvFile options complete rows }
    executed := progress.executed, ending
    returned := if ending = .interrupted then none else some rows.length }

/-- The state of `run` before its loop, with the summary it writes first. -/
def startRun (fingerprint runId : String) (options : RunOptions) (oldSummary : Option Summary)
    (plan : List Invocation) (existing : List Record) (files : Directory) : Progress :=
  let latest := latestRecords existing
  let summary := Summary.count
    { runId, configFingerprint := fingerprint, plannedInvocations := plan.length
      completedInvocations := 0, successfulInvocations := 0, failedInvocations := 0
      timedOutInvocations := 0, lastCompletedCase := oldSummary.bind (·.lastCompletedCase)
      elapsedSeconds := (oldSummary.map (·.elapsedSeconds)).getD 0, runStatus := .running
      maxTotalSeconds := options.maxTotalSeconds } latest
  { files := { files with runJsonl := some files.records, runSummary := some summary }
    existing, latest, summary, executed := [] }

/-- `run`. -/
def run (host : Host) (config : BenchmarkConfig) (options : RunOptions) (session : Session)
    (files : Directory) : Except ConfigError RunResult := do
  verifyModels config session
  let plan ← invocations config
  let fingerprint := host.configFingerprint config
  let existing := if options.resume then files.records else []
  let oldSummary := if options.resume then files.runSummary else none
  throwIf (options.resume = true ∧ oldSummary.isNone) ⟨"resume requires run-summary.json"⟩
  throwIf (options.resume = true ∧ oldSummary.map (·.configFingerprint) ≠ some fingerprint ∧
      options.forceResume = false)
    ⟨"configuration is incompatible with existing run; use --force-resume to override"⟩
  throwIf (options.resume = false ∧ (files.runJsonl.isSome ∨ files.runSummary.isSome))
    ⟨"output directory already contains a run; use --resume or choose another directory"⟩
  let runId := ((oldSummary.map (·.runId)).filter (· ≠ "")).getD session.uuid
  let before := (oldSummary.map (·.elapsedSeconds)).getD 0
  let (progress, ending) := runPlan host config options session runId before plan
    (startRun fingerprint runId options oldSummary plan existing files)
  return finishRun options session before plan progress ending

end LlmLab.Benchmarks.LlamaBench
