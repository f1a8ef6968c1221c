import LlmLab.Lib.Journal
import Mathlib.Data.Rat.Defs

/-!
# The planned matrix

`run_llama_bench.py`: the benchmark configuration, its cases and the invocations they expand to.
-/

namespace LlmLab.Benchmarks.LlamaBench

/-- `ConfigError`, with its message. -/
structure ConfigError where
  message : String
deriving DecidableEq, Repr

/-- A file path: its directory and the name of the file. -/
structure Path where
  directory : String
  name : String
deriving DecidableEq, Repr

/-- `Path.stem`: the name without its last suffix. -/
def Path.stem (path : Path) : String :=
  let (suffix, rest) := path.name.toList.reverse.span (· ≠ '.')
  match suffix, rest with
  | _ :: _, _ :: front@(_ :: _) => String.ofList front.reverse
  | _, _ => path.name

structure ModelSpec where
  logicalId : String
  path : Path
  quantization : String
  sha256 : Option String
  byteSize : Option Nat
deriving DecidableEq, Repr

structure Case where
  threads : Nat
  promptTokens : Nat
  generatedTokens : Nat
  batchSize : Nat
  contextSize : Nat
  ubatchSize : Nat
  kvKeyType : String
  kvValueType : String
deriving DecidableEq, Repr

structure BenchmarkConfig where
  executable : Path
  model : Path
  threads : List Nat
  promptTokens : List Nat
  generatedTokens : List Nat
  batchSizes : List Nat
  contextSizes : List Nat
  ubatchSizes : List Nat
  repetitions : Nat
  warmupRuns : Nat
  timeoutSeconds : Rat
  mmap : Bool
  cpuOnly : Bool
  explicitCases : Option (List Case)
  models : List ModelSpec
  kvCacheVariants : List (String × String)
  measureMemory : Bool
  timeExecutable : Path

structure Invocation where
  number : Nat
  total : Nat
  case : Case
  caseId : String
  invocationId : String
  warmup : Bool
  repetition : Nat
  model : ModelSpec
deriving DecidableEq, Repr

/-- `itertools.product` over the dimensions of the matrix, the last one fastest. -/
def productCases (config : BenchmarkConfig) : List Case :=
  config.threads.flatMap fun threads =>
    config.promptTokens.flatMap fun promptTokens =>
      config.generatedTokens.flatMap fun generatedTokens =>
        config.batchSizes.flatMap fun batchSize =>
          config.contextSizes.flatMap fun contextSize =>
            config.ubatchSizes.map fun ubatchSize =>
              ⟨threads, promptTokens, generatedTokens, batchSize, contextSize, ubatchSize,
                "f16", "f16"⟩

/-- `cases`: each case once, in every variant of the cache types, or the first one that does not
fit its context. -/
def cases (config : BenchmarkConfig) : Except ConfigError (List Case) :=
  let distinct := (config.explicitCases.getD (productCases config)).eraseDups
  let result := distinct.flatMap fun case =>
    config.kvCacheVariants.map fun (key, value) =>
      { case with kvKeyType := key, kvValueType := value }
  match result.find? fun case => case.contextSize < case.promptTokens + case.generatedTokens with
  | some case => .error ⟨"context size " ++ toString case.contextSize ++
      " is smaller than prompt + generated tokens (" ++
      toString (case.promptTokens + case.generatedTokens) ++ ")"⟩
  | none => .ok result

/-- `case_id`. -/
def caseId (case : Case) : String :=
  "p" ++ toString case.promptTokens ++ "-n" ++ toString case.generatedTokens ++
    "-t" ++ toString case.threads ++ "-b" ++ toString case.batchSize ++
    "-ub" ++ toString case.ubatchSize ++ "-c" ++ toString case.contextSize ++
    "-kv-" ++ case.kvKeyType ++ "-" ++ case.kvValueType

/-- `_models`. -/
def models (config : BenchmarkConfig) : List ModelSpec :=
  if config.models.isEmpty then [⟨config.model.stem, config.model, "UNKNOWN", none, none⟩]
  else config.models

/-- The repetitions of one case: its warm-ups, then its measurements, each counted from one. -/
def repetitionsOf (config : BenchmarkConfig) (model : ModelSpec) (case : Case) :
    List (ModelSpec × Case × Bool × Nat) :=
  (List.range' 1 config.warmupRuns).map (fun index => (model, case, true, index)) ++
    (List.range' 1 config.repetitions).map (fun index => (model, case, false, index))

/-- `invocations`. -/
def invocations (config : BenchmarkConfig) : Except ConfigError (List Invocation) := do
  let specs ← (models config).mapM fun model => do
    return (← cases config).flatMap (repetitionsOf config model)
  let specs := specs.flatten
  return specs.mapIdx fun position (model, case, warmup, repetition) =>
    { number := position + 1, total := specs.length, case, caseId := caseId case
      invocationId := model.logicalId ++ ":" ++ caseId case ++ ":" ++
        (if warmup then "warmup" else "measured") ++ ":" ++ toString repetition
      warmup, repetition, model }

end LlmLab.Benchmarks.LlamaBench
