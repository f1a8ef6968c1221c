import LlmLab.Benchmarks.ServingCommon.Workload
import LlmLab.Lib.Padded

/-!
# The workload generator

`_arrival_times`, `_shared_tokens` and `generate_records` of `serving_common.py`.  What the code
draws from `random.Random` is a parameter.
-/

namespace LlmLab.Benchmarks

/-- What the generator and the manifest check raise. -/
inductive GeneratorError where
  | validation (error : ValidationError)
  /-- `OverflowError`: an integer beyond the range of a float. -/
  | overflow
  /-- `TypeError`: a value that cannot be hashed. -/
  | unhashable
  | missingKey (name : String)

/-- A check of `serving_common.py` within the generator. -/
def checked {α : Type} (check : Except ValidationError α) : Except GeneratorError α :=
  check.mapError .validation

/-- `raise ValidationError(message)` under a condition. -/
def refuseIf (condition : Prop) [Decidable condition] (error : ValidationError) :
    Except GeneratorError Unit :=
  throwIf condition (.validation error)

/-- The numbers that `random.Random` yields. -/
structure RandomSource where
  /-- `math.floor(-mean * math.log1p(-rng.random()))` for each draw after `random.Random(seed)`. -/
  delay : (seed : Json) → (mean : Int) → (draw : Nat) → Except GeneratorError Int
  /-- `rng.randint(low, high)` for each draw after `random.Random(seed)`. -/
  randint : (seed : Nat) → (draw : Nat) → (low high : Int) → Int
  delay_nonneg : ∀ seed mean draw delta, 0 < mean → delay seed mean draw = .ok delta → 0 ≤ delta
  randint_bounds : ∀ seed draw low high, low ≤ high →
    low ≤ randint seed draw low high ∧ randint seed draw low high ≤ high

/-- `record.get(name, default)`. -/
def Record.getD (record : Record) (name : String) (default : Json) : Json :=
  if record.contains name then record.get name else default

/-! ## Arrivals -/

/-- `ARRIVAL_MODELS`. -/
def arrivalModels : List Text := ["burst", "exponential", "fixed_interval", "manual"].map text

/-- `isinstance(value, dict)`. -/
def requireObject (value : Json) (message : String) : Except ValidationError Record :=
  match value.obj? with
  | none => .error (invalid message)
  | some members => .ok members

/-- A timestamp of `timestamps_us`, with its index. -/
def requireTimestamp (entry : Json × Nat) : Except ValidationError Int :=
  requireInt entry.1 ("arrival.timestamps_us[" ++ toString entry.2 ++ "]") 0

/-- The timestamps of a manual arrival. -/
def manualTimes (arrival : Record) (count : Nat) : Except ValidationError (List Int) := do
  let message := "arrival.timestamps_us must have request_count entries"
  let times ← match (arrival.get "timestamps_us").arr? with
    | none => .error (invalid message)
    | some times => .ok times
  throwIf (times.length ≠ count) (invalid message)
  let timestamps ← times.zipIdx.mapM requireTimestamp
  throwIf (timestamps ≠ sortBy id timestamps)
    (invalid "manual arrival timestamps must be non-decreasing")
  return timestamps

section Generation

variable (random : RandomSource)

/-- The loop body of the exponential arrivals; the state is `current` and `result`. -/
def exponentialStep (seed : Json) (mean : Int) (state : Int × List Int) (index : Nat) :
    Except GeneratorError (Int × List Int) := do
  let current ← if index = 0 then pure state.1 else do
    let delta ← random.delay seed mean (index - 1)
    pure (state.1 + delta)
  return (current, state.2 ++ [current])

/-- `_arrival_times`. -/
def arrivalTimes (config : Record) (count : Nat) (seed : Json) :
    Except GeneratorError (List Int) := do
  let arrival ← checked (requireObject (config.getD "arrival" (.obj [])) "arrival must be an object")
  let mode ← checked (requireStr (arrival.get "mode") "arrival.mode" false)
  refuseIf (mode ∉ arrivalModels)
    (invalid "arrival.mode must be one of ['burst', 'exponential', 'fixed_interval', 'manual']")
  let start ← checked
    (requireInt (arrival.getD "start_time_us" (.int 0)) "arrival.start_time_us" 0)
  if mode = text "burst" then
    return List.replicate count start
  else if mode = text "fixed_interval" then do
    let interval ← checked (requireInt (arrival.get "interval_us") "arrival.interval_us" 1)
    return (List.range count).map fun index : Nat => start + index * interval
  else if mode = text "manual" then
    checked (manualTimes arrival count)
  else do
    let mean ← checked (requireInt (arrival.get "mean_interval_us") "arrival.mean_interval_us" 1)
    let final ← (List.range count).foldlM (exponentialStep random seed mean) (start, [])
    return final.2

/-! ## Prompts -/

/-- `_shared_tokens`. -/
def sharedTokens (group length base : Nat) : List Int :=
  (List.range length).map fun index => ((base + group * 10000 + index : Nat) : Int)

/-- `WORKLOAD_CLASSES`, as `generate_records` tells them apart. -/
inductive WorkloadClass where
  | chat
  | sharedSystemPrompt
  | codingAgent
  | burst
  | overload
  | mixed
deriving DecidableEq, Repr

namespace WorkloadClass

def ofText (name : Text) : WorkloadClass :=
  if name = text "chat" then .chat
  else if name = text "shared_system_prompt" then .sharedSystemPrompt
  else if name = text "coding_agent" then .codingAgent
  else if name = text "burst" then .burst
  else if name = text "overload" then .overload
  else .mixed

end WorkloadClass

/-- What a class puts into a request: its prompt, of exact tokens with a prefix group or only
counted, and the bound on its output. -/
structure RequestShape where
  prompt : (List Int × String) ⊕ Int
  maxNewTokens : Int

/-- The branches of `generate_records`; `seed` is the one of its generator. -/
def requestShape (workloadClass : WorkloadClass) (seed index : Nat) : RequestShape :=
  match workloadClass with
  | .chat =>
      { prompt := .inr (random.randint seed (2 * index) 12 80)
        maxNewTokens := random.randint seed (2 * index + 1) 16 64 }
  | .sharedSystemPrompt =>
      { prompt := .inl (sharedTokens 0 64 10000 ++ sharedTokens index (8 + index % 5) 20000,
          "shared-system-v1")
        maxNewTokens := (16 + index % 17 : Nat) }
  | .codingAgent =>
      let group := index % 2
      { prompt := .inl (sharedTokens group 128 30000 ++ sharedTokens index (24 + index % 17) 50000,
          "coding-tools-" ++ toString group)
        maxNewTokens := (64 + index % 65 : Nat) }
  | .burst =>
      { prompt := .inr (16 + index % 4 * 8 : Nat), maxNewTokens := (8 + index % 8 : Nat) }
  | .overload =>
      { prompt := .inr (48 + index % 33 : Nat), maxNewTokens := (48 + index % 49 : Nat) }
  | .mixed =>
      match index % 4 with
      | 0 => { prompt := .inr (16 + index % 48 : Nat), maxNewTokens := (16 + index % 24 : Nat) }
      | 1 => { prompt := .inr (192 + index % 65 : Nat), maxNewTokens := (12 + index % 12 : Nat) }
      | 2 =>
          { prompt := .inl (sharedTokens 0 96 70000 ++ sharedTokens index (16 + index % 9) 80000,
              "mixed-coding")
            maxNewTokens := (48 + index % 49 : Nat) }
      | _ => { prompt := .inr (24 + index % 40 : Nat), maxNewTokens := (80 + index % 49 : Nat) }

/-- `f"{workload_class}-{index:04d}"`. -/
def generatedId (workloadClass : Text) (index : Nat) : Text :=
  workloadClass ++ text "-" ++ (padded 4 index).map codePoint

/-- The record of one request after its `record.update`. -/
def generatedRecord (workloadClass : Text) (index : Nat) (arrival : Int) (shape : RequestShape) :
    Record :=
  let promptCount := match shape.prompt with
    | .inl (tokens, _) => (tokens.length : Int)
    | .inr count => count
  [(text "schema_version", .str (text workloadSchemaVersion)),
    (text "request_id", .str (generatedId workloadClass index)),
    (text "arrival_time_us", .int arrival),
    (text "prompt_token_count", .int promptCount),
    (text "max_new_tokens", .int shape.maxNewTokens),
    (text "workload_class", .str workloadClass)] ++
  match shape.prompt with
  | .inl (tokens, group) =>
      [(text "prompt_tokens", .arr (tokens.map .int)), (text "prefix_group", .str (text group))]
  | .inr _ => []

/-! ## Records -/

def manifestSchemaVersion : String := "serving-workload-manifest-v1"

def generatorName : String := "benchmarks/generate_serving_workload.py"

/-- The fields a generator configuration may have. -/
def generatorFields : List Text :=
  ["schema_version", "workload_class", "request_count", "seed", "arrival"].map text

/-- The manifest of a generated workload. -/
def generatedManifest (config : Record) (workloadClass : Text) (count seed : Int) : Record :=
  [(text "schema_version", .str (text manifestSchemaVersion)),
    (text "workload_schema_version", .str (text workloadSchemaVersion)),
    (text "workload_class", .str workloadClass), (text "request_count", .int count),
    (text "seed", .int seed), (text "generator_config", .obj config),
    (text "generator", .str (text generatorName)), (text "timestamp", .null)]

/-- `seed ^ 0x5EEDC0DE`. -/
def recordSeed (seed : Int) : Nat := seed.toNat ^^^ 0x5EEDC0DE

/-- The record of a request, by its arrival and index. -/
def generatedAt (workloadClass : Text) (seed : Int) (entry : Int × Nat) : Record :=
  generatedRecord workloadClass entry.2 entry.1
    (requestShape random (.ofText workloadClass) (recordSeed seed) entry.2)

/-- `generate_records`. -/
def generateRecords (config : Record) : Except GeneratorError (List Record × Record) := do
  let unknown := config.filter fun member => generatorFields.contains member.1 = false
  refuseIf (unknown ≠ [])
    ⟨"unknown generator fields", (sortBy id (unknown.map Prod.fst)).map Json.str⟩
  refuseIf ((config.get "schema_version").str? ≠ some (text workloadSchemaVersion))
    ⟨"schema_version must be '" ++ workloadSchemaVersion ++ "'", [config.get "schema_version"]⟩
  let workloadClass ← checked (requireStr (config.get "workload_class") "workload_class" false)
  refuseIf (workloadClasses.contains workloadClass = false)
    ⟨"unknown workload_class", [.str workloadClass]⟩
  let count ← checked (requireInt (config.get "request_count") "request_count" 0)
  let seed ← checked (requireInt (config.get "seed") "seed" 0)
  let arrivals ← arrivalTimes random config count.toNat (.int seed)
  let records ← arrivals.zipIdx.mapM fun entry =>
    checked (validateWorkloadRecord (.obj (generatedAt random workloadClass seed entry))
      (entry.2 + 1))
  return (records, generatedManifest config workloadClass count seed)

end Generation

/-! ## Which arrivals are scheduled -/

theorem checked_eq_ok {α : Type} {check : Except ValidationError α} {value : α} :
    checked check = .ok value ↔ check = .ok value :=
  mapError_eq_ok

theorem refuseIf_eq_ok {condition : Prop} [Decidable condition] {error : ValidationError}
    {done : Unit} : refuseIf condition error = .ok done ↔ ¬ condition :=
  throwIf_eq_ok

theorem requireObject_eq_ok {value : Json} {message : String} {members : Record} :
    requireObject value message = .ok members ↔ value = .obj members := by
  cases value with
  | obj items => simp [requireObject, Json.obj?]
  | _ => simp [requireObject, Json.obj?]

/-- The timestamps that the array of a manual arrival lists. -/
structure Record.Lists (arrival : Record) (count : Nat) (times : List Int) : Prop where
  listed : (arrival.get "timestamps_us").arr? = some (times.map .int)
  length : times.length = count
  nonneg : ∀ time ∈ times, 0 ≤ time
  sorted : times.Pairwise (· ≤ ·)

/-- Times that begin at the start and go on by what the source draws. -/
structure RandomSource.Paces (random : RandomSource) (seed : Json) (mean start : Int)
    (times : List Int) : Prop where
  first : ∀ time ∈ times.head?, time = start
  gaps : ∀ index time next, times[index]? = some time → times[index + 1]? = some next →
    random.delay seed mean index = .ok (next - time)

/-- The arrival times that an `arrival` object asks for. -/
inductive Schedules (random : RandomSource) (seed : Json) (arrival : Record) (count : Nat)
    (start : Int) : List Int → Prop where
  | burst (mode : (arrival.get "mode").str? = some (text "burst")) :
      Schedules random seed arrival count start (List.replicate count start)
  | fixedInterval {interval : Int} (mode : (arrival.get "mode").str? = some (text "fixed_interval"))
      (every : (arrival.get "interval_us").int? = some interval) (positive : 1 ≤ interval) :
      Schedules random seed arrival count start
        ((List.range count).map fun index : Nat => start + index * interval)
  | manual {times : List Int} (mode : (arrival.get "mode").str? = some (text "manual"))
      (lists : arrival.Lists count times) : Schedules random seed arrival count start times
  | exponential {mean : Int} {times : List Int}
      (mode : (arrival.get "mode").str? = some (text "exponential"))
      (every : (arrival.get "mean_interval_us").int? = some mean) (positive : 1 ≤ mean)
      (length : times.length = count) (paces : random.Paces seed mean start times) :
      Schedules random seed arrival count start times

variable {random : RandomSource} {config arrival : Record} {count : Nat} {seed : Json}
  {mean start : Int} {times : List Int}

/-- A list of manual times is accepted exactly when all are integers that are not negative. -/
theorem requireTimestamps_eq_ok {values : List Json} {first : Nat} :
    (values.zipIdx first).mapM requireTimestamp = .ok times ↔
      values = times.map .int ∧ ∀ time ∈ times, 0 ≤ time := by
  induction values generalizing first times with
  | nil =>
      cases times with
      | nil => simp [pure, Except.pure]
      | cons time times => simp [pure, Except.pure]
  | cons value values ih =>
      rw [List.zipIdx_cons, List.mapM_cons]
      simp only [except_bind_eq_ok, requireTimestamp, requireInt_eq_ok]
      constructor
      · rintro ⟨time, ⟨isInt, low⟩, rest, tail, same⟩
        obtain rfl := Except.ok.inj same
        obtain ⟨rfl, nonneg⟩ := ih.mp tail
        refine ⟨?_, List.forall_mem_cons.mpr ⟨low, nonneg⟩⟩
        cases value with
        | int number =>
            rw [Option.some.inj isInt]
            rfl
        | _ => cases isInt
      · rintro ⟨same, nonneg⟩
        cases times with
        | nil => cases same
        | cons time times =>
            obtain ⟨rfl, rfl⟩ := List.cons.inj same
            rw [List.forall_mem_cons] at nonneg
            exact ⟨time, ⟨rfl, nonneg.1⟩, times, ih.mpr ⟨rfl, nonneg.2⟩, rfl⟩

/-- The manual mode yields the times that the configuration lists. -/
theorem manualTimes_eq_ok : manualTimes arrival count = .ok times ↔ arrival.Lists count times := by
  unfold manualTimes
  cases found : (arrival.get "timestamps_us").arr? with
  | none =>
      refine ⟨(nomatch ·), fun lists => ?_⟩
      have listed := lists.listed
      rw [found] at listed
      cases listed
  | some values =>
      simp only [except_ok_bind, except_bind_eq_ok, throwIf_eq_ok, requireTimestamps_eq_ok, not_not]
      constructor
      · rintro ⟨-, length, timestamps, ⟨rfl, nonneg⟩, -, sorted, same⟩
        obtain rfl := Except.ok.inj same
        refine ⟨found, by rwa [List.length_map] at length, nonneg, ?_⟩
        rw [sorted]
        exact sortBy_sorted _ _
      · intro lists
        obtain rfl := Option.some.inj (found.symm.trans lists.listed)
        exact ⟨(), by rw [List.length_map, lists.length], times, ⟨rfl, lists.nonneg⟩, (),
          eq_sortBy (fun _ _ _ _ => id) (List.Perm.refl _) lists.sorted, rfl⟩

/-- One exponential step: the first request arrives at the start, a later one after its delay. -/
theorem exponentialStep_eq_ok {state final : Int × List Int} {index : Nat} :
    exponentialStep random seed mean state index = .ok final ↔
      (index = 0 ∧ final = (state.1, state.2 ++ [state.1])) ∨
        ∃ before delta, index = before + 1 ∧ random.delay seed mean before = .ok delta ∧
          final = (state.1 + delta, state.2 ++ [state.1 + delta]) := by
  unfold exponentialStep
  cases index with
  | zero => simp [pure, Except.pure, eq_comm]
  | succ before =>
      simp only [Nat.add_one_ne_zero, if_false, except_bind_eq_ok, Nat.add_sub_cancel]
      constructor
      · rintro ⟨delta, drawn, current, same, last⟩
        obtain rfl := Except.ok.inj same
        exact Or.inr ⟨before, delta, rfl, drawn, (Except.ok.inj last).symm⟩
      · rintro (⟨none, -⟩ | ⟨_, delta, same, drawn, rfl⟩)
        · cases none
        · obtain rfl := Nat.succ.inj same
          exact ⟨delta, drawn, _, rfl, rfl⟩

theorem paces_nil : random.Paces seed mean start [] :=
  ⟨fun _ none => (nomatch none), fun _ _ _ none => (nomatch none)⟩

theorem paces_singleton {time : Int} : random.Paces seed mean start [time] ↔ time = start := by
  refine ⟨fun paces => paces.first time rfl, ?_⟩
  rintro rfl
  refine ⟨fun other same => (Option.some.inj same).symm, fun index other next _ beyond => ?_⟩
  rw [List.getElem?_eq_none (Nat.le_add_left 1 index)] at beyond
  cases beyond

/-- One more time keeps the pace exactly when it follows the last by the next delay. -/
theorem paces_concat {last time : Int} :
    random.Paces seed mean start (times ++ [last] ++ [time]) ↔
      random.Paces seed mean start (times ++ [last]) ∧
        random.delay seed mean times.length = .ok (time - last) := by
  have final : (times ++ [last] ++ [time])[times.length]? = some last := by
    rw [List.append_assoc, List.getElem?_append_right le_rfl, Nat.sub_self]
    rfl
  have beyond : (times ++ [last] ++ [time])[times.length + 1]? = some time := by
    rw [List.getElem?_append_right (by simp), List.length_append, List.length_singleton,
      Nat.sub_self]
    rfl
  have head : (times ++ [last] ++ [time]).head? = (times ++ [last]).head? := by
    rw [List.head?_append_of_ne_nil _ (by simp)]
  constructor
  · intro paces
    refine ⟨⟨fun first found => paces.first first (head ▸ found), fun index here next found after =>
      paces.gaps index here next ?_ ?_⟩, paces.gaps _ _ _ final beyond⟩
    · rw [List.getElem?_append_left (List.getElem?_eq_some_iff.mp found).1]
      exact found
    · rw [List.getElem?_append_left (List.getElem?_eq_some_iff.mp after).1]
      exact after
  · rintro ⟨paces, drawn⟩
    refine ⟨fun first found => paces.first first (head ▸ found), fun index here next found after => ?_⟩
    have inside : index + 1 < times.length + 2 := by
      simpa using (List.getElem?_eq_some_iff.mp after).1
    rcases Nat.lt_or_ge index times.length with early | late
    · rw [List.getElem?_append_left (by simp; omega)] at found after
      exact paces.gaps index here next found after
    · obtain rfl : index = times.length := by omega
      rw [final] at found
      rw [beyond] at after
      rw [← Option.some.inj found, ← Option.some.inj after]
      exact drawn

/-- The times of the exponential arrivals; `current` is the latest of them. -/
theorem exponentialSteps_eq_ok {final : Int × List Int} :
    (List.range count).foldlM (exponentialStep random seed mean) (start, []) = .ok final ↔
      final.2.length = count ∧ random.Paces seed mean start final.2 ∧
        final.1 = final.2.getLastD start := by
  induction count generalizing final with
  | zero =>
      obtain ⟨current, result⟩ := final
      constructor
      · rintro ⟨⟩
        exact ⟨rfl, paces_nil, rfl⟩
      · rintro ⟨none, -, latest⟩
        obtain rfl := List.eq_nil_of_length_eq_zero none
        obtain rfl : current = start := latest
        rfl
  | succ count ih =>
      rw [List.range_succ, foldlM_concat, except_bind_eq_ok]
      simp only [ih, exponentialStep_eq_ok]
      constructor
      · rintro ⟨⟨current, result⟩, ⟨length, paces, latest⟩, ⟨rfl, rfl⟩ | ⟨before, delta, rfl, drawn, rfl⟩⟩
        · obtain rfl := List.eq_nil_of_length_eq_zero length
          exact ⟨rfl, paces_singleton.mpr latest, rfl⟩
        · rcases List.eq_nil_or_concat' result with rfl | ⟨times, last, rfl⟩
          · cases length
          · rw [List.length_append, List.length_singleton, Nat.add_right_cancel_iff] at length
            have latest : current = last := by simpa using latest
            subst latest
            refine ⟨by simp [length], paces_concat.mpr ⟨paces, ?_⟩, by simp⟩
            rw [length, drawn, add_sub_cancel_left]
      · rintro ⟨length, paces, latest⟩
        obtain ⟨current, result⟩ := final
        dsimp only at length paces latest
        rcases List.eq_nil_or_concat' result with rfl | ⟨times, time, rfl⟩
        · cases length
        have latest : current = time := by simpa using latest
        subst latest
        rw [List.length_append, List.length_singleton, Nat.add_right_cancel_iff] at length
        rcases List.eq_nil_or_concat' times with rfl | ⟨times, last, rfl⟩
        · have same : current = start := paces_singleton.mp paces
          exact ⟨(start, []), ⟨length, paces_nil, rfl⟩, Or.inl ⟨length.symm, by rw [same]⟩⟩
        · obtain ⟨paces, drawn⟩ := paces_concat.mp paces
          refine ⟨(last, times ++ [last]), ⟨length, paces, by simp⟩,
            Or.inr ⟨times.length, current - last, by rw [← length]; simp, drawn, ?_⟩⟩
          rw [add_sub_cancel]

/-- The arrivals are computed exactly when the configuration schedules them. -/
theorem arrivalTimes_eq_ok :
    arrivalTimes random config count seed = .ok times ↔
      ∃ (arrival : Record) (start : Int), config.getD "arrival" (.obj []) = .obj arrival ∧
        (arrival.getD "start_time_us" (.int 0)).int? = some start ∧ 0 ≤ start ∧
        Schedules random seed arrival count start times := by
  unfold arrivalTimes
  simp only [except_bind_eq_ok, checked_eq_ok, requireObject_eq_ok, requireStr_eq_ok,
    refuseIf_eq_ok, requireInt_eq_ok, not_not]
  constructor
  · rintro ⟨arrival, object, mode, ⟨named, -⟩, -, known, start, ⟨starts, early⟩, result⟩
    refine ⟨arrival, start, object, starts, early, ?_⟩
    split at result
    · next burst =>
        obtain rfl := Except.ok.inj result
        exact .burst (burst ▸ named)
    · split at result
      · next fixed =>
          simp only [except_bind_eq_ok, checked_eq_ok, requireInt_eq_ok] at result
          obtain ⟨interval, ⟨every, positive⟩, same⟩ := result
          obtain rfl := Except.ok.inj same
          exact .fixedInterval (fixed ▸ named) every positive
      · split at result
        · next manual =>
            exact .manual (manual ▸ named) (manualTimes_eq_ok.mp (checked_eq_ok.mp result))
        · simp only [except_bind_eq_ok, checked_eq_ok, requireInt_eq_ok,
            exponentialSteps_eq_ok] at result
          obtain ⟨mean, ⟨every, positive⟩, final, ⟨length, paces, -⟩, same⟩ := result
          obtain rfl := Except.ok.inj same
          refine .exponential ?_ every positive length paces
          simp only [arrivalModels, List.map_cons, List.map_nil, List.mem_cons, List.not_mem_nil,
            or_false] at known
          rcases known with burst | exponential | fixed | manual
          · contradiction
          · exact exponential ▸ named
          · contradiction
          · contradiction
  · rintro ⟨arrival, start, object, starts, early, schedules⟩
    refine ⟨arrival, object, ?_⟩
    cases schedules with
    | burst mode =>
        exact ⟨_, ⟨mode, by decide⟩, (), by decide, start, ⟨starts, early⟩, rfl⟩
    | fixedInterval mode every positive =>
        refine ⟨_, ⟨mode, by decide⟩, (), by decide, start, ⟨starts, early⟩, ?_⟩
        rw [if_neg (by decide), if_pos rfl]
        simp only [except_bind_eq_ok, checked_eq_ok, requireInt_eq_ok]
        exact ⟨_, ⟨every, positive⟩, rfl⟩
    | manual mode lists =>
        refine ⟨_, ⟨mode, by decide⟩, (), by decide, start, ⟨starts, early⟩, ?_⟩
        rw [if_neg (by decide), if_neg (by decide), if_pos rfl, checked_eq_ok]
        exact manualTimes_eq_ok.mpr lists
    | exponential mode every positive length paces =>
        refine ⟨_, ⟨mode, by decide⟩, (), by decide, start, ⟨starts, early⟩, ?_⟩
        rw [if_neg (by decide), if_neg (by decide), if_neg (by decide)]
        simp only [except_bind_eq_ok, checked_eq_ok, requireInt_eq_ok, exponentialSteps_eq_ok]
        exact ⟨_, ⟨every, positive⟩, (times.getLastD start, times), ⟨length, paces, rfl⟩, rfl⟩

namespace Schedules

theorem length_eq (schedules : Schedules random seed arrival count start times) :
    times.length = count := by
  cases schedules with
  | burst => rw [List.length_replicate]
  | fixedInterval => rw [List.length_map, List.length_range]
  | manual mode lists => exact lists.length
  | exponential mode every positive length => exact length

/-- The arrivals come one after the other, none before time zero. -/
theorem sorted (schedules : Schedules random seed arrival count start times) (early : 0 ≤ start) :
    times.Pairwise (· ≤ ·) ∧ ∀ time ∈ times, 0 ≤ time := by
  cases schedules with
  | burst =>
      refine ⟨List.pairwise_replicate.mpr (Or.inr le_rfl), fun time member => ?_⟩
      exact (List.eq_of_mem_replicate member) ▸ early
  | @fixedInterval interval _ _ positive =>
      constructor
      · refine List.pairwise_map.mpr (List.pairwise_lt_range.imp fun {i j} before => ?_)
        have further := Int.mul_le_mul_of_nonneg_right
          (Int.ofNat_le.mpr (Nat.le_of_lt before)) (le_trans Int.one_nonneg positive)
        omega
      · rintro _ member
        obtain ⟨index, -, rfl⟩ := List.mem_map.mp member
        have ahead := Int.mul_nonneg (Int.natCast_nonneg index) (le_trans Int.one_nonneg positive)
        omega
  | manual _ lists => exact ⟨lists.sorted, lists.nonneg⟩
  | @exponential mean times _ _ positive _ paces =>
      have sorted : times.Pairwise (· ≤ ·) := by
        refine List.isChain_iff_pairwise.mp (List.isChain_iff_getElem.mpr fun index inside => ?_)
        have step := paces.gaps index _ _ (List.getElem?_eq_getElem (by omega))
          (List.getElem?_eq_getElem inside)
        have forward := random.delay_nonneg _ _ _ _ (by omega) step
        omega
      refine ⟨sorted, fun time member => ?_⟩
      cases times with
      | nil => cases member
      | cons first times =>
          obtain rfl := paces.first first rfl
          rcases List.mem_cons.mp member with rfl | later
          · exact early
          · exact le_trans early ((List.pairwise_cons.mp sorted).1 time later)

end Schedules

/-! ## Which records are accepted -/

theorem mem_sharedTokens {group length base : Nat} {token : Int} :
    token ∈ sharedTokens group length base ↔
      ∃ index < length, ((base + group * 10000 + index : Nat) : Int) = token := by
  simp only [sharedTokens, List.mem_map, List.mem_range]

/-- The largest workload of a class whose tokens stay within 32 bits. -/
def WorkloadClass.countLimit : WorkloadClass → Option Nat
  | .sharedSystemPrompt => some 214747
  | .codingAgent => some 214744
  | .mixed => some 214742
  | _ => none

/-- Tokens that a record may hold. -/
def InRange (tokens : List Int) : Prop := ∀ token ∈ tokens, -(2 ^ 31) ≤ token ∧ token ≤ 2 ^ 31 - 1

/-- The exact prompt of a request, if it has one, may stand in a record. -/
def RequestShape.Fits (shape : RequestShape) : Prop :=
  ∀ tokens group, shape.prompt = .inl (tokens, group) → InRange tokens

theorem inRange_append {left right : List Int} :
    InRange (left ++ right) ↔ InRange left ∧ InRange right :=
  List.forall_mem_append

theorem inRange_sharedTokens {group length base : Nat} (some : 0 < length) :
    InRange (sharedTokens group length base) ↔ base + group * 10000 + length ≤ 2 ^ 31 := by
  constructor
  · intro within
    have last := (within _ (mem_sharedTokens.mpr ⟨length - 1, by omega, rfl⟩)).2
    omega
  · rintro low _ member
    obtain ⟨index, inside, rfl⟩ := mem_sharedTokens.mp member
    omega

variable {workloadClass : WorkloadClass}

/-- When the requests of a workload fit. -/
theorem forall_fits_iff {recordSeed : Nat} :
    (∀ index < count, (requestShape random workloadClass recordSeed index).Fits) ↔
      ∀ limit ∈ workloadClass.countLimit, count ≤ limit := by
  have exact : ∀ {tokens : List Int} {group : String} {most : Int},
      RequestShape.Fits ⟨.inl (tokens, group), most⟩ ↔ InRange tokens := fun {tokens group most} =>
    ⟨fun fits => fits tokens group rfl, fun within _ _ same => by
      obtain ⟨rfl, -⟩ := Prod.mk.inj (Sum.inl.inj same)
      exact within⟩
  have counted : ∀ {size most : Int}, RequestShape.Fits ⟨.inr size, most⟩ := fun _ _ none => nomatch none
  cases workloadClass with
  | chat => exact ⟨fun _ _ => (nomatch ·), fun _ _ _ => counted⟩
  | burst => exact ⟨fun _ _ => (nomatch ·), fun _ _ _ => counted⟩
  | overload => exact ⟨fun _ _ => (nomatch ·), fun _ _ _ => counted⟩
  | sharedSystemPrompt =>
      simp only [requestShape, exact, inRange_append, WorkloadClass.countLimit, Option.mem_def,
        Option.some.injEq, forall_eq']
      constructor
      · intro within
        by_contra many
        have last := (inRange_sharedTokens (by omega)).mp (within 214747 (by omega)).2
        omega
      · intro few index inside
        exact ⟨(inRange_sharedTokens (by omega)).mpr (by omega),
          (inRange_sharedTokens (by omega)).mpr (by omega)⟩
  | codingAgent =>
      simp only [requestShape, exact, inRange_append, WorkloadClass.countLimit, Option.mem_def,
        Option.some.injEq, forall_eq']
      constructor
      · intro within
        by_contra many
        have last := (inRange_sharedTokens (by omega)).mp (within 214744 (by omega)).2
        omega
      · intro few index inside
        exact ⟨(inRange_sharedTokens (by omega)).mpr (by omega),
          (inRange_sharedTokens (by omega)).mpr (by omega)⟩
  | mixed =>
      simp only [WorkloadClass.countLimit, Option.mem_def, Option.some.injEq, forall_eq']
      constructor
      · intro within
        by_contra many
        have last := within 214742 (by omega)
        simp only [requestShape, exact, inRange_append] at last
        have bound := (inRange_sharedTokens (by omega)).mp last.2
        omega
      · intro few index inside
        unfold requestShape
        dsimp only
        split
        · exact counted
        · exact counted
        · rw [exact, inRange_append]
          exact ⟨(inRange_sharedTokens (by omega)).mpr (by omega),
            (inRange_sharedTokens (by omega)).mpr (by omega)⟩
        · exact counted

/-- The fields of a shape that every record checks, and their bounds. -/
structure RequestShape.Sound (shape : RequestShape) : Prop where
  counted : ∀ size, shape.prompt = .inr size → 0 ≤ size ∧ size ≤ 256
  grouped : ∀ tokens group, shape.prompt = .inl (tokens, group) →
    text group ≠ [] ∧ tokens.length ≤ 256
  bounded : 0 ≤ shape.maxNewTokens ∧ shape.maxNewTokens ≤ 128

/-- Every shape keeps the bounds of its class. -/
theorem requestShape_sound (random : RandomSource) (workloadClass : WorkloadClass)
    (recordSeed index : Nat) : (requestShape random workloadClass recordSeed index).Sound := by
  have exact : ∀ (tokens : List Int) (group : String) (most : Nat), text group ≠ [] →
      tokens.length ≤ 256 → most ≤ 128 → RequestShape.Sound ⟨.inl (tokens, group), most⟩ :=
    fun tokens group most named short few =>
      ⟨fun _ none => (nomatch none), fun _ _ same => by
        obtain ⟨rfl, rfl⟩ := Prod.mk.inj (Sum.inl.inj same)
        exact ⟨named, short⟩, Int.natCast_nonneg most, by dsimp only; omega⟩
  have counted : ∀ size most : Nat, size ≤ 256 → most ≤ 128 →
      RequestShape.Sound ⟨.inr size, most⟩ := fun size most short few =>
    ⟨fun _ same => Sum.inr.inj same ▸ ⟨Int.natCast_nonneg size, by omega⟩,
      fun _ _ none => (nomatch none), Int.natCast_nonneg most, by dsimp only; omega⟩
  have length : ∀ group length base, (sharedTokens group length base).length = length := by
    simp [sharedTokens]
  cases workloadClass with
  | chat =>
      have prompts := random.randint_bounds recordSeed (2 * index) 12 80 (by decide)
      have outputs := random.randint_bounds recordSeed (2 * index + 1) 16 64 (by decide)
      exact ⟨fun _ same => Sum.inr.inj same ▸ ⟨by omega, by omega⟩,
        fun _ _ none => (nomatch none), by dsimp only [requestShape]; omega,
        by dsimp only [requestShape]; omega⟩
  | sharedSystemPrompt =>
      exact exact _ _ _ (by decide) (by rw [List.length_append, length, length]; omega) (by omega)
  | codingAgent =>
      exact exact _ _ _ (by simp [text]) (by rw [List.length_append, length, length]; omega)
        (by omega)
  | burst => exact counted _ _ (by omega) (by omega)
  | overload => exact counted _ _ (by omega) (by omega)
  | mixed =>
      unfold requestShape
      dsimp only
      split
      · exact counted _ _ (by omega) (by omega)
      · exact counted _ _ (by omega) (by omega)
      · exact exact _ _ _ (by decide) (by rw [List.length_append, length, length]; omega)
          (by omega)
      · exact counted _ _ (by omega) (by omega)

section Accepted

variable {name : Text} {index : Nat} {shape : RequestShape}

theorem generatedId_ne_nil : generatedId name index ≠ [] := by
  simp [generatedId, text]

/-- The validation of a generated record looks at its tokens alone. -/
theorem generatedRecord_accepted (known : name ∈ workloadClasses) (early : 0 ≤ start)
    (sound : shape.Sound) :
    (generatedRecord name index start shape).Accepted ↔ shape.Fits := by
  obtain ⟨⟨tokens, group⟩ | size, most⟩ := shape
  · constructor
    · rintro accepted _ _ ⟨⟩ token member
      obtain ⟨_, ⟨⟩, -, within⟩ := accepted.promptTokens rfl
      obtain ⟨_, ⟨⟩, bounds⟩ := within (.int token) (List.mem_map_of_mem member)
      exact bounds
    · intro fits
      exact {
        known := by simp [generatedRecord, workloadFields]
        schema := rfl
        requestId := ⟨_, rfl, generatedId_ne_nil⟩
        arrival := ⟨start, rfl, early⟩
        promptCount := ⟨_, rfl, Int.natCast_nonneg _⟩
        maxNewTokens := ⟨most, rfl, sound.bounded.1⟩
        workloadClass := ⟨name, known, rfl⟩
        promptTokens := fun _ => ⟨tokens.map .int, rfl, by rw [List.length_map]; rfl,
          fun _ member => by
            obtain ⟨token, inside, rfl⟩ := List.mem_map.mp member
            exact ⟨token, rfl, fits tokens group rfl token inside⟩⟩
        prefixGroup := fun _ => ⟨text group, rfl, (sound.grouped tokens group rfl).1⟩
        deadline := fun present => by cases present
        metadata := fun present => by cases present }
  · refine iff_of_true ?_ fun _ _ none => nomatch none
    exact {
      known := by simp [generatedRecord, workloadFields]
      schema := rfl
      requestId := ⟨_, rfl, generatedId_ne_nil⟩
      arrival := ⟨start, rfl, early⟩
      promptCount := ⟨size, rfl, (sound.counted size rfl).1⟩
      maxNewTokens := ⟨most, rfl, sound.bounded.1⟩
      workloadClass := ⟨name, known, rfl⟩
      promptTokens := fun present => by cases present
      prefixGroup := fun present => by cases present
      deadline := fun present => by cases present
      metadata := fun present => by cases present }

end Accepted

/-! ## The whole workload -/

/-- A configuration that names a class, a count and a seed. -/
structure Record.Configures (config : Record) (workloadClass : Text) (count seed : Nat) : Prop where
  known : ∀ member ∈ config, member.1 ∈ generatorFields
  schema : (config.get "schema_version").str? = some (text workloadSchemaVersion)
  named : (config.get "workload_class").str? = some workloadClass
  listed : workloadClass ∈ workloadClasses
  count : (config.get "request_count").int? = some (count : Int)
  seed : (config.get "seed").int? = some (seed : Int)

/-- The arrival times that a configuration schedules. -/
def Record.Arrives (config : Record) (random : RandomSource) (count seed : Nat)
    (times : List Int) : Prop :=
  ∃ (arrival : Record) (start : Int), config.getD "arrival" (.obj []) = .obj arrival ∧
    (arrival.getD "start_time_us" (.int 0)).int? = some start ∧ 0 ≤ start ∧
    Schedules random (.int seed) arrival count start times

/-- The records of a workload. -/
def generatedWorkload (random : RandomSource) (workloadClass : Text) (seed : Nat)
    (times : List Int) : List Record :=
  times.zipIdx.map (generatedAt random workloadClass seed)

theorem validateGenerated_eq_ok {name : Text} {seed : Nat} {entry : Int × Nat} {record : Record}
    (known : name ∈ workloadClasses) (early : 0 ≤ entry.1) :
    checked (validateWorkloadRecord (.obj (generatedAt random name seed entry)) (entry.2 + 1)) =
        .ok record ↔
      record = generatedAt random name seed entry ∧
        (requestShape random (.ofText name) (recordSeed seed) entry.2).Fits := by
  rw [checked_eq_ok, validateWorkloadRecord_eq_ok, Json.obj.injEq]
  constructor
  · rintro ⟨rfl, accepted⟩
    exact ⟨rfl, (generatedRecord_accepted known early (requestShape_sound _ _ _ _)).mp accepted⟩
  · rintro ⟨rfl, fits⟩
    exact ⟨rfl, (generatedRecord_accepted known early (requestShape_sound _ _ _ _)).mpr fits⟩

theorem forall_zipIdx_iff {property : Nat → Prop} (length : times.length = count) :
    (∀ entry ∈ times.zipIdx, property entry.2) ↔ ∀ index < count, property index := by
  constructor
  · intro all index inside
    exact all (times[index], index)
      (List.mk_mem_zipIdx_iff_getElem?.mpr (List.getElem?_eq_getElem (length ▸ inside)))
  · intro all entry member
    exact all entry.2 (length ▸ List.snd_lt_of_mem_zipIdx member)

theorem Record.Arrives.schedule {seed : Nat} (arrives : config.Arrives random count seed times) :
    times.length = count ∧ times.Pairwise (· ≤ ·) ∧ ∀ time ∈ times, 0 ≤ time := by
  obtain ⟨arrival, start, -, -, early, schedules⟩ := arrives
  exact ⟨schedules.length_eq, schedules.sorted early⟩

/-- The records pass their validation when their tokens stay within 32 bits. -/
theorem validateWorkload_eq_ok {name : Text} {seed : Nat} {records : List Record}
    (known : name ∈ workloadClasses) (arrives : config.Arrives random count seed times) :
    (times.zipIdx.mapM fun entry =>
        checked (validateWorkloadRecord (.obj (generatedAt random name seed entry))
          (entry.2 + 1))) = .ok records ↔
      records = generatedWorkload random name seed times ∧
        ∀ limit ∈ (WorkloadClass.ofText name).countLimit, count ≤ limit := by
  obtain ⟨length, -, nonneg⟩ := arrives.schedule
  have each := fun (entry : Int × Nat) (member : entry ∈ times.zipIdx) (record : Record) =>
    @validateGenerated_eq_ok random name seed entry record known
      (nonneg entry.1 (List.fst_mem_of_mem_zipIdx member))
  exact (mapM_eq_ok_iff each).trans
    (and_congr_right fun _ => (forall_zipIdx_iff length).trans forall_fits_iff)

theorem accepted_generatedWorkload {name : Text} {seed : Nat} (known : name ∈ workloadClasses)
    (arrives : config.Arrives random count seed times)
    (few : ∀ limit ∈ (WorkloadClass.ofText name).countLimit, count ≤ limit) :
    ∀ record ∈ generatedWorkload random name seed times, record.Accepted := by
  obtain ⟨length, -, nonneg⟩ := arrives.schedule
  intro record member
  obtain ⟨entry, inside, rfl⟩ := List.mem_map.mp member
  exact (generatedRecord_accepted known (nonneg _ (List.fst_mem_of_mem_zipIdx inside))
    (requestShape_sound _ _ _ _)).mpr
      ((forall_zipIdx_iff length).mpr (forall_fits_iff.mpr few) entry inside)

theorem unknownFields_eq_nil :
    config.filter (fun member => decide (generatorFields.contains member.1 = false)) = [] ↔
      ∀ member ∈ config, member.1 ∈ generatorFields := by
  rw [List.filter_eq_nil_iff]
  refine forall₂_congr fun member _ => ?_
  rw [decide_eq_true_iff, Bool.not_eq_false, List.contains_iff_mem]

/-- `generate_records` succeeds on exactly the configurations that name a class, a count and a
seed, schedule an arrival for each request and keep every token within 32 bits; then the records
are those of the class, in the order of their arrivals. -/
theorem generateRecords_eq_ok {records : List Record} {manifest : Record} :
    generateRecords random config = .ok (records, manifest) ↔
      ∃ workloadClass count seed times, config.Configures workloadClass count seed ∧
        config.Arrives random count seed times ∧
        (∀ limit ∈ (WorkloadClass.ofText workloadClass).countLimit, count ≤ limit) ∧
        records = generatedWorkload random workloadClass seed times ∧
        manifest = generatedManifest config workloadClass count seed := by
  unfold generateRecords
  simp only [except_bind_eq_ok, checked_eq_ok, refuseIf_eq_ok, requireStr_eq_ok, requireInt_eq_ok,
    not_not, arrivalTimes_eq_ok]
  constructor
  · rintro ⟨-, known, -, schema, name, ⟨named, -⟩, -, listed, count, ⟨counted, countLow⟩, seed,
      ⟨seeded, seedLow⟩, times, arrives, records, made, same⟩
    obtain ⟨count, rfl⟩ := Int.eq_ofNat_of_zero_le countLow
    obtain ⟨seed, rfl⟩ := Int.eq_ofNat_of_zero_le seedLow
    obtain ⟨rfl, rfl⟩ := Prod.mk.inj (Except.ok.inj same)
    have member : name ∈ workloadClasses := by simpa using listed
    obtain ⟨rfl, few⟩ := (validateWorkload_eq_ok member arrives).mp made
    exact ⟨name, count, seed, times,
      ⟨unknownFields_eq_nil.mp known, schema, named, member, counted, seeded⟩, arrives, few, rfl, rfl⟩
  · rintro ⟨name, count, seed, times, configures, arrives, few, rfl, rfl⟩
    have nonempty : name ≠ [] := by
      rintro rfl
      exact absurd configures.listed (by decide)
    exact ⟨(), unknownFields_eq_nil.mpr configures.known, (), configures.schema, name, ⟨configures.named, nonempty⟩, (),
      by simpa using configures.listed, count, ⟨configures.count, Int.natCast_nonneg _⟩, seed,
      ⟨configures.seed, Int.natCast_nonneg _⟩, times, arrives, _,
      (validateWorkload_eq_ok configures.listed arrives).mpr ⟨rfl, few⟩, rfl⟩

end LlmLab.Benchmarks
