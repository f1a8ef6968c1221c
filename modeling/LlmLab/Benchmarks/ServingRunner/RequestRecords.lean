import LlmLab.Benchmarks.ServingCommon.Checks
import LlmLab.Benchmarks.ServingRunner.Fields

/-!
# Request records pass

The record of a request whose times and counts fit together passes `validate_native_records`.
-/

namespace LlmLab.Benchmarks

open LlmLab.Serving

/-- What a run leaves of a request that it does not cancel, with the times of its tokens. -/
structure Reported (request : Request) (matched scheduled : Nat) (times : List Int) : Prop where
  arrival : 0 ≤ request.arrivalTimeUs
  settled : request.state = .waiting ∨ request.state = .decoding ∨ request.state = .finished
  unadmitted : request.admittedTimeUs = none →
    request.state = .waiting ∧ matched = 0 ∧ scheduled = 0 ∧ times = []
  admitted : ∀ start, request.admittedTimeUs = some start → request.state ≠ .waiting ∧
    request.arrivalTimeUs ≤ start ∧ matched + scheduled = request.promptLength ∧
    ∀ time ∈ times, start ≤ time
  ordered : times.Pairwise (· ≤ ·)
  count : times.length = request.generatedTokenCount
  limit : request.generatedTokenCount ≤ request.maxNewTokens
  firstToken : request.firstTokenTimeUs = times.head?
  finished : request.state = .finished → ∃ finish, request.finishTimeUs = some finish ∧
    (∀ last, times.getLast? = some last → last = finish) ∧
    ∀ start, request.admittedTimeUs = some start → start ≤ finish
  unfinished : request.state ≠ .finished → request.finishTimeUs = none

/-! ## Values -/

theorem isNumber_double (value : FloatNumeral) : (Runner.double value).isNumber = true := by
  unfold Runner.double
  split
  · split <;> rfl
  · rfl

theorem number?_double {value : FloatNumeral} {quotient : Rat}
    (finite : value.value = some quotient) : (Runner.double value).number? = some quotient := by
  unfold Runner.double
  rw [finite]
  dsimp only
  split
  · next whole => exact congrArg some (Rat.coe_int_num_of_den_eq_one whole.1)
  · exact finite

/-- A printed double equals the quotient that Python computes again. -/
theorem equal_double {value value' : FloatNumeral} {quotient : Rat}
    (finite : value.value = some quotient) (finite' : value'.value = some quotient) :
    (Runner.double value).equal (.float value') = true := by
  have number := number?_double finite
  revert number
  unfold Runner.double
  rw [finite]
  dsimp only
  split
  · next whole =>
      intro number
      rw [Json.equal, number]
      · simp [Json.number?, finite']
      all_goals simp
  · intro number
    simp [Json.equal, finite, finite']

namespace Reported

variable {request : Request} {matched scheduled : Nat} {times : List Int}

theorem admitted_of_mem (reported : Reported request matched scheduled times)
    {time : Int} (member : time ∈ times) : ∃ start, request.admittedTimeUs = some start ∧
      0 ≤ start ∧ start ≤ time := by
  cases admitted : request.admittedTimeUs with
  | none =>
      rw [(reported.unadmitted admitted).2.2.2] at member
      cases member
  | some start =>
      obtain ⟨-, arrives, -, after⟩ := reported.admitted start admitted
      exact ⟨start, rfl, reported.arrival.trans arrives, after time member⟩

/-- A request with a finish time is finished, and everything else lies before. -/
theorem finish (reported : Reported request matched scheduled times) {finish : Int}
    (found : request.finishTimeUs = some finish) : request.state = .finished ∧
      (∃ start, request.admittedTimeUs = some start ∧ start ≤ finish) ∧
      ∀ time ∈ times, time ≤ finish := by
  have finished : request.state = .finished := by
    by_contra other
    rw [reported.unfinished other] at found
    cases found
  obtain ⟨last, same, ends, after⟩ := reported.finished finished
  obtain rfl := Option.some.inj (found.symm.trans same)
  refine ⟨finished, ?_, fun time member => ?_⟩
  · cases admitted : request.admittedTimeUs with
    | none =>
        rw [(reported.unadmitted admitted).1] at finished
        cases finished
    | some start => exact ⟨start, rfl, after start admitted⟩
  · have nonempty := List.ne_nil_of_mem member
    rw [← ends _ (List.getLast?_eq_some_getLast nonempty)]
    rcases List.mem_iff_getElem.mp member with ⟨index, inside, rfl⟩
    rw [List.getLast_eq_getElem]
    rcases (Nat.le_sub_one_of_lt inside).lt_or_eq with before | same
    · exact List.pairwise_iff_getElem.mp reported.ordered _ _ _ _ before
    · exact le_of_eq (by simp only [same])

end Reported

/-! ## The checks of one record -/

section Checks

variable {quotient divide : Int → Int → FloatNumeral} {source record : Record}
  {request : Request} {matched scheduled : Nat} {times : List Int} {context : String}

/-- A field that an accepted record need not have. -/
theorem get_of_absent {name : String} (absent : source.contains name ≠ true) :
    source.get name = .null := by
  rw [Record.get, Record.find?_eq_none absent]
  rfl

theorem int?_eq_some_iff {value : Json} {number : Int} :
    value.int? = some number ↔ value = .int number := by
  cases value <;> simp [Json.int?]

theorem int_eq {name : String} {number : Int} (found : record.get name = .int number) :
    record.int name = number := by
  rw [Record.int, found]
  rfl

theorem str?_eq_some_iff {value : Json} {string : Text} :
    value.str? = some string ↔ value = .str string := by
  cases value <;> simp [Json.str?]

theorem isNonemptyStr_of_isName {value : Json} (isName : value.IsName) :
    isNonemptyStr value = true := by
  obtain ⟨string, found, nonempty⟩ := isName
  simp [isNonemptyStr, found, nonempty]

theorem oneOf_text {string : String} {names : List String} :
    oneOf (.str (text string)) names = true ↔ string ∈ names := by
  simp [oneOf, Json.str?, text_injective.eq_iff]

/-- The names of the states are distinct. -/
theorem oneOf_name {state other : RequestState} :
    oneOf (.str (text state.name)) [other.name] = true ↔ state = other := by
  rw [oneOf_text, List.mem_singleton]
  refine ⟨fun same => ?_, congrArg _⟩
  cases state <;> cases other <;> first | rfl | simp [RequestState.name] at same

@[simp] theorem int?_optional (value : Option Int) : (optional value).int? = value := by
  cases value <;> rfl

/-- A record under a new id and a new name is taken on. -/
theorem passes_checkIdentity (accepted : source.Accepted)
    (shows : ShowsRequest quotient source request matched scheduled times record)
    {seen : List Text × List Int} (newName : source.str "request_id" ∉ seen.1)
    (newId : (request.requestId : Int) ∉ seen.2) :
    Passes (· = (seen.1 ++ [source.str "request_id"], seen.2 ++ [(request.requestId : Int)]))
      (checkIdentity record seen context) := by
  have name : record.str "request_id" = source.str "request_id" := by
    rw [Record.str, shows.requestId, Record.str]
  obtain ⟨listed, known, classed⟩ := accepted.workloadClass
  have workloadClass : record.get "workload_class" = .str listed := by
    rw [shows.workloadClass, str?_eq_some_iff.mp classed]
  have nonempty : listed ≠ [] := by
    rintro rfl
    exact absurd known (by decide)
  unfold checkIdentity
  rw [name, shows.requestId, shows.prefixGroup, Record.str, workloadClass]
  refine (passes_closedFields shows.keys).andThen ((passes_reject ?_).andThen
    ((passes_rejectShowing newName).andThen ((passes_fieldInt shows.internalId (by simp)).known
    ((passes_rejectShowing newId).andThen ((passes_reject ?_).andThen
    ((passes_rejectShowing ?_).andThen ((passes_nullableStr ?_).andThen
    ((passes_reject ?_).andThen ?_))))))))
  · rw [isNonemptyStr_of_isName accepted.requestId]
    decide
  · simpa [isNonemptyStr, Json.str?] using nonempty
  · simpa [Record.str, workloadClass, Json.str?] using known
  · by_cases present : source.contains "prefix_group" = true
    · obtain ⟨group, found, -⟩ := accepted.prefixGroup present
      exact Or.inr (by rw [found]; rfl)
    · rw [get_of_absent present]
      exact Or.inl rfl
  · by_cases present : source.contains "prefix_group" = true
    · obtain ⟨group, found, nonempty⟩ := accepted.prefixGroup present
      simpa [found] using nonempty
    · rw [get_of_absent present]
      simp [Json.str?]
  · have deadline : ∃ value : Option Int, source.get "deadline_us" = optional value ∧
        ∀ number, value = some number → 0 ≤ number := by
      by_cases present : source.contains "deadline_us" = true
      · obtain ⟨number, found, nonneg⟩ := accepted.deadline present
        exact ⟨some number, int?_eq_some_iff.mp found,
          fun other same => Option.some.inj same ▸ nonneg⟩
      · exact ⟨none, get_of_absent present, fun _ found => by cases found⟩
    obtain ⟨value, found, nonneg⟩ := deadline
    refine (passes_nullableInt (shows.deadline.trans found) nonneg).known
      ((passes_reject ?_).andThen rfl)
    rw [shows.metadata]
    split
    · next present => simp [Option.isNone_iff_eq_none, ← Option.isSome_iff_ne_none,
        accepted.metadata present]
    · simp [Json.obj?]

theorem passes_checkPromptTokens (accepted : source.Accepted)
    (shows : ShowsRequest quotient source request matched scheduled times record) :
    Passes (fun _ => True) (checkPromptTokens record context) := by
  unfold checkPromptTokens
  rw [shows.promptTokens]
  by_cases present : source.contains "prompt_tokens" = true
  · obtain ⟨tokens, found, -, each⟩ := accepted.promptTokens present
    refine (passes_reject ?_).andThen (passes_forM fun token member => passes_reject ?_)
    · simp [found]
    · rw [found, Option.getD_some] at member
      obtain ⟨number, read, low, high⟩ := each token.1 (List.fst_mem_of_mem_zipIdx member)
      rw [read, Option.any_some, decide_eq_true low, decide_eq_true high]
      decide
  · rw [get_of_absent present]
    exact (passes_reject (by simp [Json.isNull])).andThen trivial

/-- The counts of the workload record are those of the request. -/
def Counts (source : Record) (request : Request) : Prop :=
  (request.promptLength : Int) = source.int "prompt_token_count"

/-- The times of a reported request follow one another as the check asks. -/
theorem passes_checkLifecycle (accepted : source.Accepted) (counts : Counts source request)
    (shows : ShowsRequest quotient source request matched scheduled times record)
    (reported : Reported request matched scheduled times) :
    Passes (fun _ => True) (checkLifecycle record context) := by
  have nonneg : ∀ {time : Int}, time ∈ times → 0 ≤ time := fun member => by
    obtain ⟨start, -, low, after⟩ := reported.admitted_of_mem member
    exact low.trans after
  have admittedNonneg : ∀ start, request.admittedTimeUs = some start → 0 ≤ start :=
    fun start admitted => reported.arrival.trans (reported.admitted start admitted).2.1
  have firstMember : ∀ first, request.firstTokenTimeUs = some first → first ∈ times :=
    fun first found => List.mem_of_mem_head? (reported.firstToken ▸ found)
  unfold checkLifecycle
  refine (passes_fieldInt shows.arrival reported.arrival).known
    ((passes_fieldInt shows.original (by simp)).known
    ((passes_fieldInt shows.matched (by simp)).known
    ((passes_fieldInt shows.scheduled (by simp)).known
    ((passes_fieldInt shows.generated (by simp)).known
    ((passes_fieldInt shows.maxNewTokens (by simp)).known
    ((passes_nullableInt shows.admitted admittedNonneg).known
    ((passes_nullableInt shows.firstToken fun first found => nonneg (firstMember first found)).known
    ((passes_nullableInt shows.finish ?_).known ?_))))))))
  · intro finish found
    obtain ⟨-, ⟨start, admitted, before⟩, -⟩ := reported.finish found
    exact (admittedNonneg start admitted).trans before
  · refine (passes_reject ?_).andThen ((passes_reject ?_).andThen ((passes_reject ?_).andThen
      ((passes_reject ?_).andThen ((passes_reject ?_).andThen ((passes_reject ?_).andThen
      ((passes_reject ?_).andThen (passes_reject ?_)))))))
    · rw [shows.promptTokens]
      by_cases present : source.contains "prompt_tokens" = true
      · obtain ⟨tokens, found, length, -⟩ := accepted.promptTokens present
        rw [found, Option.any_some, length, counts]
        simp
      · rw [get_of_absent present]
        simp [Json.arr?]
    · have within : matched ≤ request.promptLength ∧ scheduled ≤ request.promptLength := by
        cases admitted : request.admittedTimeUs with
        | none =>
            obtain ⟨-, noMatch, noSchedule, -⟩ := reported.unadmitted admitted
            omega
        | some start =>
            obtain ⟨-, -, split, -⟩ := reported.admitted start admitted
            omega
      omega
    · intro both
      obtain ⟨present, differs⟩ := both
      obtain ⟨start, admitted⟩ := Option.isSome_iff_exists.mp present
      obtain ⟨-, -, split, -⟩ := reported.admitted start admitted
      omega
    · intro both
      obtain ⟨absent, worked⟩ := both
      obtain ⟨-, noMatch, noSchedule, noTimes⟩ := reported.unadmitted absent
      have count := reported.count
      rw [noTimes, List.length_nil] at count
      omega
    · have limit := reported.limit
      omega
    · intro early
      obtain ⟨start, admitted, early⟩ := (Option.any_eq_true _ _).mp early
      obtain ⟨-, arrives, -⟩ := reported.admitted start admitted
      exact absurd arrives (not_le.mpr (of_decide_eq_true early))
    · intro early
      obtain ⟨first, found, early⟩ := (Option.any_eq_true _ _).mp early
      obtain ⟨start, admitted, -, after⟩ := reported.admitted_of_mem (firstMember first found)
      rw [admitted, Option.all_some, decide_eq_true_iff] at early
      omega
    · intro early
      obtain ⟨finish, found, early⟩ := (Option.any_eq_true _ _).mp early
      obtain ⟨-, ⟨start, admitted, before⟩, last⟩ := reported.finish found
      obtain ⟨-, arrives, -⟩ := reported.admitted start admitted
      rw [admitted, Option.any_some] at early
      cases first : request.firstTokenTimeUs with
      | none => simp [first] at early; omega
      | some time =>
          have bound := last time (firstMember time first)
          simp [first] at early
          omega

/-- The final state agrees with the times and the tokens. -/
theorem passes_checkState
    (shows : ShowsRequest quotient source request matched scheduled times record)
    (reported : Reported request matched scheduled times) :
    Passes (fun _ => True) (checkState record context) := by
  have generated : record.int "generated_tokens" = request.generatedTokenCount :=
    int_eq shows.generated
  have counted := reported.count
  have first := reported.firstToken
  unfold checkState
  simp only [shows.state, shows.reason, shows.admitted, shows.firstToken, shows.finish, generated,
    int?_optional]
  refine (passes_requireOneOf ?_).andThen ((passes_nullableStr (Or.inl rfl)).andThen
    ((passes_reject ?_).andThen ((passes_reject ?_).andThen ((passes_reject ?_).andThen
    ((passes_reject ?_).andThen ((passes_reject ?_).andThen ((passes_reject ?_).andThen
    ((passes_reject ?_).andThen ((passes_reject ?_).andThen (passes_reject ?_))))))))))
  · rw [oneOf_text]
    rcases reported.settled with waiting | decoding | finished
    · simp [waiting, RequestState.name]
    · simp [decoding, RequestState.name]
    · simp [finished, RequestState.name]
  · intro both
    obtain ⟨named, missing⟩ := both
    have finished : request.state = .finished := oneOf_name.mp named
    obtain ⟨finish, ends, -⟩ := reported.finished finished
    obtain ⟨-, ⟨start, admitted, -⟩, -⟩ := reported.finish ends
    simp [ends, admitted, Json.isNull] at missing
  · intro both
    obtain ⟨other, ends⟩ := both
    refine ends (reported.unfinished fun finished => ?_)
    have named : oneOf (.str (text request.state.name)) ["Finished"] = true :=
      oneOf_name.mpr finished
    rw [named] at other
    cases other
  · intro both
    obtain ⟨named, -⟩ := both
    have cancelled : request.state = .cancelled := oneOf_name.mp named
    rcases reported.settled with other | other | other <;> rw [cancelled] at other <;> cases other
  · simp [Json.isNull]
  · intro both
    obtain ⟨named, worked⟩ := both
    have waiting : request.state = .waiting := oneOf_name.mp named
    have admitted : request.admittedTimeUs = none :=
      Option.eq_none_iff_forall_ne_some.mpr fun start found =>
        (reported.admitted start found).1 waiting
    obtain ⟨-, -, -, noTimes⟩ := reported.unadmitted admitted
    rw [noTimes, List.length_nil] at counted
    rw [noTimes] at first
    simp [admitted, first, ← counted] at worked
  · intro both
    obtain ⟨named, -⟩ := both
    have prefilling : request.state = .prefilling := oneOf_name.mp named
    rcases reported.settled with other | other | other <;> rw [prefilling] at other <;> cases other
  · intro both
    obtain ⟨named, admitted⟩ := both
    have decoding : request.state = .decoding := oneOf_name.mp named
    rw [(reported.unadmitted admitted).1] at decoding
    cases decoding
  · intro both
    obtain ⟨zero, present⟩ := both
    rw [List.length_eq_zero_iff.mp (counted.trans (by omega))] at first
    exact present first
  · intro both
    obtain ⟨positive, absent⟩ := both
    rw [absent, eq_comm, List.head?_eq_none_iff] at first
    rw [first, List.length_nil] at counted
    omega

theorem ints_eq {name : String} {values : List Int}
    (found : record.get name = .arr (values.map .int)) : record.ints name = values := by
  rw [Record.ints, found]
  exact (List.map_map ..).trans (List.map_id _)

theorem isNaturals_ints {values : List Int} (nonneg : ∀ value ∈ values, 0 ≤ value) :
    isNaturals (.arr (values.map .int)) = true := by
  simpa [isNaturals, Json.arr?, Json.int?] using nonneg

theorem equal_ints (values : List Int) :
    (Json.arr (values.map .int)).equal (.arr (values.map .int)) = true := by
  refine Json.equal_of_same (.arr fun item member => ?_) rfl
  obtain ⟨value, -, rfl⟩ := List.mem_map.mp member
  exact .int

/-- The gaps between times in order. -/
def gapsOf (times : List Int) : List Int := (times.zip times.tail).map fun pair => pair.2 - pair.1

theorem length_gapsOf (times : List Int) : (gapsOf times).length = times.length - 1 := by
  rw [gapsOf, List.length_map, List.length_zip, List.length_tail]
  omega

theorem gapsOf_nonneg {times : List Int} (ordered : times.Pairwise (· ≤ ·)) :
    ∀ gap ∈ gapsOf times, 0 ≤ gap := by
  intro gap member
  obtain ⟨pair, listed, rfl⟩ := List.mem_map.mp member
  obtain ⟨index, inside, rfl⟩ := List.mem_iff_getElem.mp listed
  rw [List.length_zip, List.length_tail] at inside
  simp only [List.getElem_zip, List.getElem_tail]
  exact sub_nonneg.mpr (List.pairwise_iff_getElem.mp ordered _ _ _ _ (Nat.lt_succ_self index))

theorem passes_ttft (value : Option Int) {generated : Nat} {name : String} :
    Passes (fun _ => True) (exactNumber (if 0 < generated then optional value else .null)
      (if (generated : Int) = 0 then .null else optional value) name context) := by
  rcases Nat.eq_zero_or_pos generated with rfl | positive
  · exact passes_exactNumber_null
  · rw [if_pos positive, if_neg (by omega)]
    exact passes_exactNumber_optional value

/-- The runner and Python find the same mean time between the tokens of a request. -/
def DividesAlike (quotient divide : Int → Int → FloatNumeral) (request : Request) : Prop :=
  ∀ first finish, request.firstTokenTimeUs = some first → request.finishTimeUs = some finish →
    2 ≤ request.generatedTokenCount → ∃ mean,
      (quotient (finish - first) (request.generatedTokenCount - 1)).value = some mean ∧
        (divide (finish - first) (request.generatedTokenCount - 1)).value = some mean

/-- The mean time between tokens is the quotient that Python expects. -/
theorem passes_tpot (alike : DividesAlike quotient divide request) {name : String} :
    Passes (fun _ => True) (exactNumber (Runner.tpot quotient request)
      (match request.firstTokenTimeUs, request.finishTimeUs with
        | some first, some finish =>
            if (request.generatedTokenCount : Int) < 2 then .null
            else .float (divide (finish - first) (request.generatedTokenCount - 1))
        | _, _ => .null) name context) := by
  unfold Runner.tpot
  cases firstToken : request.firstTokenTimeUs with
  | none => exact passes_exactNumber_null
  | some first =>
      cases ends : request.finishTimeUs with
      | none => exact passes_exactNumber_null
      | some finish =>
          dsimp only
          split
          · next several =>
              obtain ⟨mean, found, found'⟩ := alike first finish firstToken ends several
              rw [if_neg (by omega)]
              exact passes_exactNumber rfl (isNumber_double _) (equal_double found found')
          · rw [if_pos (by omega)]
            exact passes_exactNumber_null

/-- The derived times are the differences of the recorded ones. -/
theorem passes_checkTimings (alike : DividesAlike quotient divide request)
    (shows : ShowsRequest quotient source request matched scheduled times record)
    (reported : Reported request matched scheduled times) :
    Passes (fun _ => True) (checkTimings divide record context) := by
  have generated : record.int "generated_tokens" = request.generatedTokenCount :=
    int_eq shows.generated
  have arrival : record.int "arrival_time_us" = request.arrivalTimeUs := int_eq shows.arrival
  have gapsShown : record.get "inter_token_latencies_us" = .arr ((gapsOf times).map .int) := by
    rw [shows.gaps, gapsOf, List.map_map]
    rfl
  have counted := reported.count
  have nonneg : ∀ time ∈ times, 0 ≤ time := fun time member => by
    obtain ⟨start, -, low, after⟩ := reported.admitted_of_mem member
    exact low.trans after
  have sorted : times = sortBy id times :=
    eq_sortBy (fun _ _ _ _ same => same) (List.Perm.refl times) reported.ordered
  unfold checkTimings requestMetrics
  simp only [ints_eq shows.decodeTimes, ints_eq gapsShown, shows.decodeTimes, gapsShown,
    shows.firstToken, shows.finish, shows.admitted, shows.queueDelay, shows.ttft, shows.latency,
    shows.tpot, shows.state, generated, arrival, int?_optional]
  refine (passes_reject (by simp [Json.arr?])).andThen ((passes_reject ?_).andThen
    ((passes_conserved_int ?_).andThen ((passes_conserved_int ?_).andThen
    ((passes_reject (not_not.mpr sorted)).andThen ((passes_reject ?_).andThen
    ((passes_reject ?_).andThen ((passes_conserved ?_).andThen
    ((passes_exactNumber_optional _).andThen ((passes_ttft _).andThen
    ((passes_exactNumber_optional _).andThen (passes_tpot alike)))))))))))
  · rw [isNaturals_ints nonneg, isNaturals_ints (gapsOf_nonneg reported.ordered)]
    decide
  · rw [counted]
  · rw [length_gapsOf, counted]
    omega
  · exact fun bad => bad.2 reported.firstToken.symm
  · intro both
    obtain ⟨named, nonempty, differs⟩ := both
    have finished : request.state = .finished := oneOf_name.mp named
    obtain ⟨finish, ends, last, -⟩ := reported.finished finished
    have present := List.getLast?_eq_some_getLast nonempty
    exact differs (present.trans ((congrArg _ (last _ present)).trans ends.symm))
  · have shown : ((times.zip times.tail).map fun pair => Json.int (pair.2 - pair.1)) =
        (gapsOf times).map .int := by
      rw [gapsOf, List.map_map]
      rfl
    rw [shown]
    exact equal_ints (gapsOf times)

end Checks

/-! ## The loop over the requests -/

/-- A request of a run, with the workload record it comes from. -/
structure RequestEntry where
  source : Record
  request : Request
  matched : Nat
  scheduled : Nat
  times : List Int

namespace RequestEntry

def name (entry : RequestEntry) : Text := entry.source.str "request_id"

def number (entry : RequestEntry) : Int := entry.request.requestId

structure Sound (entry : RequestEntry) : Prop where
  accepted : entry.source.Accepted
  counts : Counts entry.source entry.request
  reported : Reported entry.request entry.matched entry.scheduled entry.times

def Shown (divide : Int → Int → FloatNumeral) (entry : RequestEntry) (record : Record) : Prop :=
  ShowsRequest divide entry.source entry.request entry.matched entry.scheduled entry.times record

variable {quotient divide : Int → Int → FloatNumeral} {entry : RequestEntry}

theorem passes_validateRequestRecord (sound : entry.Sound)
    (alike : DividesAlike quotient divide entry.request) {item : Nat × Record}
    (shown : entry.Shown quotient item.2) {seen : List Text × List Int}
    (newName : entry.name ∉ seen.1) (newId : entry.number ∉ seen.2) :
    Passes (· = (seen.1 ++ [entry.name], seen.2 ++ [entry.number]))
      (validateRequestRecord divide seen item) := by
  unfold validateRequestRecord
  exact (passes_checkIdentity sound.accepted shown newName newId).known
    ((passes_checkPromptTokens sound.accepted shown).andThen
    ((passes_checkLifecycle sound.accepted sound.counts shown sound.reported).andThen
    ((passes_checkState shown sound.reported).andThen
    ((passes_checkTimings alike shown sound.reported).andThen rfl))))

/-- The request records of a run pass. -/
theorem passes_validateRequestRecords {entries : List RequestEntry}
    {items : List (Nat × Record)} (sound : ∀ entry ∈ entries, entry.Sound)
    (alike : ∀ entry ∈ entries, DividesAlike quotient divide entry.request)
    (shown : List.Forall₂ (fun entry item => entry.Shown quotient item.2) entries items)
    {seen : List Text × List Int} (names : (seen.1 ++ entries.map name).Nodup)
    (numbers : (seen.2 ++ entries.map number).Nodup) :
    Passes (· = (seen.1 ++ entries.map name, seen.2 ++ entries.map number))
      (items.foldlM (validateRequestRecord divide) seen) := by
  induction shown generalizing seen with
  | nil => simp
  | @cons entry item entries items here _ ih =>
      rw [List.forall_mem_cons] at sound alike
      rw [List.map_cons, List.append_cons] at names numbers
      have newName : entry.name ∉ seen.1 := fun member =>
        (List.nodup_append.mp (List.nodup_append.mp names).1).2.2 _ member _ (by simp) rfl
      have newId : entry.number ∉ seen.2 := fun member =>
        (List.nodup_append.mp (List.nodup_append.mp numbers).1).2.2 _ member _ (by simp) rfl
      rw [List.foldlM_cons]
      refine (passes_validateRequestRecord sound.1 alike.1 here newName newId).known ?_
      have rest := @ih sound.2 alike.2 (seen.1 ++ [entry.name], seen.2 ++ [entry.number]) names numbers
      rwa [List.append_assoc, List.append_assoc] at rest

end RequestEntry

end LlmLab.Benchmarks
