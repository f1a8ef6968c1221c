import LlmLab.Benchmarks.ServingRunner.ContinuousWriter
import LlmLab.Benchmarks.ServingRunner.Delivery
import LlmLab.Serving.ContinuousBatching.RunEnd

/-!
# The requests of a continuous run

What `run_continuous` gathers from the trace for each request, and the times and counts that its
request records show.
-/

namespace LlmLab.Benchmarks

open LlmLab.Serving

/-! ## The maps of the writer -/

namespace Runner

variable {counts : OrdMap RequestId Nat} {gathered : Gathered} {trace : List BatchTraceEntry}
  {works : List PrefillWork} {ids : List RequestId} {id : RequestId} {endTimestampUs : Int}

/-- The prefills of a request in a trace. -/
def prefillsOf (trace : List BatchTraceEntry) (id : RequestId) : List PrefillWork :=
  (trace.flatMap fun entry => entry.plan.prefillWork).filter fun work => work.requestId = id

/-- Every prefill of a request adds its amount to the request's count. -/
theorem getD_foldl_addCount (amount : PrefillWork → Nat) :
    ((works.foldl (fun counts work => addCount counts work.requestId (amount work))
      counts).find? id).getD 0 =
      ((works.filter fun work => work.requestId = id).map amount).foldl
        (fun total value => (total + value) % 2 ^ 64) ((counts.find? id).getD 0) := by
  induction works generalizing counts with
  | nil => rfl
  | cons work works ih =>
      rw [List.foldl_cons, ih, addCount, OrdMap.find?_insert]
      by_cases same : work.requestId = id
      · rw [List.filter_cons_of_pos (by simp [same]), List.map_cons, List.foldl_cons,
          if_pos same.symm, same]
        rfl
      · rw [List.filter_cons_of_neg (by simp [same]), if_neg (Ne.symm same)]

theorem foldl_decode (gathered : Gathered) :
    (ids.foldl (Gathered.decode endTimestampUs) gathered).matched = gathered.matched ∧
      (ids.foldl (Gathered.decode endTimestampUs) gathered).scheduled = gathered.scheduled := by
  induction ids generalizing gathered with
  | nil => exact ⟨rfl, rfl⟩
  | cons id ids ih => exact ih (gathered.decode endTimestampUs id)

theorem foldl_prefill (gathered : Gathered) :
    (works.foldl Gathered.prefill gathered).matched = works.foldl (fun counts work =>
        addCount counts work.requestId work.matchedPrefixTokenCount) gathered.matched ∧
      (works.foldl Gathered.prefill gathered).scheduled = works.foldl (fun counts work =>
        addCount counts work.requestId work.promptTokenCount) gathered.scheduled ∧
      (works.foldl Gathered.prefill gathered).tokenTimes = gathered.tokenTimes := by
  induction works generalizing gathered with
  | nil => exact ⟨rfl, rfl, rfl⟩
  | cons work works ih => exact ih (gathered.prefill work)

/-- The counts of a trace are those of all its prefills. -/
theorem foldl_entry (gathered : Gathered) :
    let works := trace.flatMap fun entry => entry.plan.prefillWork
    (trace.foldl Gathered.entry gathered).matched = works.foldl (fun counts work =>
        addCount counts work.requestId work.matchedPrefixTokenCount) gathered.matched ∧
      (trace.foldl Gathered.entry gathered).scheduled = works.foldl (fun counts work =>
        addCount counts work.requestId work.promptTokenCount) gathered.scheduled := by
  induction trace generalizing gathered with
  | nil => exact ⟨rfl, rfl⟩
  | cons entry trace ih =>
      obtain ⟨matched, scheduled⟩ := ih (gathered.entry entry)
      obtain ⟨matchedFirst, scheduledFirst, -⟩ :=
        @foldl_prefill entry.plan.prefillWork gathered
      dsimp only
      rw [List.foldl_cons, List.flatMap_cons, List.foldl_append, List.foldl_append, matched,
        scheduled, Gathered.entry, (foldl_decode _).1, (foldl_decode _).2, matchedFirst,
        scheduledFirst]
      exact ⟨rfl, rfl⟩

/-- The counts that the writer prints of a request. -/
theorem getD_gathered (trace : List BatchTraceEntry) (id : RequestId) :
    let gathered := trace.foldl Gathered.entry {}
    (gathered.matched.find? id).getD 0 =
        sum64 ((prefillsOf trace id).map (·.matchedPrefixTokenCount)) ∧
      (gathered.scheduled.find? id).getD 0 =
        sum64 ((prefillsOf trace id).map (·.promptTokenCount)) := by
  obtain ⟨matched, scheduled⟩ := @foldl_entry trace {}
  dsimp only
  rw [matched, scheduled]
  exact ⟨getD_foldl_addCount _, getD_foldl_addCount _⟩

/-- A decode adds the end of its iteration to the times of its request. -/
theorem getD_foldl_decode (gathered : Gathered) :
    ((ids.foldl (Gathered.decode endTimestampUs) gathered).tokenTimes.find? id).getD [] =
      (gathered.tokenTimes.find? id).getD [] ++
        (ids.filter fun other => other = id).map fun _ => endTimestampUs := by
  induction ids generalizing gathered with
  | nil => exact (List.append_nil _).symm
  | cons other ids ih =>
      rw [List.foldl_cons, ih, Gathered.decode, OrdMap.find?_insert]
      by_cases same : other = id
      · rw [List.filter_cons_of_pos (by simp [same]), if_pos same.symm, same, Option.getD_some,
          List.append_assoc]
        rfl
      · rw [List.filter_cons_of_neg (by simp [same]), if_neg (Ne.symm same)]

/-- The times that the writer prints of a request are those of its decodes. -/
theorem getD_tokenTimes (once : ∀ entry ∈ trace, entry.plan.decodeRequestIds.Nodup)
    (gathered : Gathered) :
    ((trace.foldl Gathered.entry gathered).tokenTimes.find? id).getD [] =
      (gathered.tokenTimes.find? id).getD [] ++
        (decodeEntries trace id).map (·.endTimestampUs) := by
  induction trace generalizing gathered with
  | nil => exact (List.append_nil _).symm
  | cons entry trace ih =>
      rw [List.forall_mem_cons] at once
      obtain ⟨-, -, kept⟩ := @foldl_prefill entry.plan.prefillWork gathered
      rw [List.foldl_cons, ih once.2, Gathered.entry, getD_foldl_decode, kept, List.append_assoc]
      refine congrArg _ ?_
      unfold decodeEntries
      by_cases member : id ∈ entry.plan.decodeRequestIds
      · rw [List.filter_cons_of_pos (by simpa using member), List.filter_eq,
          List.count_eq_one_of_mem once.1 member]
        rfl
      · rw [List.filter_cons_of_neg (by simpa using member), List.filter_eq_nil_iff.mpr]
        · rfl
        · intro other listed same
          exact member (of_decide_eq_true same ▸ listed)

end Runner

/-! ## The requests -/

section Requests

open ContinuousBatchingEngine (Accounted EntrySound)

variable {engine : ContinuousBatchingEngine} {requests : List Request} {id : RequestId}
  {request : Request} {entry : BatchTraceEntry}

theorem prefillsOf_eq_flatMap {trace : List BatchTraceEntry}
    (named : ∀ entry ∈ trace,
      entry.plan.prefillRequestIds = entry.plan.prefillWork.map (·.requestId)) :
    Runner.prefillsOf trace id = (prefillEntries trace id).flatMap fun entry =>
      entry.plan.prefillWork.filter fun work => work.requestId = id := by
  unfold Runner.prefillsOf prefillEntries
  rw [List.filter_flatMap, flatMap_filter]
  refine List.flatMap_congr fun entry member => ?_
  by_cases listed : id ∈ entry.plan.prefillRequestIds
  · rw [if_pos (decide_eq_true listed)]
  · rw [if_neg (by simpa using listed)]
    refine List.filter_eq_nil_iff.mpr fun work inside same => listed ?_
    rw [named entry member, ← of_decide_eq_true same]
    exact List.mem_map_of_mem inside

/-- The prefills that the writer counts for a request. -/
theorem prefillsOf_accounted (accounted : engine.Accounted requests)
    (found : engine.requests.find? id = some request) :
    (prefillEntries engine.planTrace id = [] → Runner.prefillsOf engine.planTrace id = []) ∧
      ∀ entry, prefillEntries engine.planTrace id = [entry] →
        ∃ work, Runner.prefillsOf engine.planTrace id = [work] ∧
          work.matchedPrefixTokenCount + work.promptTokenCount = request.promptLength := by
  have listed := @prefillsOf_eq_flatMap id engine.planTrace fun entry member =>
    (accounted.recorded.shown.entries entry member).prefills
  refine ⟨fun none => ?_, fun entry only => ?_⟩
  · rw [listed, none]
    rfl
  · have inside : entry ∈ prefillEntries engine.planTrace id := by
      rw [only]
      exact List.mem_singleton_self entry
    obtain ⟨member, prefills⟩ := List.mem_filter.mp inside
    have named := (accounted.recorded.shown.entries entry member).prefills
    have nodup := (List.nodup_append.mp (List.nodup_append.mp
      (accounted.timeline.once entry member)).1).1
    rw [named] at nodup
    obtain ⟨work, among, rfl⟩ := List.mem_map.mp (named ▸ of_decide_eq_true prefills)
    obtain ⟨other, same, split⟩ := accounted.recorded.charged entry member work among
    obtain rfl := Option.some.inj (found.symm.trans same)
    refine ⟨work, ?_, split⟩
    rw [listed, only, List.flatMap_singleton, filter_eq_singleton nodup among]

/-- The times of a request's tokens. -/
def tokenTimesOf (trace : List BatchTraceEntry) (id : RequestId) : List Int :=
  (decodeEntries trace id).map (·.endTimestampUs)

/-- The counts and times that the writer prints of a request fit together. -/
theorem reported_accounted (accounted : engine.Accounted requests)
    (found : engine.requests.find? id = some request) (nonneg : 0 ≤ request.arrivalTimeUs)
    {matched scheduled : Nat}
    (counted : matched =
      ((Runner.prefillsOf engine.planTrace id).map (·.matchedPrefixTokenCount)).sum)
    (costs : scheduled = ((Runner.prefillsOf engine.planTrace id).map (·.promptTokenCount)).sum) :
    Reported request matched scheduled (tokenTimesOf engine.planTrace id) := by
  have told := accounted.timeline.told id request found
  have admission := accounted.admission found
  obtain ⟨unprefilled, prefilled⟩ := prefillsOf_accounted accounted found
  have forward : ∀ entry ∈ decodeEntries engine.planTrace id,
      entry.startTimestampUs ≤ entry.endTimestampUs := fun entry member =>
    (accounted.recorded.shown.entries entry (List.mem_filter.mp member).1).forward
  constructor
  case arrival => exact nonneg
  case settled =>
    cases accounted.coherent.resting id request found with
    | waiting pristine => exact .inl pristine.1
    | decoding decoding => exact .inr (.inl decoding)
    | finished finished => exact .inr (.inr finished)
    | cancelled cancelled => exact absurd cancelled (accounted.settled found)
  case unadmitted =>
    intro unadmitted
    rcases admission with ⟨none, undecoded, -, waiting⟩ | ⟨first, -, admitted, -⟩
    · rw [counted, costs, unprefilled none, tokenTimesOf, undecoded]
      exact ⟨waiting, rfl, rfl, rfl⟩
    · rw [unadmitted] at admitted
      cases admitted
  case admitted =>
    intro start admitted
    rcases admission with ⟨-, -, unadmitted, -⟩ | ⟨first, only, starts, arrives, left, ends, later⟩
    · rw [unadmitted] at admitted
      cases admitted
    · obtain rfl := Option.some.inj (starts.symm.trans admitted)
      obtain ⟨work, single, split⟩ := prefilled first only
      refine ⟨left, arrives, ?_, fun time member => ?_⟩
      · rw [counted, costs, single]
        simpa using split
      · obtain ⟨entry, listed, rfl⟩ := List.mem_map.mp member
        exact (ends.trans (later entry listed)).trans (forward entry listed)
  case ordered =>
    refine List.pairwise_map.mpr ?_
    have sorted := accounted.sorted.1.filter fun entry => decide (id ∈ entry.plan.decodeRequestIds)
    refine sorted.imp_of_mem fun {first second} _ member before => ?_
    exact before.trans (forward second member)
  case count => rw [tokenTimesOf, List.length_map, told.decodes]
  case limit => exact told.generated
  case firstToken => rw [told.firstToken, tokenTimesOf, List.head?_map]
  case finished =>
    intro finished
    obtain ⟨all, last, time, final⟩ := accounted.ending found finished
    refine ⟨_, time, fun value same => ?_, fun start admitted => ?_⟩
    · rw [tokenTimesOf, List.getLast?_map] at same
      split_ifs at final with zero
      · have none : decodeEntries engine.planTrace id = [] :=
          List.length_eq_zero_iff.mp (told.decodes.trans (all.trans zero))
        rw [none] at same
        cases same
      · rw [final] at same
        exact (Option.some.inj same).symm
    · rcases admission with ⟨-, -, unadmitted, -⟩ | ⟨first, only, starts, -, -, ends, later⟩
      · rw [unadmitted] at admitted
        cases admitted
      · obtain rfl := Option.some.inj (starts.symm.trans admitted)
        split_ifs at final with zero
        · rw [only] at final
          obtain rfl := (List.cons.inj final).1
          exact ends
        · have listed := List.mem_of_getLast? final
          exact (ends.trans (later last listed)).trans (forward last listed)
  case unfinished => exact fun open' => told.unfinished open' (accounted.settled found)

/-- What the writer prints of the inputs. -/
def continuousFigures (engine : ContinuousBatchingEngine) : Figures :=
  let gathered := engine.planTrace.foldl Runner.Gathered.entry {}
  { matched := fun input => (gathered.matched.find? input.request.requestId).getD 0
    scheduled := fun input => (gathered.scheduled.find? input.request.requestId).getD 0
    times := fun input => (gathered.tokenTimes.find? input.request.requestId).getD [] }

/-- The writer prints the sums and the times of the trace. -/
theorem figures_accounted (accounted : engine.Accounted requests) {input : Runner.InputRequest}
    (found : engine.requests.find? input.request.requestId = some request)
    (fits : request.promptLength ≤ uint64Max) :
    let figures := continuousFigures engine
    let works := Runner.prefillsOf engine.planTrace input.request.requestId
    figures.matched input = (works.map (·.matchedPrefixTokenCount)).sum ∧
      figures.scheduled input = (works.map (·.promptTokenCount)).sum ∧
      figures.times input = tokenTimesOf engine.planTrace input.request.requestId := by
  intro figures works
  obtain ⟨matched, scheduled⟩ :=
    Runner.getD_gathered engine.planTrace input.request.requestId
  have small : (works.map (·.matchedPrefixTokenCount)).sum +
      (works.map (·.promptTokenCount)).sum ≤ uint64Max := by
    obtain ⟨unprefilled, prefilled⟩ := prefillsOf_accounted accounted found
    rcases accounted.admission found with ⟨none, -⟩ | ⟨first, only, -⟩
    · rw [show works = [] from unprefilled none]
      exact Nat.zero_le _
    · obtain ⟨work, single, split⟩ := prefilled first only
      rw [show works = [work] from single]
      simpa using split.trans_le fits
  refine ⟨matched.trans (sum64_eq ((Nat.le_add_right _ _).trans small)),
    scheduled.trans (sum64_eq ((Nat.le_add_left _ _).trans small)), ?_⟩
  refine (Runner.getD_tokenTimes (fun entry member => ?_) {}).trans (List.nil_append _)
  exact (List.nodup_append.mp (List.nodup_append.mp
    (accounted.timeline.once entry member)).1).2.1

end Requests

/-! ## What a run delivers -/

section Deliveries

open ContinuousBatchingEngine (Accounted Reports Submitted)

variable {quotient : Int → Int → FloatNumeral} {backend : SimulatedBackend}
  {batching : ContinuousBatchingConfig} {engine next : ContinuousBatchingEngine}
  {workload : List Record} {inputs : List Runner.InputRequest} {native : List Record}
  {done : List Request} {result : RunResult}

/-- Submissions that all succeed. -/
theorem submitted_of_inputs (submitted : Submitted backend batching done engine)
    (result : inputs.foldlM (fun engine input => do
      let (_, next) ← Runner.orThrow (engine.submitRequest input.request)
      return next) engine = .ok next) :
    Submitted backend batching (done ++ inputs.map Runner.InputRequest.request) next := by
  induction inputs generalizing engine done with
  | nil =>
      obtain rfl := Except.ok.inj result
      rwa [List.map_nil, List.append_nil]
  | cons input inputs ih =>
      rw [List.foldlM_cons] at result
      obtain ⟨middle, first, later⟩ := except_bind_eq_ok.mp result
      have accepted := @Submitted.submit _ _ _ _ input.request submitted
      cases answer : engine.submitRequest input.request with
      | mk output after =>
          rw [answer] at first accepted
          cases output with
          | error error => cases first
          | ok answered =>
              obtain rfl := Except.ok.inj first
              have rest := ih (accepted rfl) later
              rwa [List.append_assoc, List.singleton_append] at rest

/-- Records are only written by a run that returns, from the engine at its end. -/
theorem runContinuous_cases (arrivals : ∀ input ∈ inputs, input.request.arrivalTimeUs ≤ int64Max)
    (ran : Runner.runContinuous quotient backend batching inputs = .ok native) :
    ∃ result engine, Reports backend batching (inputs.map Runner.InputRequest.request) result
        engine ∧ Runner.continuousRecords quotient engine result inputs = .ok native := by
  unfold Runner.runContinuous at ran
  obtain ⟨submitted, calls, ran⟩ := except_bind_eq_ok.mp ran
  obtain ⟨⟨result, engine⟩, finished, ran⟩ := except_bind_eq_ok.mp ran
  have holds := submitted_of_inputs ContinuousBatchingEngine.submitted_create calls
  rw [List.nil_append] at holds
  cases answer : submitted.run with
  | mk output after =>
      rw [answer] at finished
      cases output with
      | error error => cases finished
      | ok returned =>
          cases finished
          have reports := @Submitted.reports _ _ _ _ result holds
            (List.forall_mem_map.mpr arrivals)
            (congrArg Prod.fst answer)
          rw [answer] at reports
          exact ⟨result, engine, reports, ran⟩

/-- A request that a run has been given stands in its engine as it was submitted. -/
theorem submission_of_found (accounted : engine.Accounted (inputs.map Runner.InputRequest.request))
    (ids : ((inputs.map Runner.InputRequest.request).map Request.requestId).Nodup)
    {input : Runner.InputRequest} (member : input ∈ inputs) {final : Request}
    (found : engine.requests.find? input.request.requestId = some final) :
    final.submission = input.request := by
  have kept := accounted.carries.kept input.request.requestId
  rw [found, Option.map_some,
    ContinuousBatchingEngine.find?_of_nodup ids (List.mem_map_of_mem member)] at kept
  exact Option.some.inj kept

/-- A delivery of a request of the engine, with what the trace shows of it. -/
structure Delivery.Traced (engine : ContinuousBatchingEngine) (delivery : Delivery quotient) :
    Prop where
  found : engine.requests.find? delivery.number = some delivery.entry.request
  matched : delivery.entry.matched =
    ((Runner.prefillsOf engine.planTrace delivery.number).map (·.matchedPrefixTokenCount)).sum
  scheduled : delivery.entry.scheduled =
    ((Runner.prefillsOf engine.planTrace delivery.number).map (·.promptTokenCount)).sum
  times : delivery.entry.times = tokenTimesOf engine.planTrace delivery.number

/-- The iteration records of a run. -/
abbrev iterationsOf (divide : Int → Int → FloatNumeral) (engine : ContinuousBatchingEngine) :
    List Record :=
  engine.planTrace.map (Runner.writeIteration divide engine.config.kvCacheConfig.totalNumBlocks)

/-- What the records of a run are written from: a result, an engine and the deliveries of all its
requests. -/
structure Ran (quotient : Int → Int → FloatNumeral) (batching : ContinuousBatchingConfig)
    (workload : List Record) (native : List Record) (result : RunResult)
    (engine : ContinuousBatchingEngine) (deliveries : List (Delivery quotient)) : Prop where
  config : engine.config = batching
  ends : ∃ backend requests, Reports backend batching requests result engine
  covers : Covers deliveries workload
  traced : ∀ delivery ∈ deliveries, delivery.Traced engine
  all : ∀ id request, engine.requests.find? id = some request →
    ∃ delivery ∈ deliveries, delivery.number = id ∧ delivery.entry.request = request
  lines : native = iterationsOf quotient engine ++
    deliveries.map Delivery.record ++ [Runner.continuousSummary quotient engine result
      (Runner.sum64 (deliveries.map fun delivery => delivery.entry.request.promptLength))
      (Runner.sum64 (deliveries.map fun delivery => delivery.entry.request.generatedTokenCount))
      deliveries.length]

/-- The lines of a run: its iterations, its deliveries and a summary. -/
theorem runContinuous_ran (carried : Carried workload inputs)
    (representable : ∀ source ∈ workload, source.Representable)
    (run : Runner.runContinuous quotient backend batching inputs = .ok native) :
    ∃ result engine, ∃ deliveries : List (Delivery quotient),
      Ran quotient batching workload native result engine deliveries := by
  have small : ∀ input ∈ inputs, input.request.arrivalTimeUs ≤ int64Max ∧
      input.request.promptLength ≤ uint64Max := fun input member => by
    obtain ⟨entry, listed, transported⟩ := exists_mem_of_forall₂ carried.transported member
    have bounds := representable _ (mem_sortBy.mp (List.fst_mem_of_mem_zipIdx listed))
    have length := transported.promptLength
    have bound := bounds.promptCount
    exact ⟨transported.arrival.trans_le bounds.arrival, by omega⟩
  obtain ⟨result, engine, reports, written⟩ :=
    runContinuous_cases (fun input member => (small input member).1) run
  have accounted := reports.accounted
  obtain ⟨finals, each, written⟩ := except_bind_eq_ok.mp written
  obtain rfl := Except.ok.inj written
  have left : List.Forall₂ (fun input final => engine.requests.find? input.request.requestId =
      some final ∧ LeftOf (continuousFigures engine) input final) inputs finals := by
    refine ((List.forall₂_and_left _ _).mpr
      ⟨fun input member => member, forall₂_of_mapM each⟩).imp fun input final ⟨member, at'⟩ => ?_
    have found : engine.requests.find? input.request.requestId = some final := by
      unfold ContinuousBatchingEngine.requestAt at at'
      split at at'
      · cases at'
      · next request present => exact present.trans (congrArg some (Except.ok.inj at'))
    have submitted := submission_of_found accounted carried.ids member found
    have same := congrArg Request.promptLength submitted
    obtain ⟨matched, scheduled, times⟩ :=
      figures_accounted accounted found (same.trans_le (small input member).2)
    refine ⟨found, submitted, ?_⟩
    rw [times]
    refine reported_accounted accounted found ?_ matched scheduled
    have nonneg := (carried.pristine _ (List.mem_map_of_mem member)).2
    rw [← submitted] at nonneg
    exact nonneg
  obtain ⟨deliveries, same, rfl, shows, lines⟩ :=
    @exists_deliveries quotient inputs (continuousFigures engine) _ _
      carried.accepted_of_numbered carried.transported (left.imp fun _ _ here => here.2)
  rw [List.forall₂_map_right_iff] at left
  have prompts : inputs.map (fun input => input.request.promptLength) =
      deliveries.map fun delivery => delivery.entry.request.promptLength :=
    (map_eq_map_of_forall₂ shows fun _ _ here =>
      congrArg Request.promptLength here.submission).symm
  obtain ⟨calls, reached⟩ := reports.calls
  refine ⟨result, engine, deliveries, ?_, ⟨backend, _, reports⟩, same, fun delivery member => ?_,
    fun id request found => ?_, ?_⟩
  · rw [reached]
    exact (ContinuousBatchingEngine.reach_setup backend batching calls).1
  · obtain ⟨other, -, found, was⟩ := exists_mem_of_forall₂ left member
    obtain ⟨input, listed, here⟩ := exists_mem_of_forall₂ shows.flip member
    have length := congrArg Request.promptLength here.submission
    have named := congrArg Request.requestId here.submission
    have number : delivery.number = input.request.requestId := delivery.numbered.symm.trans named
    rw [was.submission.symm.trans here.submission] at found
    obtain ⟨matched, scheduled, times⟩ :=
      figures_accounted accounted found (length.trans_le (small input listed).2)
    rw [← number] at found matched scheduled times
    exact ⟨found, here.matched.trans matched, here.scheduled.trans scheduled,
      here.times.trans times⟩
  · have kept := accounted.carries.kept id
    rw [found, Option.map_some] at kept
    obtain ⟨input, listed, given⟩ := List.mem_map.mp (List.mem_of_find?_eq_some kept.symm)
    obtain ⟨delivery, member, present, was⟩ := exists_mem_of_forall₂ left.flip listed
    have number := congrArg Request.requestId was.submission
    have named := List.find?_some kept.symm
    rw [decide_eq_true_iff, ← given] at named
    rw [named, found] at present
    refine ⟨delivery, member, ?_, (Option.some.inj present).symm⟩
    exact (delivery.numbered.symm.trans number).trans named
  · rw [shows.length_eq, List.map_map]
    exact congrArg₂ (· ++ ·) (congrArg _ lines) (by rw [prompts]; rfl)

end Deliveries

end LlmLab.Benchmarks
