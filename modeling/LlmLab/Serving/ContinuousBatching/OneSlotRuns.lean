import LlmLab.Serving.ContinuousBatching.OneSlot

/-!
# Runs with one sequence slot

A run of the engine with one slot serves its requests like the customers of a single server, by
arrival and id, and with the same costs it leaves the records of the simulation engine.
-/

namespace LlmLab.Serving

open KVCacheManager
open SimulationEngine (servingKey served servedRecord serviceUs)

namespace ContinuousBatchingEngine

variable {engine next : ContinuousBatchingEngine} {config : ContinuousBatchingConfig}
  {backend : SimulatedBackend} {requests done : List Request} {request : Request}
  {floor : Floor Request} {last : Except Exn IterationOutcome × ContinuousBatchingEngine}
  {count : Nat}

/-! ## The loop of `run` -/

/-- An engine that has served all requests in the order of the server. -/
structure AllServed (backend : SimulatedBackend) (config : ContinuousBatchingConfig)
    (serves : config.Serves requests) (engine : ContinuousBatchingEngine) : Prop where
  drained : engine.Drained
  floor : ∃ floor, StandsAt backend config requests engine floor ∧
    Orderly (slotLine backend serves) floor ∧
    ∀ request ∈ requests, ∃ startUs, floor.stage request = .left startUs

/-- The loop ends with all requests served, or by an overflow. -/
theorem Loops.serves (loops : Loops engine count last) (oneSlot : config.OneSlot)
    (serves : config.Serves requests) (stands : StandsAt backend config requests engine floor)
    (orderly : Orderly (slotLine backend serves) floor) :
    (∃ error, last.1 = .error error ∧ error.IsOverflow) ∨
      (last.1 = .ok .complete ∧ AllServed backend config serves last.2) := by
  induction loops generalizing floor with
  | @last engine stopped =>
      have step := iterate_ensures stands.coherent
      unfold runNextIteration at stopped ⊢
      rw [if_neg (by simp [stands.running])] at stopped ⊢
      cases result : engine.iterate with
      | error error =>
          refine Or.inl ⟨error, rfl, ?_⟩
          exact (step.of_eq_error result).resolve_right
            (not_not.mpr (stands.clear oneSlot serves))
      | ok answer =>
          have iterated := step.of_eq_ok result
          rw [result] at stopped
          rcases stands.iterated oneSlot serves orderly iterated with
            ⟨progressed, -⟩ | ⟨complete, same, left⟩
          · exact absurd (congrArg Except.ok progressed) stopped
          · rw [complete] at iterated
            refine Or.inr ⟨congrArg Except.ok complete, iterated.drained stands.coherent, floor, ?_⟩
            exact ⟨same ▸ stands, orderly, left⟩
  | more progressed _ ih =>
      obtain ⟨-, result⟩ := runNextIteration_eq_ok progressed
      have iterated := (iterate_ensures stands.coherent).of_eq_ok result
      rcases stands.iterated oneSlot serves orderly iterated with
        ⟨-, floor', stands', attends⟩ | ⟨complete, -⟩
      · exact ih stands' (attends.orderly orderly)
      · cases complete

/-- A run completes with all requests served, unless a counter or a time overflows. -/
theorem StandsAt.run (stands : StandsAt backend config requests engine floor)
    (oneSlot : config.OneSlot) (serves : config.Serves requests)
    (orderly : Orderly (slotLine backend serves) floor) :
    (∃ error, engine.run.1 = .error error ∧ error.IsOverflow) ∨
      (engine.run.1 = .ok .completed ∧ AllServed backend config serves engine.run.2) := by
  have coherent := stands.coherent
  obtain ⟨count, -, loops⟩ := runIterations_loops coherent coherent.outstanding_le_work
  have outcome := loops.serves oneSlot serves stands orderly
  unfold ContinuousBatchingEngine.run
  generalize runIterations (engine.work + 1) engine = last at outcome
  obtain ⟨answer, final⟩ := last
  rcases outcome with ⟨error, rfl, overflow⟩ | ⟨rfl, all⟩
  · exact Or.inl ⟨error, rfl, overflow⟩
  · obtain ⟨runs, ahead⟩ := all.drained.idle final.arrivedRequests
    have settled : finishRun (.ok .complete, final) = (.ok .completed, final) := by
      change (if _ ∨ _ then _ else _) = _
      rw [if_neg (by rw [runs, ahead]; simp)]
    rw [settled]
    exact Or.inr ⟨rfl, all⟩

/-! ## Submissions -/

/-- The requests are submitted one after the other to an engine that has done nothing yet. -/
theorem submitted_fresh {todo : List Request} (ids : ((done ++ todo).map Request.requestId).Nodup)
    (serves : ∀ request ∈ todo, request.Pristine ∧ 0 ≤ request.arrivalTimeUs ∧
      request.promptLength ≤ config.maxBatchedTokens)
    (fresh : engine = { create backend config with requests := engine.requests })
    (only : ∀ id record, engine.requests.find? id = some record ↔
      record ∈ done ∧ record.requestId = id) :
    let final := machine.run engine (todo.map .submitRequest)
    final = { create backend config with requests := final.requests } ∧
      ∀ id record, final.requests.find? id = some record ↔
        record ∈ done ++ todo ∧ record.requestId = id := by
  induction todo generalizing done engine with
  | nil =>
      rw [List.append_nil]
      exact ⟨fresh, only⟩
  | cons request rest ih =>
      obtain ⟨pristine, nonneg, short⟩ := serves request List.mem_cons_self
      have absent : engine.requests.find? request.requestId = none := by
        refine Option.eq_none_iff_forall_ne_some.mpr fun record found => ?_
        obtain ⟨member, same⟩ := (only _ record).mp found
        rw [List.map_append, List.nodup_append] at ids
        exact ids.2.2 _ (List.mem_map_of_mem member) request.requestId (by simp) same
      have accepted : engine.submitRequest request = (.ok (),
          { engine with requests := engine.requests.insert request.requestId request }) := by
        unfold submitRequest
        rw [if_neg (by rw [fresh]; simp [create]), if_neg (not_not.mpr pristine),
          if_neg (by rw [fresh]; exact not_lt.mpr nonneg),
          if_neg (fun long => absurd short (by rw [fresh] at long; exact not_le.mpr long.2)),
          if_neg (by rw [OrdMap.contains, absent]; simp)]
      have stepped : machine.run engine ((request :: rest).map .submitRequest) = machine.run
          { engine with requests := engine.requests.insert request.requestId request }
          (rest.map .submitRequest) := by
        change machine.run (engine.submitRequest request).2 _ = _
        rw [accepted]
      have split : done ++ request :: rest = done ++ [request] ++ rest := by simp
      rw [stepped, split]
      rw [split] at ids
      refine ih ids (fun other member => serves other (List.mem_cons_of_mem _ member)) ?_
        fun id record => ?_
      · rw [fresh]
      · dsimp only
        rw [OrdMap.find?_insert, List.mem_append, List.mem_singleton]
        by_cases same : id = request.requestId
        · rw [if_pos same, Option.some.injEq]
          refine ⟨fun equal => ⟨Or.inr equal.symm, by rw [← equal, same]⟩, fun stored => ?_⟩
          rcases stored with ⟨old | rfl, named⟩
          · have found := (only id record).mpr ⟨old, named⟩
            rw [same, absent] at found
            cases found
          · rfl
        · rw [if_neg same, only]
          refine and_congr_left fun named => ⟨Or.inl, fun member => member.resolve_right ?_⟩
          rintro rfl
          exact same named.symm

/-- Before the run every request waits. -/
theorem StandsAt.start (serves : config.Serves requests) :
    StandsAt backend config requests
      (reach backend config (requests.map .submitRequest)) ⟨0, fun _ => .waiting⟩ := by
  have coherent := reach_coherent backend config (requests.map .submitRequest)
  obtain ⟨fresh, only⟩ := @submitted_fresh (create backend config) config backend [] requests
    serves.ids (fun request member => ⟨(serves.pristine request member).1,
      (serves.pristine request member).2, serves.tokens request member⟩) rfl
    fun _ _ => ⟨nofun, nofun⟩
  unfold reach at coherent ⊢
  generalize machine.run (create backend config) (requests.map .submitRequest) = engine at *
  rw [List.nil_append] at only
  rw [fresh] at coherent ⊢
  refine ⟨coherent, rfl, rfl, rfl, fun x => ?_, rfl, fun id record found => ?_,
    fun request member => ⟨request, (only _ _).mpr ⟨member, rfl⟩, .waiting⟩⟩
  · change ((KVCacheManager.create _ _ _).block x).prefixKey = none
    rw [block_create]
  · obtain ⟨member, same⟩ := (only id record).mp found
    exact ⟨record, member, same⟩

end ContinuousBatchingEngine

/-! ## The records that a server leaves -/

/-- The requests were served by arrival and id, each from its place in the closed form on. -/
structure ServedRecords (backend : Backend) (requests : List Request)
    (records : OrdMap RequestId Request) : Prop where
  places : ∀ request startUs, (request, startUs) ∈ served backend requests →
    records.find? request.requestId = some (servedRecord backend request startUs)
  known : ∀ id record, records.find? id = some record →
    ∃ request ∈ requests, request.requestId = id

section ServedRecords

variable {backend other : Backend} {requests : List Request} {request : Request}
  {records records' : OrdMap RequestId Request}

theorem sortBy_servingKey (ids : (requests.map Request.requestId).Nodup) :
    (sortBy servingKey requests).Pairwise fun first second =>
      servingKey first < servingKey second := by
  have perm := (sortBy_perm servingKey requests).map Request.requestId
  have apart := List.pairwise_map.mp (perm.nodup_iff.mpr ids)
  refine ((sortBy_sorted servingKey requests).and apart).imp fun {first second} both => ?_
  exact lt_of_le_of_ne both.1 fun same => both.2 (congrArg (fun key => (ofLex key).2) same)

/-- Each request has its place in the closed form. -/
theorem exists_served (backend : Backend) (member : request ∈ requests) :
    ∃ startUs, (request, startUs) ∈ served backend requests := by
  have order : (served backend requests).map Prod.fst = sortBy servingKey requests :=
    serve_map_fst _ _
  have listed : request ∈ (served backend requests).map Prod.fst := by
    rw [order]
    exact mem_sortBy.mpr member
  obtain ⟨⟨_, startUs⟩, inside, rfl⟩ := List.mem_map.mp listed
  exact ⟨startUs, inside⟩

/-- Backends that charge the same leave the same records. -/
theorem ServedRecords.unique (left : ServedRecords backend requests records)
    (right : ServedRecords other requests records')
    (prefill : ∀ request ∈ requests, backend.prefillUs request = other.prefillUs request)
    (decode : ∀ request ∈ requests, 0 < request.maxNewTokens →
      backend.decodeUs = other.decodeUs) : records = records' := by
  have service : ∀ request ∈ requests, serviceUs backend request = serviceUs other request :=
    fun request member => by
      unfold serviceUs
      rw [prefill request member]
      rcases Nat.eq_zero_or_pos request.maxNewTokens with none | some'
      · rw [none, Nat.cast_zero, zero_mul, zero_mul]
      · rw [decode request member some']
  have same : served backend requests = served other requests :=
    serve_congr none fun request member => service request (mem_sortBy.mp member)
  have agree : ∀ request ∈ requests,
      records.find? request.requestId = records'.find? request.requestId :=
    fun request member => by
      obtain ⟨startUs, place⟩ := exists_served backend member
      rw [left.places _ _ place, right.places _ _ (same ▸ place), servedRecord, servedRecord,
        service request member, prefill request member]
      rcases Nat.eq_zero_or_pos request.maxNewTokens with none | some'
      · rw [if_pos none, if_pos none]
      · rw [decode request member some']
  refine OrdMap.ext_find? fun id => ?_
  by_cases known : ∃ request ∈ requests, request.requestId = id
  · obtain ⟨request, member, rfl⟩ := known
    exact agree request member
  · rw [Option.eq_none_iff_forall_ne_some.mpr fun record found =>
        known (left.known id record found),
      Option.eq_none_iff_forall_ne_some.mpr fun record found =>
        known (right.known id record found)]

end ServedRecords

namespace SimulationEngine

/-- The run of the simulation engine completes with the records of its server, at the backend's
estimates. -/
theorem run_servedRecords {backend : Backend} (lawful : backend.Lawful) {requests : List Request}
    (ids : (requests.map Request.requestId).Nodup)
    (pristine : ∀ request ∈ requests, request.Pristine ∧ 0 ≤ request.arrivalTimeUs)
    (fits : machine.Along Fits (fresh backend) (requests.map .submitRequest ++ [.run])) :
    let final := machine.run (fresh backend) (requests.map .submitRequest ++ [.run])
    (∀ output ∈ machine.outputs (fresh backend) (requests.map .submitRequest ++ [.run]),
      output = .ok ()) ∧ ServedRecords backend requests final.requests ∧ ∀ request ∈ requests,
      backend.estimatePrefillUs request.promptLength 1 = .ok (backend.prefillUs request) ∧
        (0 < request.maxNewTokens → backend.estimateDecodeStepUs 1 = .ok backend.decodeUs) := by
  obtain ⟨jobs, followed, idle, only, same, fit, answers⟩ := submissions (fresh_followed lawful)
    (fresh_idle backend) submittedOnly_nil rfl rfl ids pristine fits
  intro final
  have ends : final = machine.run (machine.run (fresh backend) (requests.map .submitRequest))
      [.run] := Machine.run_append ..
  rw [ends, Machine.outputs_append]
  generalize machine.run (fresh backend) (requests.map .submitRequest) = engine at *
  rw [List.nil_append] at only
  rcases run_outcome followed idle with
    ⟨error, next, overflow, result⟩ | ⟨next, jobs', result, ran, drained⟩
  · exact absurd overflow (fit error (congrArg Prod.fst result))
  rw [show machine.run engine [.run] = next from congrArg Prod.snd result]
  have followed' := ran.followed followed
  have turns := ran.turns 0
  have waits {id job} (present : jobs.find? id = some job) :
      job.cancellation = none ∧ job.admittedUs? = none ∧ ¬ job.Waits := by
    obtain ⟨request, -, -, rfl⟩ := (only id job).mp present
    exact ⟨rfl, rfl, fun waits => by cases waits.1⟩
  have unadmitted {id job} {atUs : Int} (present : jobs.find? id = some job)
      (admits : job.admittedUs? = some atUs) : False := by
    rw [(waits present).2.1] at admits
    cases admits
  have ordered := turns.invariant
    (fun _ _ turn followed ordered => turn.ordered followed ordered) followed
    ⟨fun _ _ present => (waits present).1, fun _ _ _ _ _ present _ _ admits =>
      (unadmitted present admits).elim, fun _ _ _ present admits =>
      (unadmitted present admits).elim, fun _ _ _ present waiting =>
      absurd waiting (waits present).2.2⟩
  have all : ServedAll jobs' requests := servedAll turns followed only ordered.alive
    fun _ _ present => followed'.ended ran.idle drained present
  have backends : next.backend = backend := (turns.backend followed).trans same
  have places := all.served_eq followed' ordered ids
  rw [backends] at places
  refine ⟨fun output member => ?_, ⟨fun request atUs member => ?_, fun id record found => ?_⟩,
    fun request member => ?_⟩
  · rcases List.mem_append.mp member with submitted | last
    · exact answers output submitted
    · rw [List.mem_singleton.mp last]
      exact congrArg Prod.fst result
  · rw [places] at member
    obtain ⟨request', inside, equal⟩ := List.mem_map.mp member
    cases equal
    rw [followed'.tracked.requests, all.find (mem_sortBy.mp inside), Option.map_some,
      record_served, backends]
  · rw [followed'.tracked.requests] at found
    obtain ⟨job, present, -⟩ := Option.map_eq_some_iff.mp found
    obtain ⟨request, member, named, -⟩ := (all id job).mp present
    exact ⟨request, member, named⟩
  · have valid := (followed'.tracked.valid _ _ (all.find member)).admitted _ _ rfl
    rw [backends] at valid
    exact ⟨valid.2.2.2.2.1, valid.2.2.2.2.2 (Nat.succ_pos _)⟩

end SimulationEngine

namespace ContinuousBatchingEngine

/-- Where all are served the records are those of the closed form. -/
theorem AllServed.records {engine : ContinuousBatchingEngine} {backend : SimulatedBackend}
    {config : ContinuousBatchingConfig} {requests : List Request} {serves : config.Serves requests}
    (all : AllServed backend config serves engine) :
    ServedRecords backend.alone requests engine.requests := by
  obtain ⟨floor, stands, orderly, left⟩ := all.floor
  have stage : ∀ request ∈ requests,
      floor.stage request = .left (((floor.stage request).start?).getD 0) :=
    fun request member => by
      obtain ⟨startUs, gone⟩ := left request member
      rw [gone]
      rfl
  have places : served backend.alone requests = (sortBy servingKey requests).map fun request =>
      (request, ((floor.stage request).start?).getD 0) :=
    orderly.serve_eq stage (fun _ => mem_sortBy) (sortBy_servingKey serves.ids)
  refine ⟨fun request startUs member => ?_, stands.known⟩
  rw [places] at member
  obtain ⟨request', inside, equal⟩ := List.mem_map.mp member
  cases equal
  have inside := mem_sortBy.mp inside
  obtain ⟨record, found, standing⟩ := stands.records request inside
  rw [stage request inside] at standing
  cases standing
  exact found

/-- With one slot and no prefix cache a run completes, unless a counter or a time overflows; it
serves the requests by arrival and id like a single server, and holds no block in the end. -/
theorem reach_run_oneSlot (backend : SimulatedBackend) {config : ContinuousBatchingConfig}
    (oneSlot : config.OneSlot) {requests : List Request} (serves : config.Serves requests) :
    let ran := (reach backend config (requests.map .submitRequest)).run
    (∃ error, ran.1 = .error error ∧ error.IsOverflow) ∨
      (ran.1 = .ok .completed ∧ ServedRecords backend.alone requests ran.2.requests ∧
        ran.2.Drained) := by
  have opening : Orderly (slotLine backend serves) ⟨0, fun _ => .waiting⟩ :=
    .opening (fun _ _ => rfl) fun request member => (serves.pristine request member).2
  refine (StandsAt.start serves).run oneSlot serves opening |>.imp_right fun ⟨done, all⟩ => ?_
  exact ⟨done, all.records, all.drained⟩

/-- One slot of three blocks, and costs at which a batch of one is charged like a single active
request. -/
def oneSlotConfig : ContinuousBatchingConfig :=
  { tinyConfig with maxNumSequences := 1, prefixCacheConfig := {}, sequences_pos := by decide }

def oneSlotBackend : SimulatedBackend :=
  ⟨{ prefillBaseUs := 3, prefillPerTokenUs := 1, decodeBaseUs := 4, batchBaseUs := 3,
     batchPrefillPerTokenUs := 1, batchDecodePerSequenceUs := 1 }, by decide⟩

theorem oneSlotConfig_oneSlot : oneSlotConfig.OneSlot := ⟨rfl, rfl⟩

theorem oneSlotConfig_serves : oneSlotConfig.Serves SimulationEngine.outOfOrder :=
  ⟨by decide, by decide, by decide, by decide +kernel⟩

theorem reach_run_oneSlot_outOfOrder :
    let ran := (reach oneSlotBackend oneSlotConfig
      (SimulationEngine.outOfOrder.map .submitRequest)).run
    ServedRecords oneSlotBackend.alone SimulationEngine.outOfOrder ran.2.requests := by
  intro ran
  have completed : ran.1 = .ok .completed := by decide +kernel
  rcases reach_run_oneSlot oneSlotBackend oneSlotConfig_oneSlot oneSlotConfig_serves with
    ⟨error, failed, -⟩ | ⟨-, records, -⟩
  · rw [completed] at failed
    cases failed
  · exact records

end ContinuousBatchingEngine

/-! ## The two engines -/

/-- A batch of one is charged like a single active request. -/
structure SimulatedBackendConfig.ChargesAlike (config : SimulatedBackendConfig) : Prop where
  perToken : config.batchPrefillPerTokenUs = config.prefillPerTokenUs
  prefill : config.batchBaseUs + config.batchActiveSequenceOverheadUs =
    config.prefillBaseUs + config.prefillPerActiveSequenceUs
  decode : config.batchBaseUs + config.batchDecodePerSequenceUs +
    config.batchActiveSequenceOverheadUs = config.decodeBaseUs + config.decodePerActiveSequenceUs

namespace SimulatedBackend

variable {backend : SimulatedBackend}

theorem alone_prefillUs (alike : backend.config.ChargesAlike) {request : Request} {cost : Int}
    (given : backend.toBackend.estimatePrefillUs request.promptLength 1 = .ok cost) :
    backend.alone.prefillUs request = cost := by
  rw [estimatePrefillUs_of_ok given]
  change backend.config.batchTimeUs request.promptLength 0 1 = _
  have base := alike.prefill
  unfold SimulatedBackendConfig.batchTimeUs SimulatedBackendConfig.prefillUs
  rw [alike.perToken]
  omega

theorem alone_decodeUs (alike : backend.config.ChargesAlike) {cost : Int}
    (given : backend.toBackend.estimateDecodeStepUs 1 = .ok cost) :
    backend.alone.decodeUs = cost := by
  rw [estimateDecodeStepUs_of_ok given]
  change backend.config.batchTimeUs 0 1 1 = _
  have base := alike.decode
  unfold SimulatedBackendConfig.batchTimeUs SimulatedBackendConfig.decodeStepUs
  omega

end SimulatedBackend

namespace ContinuousBatchingEngine

/-- The single-active engine completes as well, with the records of an engine that has served all
requests in batches of one. -/
theorem AllServed.simulated {engine : ContinuousBatchingEngine} {backend : SimulatedBackend}
    (alike : backend.config.ChargesAlike) {config : ContinuousBatchingConfig}
    {requests : List Request} {serves : config.Serves requests}
    (all : AllServed backend config serves engine)
    (fits : SimulationEngine.machine.Along SimulationEngine.Fits
      (SimulationEngine.fresh backend.toBackend) (requests.map .submitRequest ++ [.run])) :
    (∀ output ∈ SimulationEngine.machine.outputs (SimulationEngine.fresh backend.toBackend)
        (requests.map .submitRequest ++ [.run]), output = .ok ()) ∧
      engine.requests = (SimulationEngine.machine.run (SimulationEngine.fresh backend.toBackend)
        (requests.map .submitRequest ++ [.run])).requests := by
  obtain ⟨answers, places, costs⟩ := SimulationEngine.run_servedRecords backend.lawful serves.ids
    serves.pristine fits
  refine ⟨answers, all.records.unique places (fun request member => ?_)
    fun request member some' => ?_⟩
  · exact SimulatedBackend.alone_prefillUs alike (costs request member).1
  · exact SimulatedBackend.alone_decodeUs alike ((costs request member).2 some')

/-- Unless a counter or a time overflows, one slot serves all requests. -/
theorem allServed_of_counts (backend : SimulatedBackend) {config : ContinuousBatchingConfig}
    (oneSlot : config.OneSlot) {requests : List Request} (serves : config.Serves requests)
    (counts : ∀ error, (reach backend config (requests.map .submitRequest)).run.1 =
      .error error → ¬ error.IsOverflow) :
    (reach backend config (requests.map .submitRequest)).run.1 = .ok .completed ∧
      AllServed backend config serves (reach backend config (requests.map .submitRequest)).run.2 := by
  have opening : Orderly (slotLine backend serves) ⟨0, fun _ => .waiting⟩ :=
    .opening (fun _ _ => rfl) fun request member => (serves.pristine request member).2
  rcases (StandsAt.start serves).run oneSlot serves opening with
    ⟨error, failed, overflow⟩ | served
  · exact absurd overflow (counts error failed)
  · exact served

/-- With one slot, and costs that charge a batch of one like a single active request, both engines
complete and leave the same records, where neither overflows. -/
theorem run_eq_simulation {backend : SimulatedBackend} (alike : backend.config.ChargesAlike)
    {config : ContinuousBatchingConfig} (oneSlot : config.OneSlot) {requests : List Request}
    (serves : config.Serves requests)
    (fits : SimulationEngine.machine.Along SimulationEngine.Fits
      (SimulationEngine.fresh backend.toBackend) (requests.map .submitRequest ++ [.run]))
    (counts : ∀ error, (reach backend config (requests.map .submitRequest)).run.1 =
      .error error → ¬ error.IsOverflow) :
    let ran := (reach backend config (requests.map .submitRequest)).run
    let simulated := SimulationEngine.machine.run (SimulationEngine.fresh backend.toBackend)
      (requests.map .submitRequest ++ [.run])
    ran.1 = .ok .completed ∧
      (∀ output ∈ SimulationEngine.machine.outputs (SimulationEngine.fresh backend.toBackend)
        (requests.map .submitRequest ++ [.run]), output = .ok ()) ∧
      ran.2.requests = simulated.requests := by
  intro ran simulated
  obtain ⟨completed, all⟩ := allServed_of_counts backend oneSlot serves counts
  exact ⟨completed, all.simulated alike fits⟩

theorem counts_outOfOrder (error : Exn) (failed : (reach oneSlotBackend oneSlotConfig
    (SimulationEngine.outOfOrder.map .submitRequest)).run.1 = .error error) :
    ¬ error.IsOverflow := by
  have completed : (reach oneSlotBackend oneSlotConfig
      (SimulationEngine.outOfOrder.map .submitRequest)).run.1 = .ok .completed := by
    decide +kernel
  rw [completed] at failed
  cases failed

theorem run_eq_simulation_outOfOrder :
    (reach oneSlotBackend oneSlotConfig
      (SimulationEngine.outOfOrder.map .submitRequest)).run.2.requests =
      (SimulationEngine.machine.run (SimulationEngine.fresh oneSlotBackend.toBackend)
        (SimulationEngine.outOfOrder.map .submitRequest ++ [.run])).requests :=
  (run_eq_simulation ⟨rfl, rfl, rfl⟩ oneSlotConfig_oneSlot oneSlotConfig_serves
    (by decide +kernel) counts_outOfOrder).2.2

/-- Both engines complete and give every request one life: it is admitted, has its first token and
finishes at the same times, with the same tokens, in both. -/
theorem run_agrees_simulation {backend : SimulatedBackend} (alike : backend.config.ChargesAlike)
    {config : ContinuousBatchingConfig} (oneSlot : config.OneSlot) {requests : List Request}
    (serves : config.Serves requests)
    (fits : SimulationEngine.machine.Along SimulationEngine.Fits
      (SimulationEngine.fresh backend.toBackend) (requests.map .submitRequest ++ [.run]))
    (counts : ∀ error, (reach backend config (requests.map .submitRequest)).run.1 =
      .error error → ¬ error.IsOverflow) :
    let ran := (reach backend config (requests.map .submitRequest)).run
    let simulated := SimulationEngine.machine.run (SimulationEngine.fresh backend.toBackend)
      (requests.map .submitRequest ++ [.run])
    ran.1 = .ok .completed ∧
      (∀ output ∈ SimulationEngine.machine.outputs (SimulationEngine.fresh backend.toBackend)
        (requests.map .submitRequest ++ [.run]), output = .ok ()) ∧
      ∀ request ∈ requests, ∃ record record',
        ran.2.requests.find? request.requestId = some record ∧
          simulated.requests.find? request.requestId = some record' ∧
          record.admittedTimeUs = record'.admittedTimeUs ∧
          record.firstTokenTimeUs = record'.firstTokenTimeUs ∧
          record.finishTimeUs = record'.finishTimeUs ∧
          record.generatedTokenCount = record'.generatedTokenCount ∧
          record.state = .finished ∧ record'.state = .finished := by
  intro ran simulated
  obtain ⟨completed, all⟩ := allServed_of_counts backend oneSlot serves counts
  obtain ⟨answers, same⟩ := all.simulated alike fits
  refine ⟨completed, answers, fun request member => ?_⟩
  obtain ⟨startUs, served⟩ := exists_served backend.alone member
  have found := all.records.places request startUs served
  exact ⟨_, _, found, same ▸ found, rfl, rfl, rfl, rfl, rfl, rfl⟩

/-- Three requests, submitted out of order, all finish and live alike in both engines. -/
theorem run_agrees_simulation_outOfOrder :
    (reach oneSlotBackend oneSlotConfig
      (SimulationEngine.outOfOrder.map .submitRequest)).run.1 = .ok .completed ∧
    ∀ request ∈ SimulationEngine.outOfOrder, ∃ record record',
      (reach oneSlotBackend oneSlotConfig
        (SimulationEngine.outOfOrder.map .submitRequest)).run.2.requests.find? request.requestId =
          some record ∧
      (SimulationEngine.machine.run (SimulationEngine.fresh oneSlotBackend.toBackend)
        (SimulationEngine.outOfOrder.map .submitRequest ++ [.run])).requests.find?
          request.requestId = some record' ∧
      record.admittedTimeUs = record'.admittedTimeUs ∧
      record.finishTimeUs = record'.finishTimeUs := by
  obtain ⟨completed, -, alike⟩ := run_agrees_simulation ⟨rfl, rfl, rfl⟩ oneSlotConfig_oneSlot
    oneSlotConfig_serves (by decide +kernel) counts_outOfOrder
  refine ⟨completed, fun request member => ?_⟩
  obtain ⟨record, record', found, found', admitted, -, finish, -⟩ := alike request member
  exact ⟨record, record', found, found', admitted, finish⟩

end ContinuousBatchingEngine

end LlmLab.Serving
