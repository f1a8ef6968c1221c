import LlmLab.Lib.ServerRuns
import LlmLab.Serving.Costs
import LlmLab.Serving.KVCache.Dominance
import LlmLab.Serving.KVCache.Failures
import LlmLab.Serving.Simulation.Order
import LlmLab.Serving.ContinuousBatching.Survival

/-!
# The engine with one sequence slot

With one slot and no prefix cache every iteration schedules the first candidate alone, and what it
schedules it serves to the end: the engine is a single server.  Where a batch of one costs what the
single-active backend charges, it leaves the request records of the simulation engine.
-/

namespace LlmLab.Serving

open KVCacheManager
open SimulationEngine (servingKey served servedRecord serviceUs)

/-- One slot, and no prefix cache. -/
structure ContinuousBatchingConfig.OneSlot (config : ContinuousBatchingConfig) : Prop where
  one : config.maxNumSequences = 1
  disabled : config.prefixCacheConfig.enabled = false

/-- Requests that one slot can serve to the end. -/
structure ContinuousBatchingConfig.Serves (config : ContinuousBatchingConfig)
    (requests : List Request) : Prop where
  ids : (requests.map Request.requestId).Nodup
  pristine : ∀ request ∈ requests, request.Pristine ∧ 0 ≤ request.arrivalTimeUs
  tokens : ∀ request ∈ requests, request.promptLength ≤ config.maxBatchedTokens
  blocks : ∀ request ∈ requests, config.kvCacheConfig.demand
    (request.promptLength + request.maxNewTokens) ≤ config.kvCacheConfig.totalNumBlocks

namespace ContinuousBatchingEngine

variable {engine next : ContinuousBatchingEngine} {arrived : OrdSet RequestId}
  {first : Candidate} {rest consumed : List Candidate} {builder : PlanBuilder}
  {request : Request} {id : RequestId}

/-! ## Room for one -/

/-- With one decoding request all other blocks are free or cached. -/
theorem Coherent.lone_room (coherent : engine.Coherent) {table : List Nat}
    (present : engine.kvCache.blockTables.find? id = some table)
    (lone : ∀ other record, engine.requests.find? other = some record →
      record.state = .decoding → other = id) :
    engine.config.kvCacheConfig.totalNumBlocks ≤
      engine.kvCache.freeBlocks.size + engine.kvCache.cachedBlockCount + table.length := by
  have sound := coherent.sound
  have config : engine.kvCache.config = engine.config.kvCacheConfig := coherent.setup.config
  have parts := sound.partition
  have used := sound.usedIds_le
  have only : ∀ key value, engine.kvCache.blockTables.find? key = some value ↔
      ∃ x ∈ [id], x = key ∧ value = table := fun key value => by
    simp only [List.mem_singleton, exists_eq_left]
    refine ⟨fun found => ?_, fun ⟨same, value⟩ => by rw [← same, value]; exact present⟩
    obtain ⟨record, listed, decoding⟩ := (coherent.resident.holders key).mp ⟨value, found⟩
    obtain rfl := lone key record listed decoding
    exact ⟨rfl, Option.some.inj (found.symm.trans present)⟩
  have total : engine.kvCache.blockTables.total List.length = table.length := by
    rw [OrdMap.total_eq_sum (by simp) only]
    simp
  rw [sound.valid.blocks.length, config] at parts
  omega

/-- Only one that outgrows the whole cache starves the one decoding request. -/
theorem Starved.outgrown (coherent : engine.Coherent) (starved : engine.Starved request)
    (found : engine.requests.find? request.requestId = some request)
    (decoding : request.state = .decoding)
    (lone : ∀ other record, engine.requests.find? other = some record →
      record.state = .decoding → other = request.requestId) :
    engine.config.kvCacheConfig.totalNumBlocks <
      engine.config.kvCacheConfig.demand
        (request.promptLength + request.generatedTokenCount + 1) := by
  have sound := coherent.sound
  have config : engine.kvCache.config = engine.config.kvCacheConfig := coherent.setup.config
  have isDecode : (candidateOf request).isPrefill = false := by simp [candidateOf, decoding]
  obtain ⟨demand, demands, full⟩ := starved
  rw [evictableFor_decode isDecode, length_eligibleEvictionOrder sound.blockIds] at full
  cases demands with
  | exact isPrefill | count isPrefill =>
      rw [isDecode] at isPrefill
      cases isPrefill
  | @decode newBlock table _ present _ needs =>
      have room := coherent.lone_room present lone
      obtain ⟨usage, listed, fills⟩ := coherent.tallied.accounted _ table present
      obtain ⟨record, same, -, rfl⟩ := ledgerOf_eq_some.mp listed
      cases same.symm.trans found
      have needed : newBlock = true := by
        by_contra stays
        rw [if_neg stays] at full
        exact absurd full (Nat.not_lt_zero _)
      rw [if_pos needed] at full
      have none : engine.kvCache.freeBlocks.size + engine.kvCache.cachedBlockCount < 1 := full
      have count := (fills.needsBlock_iff sound).mp (needs.mp needed)
      rw [config] at count
      rw [← not_le, KVCacheConfig.demand_le_iff, not_le, Nat.lt_succ_iff]
      change _ ≤ Usage.total ⟨request.promptLength, request.generatedTokenCount⟩
      rw [count]
      exact Nat.mul_le_mul_right _ (by omega)

/-! ## One candidate at a time -/

/-- With one slot a first candidate that is not starved is scheduled alone. -/
theorem Trail.first_alone (trail : engine.Trail arrived (first :: rest) builder)
    (coherent : engine.Coherent) (one : engine.config.maxNumSequences = 1)
    (distinct : ((first :: rest).map (·.requestId)).Nodup)
    (describes : engine.Describes arrived first request) (fed : ¬ engine.Starved request) :
    builder.workOrder = [⟨first.requestId, first.isPrefill⟩] := by
  have planned := trail.planned
  have scheduled : builder.workOrder ≠ [] := fun idle =>
    fed (trail.starved coherent idle List.mem_cons_self describes)
  have few : builder.workOrder.length ≤ 1 := by
    have count := planned.scheduled.length_eq
    rw [List.length_append, List.length_map, List.length_map] at count
    rw [← one, ← count]
    exact planned.sequences
  obtain ⟨item, only⟩ : ∃ item, builder.workOrder = [item] := by
    have some' := List.length_pos_of_ne_nil scheduled
    exact List.length_eq_one_iff.mp (by omega)
  have served : first.requestId ∈ builder.workOrder.map (·.requestId) := by
    have mentioned := planned.ids.mem_iff.mpr (List.mem_map_of_mem List.mem_cons_self)
    refine (List.mem_append.mp mentioned).resolve_right fun deferred => ?_
    obtain ⟨item, member, same⟩ := List.mem_map.mp deferred
    obtain ⟨front, candidate, behind, record, demand, before, split, begun, -, describes', id,
      demands, reason⟩ := (trail.deferral item member).turn
    rw [same] at id
    -- The first candidate comes first, so it would be deferred with nothing scheduled.
    have alone : front = [] := by
      cases front with
      | nil => rfl
      | cons head tail =>
          rw [split, List.cons_append, List.map_cons, List.nodup_cons] at distinct
          have head_eq : first = head := (List.cons.inj split).1
          exact absurd (List.mem_map.mpr ⟨candidate, by simp, by rw [id, head_eq]⟩) distinct.1
    subst alone
    have candidate_eq : first = candidate := (List.cons.inj split).1
    subst candidate_eq
    have idle : before.workOrder = [] := by
      have length := begun.planned.ids.length_eq
      rw [List.length_append, List.length_map, List.map_nil, List.length_nil] at length
      exact List.length_eq_zero_iff.mp (by omega)
    obtain rfl : record = request := Option.some.inj (describes'.found.symm.trans describes.found)
    have turn := begun.step describes' (by simp) (.deferred demands reason)
    exact fed (turn.starved coherent idle (by simp) describes)
  rw [only, List.map_singleton, List.mem_singleton] at served
  obtain ⟨candidate, known, same, kind⟩ := trail.items item (by rw [only]; exact List.mem_cons_self)
  have candidate_eq : candidate = first := by
    refine List.inj_on_of_nodup_map distinct known List.mem_cons_self ?_
    rw [same, served]
  rw [only, served, ← candidate_eq, kind]

/-- Without a prefix cache no prompt is matched. -/
theorem Trail.unmatched (trail : engine.Trail arrived consumed builder)
    (disabled : engine.config.prefixCacheConfig.enabled = false) :
    ∀ work ∈ builder.prefills, work.matchedPrefixTokenCount = 0 := by
  induction trail with
  | start => exact fun _ member => by cases member
  | @step consumed builder next candidate request _ _ _ decided ih =>
      cases decided with
      | deferred | decode => exact ih
      | prefill isPrefill demands =>
          intro work member
          rcases List.mem_append.mp member with old | new
          · exact ih work old
          · rw [List.mem_singleton.mp new]
            cases demands with
            | exact _ exact' =>
                rw [(cachedTokens?_eq_some exact').1] at disabled
                cases disabled
            | count => rfl
            | decode isDecode =>
                rw [isPrefill] at isDecode
                cases isDecode

/-- The plan of an iteration that schedules one candidate alone. -/
structure Alone (engine : ContinuousBatchingEngine) (builder : PlanBuilder) (first : Candidate)
    (request : Request) : Prop where
  workOrder : builder.workOrder = [⟨first.requestId, first.isPrefill⟩]
  prefills : builder.prefills.map (·.requestId) =
    if first.isPrefill then [first.requestId] else []
  decodes : builder.decodes = if first.isPrefill then [] else [first.requestId]
  tokens : (builder.prefills.map (·.promptTokenCount)).sum =
    if first.isPrefill then request.promptLength else 0

/-- Without the cache, the one work item of a trail makes up its plan alone. -/
theorem Trail.alone (trail : engine.Trail arrived consumed builder)
    (disabled : engine.config.prefixCacheConfig.enabled = false)
    (found : engine.requests.find? first.requestId = some request)
    (workOrder : builder.workOrder = [⟨first.requestId, first.isPrefill⟩]) :
    engine.Alone builder first request := by
  have planned := trail.planned
  have prefills : builder.prefills.map (·.requestId) =
      if first.isPrefill then [first.requestId] else [] := by
    rw [planned.prefills, workOrder]
    cases first.isPrefill <;> rfl
  refine ⟨workOrder, prefills, ?_, ?_⟩
  · rw [planned.decodes, workOrder]
    cases first.isPrefill <;> rfl
  · cases kind : first.isPrefill with
    | false =>
        rw [kind] at prefills
        rw [List.map_eq_nil_iff.mp prefills]
        rfl
    | true =>
        rw [kind, if_pos rfl] at prefills
        obtain ⟨work, only, same⟩ := List.map_eq_singleton_iff.mp prefills
        have member : work ∈ builder.prefills := by rw [only]; exact List.mem_cons_self
        obtain ⟨record, listed, -, prompt⟩ := planned.prompts work member
        rw [same, found, Option.some.injEq] at listed
        rw [trail.unmatched disabled work member, Nat.zero_add] at prompt
        rw [only, List.map_singleton, List.sum_singleton, prompt, listed]
        rfl

end ContinuousBatchingEngine

/-! ## A cache without keys -/

namespace KVCacheManager

variable {manager next : KVCacheManager} {events : List KVEvent}

theorem Passes.unkeyed (passes : Passes manager events next) (start : manager.Sound)
    (disabled : manager.prefixConfig.enabled = false)
    (unkeyed : ∀ x, (manager.block x).prefixKey = none) :
    ∀ x, (next.block x).prefixKey = none :=
  (passes.preserves (fun state => state.prefixConfig.enabled = false ∧
    ∀ x, (state.block x).prefixKey = none) start ⟨disabled, unkeyed⟩
    fun _ sound effect _ ⟨off, keyless⟩ => ⟨effect.setup.prefixConfig ▸ off, fun x => by
      by_contra keyed
      exact effect.keyed_before sound off keyed (keyless x)⟩).2

theorem unpinned_of_unkeyed (unkeyed : ∀ x, (manager.block x).prefixKey = none)
    (victims : List Nat) : manager.Unpinned victims := fun x _ pinned => by
  obtain ⟨_, _, _, _, _, _, _, _, _, _, _, _, _, keyed⟩ := pinned
  rw [unkeyed x] at keyed
  cases keyed

end KVCacheManager

namespace ContinuousBatchingEngine

/-- Without keys the planner never makes room with a pinned block. -/
theorem Trail.spares_unkeyed {engine : ContinuousBatchingEngine} {arrived : OrdSet RequestId}
    {consumed rest : List Candidate} {builder : PlanBuilder}
    (trail : engine.Trail arrived consumed builder) (coherent : engine.Coherent)
    (disabled : engine.config.prefixCacheConfig.enabled = false)
    (unkeyed : ∀ x, (engine.kvCache.block x).prefixKey = none)
    (described : ∀ candidate ∈ rest, ∃ request, engine.Describes arrived candidate request)
    (nodup : ((consumed ++ rest).map (·.requestId)).Nodup) :
    engine.SparesFrom builder rest := by
  induction rest generalizing consumed builder with
  | nil => exact True.intro
  | cons candidate rest ih =>
      obtain ⟨request, describes⟩ := described candidate List.mem_cons_self
      have fresh : candidate.requestId ∉ consumed.map (·.requestId) := by
        rw [List.map_append, List.nodup_append] at nodup
        exact fun old => nodup.2.2 _ old candidate.requestId (by simp) rfl
      have ready := trail.ready coherent describes fresh
      have off : engine.kvCache.prefixConfig.enabled = false := by
        rw [coherent.prefixConfig_eq]
        exact disabled
      refine ⟨unpinned_of_unkeyed (trail.passes.unkeyed coherent.sound off unkeyed) _,
        fun next planned => ih (trail.step describes fresh ((planCandidate_ensures ready
          describes.found).of_eq_ok planned)) (fun candidate member =>
            described candidate (List.mem_cons_of_mem _ member)) ?_⟩
      rwa [List.append_assoc]

end ContinuousBatchingEngine

/-! ## A request at the server -/

/-- What batches of one sequence cost, as the costs of a backend. -/
def SimulatedBackend.alone (backend : SimulatedBackend) : Backend where
  estimatePrefillUs tokens _ := .ok (backend.config.batchTimeUs tokens 0 1)
  estimateDecodeStepUs _ := .ok (backend.config.batchTimeUs 0 1 1)

theorem SimulatedBackend.batchTimeUs_nonneg (backend : SimulatedBackend)
    (prefill decode scheduled : Nat) : 0 ≤ backend.config.batchTimeUs prefill decode scheduled := by
  have base := backend.valid.batchBase
  have perToken := mul_nonneg backend.valid.batchPrefillPerToken (Int.natCast_nonneg prefill)
  have perDecode := mul_nonneg backend.valid.batchDecodePerSequence (Int.natCast_nonneg decode)
  have perActive :=
    mul_nonneg backend.valid.batchActiveSequenceOverhead (Int.natCast_nonneg scheduled)
  unfold SimulatedBackendConfig.batchTimeUs
  omega

theorem SimulatedBackend.alone_lawful (backend : SimulatedBackend) : backend.alone.Lawful where
  prefill tokens _ _ := backend.batchTimeUs_nonneg tokens 0 1
  decode _ _ := backend.batchTimeUs_nonneg 0 1 1

/-- The record of a request that has been decoding since a time. -/
def Request.servedSince (backend : Backend) (request : Request) (startUs : Int) (steps : Nat) :
    Request :=
  { request with
    state := .decoding
    generatedTokenCount := steps
    admittedTimeUs := some startUs
    firstScheduledTimeUs := some startUs
    firstTokenTimeUs := if steps = 0 then none
      else some (startUs + backend.prefillUs request + backend.decodeUs) }

/-- The record that a request has at a stage of its service. -/
inductive Standing (backend : Backend) (nowUs : Int) (request : Request) :
    Request → Stage → Prop
  | waiting : Standing backend nowUs request request .waiting
  | inService {startUs : Int} {steps : Nat} : steps < request.maxNewTokens →
      nowUs = startUs + backend.prefillUs request + steps * backend.decodeUs →
      Standing backend nowUs request (request.servedSince backend startUs steps)
        (.inService startUs)
  | left {startUs : Int} :
      Standing backend nowUs request (servedRecord backend request startUs) (.left startUs)

section Standing

variable {backend : Backend} {nowUs laterUs startUs : Int} {request record : Request}
  {stage : Stage} {steps : Nat}

theorem serviceUs_nonneg (lawful : backend.Lawful) (request : Request) :
    0 ≤ serviceUs backend request :=
  add_nonneg (lawful.prefillUs_nonneg request)
    (mul_nonneg (Int.natCast_nonneg request.maxNewTokens) lawful.decodeUs_nonneg)

namespace Standing

theorem requestId (standing : Standing backend nowUs request record stage) :
    record.requestId = request.requestId := by
  cases standing <;> rfl

theorem prompt (standing : Standing backend nowUs request record stage) :
    record.promptLength = request.promptLength := by
  cases standing <;> rfl

theorem arrivalTimeUs (standing : Standing backend nowUs request record stage) :
    record.arrivalTimeUs = request.arrivalTimeUs := by
  cases standing <;> rfl

theorem servingKey (standing : Standing backend nowUs request record stage) :
    servingKey record = servingKey request := by
  cases standing <;> rfl

theorem not_cancelled (standing : Standing backend nowUs request record stage)
    (pristine : request.Pristine) : record.state ≠ .cancelled := by
  cases standing with
  | waiting => simp [pristine.1]
  | inService | left => exact nofun

/-- Who waits has the record it came with. -/
theorem of_waiting (standing : Standing backend nowUs request record stage)
    (waiting : record.state = .waiting) : record = request ∧ stage = .waiting := by
  cases standing with
  | waiting => exact ⟨rfl, rfl⟩
  | inService | left => cases waiting

theorem of_decoding (standing : Standing backend nowUs request record stage)
    (pristine : request.Pristine) (decoding : record.state = .decoding) :
    ∃ startUs steps, steps < request.maxNewTokens ∧
      nowUs = startUs + backend.prefillUs request + steps * backend.decodeUs ∧
      record = request.servedSince backend startUs steps ∧ stage = .inService startUs := by
  cases standing with
  | waiting =>
      rw [pristine.1] at decoding
      cases decoding
  | inService few now => exact ⟨_, _, few, now, rfl, rfl⟩
  | left => cases decoding

theorem of_finished (standing : Standing backend nowUs request record stage)
    (pristine : request.Pristine) (finished : record.state = .finished) :
    ∃ startUs, record = servedRecord backend request startUs ∧ stage = .left startUs := by
  cases standing with
  | waiting =>
      rw [pristine.1] at finished
      cases finished
  | inService => cases finished
  | left => exact ⟨_, rfl, rfl⟩

theorem state_of_inService (standing : Standing backend nowUs request record (.inService startUs)) :
    record.state = .decoding := by
  cases standing
  rfl

theorem state_of_waiting (standing : Standing backend nowUs request record .waiting) :
    record = request := by
  cases standing
  rfl

/-- The clock only shows in the record of the request in service. -/
theorem at_other (standing : Standing backend nowUs request record stage)
    (idle : ∀ startUs, stage ≠ .inService startUs) :
    Standing backend laterUs request record stage := by
  cases standing with
  | waiting => exact .waiting
  | inService => exact absurd rfl (idle _)
  | left => exact .left

end Standing

/-- A prefill that ends after its cost. -/
theorem admitted_standing (pristine : request.Pristine)
    (ends : laterUs = nowUs + backend.prefillUs request) :
    ∃ stage, Standing backend laterUs request (request.admitted nowUs laterUs) stage ∧
      (stage = .inService nowUs ∨
        (stage = .left nowUs ∧ nowUs + serviceUs backend request = laterUs)) := by
  obtain ⟨-, unused, -, -, noToken, unfinished⟩ := pristine
  unfold Request.admitted
  by_cases zero : request.maxNewTokens = 0
  · have whole : nowUs + serviceUs backend request = laterUs := by
      rw [serviceUs, zero, ends]
      simp
    refine ⟨.left nowUs, ?_, Or.inr ⟨rfl, whole⟩⟩
    have same : { request with
        state := .finished, admittedTimeUs := some nowUs, firstScheduledTimeUs := some nowUs
        finishTimeUs := some laterUs } = servedRecord backend request nowUs := by
      rw [servedRecord, whole, if_pos zero, zero, ← unused, ← noToken]
    rw [if_pos zero, same]
    exact .left
  · refine ⟨.inService nowUs, ?_, Or.inl rfl⟩
    have same : { request with
        state := .decoding, admittedTimeUs := some nowUs, firstScheduledTimeUs := some nowUs } =
          request.servedSince backend nowUs 0 := by
      rw [Request.servedSince, if_pos rfl, ← unused, ← noToken]
    rw [if_neg zero, same]
    exact .inService (Nat.pos_of_ne_zero zero) (by rw [ends]; simp)

/-- One more token after the cost of a decode step. -/
theorem decoded_standing (few : steps < request.maxNewTokens)
    (now : nowUs = startUs + backend.prefillUs request + steps * backend.decodeUs)
    (ends : laterUs = nowUs + backend.decodeUs) :
    ∃ stage, Standing backend laterUs request
        ((request.servedSince backend startUs steps).decoded laterUs) stage ∧
      (stage = .inService startUs ∨
        (stage = .left startUs ∧ startUs + serviceUs backend request = laterUs)) := by
  have later : laterUs =
      startUs + backend.prefillUs request + (steps + 1 : Nat) * backend.decodeUs := by
    rw [ends, now, Nat.cast_succ, add_mul, one_mul, ← add_assoc]
  have token : (if steps = 0 then none else
      some (startUs + backend.prefillUs request + backend.decodeUs)).or (some laterUs) =
        some (startUs + backend.prefillUs request + backend.decodeUs) := by
    by_cases zero : steps = 0
    · rw [if_pos zero, later, zero]
      simp
    · rw [if_neg zero]
      rfl
  unfold Request.decoded
  by_cases last : steps + 1 = request.maxNewTokens
  · have whole : startUs + serviceUs backend request = laterUs := by
      rw [serviceUs, later, last, add_assoc]
    refine ⟨.left startUs, ?_, Or.inr ⟨rfl, whole⟩⟩
    have same : { request.servedSince backend startUs steps with
        generatedTokenCount := steps + 1
        firstTokenTimeUs := (if steps = 0 then none else
          some (startUs + backend.prefillUs request + backend.decodeUs)).or (some laterUs)
        state := .finished, finishTimeUs := some laterUs } =
          servedRecord backend request startUs := by
      rw [servedRecord, whole, token, if_neg (by omega), last]
      rfl
    rw [if_pos (by exact last)]
    exact same ▸ .left
  · refine ⟨.inService startUs, ?_, Or.inl rfl⟩
    have same : { request.servedSince backend startUs steps with
        generatedTokenCount := steps + 1
        firstTokenTimeUs := (if steps = 0 then none else
          some (startUs + backend.prefillUs request + backend.decodeUs)).or (some laterUs) } =
          request.servedSince backend startUs (steps + 1) := by
      rw [token, Request.servedSince, Request.servedSince, if_neg (Nat.succ_ne_zero steps)]
    rw [if_neg (by exact last)]
    exact same ▸ .inService (by omega) later

end Standing

/-- The requests in line for the slot. -/
def lineOf {backend : Backend} (lawful : backend.Lawful) {requests : List Request}
    (ids : (requests.map Request.requestId).Nodup) : Line Request WaitingKey where
  customers := requests
  key := servingKey
  arrival := Request.arrivalTimeUs
  cost := serviceUs backend
  distinct _ here _ there same :=
    List.inj_on_of_nodup_map ids here there (congrArg (fun key => (ofLex key).2) same)
  ordered _ _ less := (Prod.Lex.toLex_lt_toLex.mp less).elim le_of_lt fun same => same.1.le
  nonneg := serviceUs_nonneg lawful

namespace ContinuousBatchingEngine

variable {engine next : ContinuousBatchingEngine} {config : ContinuousBatchingConfig}
  {backend : SimulatedBackend} {requests : List Request} {request : Request}
  {floor : Floor Request} {builder : PlanBuilder} {first : Candidate} {rest : List Candidate}
  {outcome : IterationOutcome}

/-- The engine has not failed, and its records are those of a server's floor. -/
structure StandsAt (backend : SimulatedBackend) (config : ContinuousBatchingConfig)
    (requests : List Request) (engine : ContinuousBatchingEngine) (floor : Floor Request) :
    Prop where
  coherent : engine.Coherent
  running : engine.failed = false
  backend_eq : engine.backend = backend
  config_eq : engine.config = config
  unkeyed : ∀ x, (engine.kvCache.block x).prefixKey = none
  now : floor.now = engine.nowUs
  known : ∀ id record, engine.requests.find? id = some record →
    ∃ request ∈ requests, request.requestId = id
  records : ∀ request ∈ requests, ∃ record, engine.requests.find? request.requestId = some record ∧
    Standing backend.alone engine.nowUs request record (floor.stage request)

namespace StandsAt

variable (stands : StandsAt backend config requests engine floor)
include stands

theorem standing {id : RequestId} {record : Request}
    (found : engine.requests.find? id = some record) :
    ∃ request ∈ requests, request.requestId = id ∧
      Standing backend.alone engine.nowUs request record (floor.stage request) := by
  obtain ⟨request, member, rfl⟩ := stands.known id record found
  obtain ⟨record', found', standing⟩ := stands.records request member
  cases found.symm.trans found'
  exact ⟨request, member, rfl, standing⟩

/-- Nothing keyed means nothing cached, so no victim is pinned. -/
theorem clear (oneSlot : config.OneSlot) (serves : config.Serves requests) :
    engine.Clear engine.arrivalsAtCurrentTimestamp := by
  have coherent := stands.coherent
  have disabled : engine.config.prefixCacheConfig.enabled = false := by
    rw [stands.config_eq]
    exact oneSlot.disabled
  refine ⟨fun id record found => ?_, fun id record _ tokens exact' => ?_, ?_⟩
  · obtain ⟨request, member, -, standing⟩ := stands.standing found
    rw [standing.prompt, stands.config_eq]
    exact serves.tokens request member
  · rw [(cachedTokens?_eq_some exact').1] at disabled
    cases disabled
  · exact Trail.start.spares_unkeyed coherent disabled stands.unkeyed (fun candidate member =>
      (mem_orderedCandidates coherent).mp member) (orderedCandidates_nodup coherent _)

end StandsAt

/-! ## The first candidate -/

/-- The first candidate comes before every other runnable request. -/
theorem first_before {arrived : OrdSet RequestId} (coherent : engine.Coherent)
    (split : engine.orderedCandidates arrived = first :: rest) {record other : Request}
    (found : engine.requests.find? first.requestId = some record) {id : RequestId}
    (found' : engine.requests.find? id = some other) (runs : runnable arrived other = true)
    (apart : id ≠ first.requestId) : policyKey engine.config.schedulingPolicy record <
      policyKey engine.config.schedulingPolicy other := by
  have describes : engine.Describes arrived ⟨id, other.arrivalTimeUs, other.state = .waiting⟩
      other := ⟨found', runs, rfl, by simp⟩
  have member := (mem_orderedCandidates coherent).mpr ⟨other, describes⟩
  have sorted := orderedCandidates_before coherent arrived
  rw [split] at member sorted
  rcases List.mem_cons.mp member with same | behind
  · exact absurd (congrArg Candidate.requestId same) apart
  · obtain ⟨a, b, foundA, foundB, less⟩ := List.rel_of_pairwise_cons sorted behind
    cases foundA.symm.trans found
    cases foundB.symm.trans found'
    exact less

theorem policyKey_lt_of_kind {policy : SchedulingPolicy} {a b : Request}
    (less : policyKey policy a < policyKey policy b)
    (kind : policy = .decodeFirst → (a.state = .decoding ↔ b.state = .decoding)) :
    servingKey a < servingKey b := by
  unfold policyKey at less
  rcases Prod.Lex.toLex_lt_toLex.mp less with first | ⟨-, second⟩
  · by_cases decodeFirst : policy = .decodeFirst
    · have same := kind decodeFirst
      simp [decodeFirst, same] at first
    · simp [decodeFirst] at first
  · exact second

/-- A request that waits does not come before one that decodes unless its key does. -/
theorem policyKey_lt_decoding {policy : SchedulingPolicy} {a b : Request}
    (less : policyKey policy a < policyKey policy b) (decoding : b.state = .decoding) :
    a.state = .decoding ∨ servingKey a < servingKey b := by
  by_cases state : a.state = .decoding
  · exact Or.inl state
  · refine Or.inr ?_
    unfold policyKey at less
    rcases Prod.Lex.toLex_lt_toLex.mp less with first | ⟨-, second⟩
    · rw [decide_eq_false (not_not.mpr decoding), Bool.and_false] at first
      exact absurd first not_lt_bot
    · exact second

/-! ## One iteration -/

/-- What an iteration that serves one request alone makes of the records. -/
theorem Alone.records {arrived : OrdSet RequestId} {record : Request} {endUs : Int}
    (alone : engine.Alone builder first record)
    (committed : engine.Committed arrived builder endUs next) (id : RequestId) :
    next.requests.find? id = (engine.requests.find? id).map fun request =>
      if id = first.requestId then
        if first.isPrefill then request.admitted engine.nowUs endUs else request.decoded endUs
      else request := by
  rw [committed.requests]
  refine congrArg (fun step => (engine.requests.find? id).map step) (funext fun request => ?_)
  have prefills : (builder.plan engine.nextIterationNumber).prefillRequestIds =
      if first.isPrefill then [first.requestId] else [] := alone.prefills
  have decodes : (builder.plan engine.nextIterationNumber).decodeRequestIds =
      if first.isPrefill then [] else [first.requestId] := alone.decodes
  unfold advance
  rw [prefills, decodes]
  cases first.isPrefill with
  | true => simp
  | false => simp

section OneSlot

variable (oneSlot : config.OneSlot) (serves : config.Serves requests)

/-- The server that the engine is. -/
abbrev slotLine (backend : SimulatedBackend) (serves : config.Serves requests) :
    Line Request WaitingKey :=
  lineOf backend.alone_lawful serves.ids

namespace StandsAt

variable (stands : StandsAt backend config requests engine floor)
  (orderly : Orderly (slotLine backend serves) floor)
include serves stands orderly

/-- No two requests are decoding. -/
theorem lone {id other : RequestId} {record record' : Request}
    (found : engine.requests.find? id = some record) (decoding : record.state = .decoding)
    (found' : engine.requests.find? other = some record') (decoding' : record'.state = .decoding) :
    other = id := by
  obtain ⟨request, member, rfl, standing⟩ := stands.standing found
  obtain ⟨request', member', rfl, standing'⟩ := stands.standing found'
  obtain ⟨_, _, -, -, -, stage⟩ := standing.of_decoding (serves.pristine request member).1 decoding
  obtain ⟨_, _, -, -, -, stage'⟩ :=
    standing'.of_decoding (serves.pristine request' member').1 decoding'
  rw [orderly.single member stage member' stage']

/-- The decoding request finds a block when it needs one. -/
theorem fed_decode {id : RequestId} {record : Request}
    (found : engine.requests.find? id = some record) (decoding : record.state = .decoding) :
    ¬ engine.Starved record := fun starved => by
  have key := stands.coherent.keyed id record found
  have outgrown := starved.outgrown stands.coherent (by rw [key]; exact found) decoding
    fun other record' found' decoding' => by
      rw [key]
      exact stands.lone serves orderly found decoding found' decoding'
  obtain ⟨request, member, -, standing⟩ := stands.standing found
  obtain ⟨_, steps, few, -, rfl, -⟩ :=
    standing.of_decoding (serves.pristine request member).1 decoding
  have blocks := serves.blocks request member
  rw [stands.config_eq, ← not_le, KVCacheConfig.demand_le_iff] at outgrown
  rw [KVCacheConfig.demand_le_iff] at blocks
  refine outgrown (le_trans ?_ blocks)
  rw [standing.prompt]
  change request.promptLength + steps + 1 ≤ _
  omega

omit orderly in
/-- A prompt fits where nothing is decoding. -/
theorem fed_prefill {id : RequestId} {record : Request}
    (found : engine.requests.find? id = some record) (waiting : record.state = .waiting)
    (idle : ∀ id record, engine.requests.find? id = some record → record.state ≠ .decoding) :
    ¬ engine.Starved record := fun starved => by
  have oversized := starved.oversized stands.coherent waiting idle
  obtain ⟨request, member, -, standing⟩ := stands.standing found
  have blocks := serves.blocks request member
  rw [stands.config_eq, ← not_le, KVCacheConfig.demand_le_iff] at oversized
  rw [KVCacheConfig.demand_le_iff] at blocks
  refine oversized (le_trans ?_ blocks)
  rw [standing.prompt]
  omega

end StandsAt

/-- The server's floor after one request moved on to a stage. -/
def moved (floor : Floor Request) (next : ContinuousBatchingEngine) (id : RequestId)
    (stage : Stage) : Floor Request :=
  ⟨next.nowUs, fun request => if request.requestId = id then stage else floor.stage request⟩

namespace StandsAt

variable (stands : StandsAt backend config requests engine floor)
  (orderly : Orderly (slotLine backend serves) floor)
include stands

include oneSlot in
/-- The parts of an engine that every iteration keeps. -/
theorem carry (iterated : engine.Iterated outcome next) : next.Coherent ∧ next.failed = false ∧
    next.backend = backend ∧ next.config = config ∧
      ∀ x, (next.kvCache.block x).prefixKey = none := by
  have coherent := stands.coherent
  obtain ⟨sameConfig, sameBackend, sameFailed⟩ := iterated.setup
  refine ⟨iterated.coherent coherent, sameFailed.trans stands.running,
    sameBackend.trans stands.backend_eq, sameConfig.trans stands.config_eq, ?_⟩
  have off : engine.kvCache.prefixConfig.enabled = false := by
    rw [coherent.prefixConfig_eq, stands.config_eq]
    exact oneSlot.disabled
  rcases iterated.committed coherent with rfl | ⟨_, _, _, trail, -, committed⟩
  · exact stands.unkeyed
  · exact (committed.allPasses trail).unkeyed coherent.sound off stands.unkeyed

include serves in
/-- One request moves on, the others are as they were. -/
theorem move {arrived : OrdSet RequestId} {record after : Request} {endUs : Int} {stage : Stage}
    (kept : next.Coherent ∧ next.failed = false ∧ next.backend = backend ∧
      next.config = config ∧ ∀ x, (next.kvCache.block x).prefixKey = none)
    (member : request ∈ requests) (same : request.requestId = first.requestId)
    (found : engine.requests.find? first.requestId = some record)
    (alone : engine.Alone builder first record)
    (committed : engine.Committed arrived builder endUs next)
    (becomes : (if first.isPrefill then record.admitted engine.nowUs endUs
      else record.decoded endUs) = after)
    (standing : Standing backend.alone endUs request after stage)
    (idle : ∀ other ∈ requests, other.requestId ≠ first.requestId →
      ∀ startUs, floor.stage other ≠ .inService startUs) :
    StandsAt backend config requests next (moved floor next first.requestId stage) ∧
      Floor.KeepsOthers (slotLine backend serves) floor
        (moved floor next first.requestId stage) request ∧
      (moved floor next first.requestId stage).stage request = stage ∧
      floor.now ≤ next.nowUs := by
  obtain ⟨coherent, running, sameBackend, sameConfig, unkeyed⟩ := kept
  have now := committed.nowUs_eq
  refine ⟨⟨coherent, running, sameBackend, sameConfig, unkeyed, rfl, fun id record' found' => ?_,
    fun other inside => ?_⟩, fun other inside apart => ?_, if_pos same, ?_⟩
  · rw [alone.records committed] at found'
    obtain ⟨record, before, -⟩ := Option.map_eq_some_iff.mp found'
    exact stands.known id record before
  · obtain ⟨record', before, standing'⟩ := stands.records other inside
    by_cases here : other.requestId = first.requestId
    · have other_eq : other = request :=
        List.inj_on_of_nodup_map serves.ids inside member (here.trans same.symm)
      refine ⟨after, ?_, ?_⟩
      · rw [alone.records committed, here, found, Option.map_some, if_pos rfl, becomes]
      · change Standing _ _ _ _ (if _ then _ else _)
        rw [if_pos here, now, other_eq]
        exact standing
    · refine ⟨record', ?_, ?_⟩
      · rw [alone.records committed, before, Option.map_some, if_neg here]
      · change Standing _ _ _ _ (if _ then _ else _)
        rw [if_neg here]
        exact standing'.at_other (idle other inside here)
  · refine if_neg fun here => apart ?_
    exact List.inj_on_of_nodup_map serves.ids inside member (here.trans same.symm)
  · rw [stands.now, now]
    exact committed.forward

include oneSlot in
/-- An idle iteration waits for the next arrival. -/
theorem waits {time : Int}
    (runs : engine.hasRunnableWork engine.arrivalsAtCurrentTimestamp = false)
    (ahead : engine.nextFutureArrival engine.arrivalsAtCurrentTimestamp = some time)
    (committed : engine.Committed engine.arrivalsAtCurrentTimestamp { cache := engine.kvCache }
      time next) :
    ∃ floor', StandsAt backend config requests next floor' ∧
      Attends (slotLine backend serves) floor floor' := by
  have coherent := stands.coherent
  have now := committed.nowUs_eq
  have unmoved : ∀ id, next.requests.find? id = engine.requests.find? id := fun id => by
    rw [committed.requests]
    cases engine.requests.find? id with
    | none => rfl
    | some request => simp [advance, PlanBuilder.plan]
  have idle {id record} : ¬ engine.Runnable id record := fun runnable => by
    rw [(hasRunnableWork_iff_runnable coherent).mpr ⟨id, record, runnable⟩] at runs
    cases runs
  obtain ⟨kept, running, sameBackend, sameConfig, unkeyed⟩ :=
    stands.carry oneSlot (.idle runs ahead committed)
  refine ⟨⟨next.nowUs, floor.stage⟩, ⟨kept, running, sameBackend, sameConfig, unkeyed, rfl,
    fun id record found => ?_, fun request member => ?_⟩, .waits (fun _ _ => rfl) ?_
      fun request member waits => ?_⟩
  · rw [unmoved] at found
    exact stands.known id record found
  · obtain ⟨record, found, standing⟩ := stands.records request member
    refine ⟨record, by rw [unmoved]; exact found, standing.at_other fun startUs served => ?_⟩
    rw [served] at standing
    exact idle ⟨found, Or.inl standing.state_of_inService⟩
  · change floor.now ≤ next.nowUs
    rw [stands.now, now]
    exact committed.forward
  · obtain ⟨record, found, standing⟩ := stands.records request member
    rw [waits] at standing
    obtain rfl := standing.state_of_waiting
    have waiting := (serves.pristine record member).1.1
    have unknown : record.requestId ∉ engine.arrivalsAtCurrentTimestamp := fun known =>
      idle ⟨found, Or.inr ⟨waiting, known⟩⟩
    have future := @nextFutureArrival_spec engine engine.arrivalsAtCurrentTimestamp
    rw [ahead] at future
    change next.nowUs ≤ record.arrivalTimeUs
    rw [now]
    refine future.2 _ record found ⟨waiting, unknown, ?_⟩
    by_contra early
    exact unknown ((mem_arrivals coherent).mpr (Or.inr ⟨record, found, waiting, not_lt.mp early⟩))

include orderly in
/-- Where the first candidate waits, nothing is decoding. -/
theorem idle_of_first {arrived : OrdSet RequestId}
    (split : engine.orderedCandidates arrived = first :: rest) {record : Request}
    (found : engine.requests.find? first.requestId = some record)
    (waiting : record.state = .waiting) {id : RequestId} {other : Request}
    (found' : engine.requests.find? id = some other) : other.state ≠ .decoding := by
  intro decoding
  have coherent := stands.coherent
  obtain ⟨request, member, -, standing⟩ := stands.standing found
  obtain ⟨request', member', -, standing'⟩ := stands.standing found'
  obtain ⟨_, steps, -, -, -, stage⟩ :=
    standing'.of_decoding (serves.pristine request' member').1 decoding
  have apart : id ≠ first.requestId := fun same => by
    subst same
    cases found.symm.trans found'
    rw [waiting] at decoding
    cases decoding
  have less := first_before coherent split found found'
    (runnable_iff.mpr (Or.inl decoding)) apart
  rcases policyKey_lt_decoding less decoding with also | less
  · rw [waiting] at also
    cases also
  · rw [standing.servingKey, standing'.servingKey] at less
    obtain ⟨_, left, -⟩ := orderly.earlier request member request' member' less _
      (by rw [stage]; rfl)
    rw [(standing.of_waiting waiting).2] at left
    cases left

include oneSlot orderly in
/-- A first candidate that waits begins its service. -/
theorem begins {durationUs : Int} {record : Request}
    (split : engine.orderedCandidates engine.arrivalsAtCurrentTimestamp = first :: rest)
    (iterated : engine.Iterated outcome next)
    (describes : engine.Describes engine.arrivalsAtCurrentTimestamp first record)
    (isPrefill : first.isPrefill = true) (alone : engine.Alone builder first record)
    (duration : durationUs = backend.config.batchTimeUs record.promptLength 0 1)
    (committed : engine.Committed engine.arrivalsAtCurrentTimestamp builder
      (engine.nowUs + durationUs) next) :
    ∃ floor', StandsAt backend config requests next floor' ∧
      Attends (slotLine backend serves) floor floor' := by
  have coherent := stands.coherent
  have waiting := describes.isPrefill.mp isPrefill
  have idle {id other} (found' : engine.requests.find? id = some other) :
      other.state ≠ .decoding :=
    stands.idle_of_first serves orderly split describes.found waiting found'
  obtain ⟨request, member, same, standing⟩ := stands.standing describes.found
  obtain ⟨rfl, stage⟩ := standing.of_waiting waiting
  have pristine := (serves.pristine record member).1
  have unserved : ∀ other ∈ requests, ∀ startUs, floor.stage other ≠ .inService startUs :=
    fun other inside startUs served => by
      obtain ⟨record', found', standing'⟩ := stands.records other inside
      rw [served] at standing'
      exact idle found' standing'.state_of_inService
  have arrives : record.arrivalTimeUs ≤ engine.nowUs := by
    rcases runnable_iff.mp describes.runnable with decoding | ⟨-, known⟩
    · exact absurd decoding (idle describes.found)
    · obtain ⟨record', found', early⟩ := arrivals_arrived coherent _ known
      rw [same] at found'
      cases found'.symm.trans describes.found
      exact early
  obtain ⟨stage', standing', reaches⟩ := admitted_standing pristine
    (show engine.nowUs + durationUs = engine.nowUs + backend.alone.prefillUs record from
      congrArg _ duration)
  obtain ⟨stands', others, here, forward⟩ := stands.move serves (stands.carry oneSlot iterated)
    member same describes.found alone committed (if_pos isPrefill) standing'
    fun other inside _ => unserved other inside
  refine ⟨_, stands', .begins member stage (by rw [stands.now]; exact arrives) unserved
    (fun other inside waits early => ?_) forward ?_ others⟩
  · by_cases apart : other.requestId = first.requestId
    · rw [List.inj_on_of_nodup_map serves.ids inside member (apart.trans same.symm)]
    · obtain ⟨record', found', standing'⟩ := stands.records other inside
      rw [waits] at standing'
      obtain rfl := standing'.state_of_waiting
      have also := (serves.pristine record' inside).1.1
      rw [stands.now] at early
      have known := (mem_arrivals coherent).mpr (Or.inr ⟨record', found', also, early⟩)
      have less := first_before coherent split describes.found found'
        (runnable_iff.mpr (Or.inr ⟨also, known⟩)) apart
      exact (policyKey_lt_of_kind less fun _ => by simp [waiting, also]).le
  · rw [stands.now]
    refine reaches.imp (here.trans ·) fun ⟨left, ends⟩ => ⟨here.trans left, ?_⟩
    exact ends.trans committed.nowUs_eq.symm

include oneSlot orderly in
/-- The decoding request goes on by a token. -/
theorem goesOn {arrived : OrdSet RequestId} {durationUs : Int} {record : Request}
    (iterated : engine.Iterated outcome next) (describes : engine.Describes arrived first record)
    (isDecode : first.isPrefill = false) (alone : engine.Alone builder first record)
    (duration : durationUs = backend.config.batchTimeUs 0 1 1)
    (committed : engine.Committed arrived builder (engine.nowUs + durationUs) next) :
    ∃ floor', StandsAt backend config requests next floor' ∧
      Attends (slotLine backend serves) floor floor' := by
  have decoding := describes.decoding_iff.mp isDecode
  obtain ⟨request, member, same, standing⟩ := stands.standing describes.found
  obtain ⟨startUs, steps, few, now, rfl, stage⟩ :=
    standing.of_decoding (serves.pristine request member).1 decoding
  obtain ⟨stage', standing', reaches⟩ := decoded_standing few now
    (show engine.nowUs + durationUs = engine.nowUs + backend.alone.decodeUs from
      congrArg _ duration)
  obtain ⟨stands', others, here, forward⟩ := stands.move serves (stands.carry oneSlot iterated)
    member same describes.found alone committed (if_neg (by simp [isDecode])) standing'
    fun other inside apart startUs' served => apart ((congrArg Request.requestId
      (orderly.single member stage inside served)).trans same)
  refine ⟨_, stands', .goesOn member stage forward ?_ others⟩
  refine reaches.imp (here.trans ·) fun ⟨left, ends⟩ => ⟨here.trans left, ?_⟩
  exact ends.trans committed.nowUs_eq.symm

include oneSlot orderly in
/-- An iteration with runnable work schedules the first candidate alone. -/
theorem first_served (runs : engine.hasRunnableWork engine.arrivalsAtCurrentTimestamp = true)
    (trail : engine.Trail engine.arrivalsAtCurrentTimestamp
      (engine.orderedCandidates engine.arrivalsAtCurrentTimestamp) builder) :
    ∃ first rest record,
      engine.orderedCandidates engine.arrivalsAtCurrentTimestamp = first :: rest ∧
        engine.Describes engine.arrivalsAtCurrentTimestamp first record ∧
        engine.Alone builder first record := by
  have coherent := stands.coherent
  have distinct := orderedCandidates_nodup coherent engine.arrivalsAtCurrentTimestamp
  obtain ⟨first, rest, split⟩ := List.exists_cons_of_ne_nil (orderedCandidates_ne_nil coherent runs)
  obtain ⟨record, describes⟩ := (mem_orderedCandidates coherent).mp
    (split ▸ List.mem_cons_self : first ∈ engine.orderedCandidates _)
  rw [split] at trail distinct
  refine ⟨first, rest, record, split, describes, ?_⟩
  refine trail.alone (by rw [stands.config_eq]; exact oneSlot.disabled) describes.found
    (trail.first_alone coherent (by rw [stands.config_eq]; exact oneSlot.one) distinct describes ?_)
  rcases runnable_iff.mp describes.runnable with decoding | ⟨waiting, -⟩
  · exact stands.fed_decode serves orderly describes.found decoding
  · exact stands.fed_prefill serves describes.found waiting fun _ _ found' =>
      stands.idle_of_first serves orderly split describes.found waiting found'

include oneSlot orderly in
/-- An iteration is a step of the server, unless all are served. -/
theorem iterated (iterated : engine.Iterated outcome next) :
    (outcome = .progressed ∧ ∃ floor', StandsAt backend config requests next floor' ∧
      Attends (slotLine backend serves) floor floor') ∨
    (outcome = .complete ∧ next = engine ∧
      ∀ request ∈ requests, ∃ startUs, floor.stage request = .left startUs) := by
  have coherent := stands.coherent
  have whole := iterated
  cases iterated with
  | complete runs ahead =>
      refine Or.inr ⟨rfl, rfl, fun request member => ?_⟩
      obtain ⟨record, found, standing⟩ := stands.records request member
      have pristine := (serves.pristine request member).1
      rcases coherent.terminal runs ahead found with finished | cancelled
      · obtain ⟨startUs, -, stage⟩ := standing.of_finished pristine finished
        exact ⟨startUs, stage⟩
      · exact absurd cancelled (standing.not_cancelled pristine)
  | idle runs ahead committed =>
      exact Or.inl ⟨rfl, stands.waits oneSlot serves runs ahead committed⟩
  | stalled runs _ trail idle _ =>
      obtain ⟨first, _, _, -, -, alone⟩ := stands.first_served oneSlot serves orderly runs trail
      rw [alone.workOrder] at idle
      cases idle
  | progressed runs _ trail _ duration committed =>
      obtain ⟨first, _, record, split, describes, alone⟩ :=
        stands.first_served oneSlot serves orderly runs trail
      rw [alone.tokens, alone.decodes, alone.workOrder, stands.backend_eq] at duration
      refine Or.inl ⟨rfl, ?_⟩
      cases kind : first.isPrefill with
      | true =>
          rw [kind, if_pos rfl, if_pos rfl] at duration
          exact stands.begins oneSlot serves orderly split whole describes kind alone duration
            committed
      | false =>
          rw [kind, if_neg Bool.false_ne_true, if_neg Bool.false_ne_true] at duration
          exact stands.goesOn oneSlot serves orderly whole describes kind alone duration committed

end StandsAt

end OneSlot

end ContinuousBatchingEngine

end LlmLab.Serving
