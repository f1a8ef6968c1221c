import LlmLab.Serving.CheckedMath

/-!
# Cost backends

`backend.h` and `simulated_backend.cpp`.  `Backend` is the interface the engines call;
`SimulatedBackend` is its implementation, whose constructor rejects negative costs.
-/

namespace LlmLab.Serving

/-- The `Backend` interface. -/
structure Backend where
  estimatePrefillUs : Nat → Nat → Except Exn Int
  estimateDecodeStepUs : Nat → Except Exn Int

/-- Costs of an active batch are not negative, and only an overflow makes an estimate throw. -/
structure Backend.Lawful (backend : Backend) : Prop where
  prefill : ∀ tokens active, 0 < active →
    Ensures Exn.IsOverflow (fun cost => 0 ≤ cost) (backend.estimatePrefillUs tokens active)
  decode : ∀ active, 0 < active →
    Ensures Exn.IsOverflow (fun cost => 0 ≤ cost) (backend.estimateDecodeStepUs active)

structure SimulatedBackendConfig where
  prefillBaseUs : Int := 0
  prefillPerTokenUs : Int := 0
  prefillPerActiveSequenceUs : Int := 0
  decodeBaseUs : Int := 0
  decodePerActiveSequenceUs : Int := 0
  batchBaseUs : Int := 0
  batchPrefillPerTokenUs : Int := 0
  batchDecodePerSequenceUs : Int := 0
  batchActiveSequenceOverheadUs : Int := 0
deriving DecidableEq

/-- What `validate_configuration` accepts. -/
structure SimulatedBackendConfig.Valid (config : SimulatedBackendConfig) : Prop where
  prefillBase : 0 ≤ config.prefillBaseUs
  prefillPerToken : 0 ≤ config.prefillPerTokenUs
  prefillPerActiveSequence : 0 ≤ config.prefillPerActiveSequenceUs
  decodeBase : 0 ≤ config.decodeBaseUs
  decodePerActiveSequence : 0 ≤ config.decodePerActiveSequenceUs
  batchBase : 0 ≤ config.batchBaseUs
  batchPrefillPerToken : 0 ≤ config.batchPrefillPerTokenUs
  batchDecodePerSequence : 0 ≤ config.batchDecodePerSequenceUs
  batchActiveSequenceOverhead : 0 ≤ config.batchActiveSequenceOverheadUs

instance (config : SimulatedBackendConfig) : Decidable config.Valid :=
  decidable_of_iff
    (0 ≤ config.prefillBaseUs ∧ 0 ≤ config.prefillPerTokenUs ∧
      0 ≤ config.prefillPerActiveSequenceUs ∧ 0 ≤ config.decodeBaseUs ∧
      0 ≤ config.decodePerActiveSequenceUs ∧ 0 ≤ config.batchBaseUs ∧
      0 ≤ config.batchPrefillPerTokenUs ∧ 0 ≤ config.batchDecodePerSequenceUs ∧
      0 ≤ config.batchActiveSequenceOverheadUs)
    ⟨fun ⟨a, b, c, d, e, f, g, h, i⟩ => ⟨a, b, c, d, e, f, g, h, i⟩,
      fun ⟨a, b, c, d, e, f, g, h, i⟩ => ⟨a, b, c, d, e, f, g, h, i⟩⟩

structure SimulatedBackend where
  config : SimulatedBackendConfig
  valid : config.Valid

namespace SimulatedBackend

/-- The constructor. -/
def create (config : SimulatedBackendConfig) : Except Exn SimulatedBackend :=
  if valid : config.Valid then .ok ⟨config, valid⟩
  else .error (.invalidArgument "simulated backend costs must be non-negative")

/-- `estimate_batch_time_us`. -/
def estimateBatchTimeUs (backend : SimulatedBackend)
    (totalPrefillTokens decodeSequenceCount totalScheduledSequences : Nat) : Except Exn Int := do
  throwIf (totalScheduledSequences = 0)
    (.invalidArgument "mixed batch must schedule a sequence")
  throwIf (decodeSequenceCount > totalScheduledSequences)
    (.invalidArgument "decode sequence count exceeds scheduled sequence count")
  let prefill ← checkedCount totalPrefillTokens "batch prefill token count overflow"
  let decode ← checkedCount decodeSequenceCount "batch decode sequence count overflow"
  let sequences ← checkedCount totalScheduledSequences "batch sequence count overflow"
  let prefillCost ← checkedMultiply backend.config.batchPrefillPerTokenUs prefill
  let decodeCost ← checkedMultiply backend.config.batchDecodePerSequenceUs decode
  let sequenceCost ← checkedMultiply backend.config.batchActiveSequenceOverheadUs sequences
  let withPrefill ← checkedAdd backend.config.batchBaseUs prefillCost
  let withDecode ← checkedAdd withPrefill decodeCost
  checkedAdd withDecode sequenceCost

/-- `estimate_prefill_us`. -/
def estimatePrefillUs (backend : SimulatedBackend) (promptTokenCount activeBatchSize : Nat) :
    Except Exn Int := do
  throwIf (activeBatchSize = 0)
    (.invalidArgument "active prefill batch size must be positive")
  let tokens ← checkedCount promptTokenCount "prompt count overflow"
  let active ← checkedCount activeBatchSize "batch size overflow"
  let tokenCost ← checkedMultiply backend.config.prefillPerTokenUs tokens
  let batchCost ← checkedMultiply backend.config.prefillPerActiveSequenceUs active
  let withTokens ← checkedAdd backend.config.prefillBaseUs tokenCost
  checkedAdd withTokens batchCost

/-- `estimate_decode_step_us`. -/
def estimateDecodeStepUs (backend : SimulatedBackend) (activeSequenceCount : Nat) :
    Except Exn Int := do
  throwIf (activeSequenceCount = 0)
    (.invalidArgument "active decode sequence count must be positive")
  let active ← checkedCount activeSequenceCount "active sequence count overflow"
  let activeCost ← checkedMultiply backend.config.decodePerActiveSequenceUs active
  checkedAdd backend.config.decodeBaseUs activeCost

/-- A simulated backend as a `Backend`. -/
def toBackend (backend : SimulatedBackend) : Backend :=
  ⟨backend.estimatePrefillUs, backend.estimateDecodeStepUs⟩

variable {backend : SimulatedBackend}

/-- The batch estimate is the linear cost, unless it overflows. -/
theorem estimateBatchTimeUs_ensures {prefill decode scheduled : Nat} (some' : 0 < scheduled)
    (within : decode ≤ scheduled) :
    Ensures Exn.IsOverflow (fun cost => 0 ≤ cost ∧ cost = backend.config.batchBaseUs +
        backend.config.batchPrefillPerTokenUs * prefill +
        backend.config.batchDecodePerSequenceUs * decode +
        backend.config.batchActiveSequenceOverheadUs * scheduled)
      (backend.estimateBatchTimeUs prefill decode scheduled) := by
  unfold estimateBatchTimeUs
  rw [throwIf_of_not (Nat.ne_of_gt some'), except_ok_bind, throwIf_of_not (not_lt.mpr within),
    except_ok_bind]
  refine (checkedCount_ensures _ _).bind fun _ prefill_eq => ?_
  refine (checkedCount_ensures _ _).bind fun _ decode_eq => ?_
  refine (checkedCount_ensures _ _).bind fun _ scheduled_eq => ?_
  subst prefill_eq decode_eq scheduled_eq
  refine (checkedMultiply_ensures _ _).bind fun _ prefillCost => ?_
  refine (checkedMultiply_ensures _ _).bind fun _ decodeCost => ?_
  refine (checkedMultiply_ensures _ _).bind fun _ sequenceCost => ?_
  subst prefillCost decodeCost sequenceCost
  refine (checkedAdd_ensures _ _).bind fun _ withPrefill => ?_
  refine (checkedAdd_ensures _ _).bind fun _ withDecode => ?_
  subst withPrefill withDecode
  refine (checkedAdd_ensures _ _).mono fun cost total => ⟨?_, total⟩
  have base := backend.valid.batchBase
  have perToken := mul_nonneg backend.valid.batchPrefillPerToken (Int.natCast_nonneg prefill)
  have perDecode := mul_nonneg backend.valid.batchDecodePerSequence (Int.natCast_nonneg decode)
  have perActive :=
    mul_nonneg backend.valid.batchActiveSequenceOverhead (Int.natCast_nonneg scheduled)
  omega

/-- The prefill estimate is the linear cost, unless it overflows. -/
theorem estimatePrefillUs_ensures {tokens active : Nat} (some' : 0 < active) :
    Ensures Exn.IsOverflow (fun cost => 0 ≤ cost ∧ cost = backend.config.prefillBaseUs +
        backend.config.prefillPerTokenUs * tokens +
        backend.config.prefillPerActiveSequenceUs * active)
      (backend.estimatePrefillUs tokens active) := by
  unfold estimatePrefillUs
  rw [throwIf_of_not (Nat.ne_of_gt some'), except_ok_bind]
  refine (checkedCount_ensures _ _).bind fun _ tokens_eq => ?_
  refine (checkedCount_ensures _ _).bind fun _ active_eq => ?_
  subst tokens_eq active_eq
  refine (checkedMultiply_ensures _ _).bind fun _ tokenCost => ?_
  refine (checkedMultiply_ensures _ _).bind fun _ batchCost => ?_
  subst tokenCost batchCost
  refine (checkedAdd_ensures _ _).bind fun _ withTokens => ?_
  subst withTokens
  refine (checkedAdd_ensures _ _).mono fun cost total => ⟨?_, total⟩
  have base := backend.valid.prefillBase
  have perToken := mul_nonneg backend.valid.prefillPerToken (Int.natCast_nonneg tokens)
  have perActive := mul_nonneg backend.valid.prefillPerActiveSequence (Int.natCast_nonneg active)
  omega

theorem estimateDecodeStepUs_ensures {active : Nat} (some' : 0 < active) :
    Ensures Exn.IsOverflow (fun cost => 0 ≤ cost ∧ cost = backend.config.decodeBaseUs +
        backend.config.decodePerActiveSequenceUs * active)
      (backend.estimateDecodeStepUs active) := by
  unfold estimateDecodeStepUs
  rw [throwIf_of_not (Nat.ne_of_gt some'), except_ok_bind]
  refine (checkedCount_ensures _ _).bind fun _ active_eq => ?_
  subst active_eq
  refine (checkedMultiply_ensures _ _).bind fun _ activeCost => ?_
  subst activeCost
  refine (checkedAdd_ensures _ _).mono fun cost total => ⟨?_, total⟩
  have base := backend.valid.decodeBase
  have perActive := mul_nonneg backend.valid.decodePerActiveSequence (Int.natCast_nonneg active)
  omega

/-- The repository's backend is lawful. -/
theorem lawful (backend : SimulatedBackend) : backend.toBackend.Lawful where
  prefill _ _ some' := (estimatePrefillUs_ensures some').mono fun _ => And.left
  decode _ some' := (estimateDecodeStepUs_ensures some').mono fun _ => And.left

end SimulatedBackend

end LlmLab.Serving
