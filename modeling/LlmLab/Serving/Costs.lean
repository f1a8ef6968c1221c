import LlmLab.Lib.Signed
import LlmLab.Serving.Backend

/-!
# Exact costs

The signed helpers of `simulated_backend.cpp` are exact: they give the sum or the product
wherever the type holds it and throw everywhere else, and no subexpression they evaluate on the
way is undefined.  The cost estimates are built from them, so that an estimate throws only where
a count or the exact total is out of range.
-/

namespace LlmLab.Serving

open LlmLab.Signed

/-! ## The helpers, expression by expression -/

/-- `checked_add`, with every subexpression evaluated in its 64-bit type and nothing evaluated
past a `&&` or a `||` that is decided; `none` is undefined behaviour. -/
def evaluatedAdd (lhs rhs : Int) : Option (Except Exn Int) :=
  (orElse
      (andAlso (rhs > 0) ((sub 63 int64Max rhs).map fun room => lhs > room))
      (andAlso (rhs < 0) ((sub 63 int64Min rhs).map fun room => lhs < room))).bind fun overflows =>
    if overflows then some (.error (.overflowError "signed 64-bit addition overflow"))
    else (Signed.add 63 lhs rhs).map .ok

/-- `checked_multiply`, evaluated likewise. -/
def evaluatedMultiply (lhs rhs : Int) : Option (Except Exn Int) :=
  if lhs = 0 ∨ rhs = 0 then some (.ok 0)
  else if (lhs = -1 ∧ rhs = int64Min) ∨ (rhs = -1 ∧ lhs = int64Min) then
    some (.error (.overflowError "signed 64-bit multiplication overflow"))
  else
    (if lhs > 0 then
      orElse
        (andAlso (rhs > 0) ((div 63 int64Max rhs).map fun limit => lhs > limit))
        (andAlso (rhs < 0) ((div 63 int64Min lhs).map fun limit => rhs < limit))
    else
      orElse
        (andAlso (rhs > 0) ((div 63 int64Min rhs).map fun limit => lhs < limit))
        (andAlso (rhs < 0) ((div 63 int64Max rhs).map fun limit => lhs < limit))).bind
      fun overflows =>
        if overflows then some (.error (.overflowError "signed 64-bit multiplication overflow"))
        else (mul 63 lhs rhs).map .ok

/-- The exact result where `int64_t` holds it, and the exception elsewhere. -/
def exactly (value : Int) (message : String) : Except Exn Int :=
  if int64Min ≤ value ∧ value ≤ int64Max then .ok value else .error (.overflowError message)

variable {lhs rhs : Int} {message : String}

theorem exactly_of_fits {value : Int} (fits : Fits 63 value) : exactly value message = .ok value :=
  if_pos fits

theorem exactly_of_not_fits {value : Int} (out : ¬ Fits 63 value) :
    exactly value message = .error (.overflowError message) := if_neg out

/-- The exact result as the helpers give it: after a guard that holds exactly where the result
is out of range. -/
theorem exactly_of_guard {guard : Prop} [Decidable guard] {value : Int}
    (correct : guard ↔ ¬ Fits 63 value) :
    (if decide guard = true then some (.error (.overflowError message))
      else (defined 63 value).map Except.ok) = some (exactly value message) := by
  split
  next overflows =>
    rw [exactly_of_not_fits (correct.mp (of_decide_eq_true overflows))]
  next passes =>
    have fits : Fits 63 value := by
      by_contra out
      exact passes (decide_eq_true (correct.mpr out))
    rw [defined_of_fits fits, exactly_of_fits fits, Option.map_some]

theorem fits_int64Max : Fits 63 int64Max := by decide

theorem fits_int64Min : Fits 63 int64Min := by decide

/-- The addition guards hold exactly where the sum is out of range. -/
theorem add_guard_iff (lhs_fits : Fits 63 lhs) :
    (rhs > 0 ∧ lhs > int64Max - rhs) ∨ (rhs < 0 ∧ lhs < int64Min - rhs) ↔
      ¬ Fits 63 (lhs + rhs) := by
  unfold Fits int64Max int64Min at *
  omega

theorem evaluatedAdd_eq (lhs_fits : Fits 63 lhs) (rhs_fits : Fits 63 rhs) :
    evaluatedAdd lhs rhs = some (exactly (lhs + rhs) "signed 64-bit addition overflow") := by
  have above : rhs > 0 → sub 63 int64Max rhs = some (int64Max - rhs) := fun pos =>
    defined_of_fits (by unfold Fits int64Max at *; omega)
  have below : rhs < 0 → sub 63 int64Min rhs = some (int64Min - rhs) := fun neg =>
    defined_of_fits (by unfold Fits int64Min at *; omega)
  unfold evaluatedAdd
  rw [andAlso_map above, andAlso_map below, orElse_some, Option.bind_some]
  exact exactly_of_guard (add_guard_iff lhs_fits)

/-- With a positive left factor, the guards hold exactly where the product is out of range. -/
theorem multiply_guard_pos_iff (pos : 0 < lhs) (rhs_ne : rhs ≠ 0) :
    (rhs > 0 ∧ lhs > int64Max.tdiv rhs) ∨ (rhs < 0 ∧ rhs < int64Min.tdiv lhs) ↔
      ¬ Fits 63 (lhs * rhs) := by
  rcases lt_or_gt_of_ne rhs_ne with rhs_neg | rhs_pos
  · have negative : lhs * rhs < 0 := mul_neg_of_pos_of_neg pos rhs_neg
    have guard : rhs < int64Min.tdiv lhs ↔ lhs * rhs < int64Min := by
      rw [Int.mul_comm]
      exact lt_neg_tdiv_iff (by decide) pos
    unfold Fits int64Max int64Min at *
    omega
  · have positive : 0 < lhs * rhs := mul_pos pos rhs_pos
    have guard : lhs > int64Max.tdiv rhs ↔ int64Max < lhs * rhs :=
      tdiv_lt_iff (by decide) rhs_pos
    unfold Fits int64Max int64Min at *
    omega

/-- With a negative left factor, likewise. -/
theorem multiply_guard_neg_iff (neg : lhs < 0) (rhs_ne : rhs ≠ 0) :
    (rhs > 0 ∧ lhs < int64Min.tdiv rhs) ∨ (rhs < 0 ∧ lhs < int64Max.tdiv rhs) ↔
      ¬ Fits 63 (lhs * rhs) := by
  rcases lt_or_gt_of_ne rhs_ne with rhs_neg | rhs_pos
  · have positive : 0 < lhs * rhs := mul_pos_of_neg_of_neg neg rhs_neg
    have guard : lhs < int64Max.tdiv rhs ↔ int64Max < lhs * rhs :=
      lt_tdiv_of_neg_iff (by decide) rhs_neg
    unfold Fits int64Max int64Min at *
    omega
  · have negative : lhs * rhs < 0 := mul_neg_of_neg_of_pos neg rhs_pos
    have guard : lhs < int64Min.tdiv rhs ↔ lhs * rhs < int64Min :=
      lt_neg_tdiv_iff (by decide) rhs_pos
    unfold Fits int64Max int64Min at *
    omega

/-- Every factor that gets as far may divide a limit, and no `-1` divides `INT64_MIN`. -/
theorem div_int64Max (rhs_ne : rhs ≠ 0) : div 63 int64Max rhs = some (int64Max.tdiv rhs) :=
  div_of_ne rhs_ne fits_int64Max fun ⟨least, _⟩ => absurd least (by decide)

theorem div_int64Min (pos : rhs > 0) : div 63 int64Min rhs = some (int64Min.tdiv rhs) :=
  div_of_ne (Int.ne_of_gt pos) fits_int64Min fun ⟨_, minus⟩ => by omega

/-- The guards of the multiplication are defined, and decide overflow exactly. -/
theorem evaluatedMultiply_eq :
    evaluatedMultiply lhs rhs =
      some (exactly (lhs * rhs) "signed 64-bit multiplication overflow") := by
  unfold evaluatedMultiply
  split
  next zero =>
    have product : lhs * rhs = 0 := mul_eq_zero.mpr zero
    rw [product, exactly_of_fits (by decide)]
  next nonzero =>
    obtain ⟨lhs_ne, rhs_ne⟩ := not_or.mp nonzero
    split
    next corner =>
      have out : ¬ Fits 63 (lhs * rhs) := by
        rcases corner with ⟨rfl, rfl⟩ | ⟨rfl, rfl⟩ <;> decide
      rw [exactly_of_not_fits out]
    next =>
      split
      next pos =>
        rw [andAlso_map fun _ => div_int64Max rhs_ne, andAlso_map fun _ => div_int64Min pos,
          orElse_some, Option.bind_some]
        exact exactly_of_guard (multiply_guard_pos_iff pos rhs_ne)
      next not_pos =>
        have neg : lhs < 0 := by omega
        rw [andAlso_map div_int64Min, andAlso_map fun _ => div_int64Max rhs_ne,
          orElse_some, Option.bind_some]
        exact exactly_of_guard (multiply_guard_neg_iff neg rhs_ne)

/-- A checked result is the exact one where its guard holds on the results out of range. -/
theorem checked_eq_exactly {guard : Prop} [Decidable guard] {value : Int}
    (correct : guard ↔ ¬ Fits 63 value) :
    (if guard then .error (.overflowError message) else .ok value) = exactly value message := by
  split
  next overflows => rw [exactly_of_not_fits (correct.mp overflows)]
  next passes =>
    have fits : Fits 63 value := by
      by_contra out
      exact passes (correct.mpr out)
    rw [exactly_of_fits fits]

theorem checkedAdd_eq (lhs_fits : Fits 63 lhs) :
    checkedAdd lhs rhs = exactly (lhs + rhs) "signed 64-bit addition overflow" :=
  checked_eq_exactly (add_guard_iff lhs_fits)

/-- The checked product is the exact one, or an overflow. -/
theorem checkedMultiply_eq :
    checkedMultiply lhs rhs = exactly (lhs * rhs) "signed 64-bit multiplication overflow" := by
  unfold checkedMultiply
  split
  next zero =>
    have product : lhs * rhs = 0 := mul_eq_zero.mpr zero
    rw [product, exactly_of_fits (by decide)]
  next nonzero =>
    obtain ⟨lhs_ne, rhs_ne⟩ := not_or.mp nonzero
    split
    next corner =>
      have out : ¬ Fits 63 (lhs * rhs) := by
        rcases corner with ⟨rfl, rfl⟩ | ⟨rfl, rfl⟩ <;> decide
      rw [exactly_of_not_fits out]
    next =>
      split
      next pos => exact checked_eq_exactly (multiply_guard_pos_iff pos rhs_ne)
      next not_pos => exact checked_eq_exactly (multiply_guard_neg_iff (by omega) rhs_ne)

theorem fits_toInt (value : Int64) : Fits 63 value.toInt :=
  ⟨value.le_toInt, Int.le_sub_one_of_lt value.toInt_lt⟩

/-- Over all of `int64_t`, `checked_add` and `checked_multiply` give the exact result where the
type holds it and throw elsewhere, and evaluate nothing undefined on the way. -/
theorem checked_helpers_exact (lhs rhs : Int64) :
    (evaluatedAdd lhs.toInt rhs.toInt = some (checkedAdd lhs.toInt rhs.toInt) ∧
      checkedAdd lhs.toInt rhs.toInt =
        exactly (lhs.toInt + rhs.toInt) "signed 64-bit addition overflow") ∧
    (evaluatedMultiply lhs.toInt rhs.toInt = some (checkedMultiply lhs.toInt rhs.toInt) ∧
      checkedMultiply lhs.toInt rhs.toInt =
        exactly (lhs.toInt * rhs.toInt) "signed 64-bit multiplication overflow") := by
  have sum := @checkedAdd_eq lhs.toInt rhs.toInt (fits_toInt lhs)
  have product := @checkedMultiply_eq lhs.toInt rhs.toInt
  have sumEvaluated := evaluatedAdd_eq (fits_toInt lhs) (fits_toInt rhs)
  have productEvaluated := @evaluatedMultiply_eq lhs.toInt rhs.toInt
  exact ⟨⟨by rw [sumEvaluated, sum], sum⟩, ⟨by rw [productEvaluated, product], product⟩⟩

/-! ## Estimates -/

/-- An action that gives the exact `total` wherever the inputs are `representable` and throws an
overflow everywhere else. -/
def Exact (representable : Prop) (total : Int) (action : Except Exn Int) : Prop :=
  (representable → action = .ok total) ∧
    (¬ representable → ∃ what, action = .error (.overflowError what))

variable {p q : Prop} {total part : Int} {action : Except Exn Int} {next : Int → Except Exn Int}

theorem exact_exactly : Exact (Fits 63 total) total (exactly total message) :=
  ⟨exactly_of_fits, fun out => ⟨message, exactly_of_not_fits out⟩⟩

/-- One exact action after another: the second one only has to be exact where the first one
passes. -/
theorem Exact.bind (first : Exact p part action) (second : p → Exact q total (next part)) :
    Exact (p ∧ q) total (action >>= next) := by
  constructor
  · rintro ⟨first_holds, second_holds⟩
    rw [first.1 first_holds]
    exact (second first_holds).1 second_holds
  · intro fails
    by_cases first_holds : p
    · rw [first.1 first_holds]
      exact (second first_holds).2 fun second_holds => fails ⟨first_holds, second_holds⟩
    · obtain ⟨what, throws⟩ := first.2 first_holds
      exact ⟨what, by rw [throws]; rfl⟩

theorem Exact.congr (exact : Exact p total action) (same : p ↔ q) : Exact q total action :=
  ⟨fun holds => exact.1 (same.mpr holds), fun fails => exact.2 fun holds => fails (same.mp holds)⟩

theorem exact_checkedCount (value : Nat) (description : String) :
    Exact (value ≤ int64Max) value (checkedCount value description) := by
  unfold checkedCount
  constructor
  · intro within
    rw [if_neg (not_lt.mpr within)]
  · intro out
    exact ⟨description, if_pos (not_le.mp out)⟩

theorem exact_checkedMultiply : Exact (Fits 63 (lhs * rhs)) (lhs * rhs) (checkedMultiply lhs rhs) := by
  rw [checkedMultiply_eq]
  exact exact_exactly

theorem exact_checkedAdd (fits : Fits 63 lhs) :
    Exact (Fits 63 (lhs + rhs)) (lhs + rhs) (checkedAdd lhs rhs) := by
  rw [checkedAdd_eq fits]
  exact exact_exactly

/-- Every cost is an `int64_t`. -/
structure SimulatedBackendConfig.Represented (config : SimulatedBackendConfig) : Prop where
  prefillBase : config.prefillBaseUs ≤ int64Max
  prefillPerToken : config.prefillPerTokenUs ≤ int64Max
  prefillPerActiveSequence : config.prefillPerActiveSequenceUs ≤ int64Max
  decodeBase : config.decodeBaseUs ≤ int64Max
  decodePerActiveSequence : config.decodePerActiveSequenceUs ≤ int64Max
  batchBase : config.batchBaseUs ≤ int64Max
  batchPrefillPerToken : config.batchPrefillPerTokenUs ≤ int64Max
  batchDecodePerSequence : config.batchDecodePerSequenceUs ≤ int64Max
  batchActiveSequenceOverhead : config.batchActiveSequenceOverheadUs ≤ int64Max

namespace SimulatedBackendConfig

variable (config : SimulatedBackendConfig)

/-- What a prefill costs. -/
def prefillUs (tokens active : Nat) : Int :=
  config.prefillBaseUs + config.prefillPerTokenUs * tokens +
    config.prefillPerActiveSequenceUs * active

/-- What a decode step costs. -/
def decodeStepUs (active : Nat) : Int :=
  config.decodeBaseUs + config.decodePerActiveSequenceUs * active

/-- What a mixed batch costs. -/
def batchTimeUs (prefill decode scheduled : Nat) : Int :=
  config.batchBaseUs + config.batchPrefillPerTokenUs * prefill +
    config.batchDecodePerSequenceUs * decode + config.batchActiveSequenceOverheadUs * scheduled

end SimulatedBackendConfig

theorem fits_of_nonneg {value : Int} (nonneg : 0 ≤ value) : Fits 63 value ↔ value ≤ int64Max := by
  unfold Fits int64Max
  omega

namespace SimulatedBackend

variable {backend : SimulatedBackend} {tokens prefill decode active scheduled : Nat}

theorem create_of_valid {config : SimulatedBackendConfig} (valid : config.Valid) :
    create config = .ok ⟨config, valid⟩ := dif_pos valid

theorem config_of_create {config : SimulatedBackendConfig}
    (accepted : create config = .ok backend) : backend.config = config := by
  unfold create at accepted
  split at accepted
  next valid =>
    cases accepted
    rfl
  next => cases accepted

/-- The prefill estimate is exact when its counts and its value fit, and else overflows. -/
theorem estimatePrefillUs_exact (represented : backend.config.Represented) (some' : 0 < active) :
    Exact (tokens ≤ int64Max ∧ active ≤ int64Max ∧
        backend.config.prefillUs tokens active ≤ int64Max)
      (backend.config.prefillUs tokens active) (backend.estimatePrefillUs tokens active) := by
  have base := backend.valid.prefillBase
  have perToken := mul_nonneg backend.valid.prefillPerToken (Int.natCast_nonneg tokens)
  have perActive := mul_nonneg backend.valid.prefillPerActiveSequence (Int.natCast_nonneg active)
  have base_fits := (fits_of_nonneg base).mpr represented.prefillBase
  unfold estimatePrefillUs
  rw [throwIf_of_not (Nat.ne_of_gt some'), except_ok_bind]
  refine Exact.congr
    ((exact_checkedCount tokens _).bind fun _ =>
      (exact_checkedCount active _).bind fun _ =>
      exact_checkedMultiply.bind fun _ =>
      exact_checkedMultiply.bind fun _ =>
      (exact_checkedAdd base_fits).bind fun sum_fits =>
      exact_checkedAdd sum_fits) ?_
  unfold SimulatedBackendConfig.prefillUs Fits int64Max
  omega

theorem estimateDecodeStepUs_exact (represented : backend.config.Represented)
    (some' : 0 < active) :
    Exact (active ≤ int64Max ∧ backend.config.decodeStepUs active ≤ int64Max)
      (backend.config.decodeStepUs active) (backend.estimateDecodeStepUs active) := by
  have base := backend.valid.decodeBase
  have perActive := mul_nonneg backend.valid.decodePerActiveSequence (Int.natCast_nonneg active)
  have base_fits := (fits_of_nonneg base).mpr represented.decodeBase
  unfold estimateDecodeStepUs
  rw [throwIf_of_not (Nat.ne_of_gt some'), except_ok_bind]
  refine Exact.congr
    ((exact_checkedCount active _).bind fun _ =>
      exact_checkedMultiply.bind fun _ =>
      exact_checkedAdd base_fits) ?_
  unfold SimulatedBackendConfig.decodeStepUs Fits int64Max
  omega

/-- The batch estimate is exact when its counts and its value fit, and else overflows. -/
theorem estimateBatchTimeUs_exact (represented : backend.config.Represented)
    (some' : 0 < scheduled) (within : decode ≤ scheduled) :
    Exact (prefill ≤ int64Max ∧ decode ≤ int64Max ∧ scheduled ≤ int64Max ∧
        backend.config.batchTimeUs prefill decode scheduled ≤ int64Max)
      (backend.config.batchTimeUs prefill decode scheduled)
      (backend.estimateBatchTimeUs prefill decode scheduled) := by
  have base := backend.valid.batchBase
  have perToken := mul_nonneg backend.valid.batchPrefillPerToken (Int.natCast_nonneg prefill)
  have perDecode := mul_nonneg backend.valid.batchDecodePerSequence (Int.natCast_nonneg decode)
  have perActive :=
    mul_nonneg backend.valid.batchActiveSequenceOverhead (Int.natCast_nonneg scheduled)
  have base_fits := (fits_of_nonneg base).mpr represented.batchBase
  unfold estimateBatchTimeUs
  rw [throwIf_of_not (Nat.ne_of_gt some'), except_ok_bind, throwIf_of_not (not_lt.mpr within),
    except_ok_bind]
  refine Exact.congr
    ((exact_checkedCount prefill _).bind fun _ =>
      (exact_checkedCount decode _).bind fun _ =>
      (exact_checkedCount scheduled _).bind fun _ =>
      exact_checkedMultiply.bind fun _ =>
      exact_checkedMultiply.bind fun _ =>
      exact_checkedMultiply.bind fun _ =>
      (exact_checkedAdd base_fits).bind fun sum_fits =>
      (exact_checkedAdd sum_fits).bind fun total_fits =>
      exact_checkedAdd total_fits) ?_
  unfold SimulatedBackendConfig.batchTimeUs Fits int64Max
  omega

/-! ### Larger batches cost no less -/

variable {tokens' prefill' decode' active' scheduled' : Nat} {cost cost' : Int}

theorem prefillUs_mono (more : tokens ≤ tokens') (larger : active ≤ active') :
    backend.config.prefillUs tokens active ≤ backend.config.prefillUs tokens' active' := by
  have perToken :=
    mul_le_mul_of_nonneg_left (Int.ofNat_le.mpr more) backend.valid.prefillPerToken
  have perActive :=
    mul_le_mul_of_nonneg_left (Int.ofNat_le.mpr larger) backend.valid.prefillPerActiveSequence
  unfold SimulatedBackendConfig.prefillUs
  omega

theorem decodeStepUs_mono (larger : active ≤ active') :
    backend.config.decodeStepUs active ≤ backend.config.decodeStepUs active' := by
  have perActive :=
    mul_le_mul_of_nonneg_left (Int.ofNat_le.mpr larger) backend.valid.decodePerActiveSequence
  unfold SimulatedBackendConfig.decodeStepUs
  omega

theorem batchTimeUs_mono (more : prefill ≤ prefill') (decoding : decode ≤ decode')
    (larger : scheduled ≤ scheduled') :
    backend.config.batchTimeUs prefill decode scheduled ≤
      backend.config.batchTimeUs prefill' decode' scheduled' := by
  have perToken :=
    mul_le_mul_of_nonneg_left (Int.ofNat_le.mpr more) backend.valid.batchPrefillPerToken
  have perDecode :=
    mul_le_mul_of_nonneg_left (Int.ofNat_le.mpr decoding) backend.valid.batchDecodePerSequence
  have perActive := mul_le_mul_of_nonneg_left (Int.ofNat_le.mpr larger)
    backend.valid.batchActiveSequenceOverhead
  unfold SimulatedBackendConfig.batchTimeUs
  omega

/-- A prefill estimate is the exact cost of a batch that is not empty. -/
theorem estimatePrefillUs_of_ok (given : backend.estimatePrefillUs tokens active = .ok cost) :
    cost = backend.config.prefillUs tokens active := by
  rcases Nat.eq_zero_or_pos active with rfl | some'
  · cases given
  · exact ((estimatePrefillUs_ensures some').of_eq_ok given).2

theorem estimateDecodeStepUs_of_ok (given : backend.estimateDecodeStepUs active = .ok cost) :
    cost = backend.config.decodeStepUs active := by
  rcases Nat.eq_zero_or_pos active with rfl | some'
  · cases given
  · exact ((estimateDecodeStepUs_ensures some').of_eq_ok given).2

theorem estimateBatchTimeUs_of_ok
    (given : backend.estimateBatchTimeUs prefill decode scheduled = .ok cost) :
    cost = backend.config.batchTimeUs prefill decode scheduled := by
  have guards := given
  unfold estimateBatchTimeUs at guards
  obtain ⟨_, nonempty, guards⟩ := except_bind_eq_ok.mp guards
  obtain ⟨_, within, _⟩ := except_bind_eq_ok.mp guards
  have some' := Nat.pos_of_ne_zero (throwIf_eq_ok.mp nonempty)
  have fewer := not_lt.mp (throwIf_eq_ok.mp within)
  exact ((estimateBatchTimeUs_ensures some' fewer).of_eq_ok given).2

/-- The cost model is exact: for every configuration the constructor accepts, an estimate is the
exact cost where the counts and that cost are within `int64_t` and an overflow elsewhere, and no
larger batch costs less. -/
theorem estimates_exact {config : SimulatedBackendConfig} {backend : SimulatedBackend}
    (accepted : create config = .ok backend) (represented : config.Represented) :
    (∀ tokens active : Nat, 0 < active →
      Exact (tokens ≤ int64Max ∧ active ≤ int64Max ∧ config.prefillUs tokens active ≤ int64Max)
        (config.prefillUs tokens active) (backend.estimatePrefillUs tokens active)) ∧
    (∀ active : Nat, 0 < active →
      Exact (active ≤ int64Max ∧ config.decodeStepUs active ≤ int64Max)
        (config.decodeStepUs active) (backend.estimateDecodeStepUs active)) ∧
    (∀ prefill decode scheduled : Nat, 0 < scheduled → decode ≤ scheduled →
      Exact (prefill ≤ int64Max ∧ decode ≤ int64Max ∧ scheduled ≤ int64Max ∧
          config.batchTimeUs prefill decode scheduled ≤ int64Max)
        (config.batchTimeUs prefill decode scheduled)
        (backend.estimateBatchTimeUs prefill decode scheduled)) ∧
    (∀ tokens tokens' active active' cost cost', tokens ≤ tokens' → active ≤ active' →
      backend.estimatePrefillUs tokens active = .ok cost →
      backend.estimatePrefillUs tokens' active' = .ok cost' → cost ≤ cost') ∧
    (∀ active active' cost cost', active ≤ active' →
      backend.estimateDecodeStepUs active = .ok cost →
      backend.estimateDecodeStepUs active' = .ok cost' → cost ≤ cost') ∧
    (∀ prefill prefill' decode decode' scheduled scheduled' cost cost',
      prefill ≤ prefill' → decode ≤ decode' → scheduled ≤ scheduled' →
      backend.estimateBatchTimeUs prefill decode scheduled = .ok cost →
      backend.estimateBatchTimeUs prefill' decode' scheduled' = .ok cost' → cost ≤ cost') := by
  obtain rfl : backend.config = config := config_of_create accepted
  refine ⟨?prefill, ?decode, ?batch, ?prefill_mono, ?decode_mono, ?batch_mono⟩
  case prefill =>
    intro tokens active some'
    exact estimatePrefillUs_exact represented some'
  case decode =>
    intro active some'
    exact estimateDecodeStepUs_exact represented some'
  case batch =>
    intro prefill decode scheduled some' within
    exact estimateBatchTimeUs_exact represented some' within
  case prefill_mono =>
    intro tokens tokens' active active' cost cost' more larger given given'
    rw [estimatePrefillUs_of_ok given, estimatePrefillUs_of_ok given']
    exact prefillUs_mono more larger
  case decode_mono =>
    intro active active' cost cost' larger given given'
    rw [estimateDecodeStepUs_of_ok given, estimateDecodeStepUs_of_ok given']
    exact decodeStepUs_mono larger
  case batch_mono =>
    intro prefill prefill' decode decode' scheduled scheduled' cost cost' more decoding larger
      given given'
    rw [estimateBatchTimeUs_of_ok given, estimateBatchTimeUs_of_ok given']
    exact batchTimeUs_mono more decoding larger

/-- A backend whose second prompt token already costs too much. -/
def steep : SimulatedBackendConfig := { prefillBaseUs := 1, prefillPerTokenUs := int64Max }

theorem estimates_exact_steep :
    ∃ what, (SimulatedBackend.mk steep (by decide)).estimatePrefillUs 2 1 =
      .error (.overflowError what) :=
  ((estimates_exact (create_of_valid (by decide))
    ⟨by decide, by decide, by decide, by decide, by decide, by decide, by decide, by decide,
      by decide⟩).1 2 1 (by decide)).2 (by decide)

end SimulatedBackend

end LlmLab.Serving
