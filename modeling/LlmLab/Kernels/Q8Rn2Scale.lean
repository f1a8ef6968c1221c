import LlmLab.Lib.Avx2
import Mathlib.Algebra.Order.BigOperators.Group.Finset

/-!
# The integer core of the Q8_0 tile kernel

`dot8` of `q8_rn2_scale.cpp`, up to the conversion of its sums to floats, and the scalar product
of `tile_reference`.  The kernel moves the signs of one operand onto the other, and `-128` has no
negative: a place with a negative left byte and `-128` on the right counts with the wrong sign.
No lane saturates anywhere.
-/

namespace LlmLab.Kernels

open LlmLab.Avx2 LlmLab.Lanes LlmLab.Signed

/-- `block_q8_0`, without its scale. -/
structure BlockQ80 where
  qs : Fin 32 → BitVec 8

namespace BlockQ80

/-- `dot8`, before its conversion to floats. -/
def dot8 (a b : BlockQ80) : Computed M256i := do
  let av := mm256LoaduSi256 a.qs 0 (by decide)
  let bv := mm256LoaduSi256 b.qs 0 (by decide)
  let absA := mm256SignEpi8 av av
  let signedB := mm256SignEpi8 bv av
  let pairs ← mm256MaddubsEpi16 absA signedB
  mm256MaddEpi16 pairs (mm256Set1Epi16 1)

/-- The `dot` of `tile_reference`. -/
def dot (a b : BlockQ80) : Int :=
  (List.finRange 32).foldl (fun dot q => dot + (a.qs q).toInt * (b.qs q).toInt) 0

variable (a b : BlockQ80)

/-- A place where the sign of the left byte cannot be moved to the right one. -/
def Unnegatable (q : Fin 32) : Prop := (a.qs q).toInt < 0 ∧ (b.qs q).toInt = -128

instance : DecidablePred (Unnegatable a b) := fun _ => inferInstanceAs (Decidable (_ ∧ _))

/-- What a place adds to the sums of `dot8`. -/
def contribution (q : Fin 32) : Int :=
  (mm256SignEpi8 a.qs a.qs q).toNat * (mm256SignEpi8 b.qs a.qs q).toInt

/-- A place adds its product, but where the sign cannot be moved. -/
theorem contribution_eq (q : Fin 32) :
    contribution a b q = (a.qs q).toInt * (b.qs q).toInt +
      if Unnegatable a b q then 256 * (a.qs q).toInt else 0 := by
  rw [contribution, toNat_sign_self, toInt_sign]
  split
  next stuck =>
    obtain ⟨negative, least⟩ := stuck
    rw [if_pos ⟨negative, least⟩, abs_of_neg negative, least]
    omega
  next movable =>
    rw [if_neg (show ¬ Unnegatable a b q from movable), ← mul_assoc, mul_comm |_|,
      Int.sign_mul_abs, add_zero]

theorem contribution_bounds (q : Fin 32) :
    -16384 ≤ contribution a b q ∧ contribution a b q ≤ 16256 := by
  obtain ⟨least, greatest⟩ := @fits_toInt 7 (mm256SignEpi8 b.qs a.qs q)
  have magnitude : ((mm256SignEpi8 a.qs a.qs q).toNat : Int) ≤ 128 := by
    rw [toNat_sign_self]
    exact @abs_toInt_le 7 _
  have below := mul_le_mul_of_nonneg_left least
    (Int.natCast_nonneg (mm256SignEpi8 a.qs a.qs q).toNat)
  have above := mul_le_mul_of_nonneg_left greatest
    (Int.natCast_nonneg (mm256SignEpi8 a.qs a.qs q).toNat)
  unfold contribution
  omega

/-- No word of products saturates: at worst two products add up to `-32768`. -/
theorem dotBytes_eq (i : Fin 16) :
    dotBytes (mm256SignEpi8 a.qs a.qs) (mm256SignEpi8 b.qs a.qs) i =
      contribution a b (lowByte i) + contribution a b (highByte i) := rfl

theorem fits_dotBytes (i : Fin 16) :
    Fits 15 (dotBytes (mm256SignEpi8 a.qs a.qs) (mm256SignEpi8 b.qs a.qs) i) := by
  have first := contribution_bounds a b (lowByte i)
  have second := contribution_bounds a b (highByte i)
  rw [dotBytes_eq]
  unfold Fits
  omega

/-- The sums of `dot8`: no lane saturates, and each is the sum of two words. -/
theorem dot8_yields :
    Yields (dot8 a b) fun sums => ∀ i, (epi32 sums i).toInt =
      dotBytes (mm256SignEpi8 a.qs a.qs) (mm256SignEpi8 b.qs a.qs) (lowWord i) +
        dotBytes (mm256SignEpi8 a.qs a.qs) (mm256SignEpi8 b.qs a.qs) (highWord i) := by
  unfold dot8
  simp only [mm256LoaduSi256_whole]
  refine (mm256MaddubsEpi16_yields (fits_dotBytes a b)).bind fun pairs words => ?_
  have sums (i : Fin 8) : dotWords pairs (mm256Set1Epi16 1) i =
      dotBytes (mm256SignEpi8 a.qs a.qs) (mm256SignEpi8 b.qs a.qs) (lowWord i) +
        dotBytes (mm256SignEpi8 a.qs a.qs) (mm256SignEpi8 b.qs a.qs) (highWord i) := by
    have one (j) : (epi16 (mm256Set1Epi16 1) j).toInt = 1 := by
      rw [mm256Set1Epi16, epi16_ofEpi16]
      rfl
    rw [dotWords, one, one, words, words, mul_one, mul_one]
  refine (mm256MaddEpi16_yields fun i => ?_).mono fun value lanes i => (lanes i).trans (sums i)
  have first := fits_dotBytes a b (lowWord i)
  have second := fits_dotBytes a b (highWord i)
  rw [sums]
  unfold Fits at *
  omega

/-! ## Against the scalar product -/

theorem dot_eq : dot a b = ∑ q, (a.qs q).toInt * (b.qs q).toInt := by
  rw [dot, Fin.sum_univ_def, List.sum_eq_foldl, List.foldl_map]

/-- The lanes add up to the scalar product and what the unnegatable places add to it. -/
theorem sum_dot8 :
    ∑ i, (epi32 (dot8 a b).value i).toInt =
      dot a b + ∑ q, if Unnegatable a b q then 256 * (a.qs q).toInt else 0 := by
  calc ∑ i, (epi32 (dot8 a b).value i).toInt
      = ∑ i, dotBytes (mm256SignEpi8 a.qs a.qs) (mm256SignEpi8 b.qs a.qs) i := by
        rw [sum_words]
        exact Finset.sum_congr rfl fun i _ => (dot8_yields a b).2 i
    _ = ∑ q, contribution a b q := (sum_bytes (contribution a b)).symm
    _ = dot a b + ∑ q, if Unnegatable a b q then 256 * (a.qs q).toInt else 0 := by
        rw [dot_eq, ← Finset.sum_add_distrib]
        exact Finset.sum_congr rfl fun q _ => contribution_eq a b q

/-- The sums of `dot8` add up to the scalar product, with no lane saturated, exactly where no
place has a negative left byte and `-128` on the right. -/
theorem dot8_agrees_iff :
    ((dot8 a b).intact = true ∧ ∑ i, (epi32 (dot8 a b).value i).toInt = dot a b) ↔
      ∀ q, ¬ ((a.qs q).toInt < 0 ∧ (b.qs q).toInt = -128) := by
  have lost : ∀ q ∈ Finset.univ, (if Unnegatable a b q then 256 * (a.qs q).toInt else 0) ≤ 0 := by
    intro q _
    split
    next stuck =>
      have negative := stuck.1
      omega
    next => exact le_refl 0
  rw [sum_dot8]
  constructor
  · rintro ⟨_, agrees⟩ q stuck
    have none := (Finset.sum_eq_zero_iff_of_nonpos lost).mp (by omega) q (Finset.mem_univ q)
    rw [if_pos (show Unnegatable a b q from stuck)] at none
    have negative := stuck.1
    omega
  · intro movable
    have none : ∑ q, (if Unnegatable a b q then 256 * (a.qs q).toInt else 0) = 0 :=
      Finset.sum_eq_zero fun q _ => if_neg (movable q)
    exact ⟨(dot8_yields a b).1, by rw [none, add_zero]⟩

/-- A block with one byte and zeros after it. -/
def single (byte : BitVec 8) : BlockQ80 := ⟨fun q => if q = 0 then byte else 0⟩

theorem dot8_lowest :
    ¬ ((dot8 (single (-1)) (single (-128))).intact = true ∧
      ∑ i, (epi32 (dot8 (single (-1)) (single (-128))).value i).toInt =
        dot (single (-1)) (single (-128))) := by
  decide +kernel

/-- `-1` times `-128` counts as `-128`. -/
example : ∑ i, (epi32 (dot8 (single (-1)) (single (-128))).value i).toInt = -128 := by
  decide +kernel

end BlockQ80

end LlmLab.Kernels
