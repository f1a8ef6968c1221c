import LlmLab.Lib.Signed
import Mathlib.Algebra.BigOperators.Fin
import Mathlib.Algebra.Order.Ring.Abs
import Mathlib.Data.BitVec

/-!
# Lanes of bit vectors

A vector register is a family of lanes.  Two neighbouring lanes make one of twice the width, the
lower one first, so that a register can be read and written at every width.

A `Computed` value carries whether every lane computed on the way to it holds the integer it
stands for, that is, whether none has wrapped or saturated.  `Yields` says that none has, and
what the value is; it has one rule for each way to put computations together.
-/

namespace LlmLab.Lanes

open LlmLab.Signed

universe u v

/-! ## Widths -/

section Widths

variable {n w : Nat}

/-- Neighbouring lanes as lanes of twice the width. -/
def joined (lanes : Fin (2 * n) → BitVec w) : Fin n → BitVec (w + w) :=
  fun i => lanes ⟨2 * i + 1, by omega⟩ ++ lanes ⟨2 * i, by omega⟩

/-- Lanes as lanes of half the width. -/
def halves (lanes : Fin n → BitVec (w + w)) : Fin (2 * n) → BitVec w :=
  fun i => (lanes ⟨i / 2, by omega⟩).extractLsb' (w * (i % 2)) w

@[simp] theorem joined_halves (lanes : Fin n → BitVec (w + w)) : joined (halves lanes) = lanes := by
  funext i
  have upper : (⟨(2 * i + 1) / 2, by omega⟩ : Fin n) = i := Fin.ext (by simp; omega)
  have lower : (⟨2 * i / 2, by omega⟩ : Fin n) = i := Fin.ext (by simp)
  have one : (2 * (i : Nat) + 1) % 2 = 1 := by omega
  have zero : 2 * (i : Nat) % 2 = 0 := by omega
  apply BitVec.eq_of_getLsbD_eq
  intro bit inside
  simp only [joined, halves, upper, lower, one, zero, BitVec.getLsbD_append,
    BitVec.getLsbD_extractLsb']
  rcases Nat.lt_or_ge bit w with low | high
  · simp [low]
  · rw [if_neg (by omega), decide_eq_true (by omega), Bool.true_and, Nat.mul_one,
      Nat.add_sub_cancel' high]

/-- The lower half of a wide lane. -/
theorem extract_low {high low : BitVec w} : (high ++ low).extractLsb' 0 w = low := by
  apply BitVec.eq_of_getLsbD_eq
  intro bit inside
  rw [BitVec.getLsbD_extractLsb', decide_eq_true inside, Bool.true_and, Nat.zero_add,
    BitVec.getLsbD_append, if_pos inside]

/-- The upper half. -/
theorem extract_high {high low : BitVec w} : (high ++ low).extractLsb' w w = high := by
  apply BitVec.eq_of_getLsbD_eq
  intro bit inside
  rw [BitVec.getLsbD_extractLsb', decide_eq_true inside, Bool.true_and, BitVec.getLsbD_append,
    if_neg (by omega), Nat.add_sub_cancel_left]

@[simp] theorem halves_joined (lanes : Fin (2 * n) → BitVec w) : halves (joined lanes) = lanes := by
  funext i
  rcases Nat.mod_two_eq_zero_or_one i with zero | one
  · have lower : (⟨2 * (i / 2), by omega⟩ : Fin (2 * n)) = i := Fin.ext (by simp; omega)
    simp only [joined, halves, zero, Nat.mul_zero, extract_low, lower]
  · have upper : (⟨2 * (i / 2) + 1, by omega⟩ : Fin (2 * n)) = i := Fin.ext (by simp; omega)
    simp only [joined, halves, one, Nat.mul_one, extract_high, upper]

/-! ### Shifts of a wide lane, half by half -/

variable {high low : BitVec w} {by' : Nat}

theorem extract_shiftLeft_low : ((high ++ low) <<< by').extractLsb' 0 w = low <<< by' := by
  apply BitVec.eq_of_getLsbD_eq
  intro bit inside
  simp [inside]
  grind

theorem extract_shiftLeft_high (within : by' ≤ w) :
    ((high ++ low) <<< by').extractLsb' w w = high <<< by' ||| low >>> (w - by') := by
  apply BitVec.eq_of_getLsbD_eq
  intro bit inside
  simp [inside]
  grind

theorem extract_shiftRight_low (within : by' ≤ w) :
    ((high ++ low) >>> by').extractLsb' 0 w = low >>> by' ||| high <<< (w - by') := by
  apply BitVec.eq_of_getLsbD_eq
  intro bit inside
  simp [inside]
  grind

theorem extract_shiftRight_high : ((high ++ low) >>> by').extractLsb' w w = high >>> by' := by
  apply BitVec.eq_of_getLsbD_eq
  intro bit inside
  simp [inside]
  grind

end Widths

/-! ## Lanes that hold what they stand for -/

/-- A value, and whether every lane computed on the way to it is intact. -/
structure Computed (α : Type u) where
  value : α
  intact : Bool

instance : Monad Computed where
  pure value := ⟨value, true⟩
  bind first next :=
    ⟨(next first.value).value, first.intact && (next first.value).intact⟩

/-- Lanes, each beside the integer it stands for. -/
def lanewise {n w : Nat} (lanes : Fin n → BitVec w) (results : Fin n → Int) :
    Computed (Fin n → BitVec w) :=
  ⟨lanes, decide (∀ i, (lanes i).toInt = results i)⟩

/-- Every lane is intact, and the value is as stated. -/
def Yields {α : Type u} (action : Computed α) (post : α → Prop) : Prop :=
  action.intact = true ∧ post action.value

section Rules

variable {α β : Type u} {p : α → Prop} {q : β → Prop} {action : Computed α}
  {next : α → Computed β}

theorem Yields.pure {value : α} (holds : p value) : Yields (Pure.pure value) p := ⟨rfl, holds⟩

theorem Yields.bind (first : Yields action p) (second : ∀ value, p value → Yields (next value) q) :
    Yields (action >>= next) q := by
  obtain ⟨intact, holds⟩ := first
  obtain ⟨nextIntact, given⟩ := second _ holds
  exact ⟨(Bool.and_eq_true _ _).mpr ⟨intact, nextIntact⟩, given⟩

theorem Yields.mono {p' : α → Prop} (yields : Yields action p) (weaker : ∀ value, p value → p' value) :
    Yields action p' :=
  ⟨yields.1, weaker _ yields.2⟩

end Rules

theorem lanewise_yields {n w : Nat} {lanes : Fin n → BitVec w} {results : Fin n → Int}
    (holds : ∀ i, (lanes i).toInt = results i) :
    Yields (lanewise lanes results) fun value => ∀ i, (value i).toInt = results i :=
  ⟨decide_eq_true holds, holds⟩

/-! ## Integers of one lane -/

/-- The closest integer a signed lane of `bits + 1` bits holds. -/
def saturate (bits : Nat) (value : Int) : Int := max (-(2 ^ bits)) (min (2 ^ bits - 1) value)

section Integers

variable {bits : Nat} {a b : BitVec (bits + 1)} {value : Int}

theorem fits_toInt (a : BitVec (bits + 1)) : Fits bits a.toInt := by
  have least := BitVec.le_toInt a
  have greatest := BitVec.toInt_lt (x := a)
  exact ⟨least, Int.le_sub_one_of_lt greatest⟩

theorem abs_toInt_le (a : BitVec (bits + 1)) : |a.toInt| ≤ 2 ^ bits := by
  obtain ⟨least, greatest⟩ := fits_toInt a
  exact abs_le.mpr ⟨least, by omega⟩

/-- A product is bounded by the product of the bounds. -/
theorem abs_mul_le {x y bound bound' : Int} (x_le : |x| ≤ bound) (y_le : |y| ≤ bound') :
    |x * y| ≤ bound * bound' := by
  rw [abs_mul]
  exact mul_le_mul x_le y_le (abs_nonneg y) ((abs_nonneg x).trans x_le)

theorem fits_of_abs_le {bound : Int} (within : |value| ≤ bound) (room : bound ≤ 2 ^ bits - 1) :
    Fits bits value := by
  obtain ⟨least, greatest⟩ := abs_le.mp within
  exact ⟨by omega, by omega⟩

theorem bmod_of_fits (fits : Fits bits value) : value.bmod (2 ^ (bits + 1)) = value := by
  obtain ⟨least, greatest⟩ := fits
  apply Int.bmod_eq_of_le <;> push_cast [Nat.pow_succ] <;> omega

theorem toInt_ofInt (fits : Fits bits value) : (BitVec.ofInt (bits + 1) value).toInt = value := by
  rw [BitVec.toInt_ofInt, bmod_of_fits fits]

theorem saturate_of_fits (fits : Fits bits value) : saturate bits value = value := by
  obtain ⟨least, greatest⟩ := fits
  unfold saturate
  omega

theorem toInt_add (fits : Fits bits (a.toInt + b.toInt)) : (a + b).toInt = a.toInt + b.toInt := by
  rw [BitVec.toInt_add, bmod_of_fits fits]

theorem toInt_sub (fits : Fits bits (a.toInt - b.toInt)) : (a - b).toInt = a.toInt - b.toInt := by
  rw [BitVec.toInt_sub, bmod_of_fits fits]

theorem toInt_mul (fits : Fits bits (a.toInt * b.toInt)) : (a * b).toInt = a.toInt * b.toInt := by
  rw [BitVec.toInt_mul, bmod_of_fits fits]

theorem toInt_shiftLeft {by' : Nat} (fits : Fits bits (a.toInt * 2 ^ by')) :
    (a <<< by').toInt = a.toInt * 2 ^ by' := by
  rw [BitVec.toInt_shiftLeft, Nat.shiftLeft_eq, Nat.cast_mul, ← Int.bmod_mul_bmod,
    ← BitVec.toInt_eq_toNat_bmod, Nat.cast_pow, Nat.cast_ofNat, bmod_of_fits fits]

end Integers

/-! ## Sums over runs of lanes -/

section Sums

variable {m n total : Nat}

/-- Place `r` of the `i`-th of `m` runs of length `n`. -/
def place (whole : m * n = total) (i : Fin m) (r : Fin n) : Fin total :=
  Fin.cast whole (finProdFinEquiv (i, r))

@[simp] theorem place_val (whole : m * n = total) (i : Fin m) (r : Fin n) :
    (place whole i r : Nat) = n * i + r := Nat.add_comm _ _

theorem sum_place (whole : m * n = total) (f : Fin total → Int) :
    ∑ k, f k = ∑ i : Fin m, ∑ r : Fin n, f (place whole i r) := by
  subst whole
  rw [← finProdFinEquiv.sum_comp, Fintype.sum_prod_type]
  rfl

theorem sum_pairs (whole : m * 2 = total) (f : Fin total → Int) :
    ∑ k, f k = ∑ i : Fin m, (f ⟨2 * i, by omega⟩ + f ⟨2 * i + 1, by omega⟩) := by
  rw [sum_place whole]
  apply Finset.sum_congr rfl
  intro i _
  rw [Fin.sum_univ_two]
  congr 2 <;> exact Fin.ext (place_val whole i _)

end Sums

end LlmLab.Lanes
