import LlmLab.Lib.Lanes

/-!
# Integer intrinsics of AVX2

The `_mm256_*` and `_mm_*` intrinsics of integer kernels, with the meaning their documentation
gives them.  The ones that add or multiply in lanes of 16 or 32 bits are computed beside the
integers their lanes stand for; each has a lemma that says when no lane wraps or saturates and
what the lanes hold then.
-/

namespace LlmLab.Avx2

open LlmLab.Lanes LlmLab.Signed

/-! ## Registers -/

/-- `__m128i`, by its bytes. -/
abbrev M128i := Fin 16 → BitVec 8

/-- `__m256i`, by its bytes. -/
abbrev M256i := Fin 32 → BitVec 8

/-- The sixteen 16-bit lanes. -/
def epi16 (v : M256i) : Fin 16 → BitVec 16 := @joined 16 8 v

/-- The eight 32-bit lanes. -/
def epi32 (v : M256i) : Fin 8 → BitVec 32 := @joined 8 16 (epi16 v)

def ofEpi16 (lanes : Fin 16 → BitVec 16) : M256i := @halves 16 8 lanes

def ofEpi32 (lanes : Fin 8 → BitVec 32) : M256i := ofEpi16 (@halves 8 16 lanes)

@[simp] theorem epi16_ofEpi16 (lanes : Fin 16 → BitVec 16) : epi16 (ofEpi16 lanes) = lanes :=
  @joined_halves 16 8 lanes

@[simp] theorem epi32_ofEpi32 (lanes : Fin 8 → BitVec 32) : epi32 (ofEpi32 lanes) = lanes := by
  rw [epi32, ofEpi32, epi16_ofEpi16]
  exact @joined_halves 8 16 lanes

/-- A register is its 32-bit lanes. -/
theorem eq_of_epi32 {a b : M256i} (same : epi32 a = epi32 b) : a = b := by
  have words : epi16 a = epi16 b := by
    rw [← @halves_joined 8 16 (epi16 a), ← @halves_joined 8 16 (epi16 b)]
    exact congrArg _ same
  rw [← @halves_joined 16 8 a, ← @halves_joined 16 8 b]
  exact congrArg _ words

/-! ### Neighbours -/

/-- The bytes of a word and the words of a double word. -/
def lowByte (i : Fin 16) : Fin 32 := ⟨2 * i, by omega⟩

def highByte (i : Fin 16) : Fin 32 := ⟨2 * i + 1, by omega⟩

def lowWord (i : Fin 8) : Fin 16 := ⟨2 * i, by omega⟩

def highWord (i : Fin 8) : Fin 16 := ⟨2 * i + 1, by omega⟩

@[simp] theorem lowByte_val (i : Fin 16) : (lowByte i : Nat) = 2 * i := rfl
@[simp] theorem highByte_val (i : Fin 16) : (highByte i : Nat) = 2 * i + 1 := rfl
@[simp] theorem lowWord_val (i : Fin 8) : (lowWord i : Nat) = 2 * i := rfl
@[simp] theorem highWord_val (i : Fin 8) : (highWord i : Nat) = 2 * i + 1 := rfl

theorem sum_bytes (f : Fin 32 → Int) : ∑ k, f k = ∑ i, (f (lowByte i) + f (highByte i)) :=
  sum_pairs (show 16 * 2 = 32 from rfl) f

theorem sum_words (f : Fin 16 → Int) : ∑ k, f k = ∑ i, (f (lowWord i) + f (highWord i)) :=
  sum_pairs (show 8 * 2 = 16 from rfl) f

/-! ## Bytes -/

def mm256Set1Epi8 (byte : BitVec 8) : M256i := fun _ => byte

def mm256AndSi256 (a b : M256i) : M256i := fun i => a i &&& b i

theorem and_set1 (a : M256i) (mask : BitVec 8) (i : Fin 32) :
    mm256AndSi256 a (mm256Set1Epi8 mask) i = a i &&& mask := rfl

def mm256OrSi256 (a b : M256i) : M256i := fun i => a i ||| b i

/-- Each byte of `a` with the sign of the byte of `b`: negated, zero or as it is. -/
def mm256SignEpi8 (a b : M256i) : M256i :=
  fun i => if (b i).toInt < 0 then -(a i) else if (b i).toInt = 0 then 0 else a i

/-- The magnitude of a byte, as an unsigned one. -/
theorem toNat_sign_self (a : M256i) (i : Fin 32) :
    ((mm256SignEpi8 a a i).toNat : Int) = |(a i).toInt| := by
  unfold mm256SignEpi8
  have below := (a i).isLt
  have value := (a i).toInt_eq_toNat_cond
  split
  next negative =>
    rw [abs_of_neg negative, BitVec.toNat_neg]
    omega
  next nonneg =>
    rw [abs_of_nonneg (not_lt.mp nonneg)]
    split
    next zero => rw [zero]; rfl
    next => omega

/-- The byte of the first operand under the sign of the second one; the least byte has no
negative, and stays as it is. -/
theorem toInt_sign (a b : M256i) (i : Fin 32) :
    (mm256SignEpi8 b a i).toInt =
      if (a i).toInt < 0 ∧ (b i).toInt = -128 then -128 else (a i).toInt.sign * (b i).toInt := by
  unfold mm256SignEpi8
  split
  next negative =>
    rw [Int.sign_eq_neg_one_of_neg negative, neg_one_mul]
    rcases eq_or_ne (b i).toInt (-128) with least | above
    · have byte : b i = 128#8 := BitVec.toInt_inj.mp least
      rw [if_pos ⟨negative, least⟩, byte]
      rfl
    · rw [if_neg fun both => above both.2, BitVec.toInt_neg]
      have bound := @fits_toInt 7 (b i)
      exact @bmod_of_fits 7 _ (by unfold Fits at *; omega)
  next nonneg =>
    have apart : ¬ ((a i).toInt < 0 ∧ (b i).toInt = -128) := fun both => nonneg both.1
    split
    next zero =>
      rw [zero, Int.sign_zero, Int.zero_mul]
      rfl
    next nonzero => rw [Int.sign_eq_one_of_pos (by omega), Int.one_mul]

/-- The bytes of `a` that the low four bits of the mask select, zero where its top bit is set. -/
def mmShuffleEpi8 (a mask : M128i) : M128i :=
  fun i => if (mask i).msb then 0 else a ⟨(mask i).toNat % 16, Nat.mod_lt _ (by decide)⟩

/-- A mask byte below sixteen selects the byte it names. -/
theorem mmShuffleEpi8_of_lt {a mask : M128i} {i : Fin 16} {n : Nat} (small : n < 16)
    (selects : mask i = BitVec.ofNat 8 n) : mmShuffleEpi8 a mask i = a ⟨n, small⟩ := by
  have value : (mask i).toNat = n := by
    rw [selects, BitVec.toNat_ofNat]
    omega
  have kept : (mask i).msb = false := by
    rw [BitVec.msb_eq_false_iff_two_mul_lt, value]
    omega
  rw [mmShuffleEpi8, if_neg (by rw [kept]; decide)]
  have index : (mask i).toNat % 16 = n := by rw [value, Nat.mod_eq_of_lt small]
  exact congrArg a (Fin.ext index)

/-- Thirty-two bytes of memory from an offset on. -/
def mm256LoaduSi256 {n : Nat} (memory : Fin n → BitVec 8) (offset : Nat)
    (inside : offset + 32 ≤ n) : M256i :=
  fun i => memory ⟨offset + i, by omega⟩

@[simp] theorem mm256LoaduSi256_whole (memory : M256i) :
    mm256LoaduSi256 memory 0 (Nat.le_refl 32) = memory := by
  funext i
  exact congrArg memory (Fin.ext (Nat.zero_add _))

/-! ## Lanes of 16 bits -/

def mm256Set1Epi16 (word : BitVec 16) : M256i := ofEpi16 fun _ => word

/-- The bytes of the lower operand, sign-extended. -/
def mm256Cvtepi8Epi16 (a : M128i) : M256i := ofEpi16 fun i => (a i).signExtend 16

def mm256SlliEpi16 (a : M256i) (count : Nat) : M256i := ofEpi16 fun i => epi16 a i <<< count

def mm256SrliEpi16 (a : M256i) (count : Nat) : M256i := ofEpi16 fun i => epi16 a i >>> count

section Shifts

variable {a : M256i} {count : Nat}

/-- A byte of a shifted word takes bits of no byte but its neighbour. -/
theorem slli_byte (within : count ≤ 8) (i : Fin 32) :
    mm256SlliEpi16 a count i = a i <<< count ∨
      ∃ j, mm256SlliEpi16 a count i = a i <<< count ||| a j >>> (8 - count) := by
  unfold mm256SlliEpi16 ofEpi16 halves epi16 joined
  rcases Nat.mod_two_eq_zero_or_one i with even | odd
  · have lower : (⟨2 * (i / 2), by omega⟩ : Fin 32) = i := Fin.ext (by simp; omega)
    left
    simp only [even, Nat.mul_zero, lower]
    exact @extract_shiftLeft_low 8 _ _ _
  · have upper : (⟨2 * (i / 2) + 1, by omega⟩ : Fin 32) = i := Fin.ext (by simp; omega)
    right
    exact ⟨⟨2 * (i / 2), by omega⟩, by
      simp only [odd, Nat.mul_one, extract_shiftLeft_high within, upper]⟩

theorem srli_byte (within : count ≤ 8) (i : Fin 32) :
    mm256SrliEpi16 a count i = a i >>> count ∨
      ∃ j, mm256SrliEpi16 a count i = a i >>> count ||| a j <<< (8 - count) := by
  unfold mm256SrliEpi16 ofEpi16 halves epi16 joined
  rcases Nat.mod_two_eq_zero_or_one i with even | odd
  · have lower : (⟨2 * (i / 2), by omega⟩ : Fin 32) = i := Fin.ext (by simp; omega)
    right
    exact ⟨⟨2 * (i / 2) + 1, by omega⟩, by
      simp only [even, Nat.mul_zero, extract_shiftRight_low within, lower]⟩
  · have upper : (⟨2 * (i / 2) + 1, by omega⟩ : Fin 32) = i := Fin.ext (by simp; omega)
    left
    simp only [odd, Nat.mul_one, upper]
    exact @extract_shiftRight_high 8 _ _ _

/-- Bytes with their top bits masked out are shifted each on its own. -/
theorem slli_and {mask : BitVec 8} (within : count ≤ 8)
    (room : ∀ byte : BitVec 8, (byte &&& mask) >>> (8 - count) = 0#8) :
    mm256SlliEpi16 (mm256AndSi256 a (mm256Set1Epi8 mask)) count =
      fun i => (a i &&& mask) <<< count := by
  funext i
  rcases @slli_byte (mm256AndSi256 a (mm256Set1Epi8 mask)) count within i with
    alone | ⟨j, strayed⟩
  · exact alone
  · rw [strayed, and_set1, and_set1, room, BitVec.or_zero]

/-- And with their lowest bits masked out likewise to the right. -/
theorem srli_and {mask : BitVec 8} (within : count ≤ 8)
    (room : ∀ byte : BitVec 8, (byte &&& mask) <<< (8 - count) = 0#8) :
    mm256SrliEpi16 (mm256AndSi256 a (mm256Set1Epi8 mask)) count =
      fun i => (a i &&& mask) >>> count := by
  funext i
  rcases @srli_byte (mm256AndSi256 a (mm256Set1Epi8 mask)) count within i with
    alone | ⟨j, strayed⟩
  · exact alone
  · rw [strayed, and_set1, and_set1, room, BitVec.or_zero]

/-- A mask that takes no stray bits leaves each byte shifted on its own. -/
theorem and_srli {mask : BitVec 8} (within : count ≤ 8)
    (clear : ∀ byte : BitVec 8, byte <<< (8 - count) &&& mask = 0#8) :
    mm256AndSi256 (mm256SrliEpi16 a count) (mm256Set1Epi8 mask) =
      fun i => a i >>> count &&& mask := by
  funext i
  unfold mm256AndSi256 mm256Set1Epi8
  rcases srli_byte within i with alone | ⟨j, strayed⟩
  · rw [alone]
  · rw [strayed, BitVec.and_comm, BitVec.and_or_distrib_left, BitVec.and_comm mask,
      BitVec.and_comm mask, clear, BitVec.or_zero]

end Shifts

/-- Two neighbouring products of an unsigned and a signed byte. -/
def dotBytes (a b : M256i) (i : Fin 16) : Int :=
  (a (lowByte i)).toNat * (b (lowByte i)).toInt +
    (a (highByte i)).toNat * (b (highByte i)).toInt

/-- Products of unsigned and signed bytes, added in pairs with saturation. -/
def mm256MaddubsEpi16 (a b : M256i) : Computed M256i := do
  let lanes ← lanewise (fun i => BitVec.ofInt 16 (saturate 15 (dotBytes a b i))) (dotBytes a b)
  return ofEpi16 lanes

theorem mm256MaddubsEpi16_yields {a b : M256i} (fits : ∀ i, Fits 15 (dotBytes a b i)) :
    Yields (mm256MaddubsEpi16 a b) fun v => ∀ i, (epi16 v i).toInt = dotBytes a b i := by
  have lanes (i) : (BitVec.ofInt 16 (saturate 15 (dotBytes a b i))).toInt = dotBytes a b i := by
    rw [saturate_of_fits (fits i)]
    exact toInt_ofInt (fits i)
  exact (lanewise_yields lanes).bind fun value holds => Yields.pure (by rwa [epi16_ofEpi16])

/-! ## Lanes of 32 bits -/

/-- Two neighbouring products of signed words. -/
def dotWords (a b : M256i) (i : Fin 8) : Int :=
  (epi16 a (lowWord i)).toInt * (epi16 b (lowWord i)).toInt +
    (epi16 a (highWord i)).toInt * (epi16 b (highWord i)).toInt

/-- Products of signed words, added in pairs. -/
def mm256MaddEpi16 (a b : M256i) : Computed M256i := do
  let lanes ← lanewise
    (fun i =>
      (epi16 a (lowWord i)).signExtend 32 * (epi16 b (lowWord i)).signExtend 32 +
        (epi16 a (highWord i)).signExtend 32 *
          (epi16 b (highWord i)).signExtend 32)
    (dotWords a b)
  return ofEpi32 lanes

/-- A product of two words fits. -/
theorem toInt_mul_signExtend (a b : BitVec 16) :
    (a.signExtend 32 * b.signExtend 32).toInt = a.toInt * b.toInt := by
  have wide (c : BitVec 16) : (c.signExtend 32).toInt = c.toInt :=
    BitVec.toInt_signExtend_of_le (by decide)
  have fits : Fits 31 ((a.signExtend 32).toInt * (b.signExtend 32).toInt) := by
    rw [wide, wide]
    have bound := abs_le.mp (abs_mul_le (abs_toInt_le a) (abs_toInt_le b))
    unfold Fits
    omega
  rw [toInt_mul fits, wide, wide]

theorem mm256MaddEpi16_yields {a b : M256i} (fits : ∀ i, Fits 31 (dotWords a b i)) :
    Yields (mm256MaddEpi16 a b) fun v => ∀ i, (epi32 v i).toInt = dotWords a b i := by
  refine (lanewise_yields fun i => ?_).bind fun value holds =>
    Yields.pure (by rwa [epi32_ofEpi32])
  have sum := fits i
  unfold dotWords at sum
  rw [← toInt_mul_signExtend, ← toInt_mul_signExtend] at sum
  rw [toInt_add sum, toInt_mul_signExtend, toInt_mul_signExtend]
  rfl

def mm256AddEpi32 (a b : M256i) : Computed M256i := do
  let lanes ← lanewise (fun i => epi32 a i + epi32 b i)
    fun i => (epi32 a i).toInt + (epi32 b i).toInt
  return ofEpi32 lanes

theorem mm256AddEpi32_yields {a b : M256i}
    (fits : ∀ i, Fits 31 ((epi32 a i).toInt + (epi32 b i).toInt)) :
    Yields (mm256AddEpi32 a b) fun v =>
      ∀ i, (epi32 v i).toInt = (epi32 a i).toInt + (epi32 b i).toInt :=
  (lanewise_yields fun i => toInt_add (fits i)).bind fun value holds =>
    Yields.pure (by rwa [epi32_ofEpi32])

def mm256SubEpi32 (a b : M256i) : Computed M256i := do
  let lanes ← lanewise (fun i => epi32 a i - epi32 b i)
    fun i => (epi32 a i).toInt - (epi32 b i).toInt
  return ofEpi32 lanes

theorem mm256SubEpi32_yields {a b : M256i}
    (fits : ∀ i, Fits 31 ((epi32 a i).toInt - (epi32 b i).toInt)) :
    Yields (mm256SubEpi32 a b) fun v =>
      ∀ i, (epi32 v i).toInt = (epi32 a i).toInt - (epi32 b i).toInt :=
  (lanewise_yields fun i => toInt_sub (fits i)).bind fun value holds =>
    Yields.pure (by rwa [epi32_ofEpi32])

def mm256SlliEpi32 (a : M256i) (count : Nat) : Computed M256i := do
  let lanes ← lanewise (fun i => epi32 a i <<< count) fun i => (epi32 a i).toInt * 2 ^ count
  return ofEpi32 lanes

theorem mm256SlliEpi32_yields {a : M256i} {count : Nat}
    (fits : ∀ i, Fits 31 ((epi32 a i).toInt * 2 ^ count)) :
    Yields (mm256SlliEpi32 a count) fun v =>
      ∀ i, (epi32 v i).toInt = (epi32 a i).toInt * 2 ^ count :=
  (lanewise_yields fun i => toInt_shiftLeft (fits i)).bind fun value holds =>
    Yields.pure (by rwa [epi32_ofEpi32])

def mm256SetzeroSi256 : M256i := fun _ => 0

theorem epi32_setzero : ∀ i, (epi32 mm256SetzeroSi256 i).toInt = 0 := by
  decide

end LlmLab.Avx2
