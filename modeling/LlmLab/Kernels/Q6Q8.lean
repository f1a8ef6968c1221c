import LlmLab.Lib.Avx2

/-!
# The integer core of the Q6_K × Q8_K kernel

`avx2_kernel` of `q6_q8_baseline.cpp`, for one block and up to the conversion of its sums to
floats, and the integer sums of `reference`.  The kernel unpacks the six-bit values thirty-two at
a time, keeps them unsigned, and takes the offset `32` away at the end, through the sums of
sixteen that come with the other block.
-/

namespace LlmLab.Kernels

open LlmLab.Avx2 LlmLab.Lanes LlmLab.Signed

/-- `block_q6_k`, without its scale of scales. -/
structure BlockQ6K where
  ql : Fin 128 → BitVec 8
  qh : Fin 64 → BitVec 8
  scales : Fin 16 → BitVec 8

/-- `block_q8_k`, without its scale. -/
structure BlockQ8K where
  qs : Fin 256 → BitVec 8
  bsums : Fin 16 → BitVec 16

/-! ## The reference -/

/-- `low_index`: `group * 64 + (chunk & 1) * 32 + i`. -/
def lowIndex (k : Fin 256) : Fin 128 :=
  ⟨k / 128 * 64 + (k % 128 / 32 &&& 1) * 32 + k % 128 % 32, by
    rw [Nat.and_one_is_mod]
    omega⟩

/-- `group * 32 + i`. -/
def highIndex (k : Fin 256) : Fin 64 := ⟨k / 128 * 32 + k % 128 % 32, by omega⟩

/-- `decode_q6`. -/
def decodeQ6 (b : BlockQ6K) (k : Fin 256) : Nat :=
  let chunk : Nat := k % 128 / 32
  let low :=
    if chunk < 2 then (b.ql (lowIndex k)).toNat &&& 15 else (b.ql (lowIndex k)).toNat >>> 4
  let high := ((b.qh (highIndex k)).toNat >>> (2 * chunk)) &&& 3
  low ||| (high <<< 4)

/-- The index of the scale of a place. -/
def scaleIndex (k : Fin 256) : Fin 16 := ⟨k / 16, by omega⟩

/-- One turn of the inner loop of `reference`, in `int32_t`. -/
def referenceTurn (x : BlockQ6K) (y : BlockQ8K) (sums : Fin 8 → Int) (k : Fin 256) :
    Option (Fin 8 → Int) := do
  let q6 ← Signed.sub 31 (decodeQ6 x k) 32
  let product ← Signed.mul 31 q6 (y.qs k).toInt
  let product ← Signed.mul 31 product (x.scales (scaleIndex k)).toInt
  let lane : Fin 8 := ⟨k &&& 7, Nat.lt_of_le_of_lt Nat.and_le_right (by decide)⟩
  let sum ← Signed.add 31 (sums lane) product
  return Function.update sums lane sum

/-- The eight integer sums `reference` makes for one pair of blocks. -/
def referenceSums (x : BlockQ6K) (y : BlockQ8K) : Option (Fin 8 → Int) :=
  (List.finRange 256).foldlM (referenceTurn x y) fun _ => 0

/-! ## The kernel -/

/-- `scale_shuffle`. -/
def scaleShuffle (i : Fin 8) : M128i := fun lane =>
  (#v[#v[0, 0, 0, 0, 0, 0, 0, 0, 1, 1, 1, 1, 1, 1, 1, 1],
    #v[2, 2, 2, 2, 2, 2, 2, 2, 3, 3, 3, 3, 3, 3, 3, 3],
    #v[4, 4, 4, 4, 4, 4, 4, 4, 5, 5, 5, 5, 5, 5, 5, 5],
    #v[6, 6, 6, 6, 6, 6, 6, 6, 7, 7, 7, 7, 7, 7, 7, 7],
    #v[8, 8, 8, 8, 8, 8, 8, 8, 9, 9, 9, 9, 9, 9, 9, 9],
    #v[10, 10, 10, 10, 10, 10, 10, 10, 11, 11, 11, 11, 11, 11, 11, 11],
    #v[12, 12, 12, 12, 12, 12, 12, 12, 13, 13, 13, 13, 13, 13, 13, 13],
    #v[14, 14, 14, 14, 14, 14, 14, 14, 15, 15, 15, 15, 15, 15, 15, 15]] :
    Vector (Vector (BitVec 8) 16) 8)[i][lane]

/-- The four registers `v` of a turn: 128 six-bit values, one to a byte. -/
def unpacked (x : BlockQ6K) (j : Fin 2) : Fin 4 → M256i :=
  let m3 := mm256Set1Epi8 3
  let m15 := mm256Set1Epi8 15
  let l0 := mm256LoaduSi256 x.ql (64 * j) (by omega)
  let l1 := mm256LoaduSi256 x.ql (64 * j + 32) (by omega)
  let h := mm256LoaduSi256 x.qh (32 * j) (by omega)
  ![mm256OrSi256 (mm256AndSi256 l0 m15) (mm256SlliEpi16 (mm256AndSi256 h m3) 4),
    mm256OrSi256 (mm256AndSi256 l1 m15)
      (mm256SlliEpi16 (mm256AndSi256 h (mm256Set1Epi8 12)) 2),
    mm256OrSi256 (mm256AndSi256 (mm256SrliEpi16 l0 4) m15)
      (mm256AndSi256 h (mm256Set1Epi8 48)),
    mm256OrSi256 (mm256AndSi256 (mm256SrliEpi16 l1 4) m15)
      (mm256SrliEpi16 (mm256AndSi256 h (mm256Set1Epi8 (-64))) 2)]

/-- `p[k]` of a turn: thirty-two scaled products in eight sums. -/
def product (x : BlockQ6K) (y : BlockQ8K) (j : Fin 2) (k : Fin 4) : Computed M256i := do
  let p ← mm256MaddubsEpi16 (unpacked x j k)
    (mm256LoaduSi256 y.qs (128 * j + 32 * k) (by omega))
  mm256MaddEpi16
    (mm256Cvtepi8Epi16 (mmShuffleEpi8 x.scales (scaleShuffle ⟨4 * j + k, by omega⟩))) p

/-- One turn of the kernel's loop over half a block; the sums of the upper products have an
accumulator of their own where the kernel is `split`. -/
def turn (split : Bool) (x : BlockQ6K) (y : BlockQ8K) (sums : M256i × M256i) (j : Fin 2) :
    Computed (M256i × M256i) := do
  let p0 ← product x y j 0
  let p1 ← product x y j 1
  let p2 ← product x y j 2
  let p3 ← product x y j 3
  let lower ← mm256AddEpi32 p0 p1
  let sumi ← mm256AddEpi32 sums.1 lower
  let upper ← mm256AddEpi32 p2 p3
  if split then
    let sumi2 ← mm256AddEpi32 sums.2 upper
    return (sumi, sumi2)
  else
    let sumi ← mm256AddEpi32 sumi upper
    return (sumi, sums.2)

/-- The accumulators together, after the loop. -/
def combined (split : Bool) (sums : M256i × M256i) : Computed M256i :=
  if split then mm256AddEpi32 sums.1 sums.2 else pure sums.1

/-- `sumi` of `avx2_kernel`, after the correction. -/
def sumi (split : Bool) (x : BlockQ6K) (y : BlockQ8K) : Computed M256i := do
  let scales16 := mm256Cvtepi8Epi16 x.scales
  let bsums := ofEpi16 y.bsums
  let products ← mm256MaddEpi16 bsums scales16
  let sub ← mm256SlliEpi32 products 5
  let sums ← (List.finRange 2).foldlM (turn split x y) (mm256SetzeroSi256, mm256SetzeroSi256)
  let sumi ← combined split sums
  mm256SubEpi32 sumi sub

/-! ## Unpacking -/

/-- Byte `i` of register `k` of turn `j`. -/
def position (j : Fin 2) (k : Fin 4) (i : Fin 32) : Fin 256 := ⟨128 * j + 32 * k + i, by omega⟩

@[simp] theorem position_val (j : Fin 2) (k : Fin 4) (i : Fin 32) :
    (position j k i : Nat) = 128 * j + 32 * k + i := rfl

section Unpacking

variable (x : BlockQ6K) (j : Fin 2) (i : Fin 32)

/-- The value at a position, from its place in the packed bytes. -/
theorem decodeQ6_position (k : Fin 4) :
    decodeQ6 x (position j k i) =
      (if (k : Nat) < 2 then (x.ql ⟨64 * j + 32 * (k % 2) + i, by omega⟩).toNat &&& 15
        else (x.ql ⟨64 * j + 32 * (k % 2) + i, by omega⟩).toNat >>> 4) |||
      (((x.qh ⟨32 * j + i, by omega⟩).toNat >>> (2 * (k : Nat))) &&& 3) <<< 4 := by
  have chunk : (position j k i : Nat) % 128 / 32 = k := by
    rw [position_val]
    omega
  have low : lowIndex (position j k i) = ⟨64 * j + 32 * (k % 2) + i, by omega⟩ := by
    apply Fin.ext
    simp only [lowIndex, Nat.and_one_is_mod, position_val]
    omega
  have high : highIndex (position j k i) = ⟨32 * j + i, by omega⟩ := by
    apply Fin.ext
    simp only [highIndex, position_val]
    omega
  simp only [decodeQ6, chunk, low, high]

/-- The high bits of a value, cut out of their byte and moved into place. -/
theorem high_bits : ∀ h : BitVec 8,
    ((h &&& 3) <<< 4).toNat = (h.toNat >>> 0 &&& 3) <<< 4 ∧
    ((h &&& 12) <<< 2).toNat = (h.toNat >>> 2 &&& 3) <<< 4 ∧
    (h &&& 48).toNat = (h.toNat >>> 4 &&& 3) <<< 4 ∧
    ((h &&& -64) >>> 2).toNat = (h.toNat >>> 6 &&& 3) <<< 4 := by
  decide

/-- The high nibble of a byte. -/
theorem high_nibble : ∀ l : BitVec 8, (l >>> 4 &&& 15).toNat = l.toNat >>> 4 := by
  decide

/-- What the mask of the two bits of turn `k` leaves of a byte. -/
theorem masked_room : ∀ h : BitVec 8,
    (h &&& 3) >>> (8 - 4) = 0#8 ∧ (h &&& 12) >>> (8 - 2) = 0#8 ∧
    (h &&& -64) <<< (8 - 2) = 0#8 := by
  decide

theorem nibble_clear : ∀ l : BitVec 8, l <<< (8 - 4) &&& 15 = 0#8 := by
  decide

/-- Each byte of register `k` holds the value at its position: no bit crosses between bytes. -/
theorem unpacked_eq (k : Fin 4) : (unpacked x j k i).toNat = decodeQ6 x (position j k i) := by
  rw [decodeQ6_position]
  obtain ⟨first, second, third, fourth⟩ := high_bits (x.qh ⟨32 * j + i, by omega⟩)
  match k with
  | 0 =>
      have byte : unpacked x j 0 i = (x.ql ⟨64 * j + i, by omega⟩ &&& 15) |||
          (x.qh ⟨32 * j + i, by omega⟩ &&& 3) <<< 4 :=
        congrArg (_ ||| ·) (congrFun (slli_and (by decide) fun h => (masked_room h).1) i)
      rw [byte, BitVec.toNat_or, first, BitVec.toNat_and]
      rfl
  | 1 =>
      have byte : unpacked x j 1 i = (x.ql ⟨64 * j + 32 + i, by omega⟩ &&& 15) |||
          (x.qh ⟨32 * j + i, by omega⟩ &&& 12) <<< 2 :=
        congrArg (_ ||| ·) (congrFun (slli_and (by decide) fun h => (masked_room h).2.1) i)
      rw [byte, BitVec.toNat_or, second, BitVec.toNat_and]
      rfl
  | 2 =>
      have byte : unpacked x j 2 i = (x.ql ⟨64 * j + i, by omega⟩ >>> 4 &&& 15) |||
          (x.qh ⟨32 * j + i, by omega⟩ &&& 48) :=
        congrArg (· ||| _) (congrFun (and_srli (by decide) nibble_clear) i)
      rw [byte, BitVec.toNat_or, third, high_nibble]
      rfl
  | 3 =>
      have byte : unpacked x j 3 i = (x.ql ⟨64 * j + 32 + i, by omega⟩ >>> 4 &&& (15 : BitVec 8)) |||
          (x.qh ⟨32 * j + i, by omega⟩ &&& (-64 : BitVec 8)) >>> 2 :=
        congrArg₂ (· ||| ·) (congrFun (and_srli (by decide) nibble_clear) i)
          (congrFun (srli_and (by decide) fun h => (masked_room h).2.2) i)
      rw [byte, BitVec.toNat_or, fourth, high_nibble]
      rfl

end Unpacking

/-- Six bits. -/
theorem decodeQ6_le (x : BlockQ6K) (k : Fin 256) : decodeQ6 x k ≤ 63 := by
  have byte := (x.ql (lowIndex k)).isLt
  have low : (if (k : Nat) % 128 / 32 < 2 then (x.ql (lowIndex k)).toNat &&& 15
      else (x.ql (lowIndex k)).toNat >>> 4) < 2 ^ 6 := by
    split
    next => exact Nat.lt_of_le_of_lt Nat.and_le_right (by decide)
    next =>
      rw [Nat.shiftRight_eq_div_pow]
      omega
  have crumb : ((x.qh (highIndex k)).toNat >>> (2 * ((k : Nat) % 128 / 32)) &&& 3) ≤ 3 :=
    Nat.and_le_right
  have high : ((x.qh (highIndex k)).toNat >>> (2 * ((k : Nat) % 128 / 32)) &&& 3) <<< 4 < 2 ^ 6 := by
    rw [Nat.shiftLeft_eq]
    omega
  exact Nat.le_of_lt_succ (Nat.or_lt_two_pow low high)

/-! ## Products -/

section Products

variable (x : BlockQ6K) (y : BlockQ8K)

/-- A product without its scale and its offset. -/
def unscaled (k : Fin 256) : Int := decodeQ6 x k * (y.qs k).toInt

/-- A product without its offset. -/
def scaled (k : Fin 256) : Int := unscaled x y k * (x.scales (scaleIndex k)).toInt

theorem abs_unscaled_le (k : Fin 256) : |unscaled x y k| ≤ 63 * 128 := by
  have value : |(decodeQ6 x k : Int)| ≤ 63 := by
    rw [Nat.abs_cast]
    exact Int.ofNat_le.mpr (decodeQ6_le x k)
  exact abs_mul_le value (@abs_toInt_le 7 (y.qs k))

theorem abs_scaled_le (k : Fin 256) : |scaled x y k| ≤ 63 * 128 * 128 :=
  abs_mul_le (abs_unscaled_le x y k) (@abs_toInt_le 7 (x.scales (scaleIndex k)))

variable (j : Fin 2) (k : Fin 4)

/-- The words of a register of products: no pair saturates. -/
theorem words_yields :
    Yields (mm256MaddubsEpi16 (unpacked x j k)
        (mm256LoaduSi256 y.qs (128 * j + 32 * k) (by omega))) fun words =>
      ∀ i, (epi16 words i).toInt = unscaled x y (position j k (lowByte i)) +
        unscaled x y (position j k (highByte i)) := by
  have pairs (i : Fin 16) : dotBytes (unpacked x j k)
        (mm256LoaduSi256 y.qs (128 * j + 32 * k) (by omega)) i =
      unscaled x y (position j k (lowByte i)) +
        unscaled x y (position j k (highByte i)) := by
    rw [dotBytes, unpacked_eq, unpacked_eq]
    rfl
  refine (mm256MaddubsEpi16_yields fun i => ?_).mono fun words holds i =>
    (holds i).trans (pairs i)
  have first := abs_le.mp (abs_unscaled_le x y (position j k (lowByte i)))
  have second := abs_le.mp (abs_unscaled_le x y (position j k (highByte i)))
  rw [pairs]
  unfold Fits
  omega

/-- The mask of a register takes each of two scales eight times. -/
theorem scaleShuffle_eq : ∀ (i : Fin 8) (lane : Fin 16),
    scaleShuffle i lane = BitVec.ofNat 8 (2 * i + lane / 8) := by
  decide

/-- The scale beside a word of a register. -/
theorem shuffled_scale (i : Fin 16) :
    (epi16 (mm256Cvtepi8Epi16
        (mmShuffleEpi8 x.scales (scaleShuffle ⟨4 * j + k, by omega⟩))) i).toInt =
      (x.scales ⟨2 * (4 * j + k) + i / 8, by omega⟩).toInt := by
  rw [mm256Cvtepi8Epi16, epi16_ofEpi16, BitVec.toInt_signExtend_of_le (by decide),
    mmShuffleEpi8_of_lt (by omega) (scaleShuffle_eq ⟨4 * j + k, by omega⟩ i)]

/-- What register `k` of turn `j` adds to a lane. -/
def laneSum (d : Fin 8) : Int := ∑ r : Fin 4, scaled x y (position j k (place rfl d r))

theorem abs_laneSum_le (d : Fin 8) : |laneSum x y j k d| ≤ 4 * (63 * 128 * 128) := by
  have bound (r : Fin 4) := abs_le.mp (abs_scaled_le x y (position j k (place rfl d r)))
  have zero := bound 0
  have one := bound 1
  have two := bound 2
  have three := bound 3
  rw [laneSum, Fin.sum_univ_four]
  exact abs_le.mpr ⟨by omega, by omega⟩

/-- The 32-bit lanes of one product are the sums of their scaled products, without saturation. -/
theorem product_yields :
    Yields (product x y j k) fun p => ∀ d, (epi32 p d).toInt = laneSum x y j k d := by
  refine (words_yields x y j k).bind fun words pairs => ?_
  have sums (d : Fin 8) : dotWords
        (mm256Cvtepi8Epi16 (mmShuffleEpi8 x.scales (scaleShuffle ⟨4 * j + k, by omega⟩))) words d =
      laneSum x y j k d := by
    have scale (r : Fin 4) (i : Fin 16) (word : (i : Nat) = 2 * d + r / 2) :
        (⟨2 * (4 * j + k) + i / 8, by omega⟩ : Fin 16) =
          scaleIndex (position j k (place rfl d r)) := by
      apply Fin.ext
      simp only [scaleIndex, position_val, place_val]
      omega
    have byte (r : Fin 4) (i : Fin 32) (same : (i : Nat) = 4 * d + r) : i = place rfl d r :=
      Fin.ext (by rw [place_val, same])
    rw [dotWords, shuffled_scale, shuffled_scale, pairs, pairs, laneSum, Fin.sum_univ_four,
      scaled, scaled, scaled, scaled, ← scale 0 (lowWord d) (by simp),
      ← scale 1 (lowWord d) (by simp), ← scale 2 (highWord d) (by simp),
      ← scale 3 (highWord d) (by simp),
      byte 0 (lowByte (lowWord d)) (by simp; omega),
      byte 1 (highByte (lowWord d)) (by simp; omega),
      byte 2 (lowByte (highWord d)) (by simp; omega),
      byte 3 (highByte (highWord d)) (by simp; omega)]
    linarith
  refine (mm256MaddEpi16_yields fun d => ?_).mono fun p lanes d => (lanes d).trans (sums d)
  have bound := abs_le.mp (abs_laneSum_le x y j k d)
  rw [sums]
  unfold Fits
  omega

end Products

/-! ## Sums -/

section Sums

variable (split : Bool) (x : BlockQ6K) (y : BlockQ8K)

/-- What turn `j` adds to a lane. -/
def turnSum (j : Fin 2) (d : Fin 8) : Int := ∑ k : Fin 4, laneSum x y j k d

theorem abs_turnSum_le (j : Fin 2) (d : Fin 8) : |turnSum x y j d| ≤ 16 * (63 * 128 * 128) := by
  have zero := abs_le.mp (abs_laneSum_le x y j 0 d)
  have one := abs_le.mp (abs_laneSum_le x y j 1 d)
  have two := abs_le.mp (abs_laneSum_le x y j 2 d)
  have three := abs_le.mp (abs_laneSum_le x y j 3 d)
  rw [turnSum, Fin.sum_univ_four]
  exact abs_le.mpr ⟨by omega, by omega⟩

/-- The two accumulators of a lane hold its total between them, each stays small, and the second
one is only used where the kernel is split. -/
def Accumulates (bound : Int) (total : Fin 8 → Int) (sums : M256i × M256i) : Prop :=
  ∀ d, (epi32 sums.1 d).toInt + (epi32 sums.2 d).toInt = total d ∧
    |(epi32 sums.1 d).toInt| ≤ bound ∧ |(epi32 sums.2 d).toInt| ≤ bound ∧
    (split = false → (epi32 sums.2 d).toInt = 0)

/-- A turn adds its products to the accumulators of every lane. -/
theorem turn_yields {bound : Int} {total : Fin 8 → Int} {sums : M256i × M256i} (j : Fin 2)
    (room : bound ≤ 2 ^ 30) (before : Accumulates split bound total sums) :
    Yields (turn split x y sums j)
      (Accumulates split (bound + 16 * (63 * 128 * 128)) fun d => total d + turnSum x y j d) := by
  have small (k : Fin 4) (d : Fin 8) := abs_le.mp (abs_laneSum_le x y j k d)
  have four (d : Fin 8) : turnSum x y j d = laneSum x y j 0 d + laneSum x y j 1 d +
      laneSum x y j 2 d + laneSum x y j 3 d := Fin.sum_univ_four _
  refine (product_yields x y j 0).bind fun p0 p0_eq => ?_
  refine (product_yields x y j 1).bind fun p1 p1_eq => ?_
  refine (product_yields x y j 2).bind fun p2 p2_eq => ?_
  refine (product_yields x y j 3).bind fun p3 p3_eq => ?_
  refine (mm256AddEpi32_yields fun d => ?_).bind fun lower lower_eq => ?_
  · have first := small 0 d
    have second := small 1 d
    rw [p0_eq, p1_eq]
    unfold Fits
    omega
  refine (mm256AddEpi32_yields fun d => ?_).bind fun next next_eq => ?_
  · have first := small 0 d
    have second := small 1 d
    have bounded := abs_le.mp (before d).2.1
    rw [lower_eq, p0_eq, p1_eq]
    unfold Fits
    omega
  refine (mm256AddEpi32_yields fun d => ?_).bind fun upper upper_eq => ?_
  · have third := small 2 d
    have fourth := small 3 d
    rw [p2_eq, p3_eq]
    unfold Fits
    omega
  have lanes (d : Fin 8) : (epi32 next d).toInt =
        (epi32 sums.1 d).toInt + (laneSum x y j 0 d + laneSum x y j 1 d) ∧
      (epi32 upper d).toInt = laneSum x y j 2 d + laneSum x y j 3 d := by
    rw [next_eq, lower_eq, upper_eq, p0_eq, p1_eq, p2_eq, p3_eq]
    exact ⟨rfl, rfl⟩
  split
  next chosen =>
    refine (mm256AddEpi32_yields fun d => ?_).bind fun next2 next2_eq => Yields.pure fun d => ?_
    · have third := small 2 d
      have fourth := small 3 d
      have bounded := abs_le.mp (before d).2.2.1
      rw [(lanes d).2]
      unfold Fits
      omega
    · obtain ⟨value, first, second, unused⟩ := before d
      have zero := small 0 d
      have one := small 1 d
      have two := small 2 d
      have three := small 3 d
      rw [abs_le] at first second
      simp only [next2_eq, (lanes d).1, (lanes d).2, four, abs_le]
      exact ⟨by omega, by omega, by omega, fun off => absurd chosen (by rw [off]; decide)⟩
  next =>
    refine (mm256AddEpi32_yields fun d => ?_).bind fun next2 next2_eq => Yields.pure fun d => ?_
    · have first := small 0 d
      have second := small 1 d
      have third := small 2 d
      have fourth := small 3 d
      have bounded := abs_le.mp (before d).2.1
      rw [(lanes d).1, (lanes d).2]
      unfold Fits
      omega
    · obtain ⟨value, first, second, unused⟩ := before d
      have zero := small 0 d
      have one := small 1 d
      have two := small 2 d
      have three := small 3 d
      rw [abs_le] at first second
      simp only [next2_eq, (lanes d).1, (lanes d).2, four, abs_le]
      exact ⟨by omega, by omega, by omega, unused⟩

/-- Both turns together. -/
theorem turns_yields :
    Yields ((List.finRange 2).foldlM (turn split x y) (mm256SetzeroSi256, mm256SetzeroSi256))
      (Accumulates split (32 * (63 * 128 * 128)) fun d => turnSum x y 0 d + turnSum x y 1 d) := by
  have started : Accumulates split 0 (fun _ => 0) (mm256SetzeroSi256, mm256SetzeroSi256) := by
    intro d
    rw [epi32_setzero]
    exact ⟨rfl, le_of_eq abs_zero, le_of_eq abs_zero, fun _ => rfl⟩
  have turns := (turn_yields split x y 0 (by decide) started).bind fun _ first =>
    (turn_yields split x y 1 (by decide) first).bind fun _ second => Yields.pure second
  refine turns.mono fun sums held d => ?_
  obtain ⟨value, first, second, unused⟩ := held d
  exact ⟨by simpa only [zero_add] using value, by omega, by omega, unused⟩

/-- Together the accumulators hold the total. -/
theorem combined_yields {bound : Int} {total : Fin 8 → Int} {sums : M256i × M256i}
    (held : Accumulates split bound total sums) (room : bound ≤ 2 ^ 29) :
    Yields (combined split sums) fun v => ∀ d, (epi32 v d).toInt = total d := by
  unfold combined
  split
  next =>
    refine (mm256AddEpi32_yields fun d => ?_).mono fun v lanes d => (lanes d).trans (held d).1
    obtain ⟨_, first, second, _⟩ := held d
    rw [abs_le] at first second
    unfold Fits
    omega
  next single =>
    refine Yields.pure fun d => ?_
    obtain ⟨value, _, _, unused⟩ := held d
    rwa [unused (Bool.eq_false_of_not_eq_true single), add_zero] at value

/-- What the kernel takes away from a lane. -/
def correction (d : Fin 8) : Int :=
  (y.bsums (lowWord d)).toInt * (x.scales (lowWord d)).toInt +
    (y.bsums (highWord d)).toInt * (x.scales (highWord d)).toInt

theorem abs_correction_le (d : Fin 8) : |correction x y d| ≤ 2 * (32768 * 128) := by
  have term (i : Fin 16) := abs_le.mp
    (abs_mul_le (@abs_toInt_le 15 (y.bsums i)) (@abs_toInt_le 7 (x.scales i)))
  have first := term (lowWord d)
  have second := term (highWord d)
  unfold correction
  exact abs_le.mpr ⟨by omega, by omega⟩

theorem dotWords_bsums (d : Fin 8) :
    dotWords (ofEpi16 y.bsums) (mm256Cvtepi8Epi16 x.scales) d = correction x y d := by
  have scale (i : Fin 16) : ((x.scales i).signExtend 16).toInt = (x.scales i).toInt :=
    BitVec.toInt_signExtend_of_le (by decide)
  rw [dotWords, mm256Cvtepi8Epi16, epi16_ofEpi16, epi16_ofEpi16, scale, scale]
  rfl

/-- Every lane of `sumi` in both variants, with nothing lost on the way. -/
theorem sumi_yields :
    Yields (sumi split x y) fun v => ∀ d, (epi32 v d).toInt =
      turnSum x y 0 d + turnSum x y 1 d - correction x y d * 2 ^ 5 := by
  have least (d : Fin 8) := abs_le.mp (abs_correction_le x y d)
  refine (mm256MaddEpi16_yields fun d => ?_).bind fun products products_eq => ?_
  · have bound := least d
    rw [dotWords_bsums]
    unfold Fits
    omega
  refine (mm256SlliEpi32_yields fun d => ?_).bind fun sub sub_eq => ?_
  · have bound := least d
    rw [products_eq, dotWords_bsums]
    unfold Fits
    omega
  refine (turns_yields split x y).bind fun sums held => ?_
  refine (combined_yields split held (by decide)).bind fun total total_eq => ?_
  have taken (d : Fin 8) : (epi32 sub d).toInt = correction x y d * 2 ^ 5 := by
    rw [sub_eq, products_eq, dotWords_bsums]
  refine (mm256SubEpi32_yields fun d => ?_).mono fun v lanes d => by
    rw [lanes, total_eq, taken]
  have bound := least d
  have first := abs_le.mp (abs_turnSum_le x y 0 d)
  have second := abs_le.mp (abs_turnSum_le x y 1 d)
  rw [total_eq, taken]
  unfold Fits
  omega

end Sums

/-! ## Against the reference -/

section Reference

variable (x : BlockQ6K) (y : BlockQ8K)

/-- What `reference` adds for a place. -/
def term (k : Fin 256) : Int :=
  ((decodeQ6 x k : Int) - 32) * (y.qs k).toInt * (x.scales (scaleIndex k)).toInt

/-- The sums of sixteen that come with a block are those of its bytes. -/
def BlockQ8K.Summed : Prop :=
  ∀ j : Fin 16, (y.bsums j).toInt = ∑ r : Fin 16, (y.qs ⟨16 * j + r, by omega⟩).toInt

/-- The lanes of all registers hold every place once. -/
theorem sum_turnSum :
    ∑ d, (turnSum x y 0 d + turnSum x y 1 d) = ∑ k, scaled x y k := by
  have nested (j : Fin 2) (k : Fin 4) (i : Fin 32) :
      place rfl j (place rfl k i) = position j k i := by
    apply Fin.ext
    rw [place_val, place_val, position_val]
    omega
  have byTurn : ∑ k, scaled x y k = ∑ j, ∑ k, ∑ d, laneSum x y j k d := by
    rw [sum_place (show 2 * 128 = 256 from rfl)]
    apply Finset.sum_congr rfl
    intro j _
    rw [sum_place (show 4 * 32 = 128 from rfl)]
    apply Finset.sum_congr rfl
    intro k _
    rw [sum_place (show 8 * 4 = 32 from rfl)]
    apply Finset.sum_congr rfl
    intro d _
    apply Finset.sum_congr rfl
    intro r _
    rw [nested]
  calc ∑ d, (turnSum x y 0 d + turnSum x y 1 d)
      = ∑ d, ∑ j, turnSum x y j d :=
        Finset.sum_congr rfl fun d _ => (Fin.sum_univ_two fun j => turnSum x y j d).symm
    _ = ∑ j, ∑ d, ∑ k, laneSum x y j k d := Finset.sum_comm
    _ = ∑ j, ∑ k, ∑ d, laneSum x y j k d := Finset.sum_congr rfl fun j _ => Finset.sum_comm
    _ = ∑ k, scaled x y k := byTurn.symm

/-- The corrections take `32` away from every value. -/
theorem sum_correction (summed : y.Summed) :
    ∑ d, correction x y d = ∑ k, (y.qs k).toInt * (x.scales (scaleIndex k)).toInt := by
  have scale (j r : Fin 16) : scaleIndex (place rfl j r) = j := by
    apply Fin.ext
    simp only [scaleIndex, place_val]
    omega
  have byte (j r : Fin 16) : (⟨16 * j + r, by omega⟩ : Fin 256) = place rfl j r :=
    Fin.ext (place_val _ _ _).symm
  calc ∑ d, correction x y d
      = ∑ j, (y.bsums j).toInt * (x.scales j).toInt :=
        (sum_words fun j => (y.bsums j).toInt * (x.scales j).toInt).symm
    _ = ∑ j, ∑ r, (y.qs (place rfl j r)).toInt * (x.scales (scaleIndex (place rfl j r))).toInt := by
        apply Finset.sum_congr rfl
        intro j _
        rw [summed j, Finset.sum_mul]
        apply Finset.sum_congr rfl
        intro r _
        rw [scale, byte]
    _ = ∑ k, (y.qs k).toInt * (x.scales (scaleIndex k)).toInt :=
        (sum_place (show 16 * 16 = 256 from rfl) fun k =>
          (y.qs k).toInt * (x.scales (scaleIndex k)).toInt).symm

/-- The lanes of `sumi` add up to the exact sum. -/
theorem sum_sumi (split : Bool) (summed : y.Summed) :
    ∑ d, (epi32 (sumi split x y).value d).toInt = ∑ k, term x y k := by
  calc ∑ d, (epi32 (sumi split x y).value d).toInt
      = ∑ d, (turnSum x y 0 d + turnSum x y 1 d - correction x y d * 2 ^ 5) :=
        Finset.sum_congr rfl fun d _ => (sumi_yields split x y).2 d
    _ = ∑ k, scaled x y k -
          (∑ k, (y.qs k).toInt * (x.scales (scaleIndex k)).toInt) * 2 ^ 5 := by
        rw [Finset.sum_sub_distrib, sum_turnSum, ← Finset.sum_mul, sum_correction x y summed]
    _ = ∑ k, term x y k := by
        rw [Finset.sum_mul, ← Finset.sum_sub_distrib]
        apply Finset.sum_congr rfl
        intro k _
        unfold scaled unscaled term
        linarith

theorem abs_shifted_le (k : Fin 256) : |(decodeQ6 x k : Int) - 32| ≤ 32 := by
  have bound := decodeQ6_le x k
  exact abs_le.mpr ⟨by omega, by omega⟩

theorem abs_term_le (k : Fin 256) : |term x y k| ≤ 32 * 128 * 128 :=
  abs_mul_le (abs_mul_le (abs_shifted_le x k) (@abs_toInt_le 7 _)) (@abs_toInt_le 7 _)

/-- A turn of `reference` stays within `int32_t` as long as its sums leave room for a term. -/
theorem referenceTurn_eq {bound : Int} {sums : Fin 8 → Int} (k : Fin 256)
    (small : ∀ lane, |sums lane| ≤ bound) (room : bound + 32 * 128 * 128 ≤ 2 ^ 31 - 1) :
    ∃ lane, referenceTurn x y sums k =
      some (Function.update sums lane (sums lane + term x y k)) := by
  let lane : Fin 8 := ⟨k &&& 7, Nat.lt_of_le_of_lt Nat.and_le_right (by decide)⟩
  have shifted : |(decodeQ6 x k : Int) - 32| ≤ 32 := abs_shifted_le x k
  have value : Fits 31 ((decodeQ6 x k : Int) - 32) := fits_of_abs_le shifted (by decide)
  have product : Fits 31 (((decodeQ6 x k : Int) - 32) * (y.qs k).toInt) :=
    fits_of_abs_le (abs_mul_le shifted (@abs_toInt_le 7 _)) (by decide)
  have scaled : Fits 31 (term x y k) := fits_of_abs_le (abs_term_le x y k) (by decide)
  have sum : Fits 31 (sums lane + term x y k) :=
    fits_of_abs_le ((abs_add_le _ _).trans (add_le_add (small lane) (abs_term_le x y k))) room
  refine ⟨lane, ?_⟩
  unfold referenceTurn Signed.sub Signed.mul Signed.add
  rw [defined_of_fits value, Option.bind_eq_bind, Option.bind_some, defined_of_fits product,
    Option.bind_some]
  exact (congrArg (Option.bind · _) (defined_of_fits scaled)).trans
    (congrArg (Option.bind · _) (defined_of_fits sum))

theorem sum_update (sums : Fin 8 → Int) (lane : Fin 8) (value : Int) :
    ∑ d, Function.update sums lane (sums lane + value) d = ∑ d, sums d + value := by
  rw [Finset.sum_update_of_mem (Finset.mem_univ lane),
    ← Finset.sum_sdiff (Finset.subset_univ {lane}), Finset.sum_singleton]
  omega

/-- The loop of `reference`: nothing overflows, and the lanes take every term. -/
theorem referenceTurns_eq : ∀ (ks : List (Fin 256)) {bound : Int} {sums : Fin 8 → Int},
    (∀ lane, |sums lane| ≤ bound) → bound + ks.length * (32 * 128 * 128) ≤ 2 ^ 31 - 1 →
    ∃ final, ks.foldlM (referenceTurn x y) sums = some final ∧
      ∑ d, final d = ∑ d, sums d + (ks.map (term x y)).sum
  | [], _, sums, _, _ => ⟨sums, rfl, by rw [List.map_nil, List.sum_nil, add_zero]⟩
  | k :: ks, bound, sums, small, room => by
      rw [List.length_cons, Nat.cast_succ] at room
      obtain ⟨lane, turned⟩ := referenceTurn_eq x y k small (by omega)
      have kept (d : Fin 8) : |Function.update sums lane (sums lane + term x y k) d| ≤
          bound + 32 * 128 * 128 := by
        have increased :=
          (abs_add_le (sums d) (term x y k)).trans (add_le_add (small d) (abs_term_le x y k))
        rcases eq_or_ne d lane with rfl | other
        · rwa [Function.update_self]
        · rw [Function.update_of_ne other]
          exact (small d).trans (by omega)
      obtain ⟨final, run, total⟩ := referenceTurns_eq ks kept (by omega)
      exact ⟨final, by rw [List.foldlM_cons, turned]; exact run, by
        rw [total, sum_update, List.map_cons, List.sum_cons, add_assoc]⟩

/-- The lanes of the reference add up to the exact sum. -/
theorem referenceSums_eq : ∃ sums, referenceSums x y = some sums ∧ ∑ d, sums d = ∑ k, term x y k := by
  obtain ⟨sums, run, total⟩ := @referenceTurns_eq x y (List.finRange 256) 0 (fun _ => 0)
    (fun _ => le_of_eq abs_zero) (by rw [List.length_finRange]; decide)
  exact ⟨sums, run, by
    rw [total, Finset.sum_const_zero, zero_add, Fin.sum_univ_def]⟩

/-- The integer core of the kernel is the reference's: no lane saturates or overflows, the sums
add up to those of the reference, and both variants give the same register. -/
theorem sumi_agrees (summed : y.Summed) :
    (∀ split, (sumi split x y).intact = true ∧
      ∑ d, (epi32 (sumi split x y).value d).toInt = ∑ k, term x y k) ∧
    (∃ sums, referenceSums x y = some sums ∧ ∑ d, sums d = ∑ k, term x y k) ∧
    (sumi true x y).value = (sumi false x y).value := by
  refine ⟨fun split => ⟨(sumi_yields split x y).1, sum_sumi x y split summed⟩,
    referenceSums_eq x y, ?_⟩
  apply eq_of_epi32
  funext d
  exact BitVec.toInt_inj.mp
    (((sumi_yields true x y).2 d).trans ((sumi_yields false x y).2 d).symm)

end Reference

/-- Extreme values at every place. -/
def lowest : BlockQ6K × BlockQ8K :=
  (⟨fun _ => 0, fun _ => 0, fun _ => -128⟩, ⟨fun _ => -128, fun _ => -2048⟩)

theorem sumi_agrees_lowest :
    ∑ d, (epi32 (sumi true lowest.1 lowest.2).value d).toInt =
      ∑ k, term lowest.1 lowest.2 k :=
  ((sumi_agrees lowest.1 lowest.2 (by
    unfold BlockQ8K.Summed
    decide +kernel)).1 true).2

end LlmLab.Kernels
