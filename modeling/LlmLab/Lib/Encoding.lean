import Mathlib.Data.List.Basic
import Mathlib.Data.Nat.Bitwise

/-!
# Self-delimiting encodings

A code is self-delimiting on a set of values when an encoded value, followed by anything,
determines both the value and what follows.  Codes of a fixed width are, where they are
injective; one code after another is; and so is a list of encoded items after its own length.

`littleEndian` is the code of natural numbers by a fixed number of bytes.
-/

namespace LlmLab.Encoding

universe u v w

variable {α : Type u} {α' : Type v} {β : Type w}

/-- An encoded value of the domain ends where it ends, whatever follows. -/
def SelfDelimiting (domain : α → Prop) (encode : α → List β) : Prop :=
  ∀ a b rest rest', domain a → domain b → encode a ++ rest = encode b ++ rest' →
    a = b ∧ rest = rest'

variable {domain : α → Prop} {domain' : α' → Prop} {encode : α → List β} {encode' : α' → List β}

theorem SelfDelimiting.injective (delimiting : SelfDelimiting domain encode) {a b : α}
    (a_in : domain a) (b_in : domain b) (same : encode a = encode b) : a = b :=
  (delimiting a b [] [] a_in b_in (by rw [same])).1

/-- On fewer values. -/
theorem SelfDelimiting.mono {narrower : α → Prop} (delimiting : SelfDelimiting domain encode)
    (within : ∀ a, narrower a → domain a) : SelfDelimiting narrower encode :=
  fun a b rest rest' a_in b_in => delimiting a b rest rest' (within a a_in) (within b b_in)

/-- A code of one width is self-delimiting where it is injective. -/
theorem selfDelimiting_of_width {width : Nat} (wide : ∀ a, (encode a).length = width)
    (injective : ∀ a b, domain a → domain b → encode a = encode b → a = b) :
    SelfDelimiting domain encode := by
  intro a b rest rest' a_in b_in same
  obtain ⟨codes, rests⟩ := List.append_inj same ((wide a).trans (wide b).symm)
  exact ⟨injective a b a_in b_in codes, rests⟩

/-- A fixed mark in front changes nothing. -/
theorem SelfDelimiting.tagged (tag : List β) (delimiting : SelfDelimiting domain encode) :
    SelfDelimiting domain fun a => tag ++ encode a := by
  intro a b rest rest' a_in b_in same
  rw [List.append_assoc, List.append_assoc] at same
  exact delimiting a b rest rest' a_in b_in (List.append_cancel_left same)

/-- One code after another. -/
theorem SelfDelimiting.pair (first : SelfDelimiting domain encode)
    (second : SelfDelimiting domain' encode') :
    SelfDelimiting (fun pair : α × α' => domain pair.1 ∧ domain' pair.2)
      fun pair => encode pair.1 ++ encode' pair.2 := by
  rintro ⟨a, a'⟩ ⟨b, b'⟩ rest rest' ⟨a_in, a'_in⟩ ⟨b_in, b'_in⟩ same
  rw [List.append_assoc, List.append_assoc] at same
  obtain ⟨heads, tails⟩ := first a b _ _ a_in b_in same
  obtain ⟨seconds, rests⟩ := second a' b' _ _ a'_in b'_in tails
  exact ⟨Prod.ext heads seconds, rests⟩

/-- As many encoded items, one after another. -/
theorem SelfDelimiting.flatMap (delimiting : SelfDelimiting (fun _ => True) encode) :
    ∀ {items items' : List α} {rest rest' : List β}, items.length = items'.length →
      items.flatMap encode ++ rest = items'.flatMap encode ++ rest' →
      items = items' ∧ rest = rest'
  | [], [], _, _, _, same => ⟨rfl, same⟩
  | item :: items, item' :: items', rest, rest', lengths, same => by
      rw [List.flatMap_cons, List.flatMap_cons, List.append_assoc, List.append_assoc] at same
      obtain ⟨heads, tails⟩ := delimiting item item' _ _ True.intro True.intro same
      obtain ⟨more, rests⟩ := SelfDelimiting.flatMap delimiting (Nat.succ.inj lengths) tails
      exact ⟨by rw [heads, more], rests⟩

/-- A list after its length. -/
theorem SelfDelimiting.counted {domain : Nat → Prop} {count : Nat → List β}
    (length : SelfDelimiting domain count)
    (delimiting : SelfDelimiting (fun _ => True) encode) :
    SelfDelimiting (fun items : List α => domain items.length)
      fun items => count items.length ++ items.flatMap encode := by
  intro items items' rest rest' items_in items'_in same
  rw [List.append_assoc, List.append_assoc] at same
  obtain ⟨lengths, tails⟩ := length _ _ _ _ items_in items'_in same
  exact delimiting.flatMap lengths tails

/-! ## Little-endian numbers -/

/-- The lowest `width` bytes of a number, least significant first. -/
def littleEndian (width value : Nat) : List UInt8 :=
  (List.range width).map fun i => UInt8.ofNat (value >>> (8 * i))

@[simp] theorem length_littleEndian (width value : Nat) :
    (littleEndian width value).length = width := by
  rw [littleEndian, List.length_map, List.length_range]

/-- Only the bits the bytes hold matter. -/
theorem littleEndian_mod (width value : Nat) :
    littleEndian width (value % 2 ^ (8 * width)) = littleEndian width value := by
  apply List.map_congr_left
  intro i i_in
  have inside : i < width := List.mem_range.mp i_in
  apply UInt8.toNat_inj.mp
  rw [UInt8.toNat_ofNat', UInt8.toNat_ofNat']
  apply Nat.eq_of_testBit_eq
  intro bit
  rw [Nat.testBit_mod_two_pow, Nat.testBit_mod_two_pow, Nat.testBit_shiftRight,
    Nat.testBit_shiftRight, Nat.testBit_mod_two_pow]
  rcases Nat.lt_or_ge bit 8 with low | high
  · rw [decide_eq_true (show 8 * i + bit < 8 * width by omega), Bool.true_and]
  · rw [decide_eq_false (not_lt.mpr high), Bool.false_and, Bool.false_and]

theorem testBit_of_ofNat_eq {a b bit : Nat} (same : UInt8.ofNat a = UInt8.ofNat b)
    (low : bit < 8) : a.testBit bit = b.testBit bit := by
  have bytes : a % 2 ^ 8 = b % 2 ^ 8 := by
    have values := congrArg UInt8.toNat same
    rwa [UInt8.toNat_ofNat', UInt8.toNat_ofNat'] at values
  have kept (n : Nat) : (n % 2 ^ 8).testBit bit = n.testBit bit := by
    rw [Nat.testBit_mod_two_pow, decide_eq_true low, Bool.true_and]
  rw [← kept a, ← kept b, bytes]

/-- The bytes determine the bits below. -/
theorem littleEndian_injective {width a b : Nat} (a_lt : a < 2 ^ (8 * width))
    (b_lt : b < 2 ^ (8 * width)) (same : littleEndian width a = littleEndian width b) : a = b := by
  apply Nat.eq_of_testBit_eq
  intro bit
  rcases Nat.lt_or_ge bit (8 * width) with low | high
  · have bytes := List.map_inj_left.mp same (bit / 8) (List.mem_range.mpr (by omega))
    have bits := testBit_of_ofNat_eq bytes (Nat.mod_lt bit (by decide))
    rwa [Nat.testBit_shiftRight, Nat.testBit_shiftRight, Nat.div_add_mod] at bits
  · have beyond : 2 ^ (8 * width) ≤ 2 ^ bit :=
      Nat.pow_le_pow_right (by decide) high
    rw [Nat.testBit_lt_two_pow (a_lt.trans_le beyond), Nat.testBit_lt_two_pow
      (b_lt.trans_le beyond)]

theorem selfDelimiting_littleEndian (width : Nat) :
    SelfDelimiting (· < 2 ^ (8 * width)) (littleEndian width) :=
  selfDelimiting_of_width (length_littleEndian width) fun _ _ => littleEndian_injective

/-- Bytes encode themselves. -/
theorem selfDelimiting_singleton : SelfDelimiting (fun _ : α => True) fun item => [item] :=
  selfDelimiting_of_width (fun _ => rfl) fun _ _ _ _ same => (List.cons.inj same).1

end LlmLab.Encoding
