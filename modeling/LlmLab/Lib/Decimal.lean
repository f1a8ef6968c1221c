import Mathlib.Data.Int.Init
import Mathlib.Tactic.Common

/-!
# Decimal numerals

An integer is printed with its decimal digits, after a minus sign when it is negative, and a byte
string is read back as an integer of a machine type when all of it is such a numeral in range.
-/

namespace LlmLab

/-! ## Printing -/

theorem toList_toString_natCast (n : Nat) : (toString (n : Int)).toList = Nat.toDigits 10 n := by
  change (Nat.repr n).toList = _
  exact Nat.toList_repr

theorem toList_toString_negSucc (n : Nat) :
    (toString (Int.negSucc n)).toList = '-' :: Nat.toDigits 10 (n + 1) := by
  change ("-" ++ Nat.repr (n + 1)).toList = _
  rw [String.toList_append, Nat.toList_repr]
  rfl

/-- The characters of a numeral: digits and the minus sign. -/
theorem mem_toList_toString {value : Int} {c : Char} (member : c ∈ (toString value).toList) :
    c = '-' ∨ c.isDigit = true := by
  cases value with
  | ofNat n =>
      rw [Int.ofNat_eq_natCast, toList_toString_natCast] at member
      exact Or.inr (Nat.isDigit_of_mem_toDigits (by decide) (by decide) member)
  | negSucc n =>
      rw [toList_toString_negSucc] at member
      rcases List.mem_cons.mp member with sign | digit
      · exact Or.inl sign
      · exact Or.inr (Nat.isDigit_of_mem_toDigits (by decide) (by decide) digit)

theorem toList_toString_ne_nil (value : Int) : (toString value).toList ≠ [] := by
  cases value with
  | ofNat n =>
      rw [Int.ofNat_eq_natCast, toList_toString_natCast]
      exact Nat.toDigits_ne_nil
  | negSucc n =>
      rw [toList_toString_negSucc]
      exact List.cons_ne_nil _ _

/-! ## Reading -/

/-- A machine integer type, by its limits; the unsigned ones take no minus sign. -/
structure IntegerType where
  low : Int
  high : Int
deriving DecidableEq, Repr

def IntegerType.Holds (type : IntegerType) (value : Int) : Prop :=
  type.low ≤ value ∧ value ≤ type.high

instance (type : IntegerType) (value : Int) : Decidable (type.Holds value) :=
  inferInstanceAs (Decidable (type.low ≤ value ∧ value ≤ type.high))

/-- An ASCII digit. -/
def isDigitByte (byte : UInt8) : Bool := 48 ≤ byte.toNat && byte.toNat ≤ 57

/-- The number its digits spell. -/
def magnitude (digits : List UInt8) : Nat :=
  digits.foldl (fun value byte => 10 * value + (byte.toNat - 48)) 0

/-- The magnitude of a byte string that is digits and nothing else. -/
def readDigits (bytes : List UInt8) : Option Nat :=
  if bytes = [] ∨ bytes.all isDigitByte = false then none else some (magnitude bytes)

/-- The value of a byte string that is a numeral of the type and nothing else. -/
def readInteger (type : IntegerType) (bytes : List UInt8) : Option Int :=
  let value :=
    if type.low < 0 ∧ bytes.head? = some 45 then
      (readDigits bytes.tail).map fun n : Nat => -(n : Int)
    else (readDigits bytes).map fun n : Nat => (n : Int)
  value.filter fun value => type.Holds value

/-- The ASCII bytes of a string. -/
def asciiBytes (chars : List Char) : List UInt8 := chars.map fun c => UInt8.ofNat c.toNat

theorem toNat_ofNat_of_isDigit {c : Char} (digit : c.isDigit = true) :
    (UInt8.ofNat c.toNat).toNat = c.toNat ∧ 48 ≤ c.toNat ∧ c.toNat ≤ 57 := by
  have bounds : 48 ≤ c.toNat ∧ c.toNat ≤ 57 := by
    simpa [Char.isDigit, UInt32.le_iff_toNat_le] using digit
  exact ⟨by rw [UInt8.toNat_ofNat', Nat.mod_eq_of_lt (by omega)], bounds⟩

theorem magnitude_asciiBytes {chars : List Char} (digits : ∀ c ∈ chars, c.isDigit = true) :
    magnitude (asciiBytes chars) = Nat.ofDigitChars 10 chars 0 := by
  rw [magnitude, Nat.ofDigitChars_eq_foldl, asciiBytes, List.foldl_map]
  generalize 0 = value
  induction chars generalizing value with
  | nil => rfl
  | cons c chars ih =>
      rw [List.foldl_cons, List.foldl_cons,
        (toNat_ofNat_of_isDigit (digits c List.mem_cons_self)).1]
      exact ih (fun other member => digits other (List.mem_cons_of_mem c member)) _

theorem readDigits_toDigits (n : Nat) : readDigits (asciiBytes (Nat.toDigits 10 n)) = some n := by
  have digits : ∀ c ∈ Nat.toDigits 10 n, c.isDigit = true := fun c member =>
    Nat.isDigit_of_mem_toDigits (by decide) (by decide) member
  rw [readDigits, if_neg, magnitude_asciiBytes digits, Nat.ofDigitChars_ten_toDigits]
  rintro (nothing | other)
  · exact Nat.toDigits_ne_nil (List.map_eq_nil_iff.mp nothing)
  · refine absurd other (ne_false_of_eq_true (List.all_eq_true.mpr fun byte member => ?_))
    obtain ⟨c, inside, rfl⟩ := List.mem_map.mp member
    have bounds := toNat_ofNat_of_isDigit (digits c inside)
    rw [isDigitByte, bounds.1]
    simpa using bounds.2

/-- What was printed is read back where the type holds it, and refused elsewhere. -/
theorem readInteger_toString_eq (type : IntegerType) (value : Int) :
    readInteger type (asciiBytes (toString value).toList) =
      (some value).filter fun value => type.Holds value := by
  cases value with
  | ofNat n =>
      rw [Int.ofNat_eq_natCast, toList_toString_natCast, readInteger, if_neg, readDigits_toDigits]
      · rfl
      · rintro ⟨-, sign⟩
        -- A digit is no minus sign.
        obtain ⟨byte, rest, whole⟩ := List.exists_cons_of_ne_nil
          (show asciiBytes (Nat.toDigits 10 n) ≠ [] from fun nothing =>
            Nat.toDigits_ne_nil (List.map_eq_nil_iff.mp nothing))
        rw [whole, List.head?_cons, Option.some.injEq] at sign
        have member : byte ∈ asciiBytes (Nat.toDigits 10 n) := whole ▸ List.mem_cons_self
        obtain ⟨c, inside, rfl⟩ := List.mem_map.mp member
        have bounds := toNat_ofNat_of_isDigit
          (Nat.isDigit_of_mem_toDigits (by decide) (by decide) inside)
        rw [sign] at bounds
        obtain ⟨same, low, -⟩ := bounds
        exact absurd (same ▸ low) (by decide)
  | negSucc n =>
      rw [toList_toString_negSucc]
      by_cases negative : type.low < 0
      · rw [readInteger, if_pos ⟨negative, rfl⟩]
        change Option.filter _ (Option.map _ (readDigits (asciiBytes (Nat.toDigits 10 (n + 1))))) = _
        rw [readDigits_toDigits]
        rfl
      · have refused : ¬ type.Holds (Int.negSucc n) := fun holds =>
          negative (Int.lt_of_le_of_lt holds.1 (Int.negSucc_lt_zero n))
        rw [readInteger, if_neg fun signed => negative signed.1, Option.filter_some,
          if_neg (by simpa using refused)]
        rfl

theorem readInteger_toString {type : IntegerType} {value : Int} (holds : type.Holds value) :
    readInteger type (asciiBytes (toString value).toList) = some value := by
  rw [readInteger_toString_eq, Option.filter_some, if_pos (decide_eq_true holds)]

end LlmLab
