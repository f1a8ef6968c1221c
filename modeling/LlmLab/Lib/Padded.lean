import LlmLab.Lib.Decimal
import Mathlib.Algebra.Order.Ring.Nat
import Mathlib.Data.List.Lex
import Mathlib.Data.Char

/-!
# Padded numerals

A natural number printed with zeros in front up to a width.  As texts the numerals of one length
are ordered as their numbers are, and a longer numeral comes before the greatest shorter one.
-/

namespace LlmLab

/-- The decimal digits of a number, with zeros in front up to a width. -/
def padded (width n : Nat) : List Char :=
  List.replicate (width - (Nat.toDigits 10 n).length) '0' ++ Nat.toDigits 10 n

variable {width m n : Nat}

theorem isDigit_of_mem_padded {c : Char} (member : c ∈ padded width n) : c.isDigit = true := by
  rcases List.mem_append.mp member with zero | digit
  · rw [List.eq_of_mem_replicate zero]
    rfl
  · exact Nat.isDigit_of_mem_toDigits (by decide) (by decide) digit

theorem ofDigitChars_padded (width n : Nat) : Nat.ofDigitChars 10 (padded width n) 0 = n := by
  rw [padded, Nat.ofDigitChars_append, Nat.ofDigitChars_replicate_zero, Nat.mul_zero,
    Nat.ofDigitChars_ten_toDigits]

theorem padded_injective (width : Nat) : Function.Injective (padded width) := fun m n same => by
  rw [← ofDigitChars_padded width m, same, ofDigitChars_padded]

theorem length_padded (width n : Nat) :
    (padded width n).length = max width (Nat.toDigits 10 n).length := by
  rw [padded, List.length_append, List.length_replicate]
  omega

theorem length_padded_le_iff {digits : Nat} (wide : width ≤ digits) (some : 0 < digits) :
    (padded width n).length ≤ digits ↔ n < 10 ^ digits := by
  rw [length_padded, Nat.max_le, Nat.length_toDigits_le_iff (by decide) some]
  exact and_iff_right wide

/-! ## Order -/

/-- A character's place among the digits. -/
theorem digit_bounds {c : Char} (digit : c.isDigit = true) : 48 ≤ c.toNat ∧ c.toNat ≤ 57 := by
  simpa [Char.isDigit, UInt32.le_iff_toNat_le] using digit

theorem ofDigitChars_lt_pow {chars : List Char} (digits : ∀ c ∈ chars, c.isDigit = true) :
    Nat.ofDigitChars 10 chars 0 < 10 ^ chars.length := by
  induction chars with
  | nil => decide
  | cons c chars ih =>
      have rest := ih fun other member => digits other (List.mem_cons_of_mem c member)
      have bounds := digit_bounds (digits c List.mem_cons_self)
      have zero : '0'.toNat = 48 := rfl
      rw [Nat.ofDigitChars_cons, Nat.ofDigitChars_eq_ofDigitChars_zero, List.length_cons,
        Nat.pow_succ, zero]
      have most : 10 ^ chars.length * (10 * 0 + (c.toNat - 48)) ≤ 10 ^ chars.length * 9 :=
        Nat.mul_le_mul_left _ (by omega)
      omega

/-- Of two numerals of one length the one of the smaller number is the smaller text. -/
theorem lt_of_ofDigitChars_lt {left right : List Char}
    (digitsLeft : ∀ c ∈ left, c.isDigit = true) (digitsRight : ∀ c ∈ right, c.isDigit = true)
    (length : left.length = right.length)
    (less : Nat.ofDigitChars 10 left 0 < Nat.ofDigitChars 10 right 0) : left < right := by
  induction left generalizing right with
  | nil =>
      rw [List.length_nil, eq_comm, List.length_eq_zero_iff] at length
      subst length
      exact absurd less (lt_irrefl _)
  | cons c left ih =>
      cases right with
      | nil => cases length
      | cons d right =>
          have restLeft := fun other member =>
            digitsLeft other (List.mem_cons_of_mem c member)
          have restRight := fun other member =>
            digitsRight other (List.mem_cons_of_mem d member)
          have boundsLeft := digit_bounds (digitsLeft c List.mem_cons_self)
          have boundsRight := digit_bounds (digitsRight d List.mem_cons_self)
          have zero : '0'.toNat = 48 := rfl
          rw [List.length_cons, List.length_cons, Nat.add_right_cancel_iff] at length
          rw [Nat.ofDigitChars_cons, Nat.ofDigitChars_cons,
            Nat.ofDigitChars_eq_ofDigitChars_zero, @Nat.ofDigitChars_eq_ofDigitChars_zero right,
            length, zero] at less
          rw [List.cons_lt_cons_iff]
          rcases lt_trichotomy c.toNat d.toNat with before | same | after
          · exact Or.inl before
          · obtain rfl := Char.toNat_inj.mp same
            exact Or.inr ⟨rfl, ih restLeft restRight length (by omega)⟩
          · have short := ofDigitChars_lt_pow restRight
            have gap : 10 ^ right.length * (10 * 0 + (d.toNat - 48)) + 10 ^ right.length ≤
                10 ^ right.length * (10 * 0 + (c.toNat - 48)) := by
              rw [← Nat.mul_succ]
              exact Nat.mul_le_mul_left _ (by omega)
            omega

/-- Between two numbers of which no power of ten beyond the width lies, texts and numbers agree. -/
theorem padded_lt (less : m < n)
    (close : ∀ digits, width ≤ digits → 0 < digits → m < 10 ^ digits → n < 10 ^ digits) :
    padded width m < padded width n := by
  have lengths : (padded width m).length = (padded width n).length := by
    refine le_antisymm ?_ ?_
    · rw [length_padded, length_padded]
      have grows : (Nat.toDigits 10 m).length ≤ (Nat.toDigits 10 n).length :=
        (Nat.length_toDigits_le_iff (by decide) Nat.length_toDigits_pos).mpr
          (less.trans ((Nat.length_toDigits_le_iff (by decide) Nat.length_toDigits_pos).mp le_rfl))
      omega
    · have wide : width ≤ (padded width m).length := by
        rw [length_padded]
        exact le_max_left _ _
      have some : 0 < (padded width m).length := by
        rw [length_padded]
        exact Nat.lt_of_lt_of_le Nat.length_toDigits_pos (le_max_right _ _)
      exact (length_padded_le_iff wide some).mpr
        (close _ wide some ((length_padded_le_iff wide some).mp le_rfl))
  exact lt_of_ofDigitChars_lt (fun _ => isDigit_of_mem_padded) (fun _ => isDigit_of_mem_padded)
    lengths (by rwa [ofDigitChars_padded, ofDigitChars_padded])

theorem append_lt {left right : List Char} (rest : List Char)
    (length : left.length = right.length) (less : left < right) : left ++ rest < right := by
  induction left generalizing right with
  | nil =>
      rw [List.length_nil, eq_comm, List.length_eq_zero_iff] at length
      subst length
      cases less
  | cons c left ih =>
      cases right with
      | nil => cases length
      | cons d right =>
          rw [List.cons_append, List.cons_lt_cons_iff]
          rcases List.cons_lt_cons_iff.mp less with before | ⟨same, less⟩
          · exact Or.inl before
          · exact Or.inr ⟨same, ih (Nat.succ.inj length) less⟩

/-- A power of ten beyond the width comes, as a text, before the number that precedes it. -/
theorem padded_pow_lt {digits : Nat} (wide : width ≤ digits) (some : 1 < digits) :
    padded width (10 ^ digits) < padded width (10 ^ digits - 1) := by
  obtain ⟨fewer, rfl⟩ : ∃ fewer, digits = fewer + 1 := ⟨digits - 1, by omega⟩
  have ten : 10 ^ (fewer + 1) = 10 * 10 ^ fewer := by rw [Nat.pow_succ, Nat.mul_comm]
  have large : 10 ≤ 10 ^ fewer := Nat.le_self_pow (by omega) 10
  have whole : padded width (10 ^ (fewer + 1)) = Nat.toDigits 10 (10 ^ fewer) ++ ['0'] := by
    have long : width ≤ (Nat.toDigits 10 (10 ^ (fewer + 1))).length := by
      refine wide.trans (Nat.le_of_lt (Nat.lt_of_not_le fun short => ?_))
      exact absurd ((Nat.length_toDigits_le_iff (by decide) (by omega)).mp short) (lt_irrefl _)
    rw [padded, Nat.sub_eq_zero_of_le long, List.replicate_zero, List.nil_append,
      Nat.toDigits_of_base_le (by decide) (by omega), ten, Nat.mul_div_cancel_left _ (by decide),
      Nat.mul_mod_right]
    rfl
  have front : (Nat.toDigits 10 (10 ^ fewer)).length = fewer + 1 := by
    refine le_antisymm ?_ (Nat.lt_of_not_le fun short => ?_)
    · exact (Nat.length_toDigits_le_iff (by decide) (by omega)).mpr (by omega)
    · exact absurd ((Nat.length_toDigits_le_iff (by decide) (by omega)).mp short) (lt_irrefl _)
  have back : (padded width (10 ^ (fewer + 1) - 1)).length = fewer + 1 := by
    refine le_antisymm ?_ ?_
    · exact (length_padded_le_iff wide (by omega)).mpr (by omega)
    · rw [length_padded]
      refine le_trans (Nat.lt_of_not_le fun short => ?_) (le_max_right _ _)
      have bound := (Nat.length_toDigits_le_iff (by decide) (by omega)).mp short
      omega
  rw [whole]
  refine append_lt _ (front.trans back.symm) (lt_of_ofDigitChars_lt (fun c member =>
    Nat.isDigit_of_mem_toDigits (by decide) (by decide) member)
    (fun _ => isDigit_of_mem_padded) (front.trans back.symm) ?_)
  rw [Nat.ofDigitChars_ten_toDigits, ofDigitChars_padded]
  omega

end LlmLab
