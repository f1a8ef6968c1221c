import Mathlib.Algebra.Order.Ring.Int
import Mathlib.Tactic.Linarith

/-!
# Signed machine arithmetic

Expressions of a signed type as C++ evaluates them: an operation whose exact result leaves the
type, and a division by zero, is undefined, and `&&` and `||` evaluate their right operand only
where the left one does not decide.  Division truncates.

A product stays in the type exactly where one factor is within the truncated quotient of a limit
by the other: one lemma for each pair of signs.
-/

namespace LlmLab.Signed

/-! ## Expressions -/

/-- The values of the signed type with `bits` bits besides its sign. -/
def Fits (bits : Nat) (value : Int) : Prop := -(2 ^ bits) ≤ value ∧ value ≤ 2 ^ bits - 1

instance (bits : Nat) (value : Int) : Decidable (Fits bits value) :=
  inferInstanceAs (Decidable (_ ∧ _))

/-- An exact result, where the type has it. -/
def defined (bits : Nat) (value : Int) : Option Int := if Fits bits value then some value else none

/-- `a + b`. -/
def add (bits : Nat) (a b : Int) : Option Int := defined bits (a + b)

/-- `a - b`. -/
def sub (bits : Nat) (a b : Int) : Option Int := defined bits (a - b)

/-- `a * b`. -/
def mul (bits : Nat) (a b : Int) : Option Int := defined bits (a * b)

/-- `a / b`. -/
def div (bits : Nat) (a b : Int) : Option Int :=
  if b = 0 then none else defined bits (a.tdiv b)

/-- `left && right`. -/
def andAlso (left : Bool) (right : Option Bool) : Option Bool :=
  if left then right else some false

/-- `left || right`. -/
def orElse (left right : Option Bool) : Option Bool :=
  left.bind fun holds => if holds then some true else right

variable {bits : Nat} {a b limit : Int}

theorem defined_of_fits (fits : Fits bits a) : defined bits a = some a := if_pos fits

/-- A conjunction is defined where its right operand is wherever the left one holds. -/
theorem andAlso_map {left : Prop} [Decidable left] {operand : Option Int} {value : Int}
    {test : Int → Prop} [DecidablePred test] (evaluated : left → operand = some value) :
    andAlso (decide left) (operand.map fun v => decide (test v)) =
      some (decide (left ∧ test value)) := by
  unfold andAlso
  by_cases holds : left
  · simp [holds, evaluated holds]
  · simp [holds]

theorem orElse_some (left right : Prop) [Decidable left] [Decidable right] :
    orElse (some (decide left)) (some (decide right)) = some (decide (left ∨ right)) := by
  unfold orElse
  by_cases holds : left <;> simp [holds]

/-! ## Quotients of the limits -/

theorem tdiv_eq_ediv_of_pos (nonneg : 0 ≤ limit) : limit.tdiv b = limit / b :=
  Int.tdiv_eq_ediv_of_nonneg nonneg

/-- Positive times positive. -/
theorem tdiv_lt_iff (limit_nonneg : 0 ≤ limit) (pos : 0 < b) :
    limit.tdiv b < a ↔ limit < a * b := by
  rw [tdiv_eq_ediv_of_pos limit_nonneg, Int.ediv_lt_iff_lt_mul pos]

/-- One factor positive, the other below zero. -/
theorem lt_neg_tdiv_iff (limit_nonneg : 0 ≤ limit) (pos : 0 < b) :
    a < (-limit).tdiv b ↔ a * b < -limit := by
  rw [Int.neg_tdiv, tdiv_eq_ediv_of_pos limit_nonneg, lt_neg, Int.ediv_lt_iff_lt_mul pos,
    neg_mul, lt_neg]

/-- Both factors below zero. -/
theorem lt_tdiv_of_neg_iff (limit_nonneg : 0 ≤ limit) (neg : b < 0) :
    a < limit.tdiv b ↔ limit < a * b := by
  have pos : 0 < -b := Int.neg_pos_of_neg neg
  have flipped := @tdiv_lt_iff (-a) (-b) limit limit_nonneg pos
  rw [Int.tdiv_neg, Int.neg_mul_neg, Int.neg_lt_neg_iff] at flipped
  exact flipped

/-- The quotient of a value of the type by another is one, but for its least value by `-1`. -/
theorem fits_tdiv (fits : Fits bits a) (apart : ¬ (a = -(2 ^ bits) ∧ b = -1)) :
    Fits bits (a.tdiv b) := by
  have pos : (0 : Int) < 2 ^ bits := Int.pow_pos (by decide)
  unfold Fits at fits ⊢
  generalize (2 : Int) ^ bits = bound at fits apart pos ⊢
  rcases Nat.lt_or_ge 1 b.natAbs with many | few
  · rcases Nat.eq_zero_or_pos a.natAbs with none | some'
    · rw [Int.natAbs_eq_zero.mp none, Int.zero_tdiv]
      omega
    · have magnitude : (a.tdiv b).natAbs < a.natAbs := by
        rw [Int.natAbs_tdiv]
        exact Nat.div_lt_self some' many
      omega
  · obtain rfl | rfl | rfl : b = 0 ∨ b = 1 ∨ b = -1 := by omega
    · rw [Int.tdiv_zero]
      omega
    · rw [Int.tdiv_one]
      exact fits
    · rw [Int.tdiv_neg, Int.tdiv_one]
      omega

theorem div_of_ne (nonzero : b ≠ 0) (fits : Fits bits a)
    (apart : ¬ (a = -(2 ^ bits) ∧ b = -1)) : div bits a b = some (a.tdiv b) := by
  rw [div, if_neg nonzero, defined_of_fits (fits_tdiv fits apart)]

end LlmLab.Signed
