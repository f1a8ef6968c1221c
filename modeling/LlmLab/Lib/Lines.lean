import Mathlib.Data.List.Basic
import Mathlib.Tactic.Common

/-!
# Lines of a text

A text is cut into lines at the elements that a predicate calls line ends.  A text that was put
together by ending each of its lines with one of them comes apart into the same lines exactly when
no line contains another.
-/

namespace LlmLab

universe u

variable {α : Type u} {stop : α → Bool} {line rest : List α} {last : α} {lines : List (List α)}

/-- The lines of a text; what follows the last line end is a line unless it is empty. -/
def linesBy (stop : α → Bool) : List α → List (List α)
  | [] => []
  | x :: rest =>
      if stop x then [] :: linesBy stop rest
      else match linesBy stop rest with
        | [] => [[x]]
        | line :: others => (x :: line) :: others

/-- Each line followed by one and the same line end. -/
def terminated (last : α) (lines : List (List α)) : List α :=
  lines.flatMap (· ++ [last])

theorem terminated_cons : terminated last (line :: lines) = line ++ last :: terminated last lines := by
  simp [terminated]

/-- A line without a line end is read up to the one that ends it. -/
theorem linesBy_cons (clean : ∀ x ∈ line, stop x = false) (ends : stop last = true) :
    linesBy stop (line ++ last :: rest) = line :: linesBy stop rest := by
  induction line with
  | nil =>
      rw [List.nil_append, linesBy, if_pos ends]
  | cons x line ih =>
      rw [List.cons_append, linesBy, if_neg (by simp [clean x List.mem_cons_self]),
        ih fun y member => clean y (List.mem_cons_of_mem x member)]

/-- Every line end inside a line cuts it once more. -/
theorem length_linesBy_cons (ends : stop last = true) :
    (linesBy stop (line ++ last :: rest)).length =
      line.countP stop + 1 + (linesBy stop rest).length := by
  induction line with
  | nil =>
      rw [List.nil_append, linesBy, if_pos ends, List.length_cons, List.countP_nil]
      omega
  | cons x line ih =>
      rw [List.cons_append, linesBy]
      split
      · next cut =>
          rw [List.length_cons, ih, List.countP_cons_of_pos cut]
          omega
      · next kept =>
          rw [List.countP_cons_of_neg kept, ← ih]
          cases tail : linesBy stop (line ++ last :: rest) with
          | nil =>
              rw [tail, List.length_nil] at ih
              omega
          | cons first others => rfl

/-- Lines without line ends come apart as they were put together. -/
theorem linesBy_terminated (clean : ∀ line ∈ lines, ∀ x ∈ line, stop x = false)
    (ends : stop last = true) : linesBy stop (terminated last lines) = lines := by
  induction lines with
  | nil => rfl
  | cons line lines ih =>
      rw [terminated_cons, linesBy_cons (clean line List.mem_cons_self) ends,
        ih fun other member => clean other (List.mem_cons_of_mem line member)]

/-- As many lines come apart as were put together only if no line contains a line end. -/
theorem length_linesBy_terminated_iff (ends : stop last = true) :
    (linesBy stop (terminated last lines)).length = lines.length ↔
      ∀ line ∈ lines, ∀ x ∈ line, stop x = false := by
  refine ⟨fun same => ?_, fun clean => by rw [linesBy_terminated clean ends]⟩
  have atLeast : ∀ lines : List (List α),
      lines.length ≤ (linesBy stop (terminated last lines)).length := fun lines => by
    induction lines with
    | nil => exact Nat.zero_le _
    | cons line lines ih =>
        rw [terminated_cons, length_linesBy_cons ends, List.length_cons]
        omega
  induction lines with
  | nil => exact fun line member => by cases member
  | cons line lines ih =>
      rw [terminated_cons, length_linesBy_cons ends, List.length_cons] at same
      have more := atLeast lines
      have none : line.countP stop = 0 := by omega
      intro other member
      rcases List.mem_cons.mp member with rfl | member
      · intro x inside
        simpa using List.countP_eq_zero.mp none x inside
      · exact ih (by omega) other member

end LlmLab
