import LlmLab.Lib.Lists
import Mathlib.Algebra.BigOperators.Group.List.Basic
import Mathlib.Algebra.Order.Group.Int
import Mathlib.Data.Prod.Lex
import Mathlib.Tactic.Linarith
import Mathlib.Tactic.Ring

/-!
# A level moved in steps

A level starts at zero and moves by signed steps at given times.  The area under it up to a time is
the sum over the steps of their size times what is left, in whatever order they are listed.  When
every down step is preceded by an up step of its own and up steps come first among steps of one
time, the level never goes below zero.
-/

namespace LlmLab

/-- When the level moves, and by how much. -/
abbrev LevelStep := Int × Int

variable {steps : List LevelStep}

/-- The level after the steps. -/
def level (steps : List LevelStep) : Int := (steps.map Prod.snd).sum

/-- The area under the level from before the steps up to the given time. -/
def area (finish : Int) (steps : List LevelStep) : Int :=
  (steps.map fun step => step.2 * (finish - step.1)).sum

@[simp] theorem level_nil : level [] = 0 := rfl

@[simp] theorem area_nil (finish : Int) : area finish [] = 0 := rfl

theorem level_concat (step : LevelStep) : level (steps ++ [step]) = level steps + step.2 := by
  simp [level]

theorem area_concat (finish : Int) (step : LevelStep) :
    area finish (steps ++ [step]) = area finish steps + step.2 * (finish - step.1) := by
  simp [area]

theorem area_append (finish : Int) (first second : List LevelStep) :
    area finish (first ++ second) = area finish first + area finish second := by
  simp [area]

/-- The area grows by the level for every unit of time. -/
theorem area_later (earlier later : Int) :
    area later steps = area earlier steps + level steps * (later - earlier) := by
  induction steps with
  | nil => simp
  | cons step steps ih =>
      simp only [area, level, List.map_cons, List.sum_cons] at ih ⊢
      rw [ih]
      ring

theorem level_perm {other : List LevelStep} (perm : steps.Perm other) :
    level steps = level other :=
  (perm.map Prod.snd).sum_eq

theorem area_perm {other : List LevelStep} (finish : Int) (perm : steps.Perm other) :
    area finish steps = area finish other :=
  (perm.map _).sum_eq

/-- Steps in the order of their times, up steps first among those of one time. -/
def stepOrder (step : LevelStep) : Int ×ₗ Int := toLex (step.1, -step.2)

theorem stepOrder_le_iff {a b : LevelStep} :
    stepOrder a ≤ stepOrder b ↔ a.1 < b.1 ∨ a.1 = b.1 ∧ b.2 ≤ a.2 := by
  rw [stepOrder, stepOrder, Prod.Lex.toLex_le_toLex]
  simp only [neg_le_neg_iff]

/-- Steps of one unit up or down. -/
def UnitSteps (steps : List LevelStep) : Prop := ∀ step ∈ steps, step.2 = 1 ∨ step.2 = -1

/-- The number of up steps, or of down steps, up to a time. -/
def countSteps (delta : Int) (time : Int) (steps : List LevelStep) : Nat :=
  steps.countP fun step => step.2 = delta ∧ step.1 ≤ time

/-- The level is the number of up steps less the number of down steps. -/
theorem level_eq_count (units : UnitSteps steps) :
    level steps = (steps.countP fun step => step.2 = 1) - (steps.countP fun step => step.2 = -1) := by
  induction steps with
  | nil => rfl
  | cons step steps ih =>
      have rest := ih fun other member => units other (List.mem_cons_of_mem step member)
      have cons : level (step :: steps) = step.2 + level steps := List.sum_cons
      rw [cons, rest, List.countP_cons, List.countP_cons]
      rcases units step List.mem_cons_self with up | down
      · rw [up]
        simp
        ring
      · rw [down]
        simp
        ring

/-- If up to every time there are at least as many up steps as down steps, the level stays
non-negative on the way through the sorted steps. -/
theorem level_take_nonneg (units : UnitSteps steps)
    (balanced : ∀ time, countSteps (-1) time steps ≤ countSteps 1 time steps) (count : Nat) :
    0 ≤ level ((sortBy stepOrder steps).take count) := by
  have perm := sortBy_perm stepOrder steps
  have sorted := sortBy_sorted stepOrder steps
  generalize whole : sortBy stepOrder steps = all at perm sorted ⊢
  have split := List.take_append_drop count all
  generalize all.take count = front at split ⊢
  generalize all.drop count = back at split
  subst split
  have inside : UnitSteps front := fun step member =>
    units step (perm.mem_iff.mp (List.mem_append_left back member))
  rw [level_eq_count inside, sub_nonneg, Int.ofNat_le]
  -- The last down step so far: every up step before its time has been taken already.
  cases latest : ((front.filter fun step => step.2 = -1).map Prod.fst).max? with
  | none =>
      have none : front.filter (fun step => step.2 = -1) = [] :=
        List.map_eq_nil_iff.mp (List.max?_eq_none_iff.mp latest)
      rw [List.countP_eq_length_filter, none]
      exact Nat.zero_le _
  | some time =>
      obtain ⟨member, largest⟩ := List.max?_eq_some_iff.mp latest
      obtain ⟨last, taken, rfl⟩ := List.mem_map.mp member
      rw [List.mem_filter, decide_eq_true_iff] at taken
      have downs : front.countP (fun step => step.2 = -1) ≤ countSteps (-1) last.1 front := by
        refine List.countP_mono_left fun step among down => ?_
        rw [decide_eq_true_iff] at down ⊢
        exact ⟨down, largest _ (List.mem_map_of_mem (List.mem_filter.mpr ⟨among, by simpa using down⟩))⟩
      have ahead : countSteps 1 last.1 back = 0 := by
        refine List.countP_eq_zero.mpr fun step among => ?_
        rw [decide_eq_true_iff]
        rintro ⟨up, before⟩
        have order := (List.pairwise_append.mp sorted).2.2 last taken.1 step among
        rcases stepOrder_le_iff.mp order with less | ⟨-, less⟩
        · omega
        · rw [up, taken.2] at less
          omega
      have whole : ∀ delta, countSteps delta last.1 steps =
          countSteps delta last.1 front + countSteps delta last.1 back := fun delta => by
        rw [countSteps, ← perm.countP_eq, List.countP_append]
        rfl
      calc front.countP (fun step => step.2 = -1)
          ≤ countSteps (-1) last.1 front := downs
        _ ≤ countSteps (-1) last.1 steps := by rw [whole]; exact Nat.le_add_right _ _
        _ ≤ countSteps 1 last.1 steps := balanced last.1
        _ = countSteps 1 last.1 front := by rw [whole, ahead, Nat.add_zero]
        _ ≤ front.countP (fun step => step.2 = 1) := by
            refine List.countP_mono_left fun step _ counted => ?_
            rw [decide_eq_true_iff] at counted ⊢
            exact counted.1

end LlmLab
