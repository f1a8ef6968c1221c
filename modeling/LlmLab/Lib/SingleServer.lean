import Mathlib.Data.List.Basic
import Mathlib.Tactic.Linarith

/-!
# A single server

Customers are served one after another in a fixed order.  A service that starts no earlier than the
customer arrives and than all earlier customers leave, and that is never put off without one of
them, starts at the times of the recursion `start = max arrival (previous end)`.
-/

namespace LlmLab

universe u

section SingleServer

variable {α : Type u} (arrival cost : α → Int)

/-- The customers with their starting times, when the server is free from `free` on, or new. -/
def serve : Option Int → List α → List (α × Int)
  | _, [] => []
  | free, customer :: rest =>
      let start := free.elim (arrival customer) (max (arrival customer))
      (customer, start) :: serve (some (start + cost customer)) rest

variable {arrival cost} {start : α → Int}

/-- Starting times that respect the order and waste no time are those of the recursion. -/
theorem serve_eq_map {before after : List α} {free : Option Int}
    (nonneg : ∀ customer ∈ before ++ after, 0 ≤ cost customer)
    (arrived : ∀ customer ∈ before ++ after, arrival customer ≤ start customer)
    (ordered : (before ++ after).Pairwise fun first second =>
      start first + cost first ≤ start second)
    (prompt : ∀ earlier customer rest, before ++ after = earlier ++ customer :: rest →
      start customer = arrival customer ∨
        ∃ other ∈ earlier, start other + cost other = start customer)
    (last : free = before.getLast?.map fun customer => start customer + cost customer) :
    serve arrival cost free after = after.map fun customer => (customer, start customer) := by
  induction after generalizing before free with
  | nil => rfl
  | cons customer rest ih =>
      have here : start customer = free.elim (arrival customer) (max (arrival customer)) := by
        have after := arrived customer (by simp)
        have reasons := prompt before customer rest rfl
        rcases List.eq_nil_or_concat before with rfl | ⟨front, previous, rfl⟩
        · rcases reasons with same | ⟨other, member, -⟩
          · rw [last]
            exact same
          · cases member
        · rw [List.concat_eq_append] at last ordered reasons
          rw [List.getLast?_append_of_ne_nil _ (List.cons_ne_nil _ _)] at last
          rw [last, List.getLast?_singleton, Option.map_some, Option.elim_some]
          rw [List.append_assoc, List.pairwise_append] at ordered
          obtain ⟨-, tail, across⟩ := ordered
          have next := List.rel_of_pairwise_cons tail (List.mem_cons_self ..)
          rcases reasons with same | ⟨other, member, ended⟩
          · omega
          · -- No customer before the previous one leaves later than it does.
            have leaves : start other + cost other ≤ start previous + cost previous := by
              rw [List.mem_append, List.mem_singleton] at member
              rcases member with early | rfl
              · have before := across other early previous (by simp)
                have cost := nonneg previous (by simp)
                omega
              · exact le_rfl
            omega
      have split : before ++ customer :: rest = before ++ [customer] ++ rest := by simp
      rw [split] at nonneg arrived ordered prompt
      unfold serve
      rw [List.map_cons, ← here]
      refine congrArg _ (ih nonneg arrived ordered prompt ?_)
      simp

end SingleServer

end LlmLab
