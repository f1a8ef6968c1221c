import Mathlib.Algebra.BigOperators.Group.List.Basic
import Mathlib.Algebra.BigOperators.Ring.List
import Mathlib.Algebra.GroupWithZero.Nat
import Mathlib.Algebra.Ring.Int.Defs
import Mathlib.Algebra.Ring.Nat
import Mathlib.Data.List.Induction
import Mathlib.Data.List.Sort

/-!
# Lists as arrays and as sorted sequences

* `getD_modify`, `sum_map_modify`: reading and summing a list after one element is
  updated in place.
* `sum_map_fill`: what containers of one size hold when they are filled in order.
* `sum_map_clear`: what is left of a sum when some of the summands are cleared.
* `filter_eq_singleton`: the one element with a given image.
* `sum_map_filter_key`: sums over the elements under each of some keys.
* `foldl_keepLeast`: the least value of the elements that have one.
* `sortBy key`: sorting by an injective key.  A list is `sortBy key xs` as soon as it is a
  sorted permutation of `xs` (`eq_sortBy`), so sorting commutes with filtering.
-/

namespace LlmLab

universe u v w

variable {α : Type u} {κ : Type v}

/-! ## In-place update -/

theorem getD_modify (xs : List α) (i j : Nat) (f : α → α) (default : α) :
    (xs.modify i f).getD j default =
      if i = j ∧ j < xs.length then f (xs.getD j default) else xs.getD j default := by
  simp only [List.getD_eq_getElem?_getD, List.getElem?_modify]
  by_cases inside : j < xs.length
  · by_cases equal : i = j <;> simp [equal, inside]
  · simp [inside]

theorem sum_map_modify (xs : List α) (i : Nat) (f : α → α) (weight : α → Nat) (default : α)
    (inside : i < xs.length) :
    ((xs.modify i f).map weight).sum + weight (xs.getD i default) =
      (xs.map weight).sum + weight (f (xs.getD i default)) := by
  induction xs generalizing i with
  | nil => simp at inside
  | cons x rest ih =>
      cases i with
      | zero =>
          simp only [List.modify_zero_cons, List.map_cons, List.sum_cons, List.getD_cons_zero]
          omega
      | succ i =>
          have tail := ih i (by simpa using inside)
          simp only [List.modify_succ_cons, List.map_cons, List.sum_cons, List.getD_cons_succ]
          omega

/-! ## Filling in order -/

/-- Containers of one size that take `count` elements in order hold as many as fit. -/
theorem sum_map_fill {xs : List α} {weight : α → Nat} {size count : Nat}
    (fill : ∀ i x, xs[i]? = some x → weight x = min size (count - i * size)) :
    (xs.map weight).sum = min count (xs.length * size) := by
  induction xs using List.reverseRecOn with
  | nil => simp
  | append_singleton front last ih =>
      have before := ih fun i x found => fill i x (by
        rw [List.getElem?_append_left (List.getElem?_eq_some_iff.mp found).1]
        exact found)
      have here := fill front.length last (by simp)
      rw [List.map_append, List.sum_append, before, List.map_singleton, List.sum_singleton, here,
        List.length_append, List.length_singleton, Nat.add_mul, Nat.one_mul]
      omega

/-- Clearing the weight of some elements takes their weights out of the sum. -/
theorem sum_map_clear [DecidableEq α] {xs cleared : List α} (weight : α → Nat) (nodup : xs.Nodup)
    (distinct : cleared.Nodup) (subset : cleared ⊆ xs) :
    (xs.map weight).sum =
      (xs.map fun x => if x ∈ cleared then 0 else weight x).sum + (cleared.map weight).sum := by
  have split : ∀ ys : List α, (ys.map weight).sum =
      (ys.map fun x => if x ∈ cleared then 0 else weight x).sum +
        ((ys.filter (· ∈ cleared)).map weight).sum := by
    intro ys
    induction ys with
    | nil => rfl
    | cons y rest ih =>
        by_cases member : y ∈ cleared <;> simp [member, ih] <;> omega
  have kept : (xs.filter (· ∈ cleared)).Perm cleared := by
    refine (List.perm_ext_iff_of_nodup (nodup.filter _) distinct).mpr fun x => ?_
    rw [List.mem_filter, decide_eq_true_eq]
    exact and_iff_right_of_imp fun member => subset member
  rw [split xs, (kept.map weight).sum_eq]

/-- Each element below a bound is met once for every time it occurs. -/
theorem sum_count_range {xs : List Nat} {n : Nat} (inside : ∀ x ∈ xs, x < n) :
    ((List.range n).map xs.count).sum = xs.length := by
  induction xs with
  | nil => simp
  | cons y rest ih =>
      have once : ((List.range n).map fun x => if y = x then 1 else 0).sum = 1 := by
        rw [List.sum_map_eq_nsmul_single y _ fun x other _ => if_neg (Ne.symm other),
          List.count_range, if_pos (inside y List.mem_cons_self), if_pos rfl]
        rfl
      have step : (y :: rest).count = fun x => rest.count x + if y = x then 1 else 0 :=
        funext fun x => by simp only [List.count_cons, beq_iff_eq]
      rw [step, List.sum_map_add, once, ih fun x member => inside x (List.mem_cons_of_mem y member)]
      rfl

/-- What is not among the first elements of a duplicate-free list is behind them. -/
theorem mem_drop_iff {xs : List α} (nodup : xs.Nodup) {count : Nat} {x : α} :
    x ∈ xs.drop count ↔ x ∈ xs ∧ x ∉ xs.take count := by
  have split := List.take_append_drop count xs
  rw [← split, List.nodup_append] at nodup
  constructor
  · exact fun behind => ⟨List.mem_of_mem_drop behind, fun front => nodup.2.2 x front x behind rfl⟩
  · intro ⟨member, behind⟩
    rw [← split, List.mem_append] at member
    exact member.resolve_left behind

/-- A sum of equal weights over the kept elements. -/
theorem sum_map_kept {xs : List α} {weight : α → Nat} {size : Nat} (keep : α → Bool)
    (same : ∀ x ∈ xs, weight x = if keep x then size else 0) :
    (xs.map weight).sum = (xs.filter keep).length * size := by
  induction xs with
  | nil => simp
  | cons x rest ih =>
      have tail := ih fun y member => same y (List.mem_cons_of_mem _ member)
      rw [List.map_cons, List.sum_cons, tail, same x List.mem_cons_self, List.filter_cons]
      by_cases kept : keep x = true
      · rw [if_pos kept, if_pos kept, List.length_cons, Nat.succ_mul, Nat.add_comm]
      · rw [if_neg kept, if_neg kept, Nat.zero_add]

/-- Flattening what is kept leaves the rest empty. -/
theorem flatMap_filter {β : Type v} (xs : List α) (keep : α → Bool) (f : α → List β) :
    (xs.filter keep).flatMap f = xs.flatMap fun x => if keep x then f x else [] := by
  induction xs with
  | nil => rfl
  | cons x rest ih => by_cases kept : keep x <;> simp [kept, ih]

/-- A sum over concatenated lists. -/
theorem sum_map_flatMap {β : Type v} (xs : List α) (f : α → List β) (weight : β → Nat) :
    ((xs.flatMap f).map weight).sum = (xs.map fun x => ((f x).map weight).sum).sum := by
  rw [List.map_flatMap, List.flatMap, List.sum_flatten, List.map_map]
  rfl

/-- A sum of ones counts. -/
theorem sum_map_ite (xs : List α) (property : α → Prop) [DecidablePred property] :
    (xs.map fun x => if property x then 1 else 0).sum = xs.countP fun x => property x := by
  induction xs with
  | nil => rfl
  | cons x xs ih =>
      rw [List.map_cons, List.sum_cons, ih, List.countP_cons, Nat.add_comm]
      simp only [decide_eq_true_eq]

/-- The elements under distinct keys add up to all elements with these keys. -/
theorem sum_map_filter_key [DecidableEq κ] {keys : List κ} (nodup : keys.Nodup) {xs : List α}
    {key : α → κ} (inside : ∀ x ∈ xs, key x ∈ keys) (weight : α → Nat) :
    (keys.map fun k => ((xs.filter fun x => key x = k).map weight).sum).sum =
      (xs.map weight).sum := by
  induction xs with
  | nil => simp
  | cons x xs ih =>
      rw [List.forall_mem_cons] at inside
      have split : ∀ k, (((x :: xs).filter fun x => key x = k).map weight).sum =
          (if k = key x then 1 else 0) * weight x +
            ((xs.filter fun x => key x = k).map weight).sum := fun k => by
        by_cases same : key x = k
        · simp [same]
        · simp [same, Ne.symm same]
      have once : (keys.map fun k => if k = key x then 1 else 0).sum = 1 := by
        have counted := List.count_eq_one_of_mem nodup inside.1
        unfold List.count at counted
        exact (sum_map_ite ..).trans ((List.countP_congr fun k _ => by simp).trans counted)
      simp only [split]
      rw [List.sum_map_add, ih inside.2, List.sum_map_mul_right, once, Nat.one_mul, List.map_cons,
        List.sum_cons]

/-- Where an image is taken once, filtering by it leaves one element. -/
theorem filter_eq_singleton {β : Type v} [DecidableEq β] {f : α → β} {xs : List α}
    (nodup : (xs.map f).Nodup) {x : α} (member : x ∈ xs) :
    xs.filter (fun y => f y = f x) = [x] := by
  induction xs with
  | nil => cases member
  | cons first rest ih =>
      rw [List.map_cons, List.nodup_cons] at nodup
      rcases List.mem_cons.mp member with rfl | later
      · have others : rest.filter (fun y => f y = f x) = [] := List.filter_eq_nil_iff.mpr
          fun y member same => nodup.1 (by
            rw [← of_decide_eq_true same]
            exact List.mem_map_of_mem member)
        rw [List.filter_cons_of_pos (by simp), others]
      · have apart : f first ≠ f x := fun same => nodup.1 (same ▸ List.mem_map_of_mem later)
        rw [List.filter_cons_of_neg (by simpa using apart)]
        exact ih nodup.2 later

/-! ## The least value -/

/-- Keep the smaller one of two values, the first one of two equal ones. -/
def keepLeast [LinearOrder κ] (best : Option κ) : Option κ → Option κ
  | none => best
  | some value => if best.all (value < ·) then some value else best

/-- Keeping the least value seen finds the minimum. -/
theorem foldl_keepLeast [LinearOrder κ] (value : α → Option κ) (xs : List α) :
    xs.foldl (fun best x => keepLeast best (value x)) none = (xs.filterMap value).min? := by
  have general : ∀ best : Option κ, xs.foldl (fun best x => keepLeast best (value x)) best =
      (best.toList ++ xs.filterMap value).min? := by
    induction xs with
    | nil => intro best; cases best <;> rfl
    | cons x rest ih =>
        intro best
        rw [List.foldl_cons, ih]
        cases here : value x with
        | none => simp [keepLeast, here]
        | some v =>
            rw [List.filterMap_cons_some here]
            cases best with
            | none => simp [keepLeast]
            | some b =>
                have least : keepLeast (some b) (some v) = some (min b v) := by
                  by_cases less : v < b
                  · simp [keepLeast, less, less.le]
                  · simp [keepLeast, less, not_lt.mp less]
                rw [least]
                rfl
  exact general none

/-- The largest of some values is a bound that one of them reaches. -/
theorem foldl_max_eq [LinearOrder α] {values : List α} {start most : α} (all : ∀ value ∈ values, value ≤ most)
    (low : start ≤ most) (reached : start = most ∨ most ∈ values) :
    values.foldl max start = most := by
  induction values generalizing start with
  | nil => exact reached.resolve_right List.not_mem_nil
  | cons value values ih =>
      rw [List.forall_mem_cons] at all
      refine ih all.2 (max_le low all.1) ?_
      rcases reached with rfl | member
      · exact .inl (max_eq_left all.1)
      · rcases List.mem_cons.mp member with rfl | later
        · exact .inl (max_eq_right low)
        · exact .inr later

/-- A filter that keeps the first elements leaves them first. -/
theorem take_filter {xs : List α} {keep : α → Bool} {count : Nat}
    (kept : ∀ x ∈ xs.take count, keep x = true) : (xs.filter keep).take count = xs.take count := by
  induction xs generalizing count with
  | nil => rfl
  | cons head rest ih =>
      cases count with
      | zero => rfl
      | succ count =>
          rw [List.take_succ_cons] at kept ⊢
          rw [List.filter_cons_of_pos (kept head List.mem_cons_self), List.take_succ_cons,
            ih fun x member => kept x (List.mem_cons_of_mem head member)]

/-- A split of a list with one more element is a split at that element or before it. -/
theorem concat_eq_append_cons_iff {xs before after : List α} {x y : α} :
    xs ++ [y] = before ++ x :: after ↔ (before = xs ∧ x = y ∧ after = []) ∨
      ∃ front, after = front ++ [y] ∧ xs = before ++ x :: front := by
  constructor
  · intro split
    rcases List.eq_nil_or_concat after with rfl | ⟨front, last, rfl⟩
    · obtain ⟨same, last⟩ := List.append_inj' split rfl
      cases last
      exact Or.inl ⟨same.symm, rfl, rfl⟩
    · rw [List.concat_eq_append, ← List.cons_append, ← List.append_assoc] at split
      obtain ⟨same, last⟩ := List.append_inj' split rfl
      cases last
      exact Or.inr ⟨front, List.concat_eq_append .., same⟩
  · rintro (⟨rfl, rfl, rfl⟩ | ⟨front, rfl, rfl⟩)
    · rfl
    · simp

/-- Of two elements, one is listed before the other. -/
theorem pair_sublist_or {xs : List α} {x y : α} (left : x ∈ xs) (right : y ∈ xs) (apart : x ≠ y) :
    [x, y].Sublist xs ∨ [y, x].Sublist xs := by
  induction xs with
  | nil => cases left
  | cons head rest ih =>
      rcases List.mem_cons.mp left with rfl | first
      · have second := (List.mem_cons.mp right).resolve_left apart.symm
        exact Or.inl ((List.singleton_sublist.mpr second).cons_cons x)
      · rcases List.mem_cons.mp right with rfl | second
        · exact Or.inr ((List.singleton_sublist.mpr first).cons_cons y)
        · exact (ih first second).imp (·.cons head) (·.cons head)

/-! ## Sorting by a key -/

/-- Related lists: each element on the right has its partner on the left. -/
theorem exists_mem_of_forall₂ {β : Type v} {relation : α → β → Prop} {xs : List α} {ys : List β}
    (related : List.Forall₂ relation xs ys) {y : β} (member : y ∈ ys) :
    ∃ x ∈ xs, relation x y := by
  induction related with
  | nil => cases member
  | cons first rest ih =>
      rcases List.mem_cons.mp member with rfl | later
      · exact ⟨_, List.mem_cons_self, first⟩
      · obtain ⟨x, inside, holds⟩ := ih later
        exact ⟨x, List.mem_cons_of_mem _ inside, holds⟩

/-- Related lists have the same images where related elements have. -/
theorem map_eq_map_of_forall₂ {β : Type v} {γ : Type w} {relation : α → β → Prop} {f : α → γ}
    {g : β → γ} {xs : List α} {ys : List β} (each : List.Forall₂ relation xs ys)
    (same : ∀ x y, relation x y → f x = g y) : xs.map f = ys.map g := by
  induction each with
  | nil => rfl
  | cons here _ ih => rw [List.map_cons, List.map_cons, same _ _ here, ih]

/-- What is joined comes from the separator or from a part, and all of every part is there. -/
theorem mem_intercalate {parts : List (List α)} {separator : List α} {x : α}
    (member : x ∈ separator.intercalate parts) : x ∈ separator ∨ ∃ part ∈ parts, x ∈ part := by
  induction parts with
  | nil => cases member
  | cons part parts ih =>
      rcases parts with _ | ⟨next, rest⟩
      · rw [List.intercalate_singleton] at member
        exact Or.inr ⟨part, List.mem_cons_self, member⟩
      · rw [List.intercalate_cons_cons, List.mem_append, List.mem_append] at member
        rcases member with (first | between) | later
        · exact Or.inr ⟨part, List.mem_cons_self, first⟩
        · exact Or.inl between
        · exact (ih later).imp id fun ⟨other, among, inside⟩ =>
            ⟨other, List.mem_cons_of_mem part among, inside⟩

theorem mem_intercalate_of_mem {parts : List (List α)} {part separator : List α} {x : α}
    (among : part ∈ parts) (inside : x ∈ part) : x ∈ separator.intercalate parts := by
  induction parts with
  | nil => cases among
  | cons first parts ih =>
      rcases parts with _ | ⟨next, rest⟩
      · rw [List.intercalate_singleton, ← List.mem_singleton.mp among]
        exact inside
      · rw [List.intercalate_cons_cons]
        rcases List.mem_cons.mp among with rfl | later
        · exact List.mem_append_left _ (List.mem_append_left _ inside)
        · exact List.mem_append_right _ (ih later)

section SortBy

variable [LinearOrder κ]

/-- Sort by a key. -/
def sortBy (key : α → κ) (xs : List α) : List α :=
  xs.insertionSort (fun a b => key a ≤ key b)

instance total_key (key : α → κ) : Std.Total (fun a b : α => key a ≤ key b) :=
  ⟨fun a b => le_total (key a) (key b)⟩

instance trans_key (key : α → κ) : IsTrans α (fun a b : α => key a ≤ key b) :=
  ⟨fun _ _ _ => le_trans⟩

theorem sortBy_perm (key : α → κ) (xs : List α) : (sortBy key xs).Perm xs :=
  List.perm_insertionSort _ xs

@[simp] theorem mem_sortBy {key : α → κ} {xs : List α} {x : α} : x ∈ sortBy key xs ↔ x ∈ xs :=
  (sortBy_perm key xs).mem_iff

@[simp] theorem length_sortBy (key : α → κ) (xs : List α) :
    (sortBy key xs).length = xs.length :=
  (sortBy_perm key xs).length_eq

theorem sortBy_sorted (key : α → κ) (xs : List α) :
    (sortBy key xs).Pairwise (fun a b => key a ≤ key b) :=
  List.pairwise_insertionSort _ xs

/-- A sorted permutation is the sort, when the key separates the elements. -/
theorem eq_sortBy {key : α → κ} {xs ys : List α}
    (injective : ∀ a ∈ xs, ∀ b ∈ xs, key a = key b → a = b) (perm : ys.Perm xs)
    (sorted : ys.Pairwise (fun a b => key a ≤ key b)) : ys = sortBy key xs :=
  (perm.trans (sortBy_perm key xs).symm).eq_of_pairwise
    (fun a b first second before after =>
      injective a (perm.mem_iff.mp first) b (mem_sortBy.mp second) (le_antisymm before after))
    sorted (sortBy_sorted key xs)

/-- Sorting commutes with filtering, also under a key that agrees on what is kept. -/
theorem sortBy_filter {key key' : α → κ} {xs : List α} (keep : α → Bool)
    (injective : ∀ a ∈ xs, ∀ b ∈ xs, key' a = key' b → a = b)
    (same : ∀ a ∈ xs, keep a = true → key' a = key a) :
    (sortBy key xs).filter keep = sortBy key' (xs.filter keep) := by
  refine eq_sortBy (fun a first b second => injective a (List.mem_of_mem_filter first) b
    (List.mem_of_mem_filter second)) ((sortBy_perm key xs).filter keep) ?_
  refine ((sortBy_sorted key xs).filter keep).imp_of_mem fun {a b} first second before => ?_
  rw [List.mem_filter, mem_sortBy] at first second
  rw [same a first.1 first.2, same b second.1 second.2]
  exact before

/-- The sort lists an element of a smaller key first. -/
theorem pair_sublist_sortBy {key : α → κ} {xs : List α} {x y : α} (left : x ∈ xs) (right : y ∈ xs)
    (less : key x < key y) : [x, y].Sublist (sortBy key xs) := by
  have apart : x ≠ y := by
    rintro rfl
    exact lt_irrefl (key x) less
  have first : x ∈ sortBy key xs := mem_sortBy.mpr left
  have second : y ∈ sortBy key xs := mem_sortBy.mpr right
  rcases pair_sublist_or first second apart with here | back
  · exact here
  · have before := List.pairwise_iff_forall_sublist.mp (sortBy_sorted key xs) back
    exact absurd less (not_lt.mpr before)

/-- Among the elements of one key the sort keeps the first one first. -/
theorem find?_sortBy {key : α → κ} {xs : List α} {k : κ} {test : α → Bool}
    (one : ∀ x, test x = true ↔ key x = k) : (sortBy key xs).find? test = xs.find? test := by
  have inserted : ∀ (x : α) (sorted : List α),
      (sorted.orderedInsert (fun a b => key a ≤ key b) x).find? test =
        (x :: sorted).find? test := fun x sorted => by
    induction sorted with
    | nil => rfl
    | cons y sorted ih =>
        rw [List.orderedInsert_cons]
        split
        · rfl
        · next less =>
            rw [List.find?_cons, ih]
            -- The element passes over `y`, whose key is another one then.
            cases here : test x with
            | false => cases there : test y <;> simp [here, there]
            | true =>
                have apart : test y = false := Bool.eq_false_iff.mpr fun there =>
                  less (((one x).mp here).trans ((one y).mp there).symm).le
                simp [here, apart]
  induction xs with
  | nil => rfl
  | cons x xs ih =>
      have step : sortBy key (x :: xs) =
          (sortBy key xs).orderedInsert (fun a b => key a ≤ key b) x := rfl
      rw [step, inserted, List.find?_cons, List.find?_cons, ih]

end SortBy

end LlmLab
