import Mathlib.Data.List.Basic
import Mathlib.Data.List.Induction
import Mathlib.Data.Set.Basic

/-!
# Hash chains

The digest of a list of blocks links each block to the digest of the blocks before it, from a
root.  Two lists with one digest are equal as long as the link function is free of collisions
on the links the two lists take; two lists that differ at one place have different digests as
long as the link function is reversible.
-/

namespace LlmLab.HashChain

universe u v

variable {δ : Type u} {β : Type v} {link : δ → β → δ} {root : δ} {links : Set (δ × β)}

/-- The digest of a list of blocks. -/
def digest (link : δ → β → δ) (root : δ) (blocks : List β) : δ := blocks.foldl link root

@[simp] theorem digest_nil : digest link root [] = root := rfl

@[simp] theorem digest_concat (blocks : List β) (last : β) :
    digest link root (blocks ++ [last]) = link (digest link root blocks) last := by
  simp [digest]

/-- No two links of a set collide, and none leads back to the root. -/
structure CollisionFree (link : δ → β → δ) (root : δ) (links : Set (δ × β)) : Prop where
  injective : ∀ a ∈ links, ∀ b ∈ links, link a.1 a.2 = link b.1 b.2 → a = b
  root : ∀ a ∈ links, link a.1 a.2 ≠ root

/-- Every link of a chain is in a set. -/
def Within (link : δ → β → δ) (root : δ) (links : Set (δ × β)) (blocks : List β) : Prop :=
  ∀ front last rest, blocks = front ++ last :: rest → (digest link root front, last) ∈ links

theorem Within.front {blocks rest : List β} (within : Within link root links (blocks ++ rest)) :
    Within link root links blocks := fun front last rest' split =>
  within front last (rest' ++ rest) (by rw [split, List.append_assoc, List.cons_append])

theorem Within.last {blocks : List β} {last : β}
    (within : Within link root links (blocks ++ [last])) :
    (digest link root blocks, last) ∈ links :=
  within blocks last [] rfl

@[simp] theorem digest_append (front rest : List β) :
    digest link root (front ++ rest) = digest link (digest link root front) rest := by
  rw [digest, List.foldl_append]
  rfl

@[simp] theorem digest_cons (first : β) (rest : List β) :
    digest link root (first :: rest) = digest link (link root first) rest := rfl

/-! ## Links that lose nothing -/

/-- A link from which either operand can be recovered, given the other one. -/
structure Reversible (link : δ → β → δ) : Prop where
  state : ∀ block, Function.Injective fun state => link state block
  block : ∀ state, Function.Injective (link state)

/-- Different states stay different under the same blocks. -/
theorem Reversible.digest_injective (reversible : Reversible link) (blocks : List β) :
    Function.Injective fun root => digest link root blocks := by
  induction blocks with
  | nil => exact Function.injective_id
  | cons first rest ih => exact ih.comp (reversible.state first)

/-- Two lists of one length that differ at one place only. -/
def OneApart (left right : List β) : Prop :=
  left.length = right.length ∧ ∃ i : Nat, left[i]? ≠ right[i]? ∧ ∀ j : Nat, j ≠ i → left[j]? = right[j]?

/-- Such lists are a common front, two different blocks, and a common rest. -/
theorem OneApart.split {left right : List β} (apart : OneApart left right) :
    ∃ front a b rest, a ≠ b ∧ left = front ++ a :: rest ∧ right = front ++ b :: rest := by
  obtain ⟨lengths, i, differ, agree⟩ := apart
  have inside : i < left.length := by
    by_contra outside
    have beyond := Nat.le_of_not_lt outside
    exact differ (by rw [List.getElem?_eq_none beyond,
      List.getElem?_eq_none (lengths ▸ beyond)])
  have inside' : i < right.length := lengths ▸ inside
  have fronts : left.take i = right.take i := by
    apply List.ext_getElem?
    intro j
    rcases Nat.lt_or_ge j i with before | after
    · rw [List.getElem?_take_of_lt before, List.getElem?_take_of_lt before,
        agree j (Nat.ne_of_lt before)]
    · rw [List.getElem?_take_eq_none after, List.getElem?_take_eq_none after]
  have rests : left.drop (i + 1) = right.drop (i + 1) := by
    apply List.ext_getElem?
    intro j
    rw [List.getElem?_drop, List.getElem?_drop]
    exact agree _ (by omega)
  have blocks : left[i] ≠ right[i] := fun same => differ (by
    rw [List.getElem?_eq_getElem inside, List.getElem?_eq_getElem inside', same])
  have cut : left = left.take i ++ left[i] :: left.drop (i + 1) := by
    rw [List.getElem_cons_drop, List.take_append_drop]
  have cut' : right = left.take i ++ right[i] :: left.drop (i + 1) := by
    rw [fronts, rests, List.getElem_cons_drop, List.take_append_drop]
  exact ⟨left.take i, left[i], right[i], left.drop (i + 1), blocks, cut, cut'⟩

theorem OneApart.of_split {front rest : List β} {a b : β} (differ : a ≠ b) :
    OneApart (front ++ a :: rest) (front ++ b :: rest) := by
  constructor
  · simp
  · refine ⟨front.length, by simpa using differ, fun j elsewhere => ?_⟩
    rcases Nat.lt_or_gt_of_ne elsewhere with before | after
    · rw [List.getElem?_append_left before, List.getElem?_append_left before]
    · obtain ⟨k, rfl⟩ := Nat.exists_eq_add_of_lt after
      rw [List.getElem?_append_right (by omega), List.getElem?_append_right (by omega),
        show front.length + k + 1 - front.length = k + 1 by omega, List.getElem?_cons_succ,
        List.getElem?_cons_succ]

/-- Under a reversible link such lists have different digests. -/
theorem Reversible.digest_ne (reversible : Reversible link) {left right : List β}
    (apart : OneApart left right) : digest link root left ≠ digest link root right := by
  obtain ⟨front, a, b, rest, differ, rfl, rfl⟩ := apart.split
  intro same
  rw [digest_append, digest_append, digest_cons, digest_cons] at same
  exact differ (reversible.block _ (reversible.digest_injective rest same))

/-! ## Links free of collisions -/

/-- A collision-free digest determines its blocks. -/
theorem CollisionFree.digest_injective (free : CollisionFree link root links)
    {left right : List β} (leftWithin : Within link root links left)
    (rightWithin : Within link root links right)
    (same : digest link root left = digest link root right) : left = right := by
  induction left using List.reverseRecOn generalizing right with
  | nil =>
      rcases List.eq_nil_or_concat' right with rfl | ⟨front, last, rfl⟩
      · rfl
      · rw [digest_concat] at same
        exact absurd same.symm (free.root _ rightWithin.last)
  | append_singleton front last ih =>
      rcases List.eq_nil_or_concat' right with rfl | ⟨front', last', rfl⟩
      · rw [digest_concat] at same
        exact absurd same (free.root _ leftWithin.last)
      · rw [digest_concat, digest_concat] at same
        have pair := free.injective _ leftWithin.last _ rightWithin.last same
        rw [ih leftWithin.front rightWithin.front (congrArg Prod.fst pair),
          show last = last' from congrArg Prod.snd pair]

end LlmLab.HashChain
