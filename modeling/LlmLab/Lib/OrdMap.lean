import Mathlib.Data.List.Basic
import Mathlib.Algebra.BigOperators.Group.List.Basic
import Mathlib.Algebra.Order.BigOperators.Group.List
import Mathlib.Data.List.Perm.Basic
import Mathlib.Data.Set.Card
import Mathlib.Data.Prod.Lex
import Mathlib.Order.Basic

/-!
# Ordered finite maps and sets

A finite map over a linear order, kept as its entries in strictly increasing key
order, and the analogous finite set.  The order is a field of the structure, so two
maps with the same lookups are equal and iterating a map means walking `entries`.

* `OrdMap.find?_insert`, `OrdMap.find?_erase`, `OrdMap.find?_modify`: the lookups
  after an update.
* `OrdMap.entries_insert_perm`, `OrdMap.entries_erase_perm`: the entries after an
  update, up to order; sums and counts over a map follow from these.
* `OrdSet.mem_insert`, `OrdSet.mem_erase`, `OrdSet.mem_insertAll` and the sizes.
-/

namespace LlmLab

universe u v w

/-! ## Maps -/

/-- A finite map, as its entries in strictly increasing key order. -/
structure OrdMap (κ : Type u) (α : Type v) [LinearOrder κ] where
  entries : List (κ × α)
  sorted : entries.Pairwise (fun left right => left.1 < right.1)

namespace OrdMap

variable {κ : Type u} {α : Type v} [LinearOrder κ]

/-- The first value stored under a key. -/
def lookup (key : κ) : List (κ × α) → Option α
  | [] => none
  | (other, value) :: rest => if key = other then some value else lookup key rest

/-- Ordered insertion; an entry with the same key is replaced. -/
def insertEntry (key : κ) (value : α) : List (κ × α) → List (κ × α)
  | [] => [(key, value)]
  | (other, previous) :: rest =>
      if key < other then (key, value) :: (other, previous) :: rest
      else if key = other then (key, value) :: rest
      else (other, previous) :: insertEntry key value rest

/-- An entry after an insertion is the new one or an old one. -/
theorem mem_insertEntry {key : κ} {value : α} {entry : κ × α} {entries : List (κ × α)}
    (member : entry ∈ insertEntry key value entries) :
    entry = (key, value) ∨ entry ∈ entries := by
  induction entries with
  | nil => simpa [insertEntry] using member
  | cons head rest ih =>
      obtain ⟨other, previous⟩ := head
      unfold insertEntry at member
      split at member
      · simpa using member
      · split at member
        · rcases List.mem_cons.mp member with rfl | later
          · exact Or.inl rfl
          · exact Or.inr (List.mem_cons_of_mem _ later)
        · rcases List.mem_cons.mp member with rfl | later
          · exact Or.inr List.mem_cons_self
          · exact (ih later).imp_right (List.mem_cons_of_mem _)

/-- An insertion keeps the keys in order. -/
theorem insertEntry_sorted (key : κ) (value : α) {entries : List (κ × α)}
    (sorted : entries.Pairwise (fun left right => left.1 < right.1)) :
    (insertEntry key value entries).Pairwise (fun left right => left.1 < right.1) := by
  induction entries with
  | nil => simp [insertEntry]
  | cons head rest ih =>
      obtain ⟨other, previous⟩ := head
      obtain ⟨below, tail⟩ := List.pairwise_cons.mp sorted
      unfold insertEntry
      split
      · next before =>
          refine List.pairwise_cons.mpr ⟨fun entry member => ?_, sorted⟩
          rcases List.mem_cons.mp member with rfl | later
          · exact before
          · exact before.trans (below entry later)
      · next notBefore =>
          split
          · next same =>
              subst same
              exact List.pairwise_cons.mpr ⟨below, tail⟩
          · next different =>
              refine List.pairwise_cons.mpr ⟨fun entry member => ?_, ih tail⟩
              rcases mem_insertEntry member with rfl | later
              · exact lt_of_le_of_ne (not_lt.mp notBefore) (Ne.symm different)
              · exact below entry later

/-- The empty map. -/
def empty : OrdMap κ α := ⟨[], List.Pairwise.nil⟩

/-- The value under a key. -/
def find? (map : OrdMap κ α) (key : κ) : Option α := lookup key map.entries

/-- Whether a key is present. -/
def contains (map : OrdMap κ α) (key : κ) : Bool := (map.find? key).isSome

/-- The number of entries. -/
def size (map : OrdMap κ α) : Nat := map.entries.length

/-- The keys, in increasing order. -/
def keys (map : OrdMap κ α) : List κ := map.entries.map Prod.fst

/-- Insert or overwrite. -/
def insert (map : OrdMap κ α) (key : κ) (value : α) : OrdMap κ α :=
  ⟨insertEntry key value map.entries, insertEntry_sorted key value map.sorted⟩

/-- Remove a key, if present. -/
def erase (map : OrdMap κ α) (key : κ) : OrdMap κ α :=
  ⟨map.entries.filter (fun entry => entry.1 ≠ key), map.sorted.filter _⟩

/-- Apply a function to the value under a key, if present. -/
def modify (map : OrdMap κ α) (key : κ) (f : α → α) : OrdMap κ α :=
  ⟨map.entries.map (fun entry => if entry.1 = key then (entry.1, f entry.2) else entry), by
    rw [List.pairwise_map]
    refine map.sorted.imp fun {left right} before => ?_
    split <;> split <;> exact before⟩

@[ext] theorem ext_entries {left right : OrdMap κ α} (same : left.entries = right.entries) :
    left = right := by
  cases left; cases right; cases same; rfl

/-- In a sorted list a lookup finds exactly the entries. -/
theorem lookup_eq_some_iff {key : κ} {value : α} {entries : List (κ × α)}
    (sorted : entries.Pairwise (fun left right => left.1 < right.1)) :
    lookup key entries = some value ↔ (key, value) ∈ entries := by
  induction entries with
  | nil => simp [lookup]
  | cons head rest ih =>
      obtain ⟨other, previous⟩ := head
      obtain ⟨below, tail⟩ := List.pairwise_cons.mp sorted
      unfold lookup
      split
      · next same =>
          subst same
          constructor
          · intro found
            cases found
            exact List.mem_cons_self
          · intro member
            rcases List.mem_cons.mp member with equal | later
            · cases equal; rfl
            · exact absurd (below _ later) (lt_irrefl _)
      · next different =>
          rw [ih tail, List.mem_cons, Prod.mk.injEq]
          exact ⟨Or.inr, fun member => member.resolve_left fun equal => different equal.1⟩

theorem find?_eq_some_iff {map : OrdMap κ α} {key : κ} {value : α} :
    map.find? key = some value ↔ (key, value) ∈ map.entries :=
  lookup_eq_some_iff map.sorted

theorem mem_keys_iff {map : OrdMap κ α} {key : κ} :
    key ∈ map.keys ↔ ∃ value, map.find? key = some value := by
  simp only [keys, List.mem_map, Prod.exists, exists_and_right, exists_eq_right,
    find?_eq_some_iff]

theorem keys_sorted (map : OrdMap κ α) : map.keys.Pairwise (· < ·) :=
  List.pairwise_map.mpr map.sorted

theorem keys_nodup (map : OrdMap κ α) : map.keys.Nodup :=
  map.keys_sorted.imp fun before => ne_of_lt before

theorem contains_iff {map : OrdMap κ α} {key : κ} :
    map.contains key = true ↔ ∃ value, map.find? key = some value :=
  Option.isSome_iff_exists

theorem contains_eq_false_iff {map : OrdMap κ α} {key : κ} :
    map.contains key = false ↔ map.find? key = none := by
  simp [contains]

@[simp] theorem find?_empty (key : κ) : (empty : OrdMap κ α).find? key = none := rfl

/-- After an insertion a lookup finds the new value under its key, and the old ones elsewhere. -/
theorem lookup_insertEntry (key other : κ) (value : α) (entries : List (κ × α)) :
    lookup other (insertEntry key value entries) =
      if other = key then some value else lookup other entries := by
  induction entries with
  | nil => simp [insertEntry, lookup]
  | cons head rest ih =>
      obtain ⟨first, previous⟩ := head
      unfold insertEntry
      split
      · simp [lookup]
      · split
        · next same =>
            subst same
            by_cases equal : other = key <;> simp [lookup, equal]
        · next different =>
            by_cases equal : other = first
            · subst equal
              simp [lookup, Ne.symm different]
            · simp [lookup, equal, ih]

@[simp] theorem find?_insert (map : OrdMap κ α) (key other : κ) (value : α) :
    (map.insert key value).find? other =
      if other = key then some value else map.find? other :=
  lookup_insertEntry key other value map.entries

@[simp] theorem find?_erase (map : OrdMap κ α) (key other : κ) :
    (map.erase key).find? other = if other = key then none else map.find? other := by
  apply Option.ext
  intro value
  rw [find?_eq_some_iff, erase, List.mem_filter]
  by_cases equal : other = key
  · simp [equal]
  · simp [equal, find?_eq_some_iff]

/-- A modification changes the value under its key alone. -/
@[simp] theorem find?_modify (map : OrdMap κ α) (key other : κ) (f : α → α) :
    (map.modify key f).find? other =
      if other = key then (map.find? other).map f else map.find? other := by
  change lookup other (map.entries.map _) = _
  unfold find?
  induction map.entries with
  | nil => simp [lookup]
  | cons head rest ih =>
      obtain ⟨first, previous⟩ := head
      by_cases equal : other = first
      · subst equal
        by_cases same : other = key <;> simp [lookup, same]
      · by_cases same : first = key
        · subst same
          simp [lookup, equal, ih]
        · simp [lookup, equal, same, ih]

/-- Maps with the same lookups are equal. -/
theorem ext_find? {left right : OrdMap κ α} (same : ∀ key, left.find? key = right.find? key) :
    left = right := by
  apply ext_entries
  have order : ∀ {map : OrdMap κ α},
      map.entries.Pairwise (fun first second => first.1 < second.1) := fun {map} => map.sorted
  have members : ∀ entry, entry ∈ left.entries ↔ entry ∈ right.entries := by
    rintro ⟨key, value⟩
    rw [← find?_eq_some_iff, ← find?_eq_some_iff, same]
  have nodup : ∀ map : OrdMap κ α, map.entries.Nodup := fun map =>
    map.sorted.imp fun {first second} before equal => by
      subst equal
      exact lt_irrefl _ before
  have perm : left.entries.Perm right.entries :=
    (List.perm_ext_iff_of_nodup (nodup left) (nodup right)).mpr members
  exact perm.eq_of_pairwise
    (fun first second _ _ before after => absurd (before.trans after) (lt_irrefl _))
    left.sorted right.sorted

/-! ### Changing every value -/

/-- The map with every value changed. -/
def mapValues {β : Type w} (f : α → β) (map : OrdMap κ α) : OrdMap κ β :=
  ⟨map.entries.map fun entry => (entry.1, f entry.2), by
    rw [List.pairwise_map]
    exact map.sorted⟩

section MapValues

variable {β : Type w} (f : α → β)

@[simp] theorem mapValues_entries (map : OrdMap κ α) :
    (map.mapValues f).entries = map.entries.map fun entry => (entry.1, f entry.2) := rfl

@[simp] theorem find?_mapValues (map : OrdMap κ α) (key : κ) :
    (map.mapValues f).find? key = (map.find? key).map f := by
  unfold find?
  rw [mapValues_entries]
  induction map.entries with
  | nil => rfl
  | cons head rest ih =>
      obtain ⟨first, previous⟩ := head
      by_cases equal : key = first
      · simp [lookup, equal]
      · simpa [lookup, equal] using ih

@[simp] theorem contains_mapValues (map : OrdMap κ α) (key : κ) :
    (map.mapValues f).contains key = map.contains key := by
  rw [contains, find?_mapValues, Option.isSome_map, contains]

theorem mapValues_insert (map : OrdMap κ α) (key : κ) (value : α) :
    (map.insert key value).mapValues f = (map.mapValues f).insert key (f value) := by
  refine ext_find? fun other => ?_
  rw [find?_mapValues, find?_insert, find?_insert, find?_mapValues]
  split
  · rfl
  · rfl

end MapValues

/-- The first entry has the least key. -/
theorem entries_head? {map : OrdMap κ α} {key : κ} {value : α}
    (first : map.entries.head? = some (key, value)) :
    map.find? key = some value ∧ ∀ other found, map.find? other = some found → key ≤ other := by
  obtain ⟨rest, entries⟩ := List.head?_eq_some_iff.mp first
  have sorted := map.sorted
  rw [entries, List.pairwise_cons] at sorted
  refine ⟨find?_eq_some_iff.mpr (by rw [entries]; exact List.mem_cons_self),
    fun other found present => ?_⟩
  rw [find?_eq_some_iff, entries, List.mem_cons] at present
  rcases present with same | later
  · exact (congrArg Prod.fst same).ge
  · exact (sorted.1 _ later).le

theorem entries_eq_nil {map : OrdMap κ α} (none : ∀ key, map.find? key = none) :
    map.entries = [] :=
  List.eq_nil_iff_forall_not_mem.mpr fun entry member => by
    have found := find?_eq_some_iff.mpr (show (entry.1, entry.2) ∈ map.entries from member)
    rw [none] at found
    cases found

/-- Inserting a fresh key adds one entry. -/
theorem entries_insert_perm {map : OrdMap κ α} {key : κ} {value : α}
    (fresh : map.find? key = none) :
    (map.insert key value).entries.Perm ((key, value) :: map.entries) := by
  change (insertEntry key value map.entries).Perm _
  change lookup key map.entries = none at fresh
  generalize map.entries = entries at fresh ⊢
  induction entries with
  | nil => simp [insertEntry]
  | cons head rest ih =>
      obtain ⟨other, previous⟩ := head
      unfold lookup at fresh
      split at fresh
      · cases fresh
      · next different =>
          simp only [insertEntry, if_neg different]
          split
          · exact List.Perm.refl _
          · exact ((ih fresh).cons _).trans (List.Perm.swap _ _ _)

/-- The entry of a fresh key goes in between the others. -/
theorem entries_insert_split {map : OrdMap κ α} {key : κ} (fresh : map.find? key = none)
    (value : α) : ∃ front back, map.entries = front ++ back ∧
      (map.insert key value).entries = front ++ (key, value) :: back := by
  change ∃ front back, _ ∧ insertEntry key value map.entries = _
  change lookup key map.entries = none at fresh
  generalize map.entries = entries at fresh ⊢
  induction entries with
  | nil => exact ⟨[], [], rfl, rfl⟩
  | cons head rest ih =>
      obtain ⟨other, previous⟩ := head
      unfold lookup at fresh
      split at fresh
      · cases fresh
      · next different =>
          simp only [insertEntry, if_neg different]
          split
          · exact ⟨[], (other, previous) :: rest, rfl, rfl⟩
          · obtain ⟨front, back, before, after⟩ := ih fresh
            exact ⟨(other, previous) :: front, back, by rw [before]; rfl, by rw [after]; rfl⟩

/-- Removing a present key removes exactly its entry. -/
theorem entries_erase_perm {map : OrdMap κ α} {key : κ} {value : α}
    (found : map.find? key = some value) :
    map.entries.Perm ((key, value) :: (map.erase key).entries) := by
  obtain ⟨entries, sorted⟩ := map
  unfold find? at found
  unfold erase
  dsimp only at found ⊢
  induction entries with
  | nil => cases found
  | cons head rest ih =>
      obtain ⟨other, previous⟩ := head
      obtain ⟨below, tail⟩ := List.pairwise_cons.mp sorted
      unfold lookup at found
      split at found
      · next same =>
          subst same
          cases found
          have kept : rest.filter (fun entry => entry.1 ≠ key) = rest :=
            List.filter_eq_self.mpr fun entry member => by
              simpa using ne_of_gt (below entry member)
          simp only [ne_eq, not_true_eq_false, decide_false, Bool.false_eq_true,
            not_false_eq_true, List.filter_cons_of_neg]
          rw [kept]
      · next different =>
          simp only [ne_eq, Ne.symm different, not_false_eq_true, decide_true,
            List.filter_cons_of_pos]
          exact ((ih tail found).cons _).trans (List.Perm.swap _ _ _)

@[simp] theorem size_modify (map : OrdMap κ α) (key : κ) (f : α → α) :
    (map.modify key f).size = map.size := by
  simp [size, modify]

/-- Equal key sets, tested by size and inclusion. -/
theorem find?_isSome_of_size_eq {β : Type v} {left : OrdMap κ α} {right : OrdMap κ β}
    (size : left.size = right.size)
    (included : ∀ key value, left.find? key = some value → ∃ other, right.find? key = some other)
    {key : κ} {value : β} (found : right.find? key = some value) :
    ∃ other, left.find? key = some other := by
  have subset : left.keys ⊆ right.keys := fun other member => by
    obtain ⟨inner, present⟩ := mem_keys_iff.mp member
    exact mem_keys_iff.mpr (included other inner present)
  have length : right.keys.length ≤ left.keys.length := by
    simp only [keys, List.length_map]
    exact size.ge
  have perm : left.keys.Perm right.keys :=
    (List.subperm_of_subset left.keys_nodup subset).perm_of_length_le length
  exact mem_keys_iff.mp (perm.mem_iff.mpr (mem_keys_iff.mpr ⟨value, found⟩))

/-- Maps with the same keys have the same size. -/
theorem size_eq_of_sameKeys {β : Type v} {left : OrdMap κ α} {right : OrdMap κ β}
    (forward : ∀ key value, left.find? key = some value → ∃ other, right.find? key = some other)
    (backward : ∀ key value, right.find? key = some value → ∃ other, left.find? key = some other) :
    left.size = right.size := by
  have perm : left.keys.Perm right.keys :=
    (List.perm_ext_iff_of_nodup left.keys_nodup right.keys_nodup).mpr fun key => by
      rw [mem_keys_iff, mem_keys_iff]
      exact ⟨fun ⟨value, found⟩ => forward key value found,
        fun ⟨value, found⟩ => backward key value found⟩
  simpa [keys, size] using perm.length_eq

/-- The sum of a weight over the values. -/
def total (weight : α → Nat) (map : OrdMap κ α) : Nat :=
  (map.entries.map fun entry => weight entry.2).sum

section Total

variable (weight : α → Nat) {map : OrdMap κ α} {key : κ} {value : α}

@[simp] theorem total_empty : (empty : OrdMap κ α).total weight = 0 := rfl

theorem total_mapValues {β : Type w} (f : β → α) (map : OrdMap κ β) :
    (map.mapValues f).total weight = map.total fun value => weight (f value) := by
  rw [total, mapValues_entries, List.map_map]
  rfl

theorem total_add (left right : α → Nat) (map : OrdMap κ α) :
    (map.total fun value => left value + right value) = map.total left + map.total right := by
  simp only [total, List.sum_map_add]

/-- Sums over the values of a map and over a list may change places. -/
theorem sum_total {β : Type w} (weight : β → α → Nat) (xs : List β) (map : OrdMap κ α) :
    (xs.map fun x => map.total (weight x)).sum =
      map.total fun value => (xs.map fun x => weight x value).sum := by
  induction xs with
  | nil => simp [total]
  | cons x rest ih => simp only [List.map_cons, List.sum_cons, ih, total_add]

theorem total_le_size_mul {bound : Nat} (small : ∀ value, weight value ≤ bound)
    (map : OrdMap κ α) : map.total weight ≤ map.size * bound := by
  unfold total size
  induction map.entries with
  | nil => exact Nat.zero_le _
  | cons entry rest ih =>
      rw [List.map_cons, List.sum_cons, List.length_cons, Nat.succ_mul, Nat.add_comm]
      exact Nat.add_le_add ih (small entry.2)

theorem total_insert (fresh : map.find? key = none) :
    (map.insert key value).total weight = weight value + map.total weight := by
  unfold total
  rw [((entries_insert_perm fresh).map _).sum_eq]
  rfl

theorem total_erase (found : map.find? key = some value) :
    map.total weight = weight value + (map.erase key).total weight := by
  unfold total
  rw [((entries_erase_perm found).map _).sum_eq]
  rfl

/-- Writes under different keys commute. -/
theorem insert_comm (map : OrdMap κ α) {first second : κ} (apart : first ≠ second)
    (value other : α) : (map.insert first value).insert second other =
      (map.insert second other).insert first value :=
  ext_find? fun key => by
    by_cases here : key = first
    · subst here
      simp [apart]
    · simp [here]

theorem insert_erase (map : OrdMap κ α) (key : κ) (value : α) :
    (map.erase key).insert key value = map.insert key value :=
  ext_find? fun other => by
    by_cases equal : other = key <;> simp [equal]

theorem insert_of_find? (found : map.find? key = some value) : map.insert key value = map :=
  ext_find? fun other => by
    by_cases equal : other = key
    · subst equal
      simp [found]
    · simp [equal]

theorem total_overwrite {other : α} (found : map.find? key = some value) :
    (map.insert key other).total weight + weight value = weight other + map.total weight := by
  rw [← insert_erase, total_insert weight (by simp), total_erase weight found]
  omega

/-- A write exchanges the weight under its key. -/
theorem total_put (map : OrdMap κ α) (key : κ) (value : α) :
    (map.insert key value).total weight + (map.find? key).elim 0 weight =
      weight value + map.total weight := by
  cases found : map.find? key with
  | none => exact total_insert weight found
  | some previous => exact total_overwrite weight found

theorem le_total (found : map.find? key = some value) : weight value ≤ map.total weight := by
  rw [total_erase weight found]
  exact Nat.le_add_right _ _

/-- A sum of indicators counts the keys. -/
theorem total_eq_ncard (map : OrdMap κ α) (property : α → Bool) :
    map.total (fun value => (property value).toNat) =
      {key | ∃ value, map.find? key = some value ∧ property value = true}.ncard := by
  let counted := (map.entries.filter fun entry => property entry.2).map Prod.fst
  have distinct : counted.Nodup := map.keys_nodup.sublist (List.filter_sublist.map Prod.fst)
  have members : {key | ∃ value, map.find? key = some value ∧ property value = true} =
      ↑counted.toFinset := by
    ext key
    simp [counted, find?_eq_some_iff]
  have length : ∀ entries : List (κ × α),
      (entries.map fun entry => (property entry.2).toNat).sum =
        (entries.filter fun entry => property entry.2).length := by
    intro entries
    induction entries with
    | nil => rfl
    | cons entry rest ih => cases holds : property entry.2 <;> simp [holds, ih, Nat.add_comm]
  rw [members, Set.ncard_coe_finset, List.toFinset_card_of_nodup distinct, List.length_map]
  exact length map.entries

variable {weight}

/-- A total is bounded by that of a map with larger weights under the same keys. -/
theorem total_le_total {β : Type v} {other : OrdMap κ β} {weight' : β → Nat}
    (bounded : ∀ key value, map.find? key = some value →
      ∃ value', other.find? key = some value' ∧ weight value ≤ weight' value') :
    map.total weight ≤ other.total weight' := by
  let below (key : κ) : Nat := (map.find? key).elim 0 weight
  let above (key : κ) : Nat := (other.find? key).elim 0 weight'
  have left : map.total weight = (map.keys.map below).sum := by
    unfold total keys
    rw [List.map_map]
    refine congrArg List.sum (List.map_congr_left fun entry member => ?_)
    simp only [Function.comp_apply, below, find?_eq_some_iff.mpr member, Option.elim_some]
  have right : other.total weight' = (other.keys.map above).sum := by
    unfold total keys
    rw [List.map_map]
    refine congrArg List.sum (List.map_congr_left fun entry member => ?_)
    simp only [Function.comp_apply, above, find?_eq_some_iff.mpr member, Option.elim_some]
  have subset : map.keys ⊆ other.keys := fun key member => by
    obtain ⟨value, found⟩ := mem_keys_iff.mp member
    obtain ⟨value', found', -⟩ := bounded key value found
    exact mem_keys_iff.mpr ⟨value', found'⟩
  obtain ⟨sub, perm, sublist⟩ := List.subperm_of_subset map.keys_nodup subset
  calc map.total weight = (map.keys.map below).sum := left
    _ ≤ (map.keys.map above).sum := List.sum_le_sum fun key member => by
        obtain ⟨value, found⟩ := mem_keys_iff.mp member
        obtain ⟨value', found', smaller⟩ := bounded key value found
        simpa only [below, above, found, found', Option.elim_some] using smaller
    _ = (sub.map above).sum := (perm.map above).sum_eq.symm
    _ ≤ (other.keys.map above).sum := (sublist.map above).sum_le_sum fun _ _ => Nat.zero_le _
    _ = other.total weight' := right.symm

/-- The total of a map that holds the image of a list. -/
theorem total_eq_sum {β : Type w} {xs : List β} {index : β → κ} {image : β → α}
    (nodup : (xs.map index).Nodup)
    (same : ∀ key value, map.find? key = some value ↔
      ∃ x ∈ xs, index x = key ∧ value = image x) :
    map.total weight = (xs.map fun x => weight (image x)).sum := by
  have pairs : (xs.map fun x => (index x, image x)).Nodup := by
    refine List.Nodup.of_map Prod.fst ?_
    rwa [List.map_map]
  have perm : map.entries.Perm (xs.map fun x => (index x, image x)) :=
    (List.perm_ext_iff_of_nodup (List.Nodup.of_map Prod.fst map.keys_nodup) pairs).mpr fun entry => by
      obtain ⟨key, value⟩ := entry
      rw [← find?_eq_some_iff, same, List.mem_map]
      constructor
      · rintro ⟨x, member, rfl, rfl⟩
        exact ⟨x, member, rfl⟩
      · rintro ⟨x, member, equal⟩
        cases equal
        exact ⟨x, member, rfl, rfl⟩
  unfold total
  rw [(perm.map _).sum_eq, List.map_map]
  rfl

theorem total_congr {weight' : α → Nat}
    (same : ∀ key value, map.find? key = some value → weight value = weight' value) :
    map.total weight = map.total weight' :=
  (total_le_total fun key value found => ⟨value, found, (same key value found).le⟩).antisymm
    (total_le_total fun key value found => ⟨value, found, (same key value found).ge⟩)

/-- A total is below that of a map with larger weights where one of them is strictly larger. -/
theorem total_lt_total {β : Type v} {other : OrdMap κ β} {weight' : β → Nat} {value' : β}
    (bounded : ∀ key value, map.find? key = some value →
      ∃ value', other.find? key = some value' ∧ weight value ≤ weight' value')
    (found : map.find? key = some value) (found' : other.find? key = some value')
    (less : weight value < weight' value') : map.total weight < other.total weight' := by
  have rest : (map.erase key).total weight ≤ (other.erase key).total weight' := by
    refine total_le_total fun other' kept present => ?_
    rw [find?_erase] at present
    split at present
    · cases present
    · next apart =>
        obtain ⟨above, listed, smaller⟩ := bounded other' kept present
        exact ⟨above, by rw [find?_erase, if_neg apart, listed], smaller⟩
  rw [total_erase weight found, total_erase weight' found']
  omega

/-- The total of a map whose values are images of those of another. -/
theorem total_image {β : Type v} {other : OrdMap κ β} {weight' : β → Nat} {image : κ → α → β}
    (same : ∀ key, other.find? key = (map.find? key).map (image key)) :
    other.total weight' = (map.entries.map fun entry => weight' (image entry.1 entry.2)).sum := by
  refine @total_eq_sum κ β _ weight' other (κ × α) map.entries Prod.fst
    (fun entry => image entry.1 entry.2) map.keys_nodup fun key value => ?_
  rw [same, Option.map_eq_some_iff]
  constructor
  · rintro ⟨old, found, rfl⟩
    exact ⟨(key, old), find?_eq_some_iff.mp found, rfl, rfl⟩
  · rintro ⟨⟨_, old⟩, member, rfl, rfl⟩
    exact ⟨old, find?_eq_some_iff.mpr member, rfl⟩

/-- The total after a step that adds one under each key of a list. -/
theorem total_step {other : OrdMap κ α} {step : κ → α → α} {marked : List κ}
    (stepped : ∀ key, other.find? key = (map.find? key).map (step key)) (nodup : marked.Nodup)
    (known : ∀ key ∈ marked, ∃ value, map.find? key = some value)
    (adds : ∀ key value, map.find? key = some value →
      weight (step key value) = weight value + if key ∈ marked then 1 else 0) :
    other.total weight = map.total weight + marked.length := by
  have counted : (map.keys.map fun key => if key ∈ marked then 1 else 0).sum = marked.length := by
    have members : (map.keys.filter (· ∈ marked)).Perm marked :=
      (List.perm_ext_iff_of_nodup (map.keys_nodup.filter _) nodup).mpr fun key => by
        rw [List.mem_filter, decide_eq_true_eq]
        refine ⟨fun both => both.2, fun member => ⟨?_, member⟩⟩
        exact mem_keys_iff.mpr (known key member)
    rw [← members.length_eq, ← List.countP_eq_length_filter]
    induction map.keys with
    | nil => rfl
    | cons key rest ih =>
        rw [List.map_cons, List.sum_cons, ih, List.countP_cons, Nat.add_comm]
        by_cases member : key ∈ marked <;> simp [member]
  calc other.total weight
      = (map.entries.map fun entry => weight (step entry.1 entry.2)).sum := total_image stepped
    _ = (map.entries.map fun entry =>
          weight entry.2 + if entry.1 ∈ marked then 1 else 0).sum := by
        refine congrArg List.sum (List.map_congr_left fun entry member => ?_)
        exact adds entry.1 entry.2 (find?_eq_some_iff.mpr member)
    _ = map.total weight + (map.keys.map fun key => if key ∈ marked then 1 else 0).sum := by
        rw [List.sum_map_add, keys, List.map_map]
        rfl
    _ = map.total weight + marked.length := by rw [counted]

theorem total_eq_zero (zero : ∀ key value, map.find? key = some value → weight value = 0) :
    map.total weight = 0 :=
  List.sum_eq_zero fun weighted member => by
    obtain ⟨entry, inside, rfl⟩ := List.mem_map.mp member
    exact zero entry.1 entry.2 (find?_eq_some_iff.mpr inside)

end Total

end OrdMap

/-! ## Sets -/

/-- A finite set, as its elements in strictly increasing order. -/
structure OrdSet (α : Type u) [LinearOrder α] where
  elems : List α
  sorted : elems.Pairwise (· < ·)

namespace OrdSet

variable {α : Type u} [LinearOrder α]

instance : Membership α (OrdSet α) := ⟨fun set x => x ∈ set.elems⟩

instance (x : α) (set : OrdSet α) : Decidable (x ∈ set) :=
  inferInstanceAs (Decidable (x ∈ set.elems))

theorem mem_def {x : α} {set : OrdSet α} : x ∈ set ↔ x ∈ set.elems := Iff.rfl

/-- Ordered insertion without repetition. -/
def insertElem (x : α) : List α → List α
  | [] => [x]
  | y :: rest => if x < y then x :: y :: rest else if x = y then y :: rest
      else y :: insertElem x rest

theorem mem_insertElem {x y : α} {elems : List α} :
    y ∈ insertElem x elems ↔ y = x ∨ y ∈ elems := by
  induction elems with
  | nil => simp [insertElem]
  | cons head rest ih =>
      unfold insertElem
      split
      · exact List.mem_cons
      · split
        · next same =>
            subst same
            simp
        · rw [List.mem_cons, ih, List.mem_cons]
          exact or_left_comm

/-- An insertion keeps the elements in order. -/
theorem insertElem_sorted (x : α) {elems : List α} (sorted : elems.Pairwise (· < ·)) :
    (insertElem x elems).Pairwise (· < ·) := by
  induction elems with
  | nil => simp [insertElem]
  | cons head rest ih =>
      obtain ⟨below, tail⟩ := List.pairwise_cons.mp sorted
      unfold insertElem
      split
      · next before =>
          refine List.pairwise_cons.mpr ⟨fun y member => ?_, sorted⟩
          rcases List.mem_cons.mp member with rfl | later
          · exact before
          · exact before.trans (below y later)
      · next notBefore =>
          split
          · exact sorted
          · next different =>
              refine List.pairwise_cons.mpr ⟨fun y member => ?_, ih tail⟩
              rcases mem_insertElem.mp member with rfl | later
              · exact lt_of_le_of_ne (not_lt.mp notBefore) (Ne.symm different)
              · exact below y later

/-- The empty set. -/
def empty : OrdSet α := ⟨[], List.Pairwise.nil⟩

/-- The number of elements. -/
def size (set : OrdSet α) : Nat := set.elems.length

/-- Add an element. -/
def insert (set : OrdSet α) (x : α) : OrdSet α :=
  ⟨insertElem x set.elems, insertElem_sorted x set.sorted⟩

/-- Remove an element. -/
def erase (set : OrdSet α) (x : α) : OrdSet α :=
  ⟨set.elems.filter (· ≠ x), set.sorted.filter _⟩

/-- Add every element of a list. -/
def insertAll (set : OrdSet α) (xs : List α) : OrdSet α := xs.foldl insert set

@[simp] theorem not_mem_empty (x : α) : x ∉ (empty : OrdSet α) := List.not_mem_nil

@[simp] theorem mem_insert {set : OrdSet α} {x y : α} : y ∈ set.insert x ↔ y = x ∨ y ∈ set :=
  mem_insertElem

@[simp] theorem mem_erase {set : OrdSet α} {x y : α} : y ∈ set.erase x ↔ y ≠ x ∧ y ∈ set := by
  simp only [mem_def, erase, List.mem_filter, ne_eq, decide_eq_true_eq]
  exact and_comm

@[simp] theorem mem_insertAll {set : OrdSet α} {xs : List α} {y : α} :
    y ∈ set.insertAll xs ↔ y ∈ xs ∨ y ∈ set := by
  unfold insertAll
  induction xs generalizing set with
  | nil => simp
  | cons x rest ih =>
      rw [List.foldl_cons, ih, mem_insert, List.mem_cons]
      exact ⟨fun member => by tauto, fun member => by tauto⟩

@[simp] theorem mem_foldl_erase {set : OrdSet α} {xs : List α} {y : α} :
    y ∈ xs.foldl erase set ↔ y ∈ set ∧ y ∉ xs := by
  induction xs generalizing set with
  | nil => simp
  | cons x rest ih =>
      rw [List.foldl_cons, ih, mem_erase, List.mem_cons, not_or]
      tauto

theorem nodup (set : OrdSet α) : set.elems.Nodup :=
  set.sorted.imp fun before => ne_of_lt before

@[ext] theorem ext {left right : OrdSet α} (same : ∀ x, x ∈ left ↔ x ∈ right) :
    left = right := by
  have elems : left.elems = right.elems :=
    ((List.perm_ext_iff_of_nodup left.nodup right.nodup).mpr same).eq_of_pairwise
      (fun _ _ _ _ before after => absurd (before.trans after) (lt_irrefl _))
      left.sorted right.sorted
  cases left; cases right; cases elems; rfl

/-- The size is the length of any duplicate-free list with the same members. -/
theorem size_eq_length {set : OrdSet α} {xs : List α} (nodup : xs.Nodup)
    (same : ∀ x, x ∈ set ↔ x ∈ xs) : set.size = xs.length :=
  ((List.perm_ext_iff_of_nodup set.nodup nodup).mpr same).length_eq

theorem size_le_size {left right : OrdSet α} (subset : ∀ x ∈ left, x ∈ right) :
    left.size ≤ right.size :=
  (List.subperm_of_subset left.nodup subset).length_le

theorem size_insertAll {set : OrdSet α} {xs : List α} (nodup : xs.Nodup)
    (disjoint : ∀ x ∈ xs, x ∉ set) : (set.insertAll xs).size = set.size + xs.length := by
  have appended : (xs ++ set.elems).Nodup :=
    List.nodup_append.mpr ⟨nodup, set.nodup, fun x left y right equal => by
      subst equal
      exact disjoint x left right⟩
  rw [size_eq_length appended fun x => by rw [mem_insertAll, List.mem_append, mem_def]]
  rw [List.length_append, size, Nat.add_comm]

theorem erase_of_notMem {set : OrdSet α} {x : α} (absent : x ∉ set) : set.erase x = set :=
  ext fun y => by
    rw [mem_erase]
    exact and_iff_right_of_imp fun member same => absent (same ▸ member)

/-- The first element is the least one. -/
theorem head?_eq_some {set : OrdSet α} {x : α} (first : set.elems.head? = some x) :
    x ∈ set ∧ ∀ y ∈ set, x ≤ y := by
  obtain ⟨rest, elems⟩ := List.head?_eq_some_iff.mp first
  have sorted := set.sorted
  rw [elems, List.pairwise_cons] at sorted
  refine ⟨by rw [mem_def, elems]; exact List.mem_cons_self, fun y member => ?_⟩
  rw [mem_def, elems, List.mem_cons] at member
  cases member with
  | inl same => exact same.ge
  | inr later => exact (sorted.1 y later).le

/-- Erasing the first element leaves the rest. -/
theorem erase_head {set : OrdSet α} {x : α} {rest : List α} {sorted : rest.Pairwise (· < ·)}
    (elems : set.elems = x :: rest) : set.erase x = ⟨rest, sorted⟩ := by
  ext y
  have distinct := set.nodup
  rw [elems, List.nodup_cons] at distinct
  rw [mem_erase, mem_def, elems, List.mem_cons, mem_def]
  constructor
  · exact fun ⟨apart, member⟩ => member.resolve_left apart
  · exact fun member => ⟨fun same => distinct.1 (same ▸ member), Or.inr member⟩

theorem size_erase_le (set : OrdSet α) (x : α) : (set.erase x).size ≤ set.size :=
  List.length_filter_le ..

end OrdSet

end LlmLab
