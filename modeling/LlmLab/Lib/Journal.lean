import LlmLab.Lib.Lists

/-!
# Journals

An append-only journal of keyed records, and the dictionary of the latest record of each key.
A dictionary keeps its keys in the order of their first insertion; storing under a present key
replaces the value in place.

A *pass* over a plan of keys appends one record for each key that is due before the pass stops.
The rules below say what passes keep: the keys of the journal cover a front of the plan
(`Covers.append_pass`), and no record follows a finished one of its key (`Settled.append_pass`).
-/

namespace LlmLab

universe u v w

/-! ## Insertion-ordered dictionaries -/

/-- A dictionary, as its entries in the order of first insertion. -/
structure Dict (κ : Type u) (α : Type v) where
  entries : List (κ × α)
  nodup : (entries.map Prod.fst).Nodup

namespace Dict

variable {κ : Type u} {α : Type v}

def empty : Dict κ α := ⟨[], List.nodup_nil⟩

def keys (dict : Dict κ α) : List κ := dict.entries.map Prod.fst

def values (dict : Dict κ α) : List α := dict.entries.map Prod.snd

def size (dict : Dict κ α) : Nat := dict.entries.length

@[simp] theorem length_keys (dict : Dict κ α) : dict.keys.length = dict.size := List.length_map ..

@[simp] theorem keys_empty : (empty : Dict κ α).keys = [] := rfl

variable [DecidableEq κ]

/-- The value under a key. -/
def get? (dict : Dict κ α) (key : κ) : Option α :=
  (dict.entries.find? fun entry => entry.1 = key).map Prod.snd

/-- Replace the value in place, or append the entry. -/
def setEntry (key : κ) (value : α) : List (κ × α) → List (κ × α)
  | [] => [(key, value)]
  | entry :: rest =>
      if entry.1 = key then (key, value) :: rest else entry :: setEntry key value rest

theorem setEntry_keys (key : κ) (value : α) (entries : List (κ × α)) :
    (setEntry key value entries).map Prod.fst =
      if key ∈ entries.map Prod.fst then entries.map Prod.fst
      else entries.map Prod.fst ++ [key] := by
  induction entries with
  | nil => rfl
  | cons entry rest ih =>
      by_cases same : entry.1 = key
      · simp [setEntry, same]
      · have other : key ≠ entry.1 := Ne.symm same
        by_cases later : key ∈ rest.map Prod.fst
        · simp only [setEntry, same, later, List.map_cons, List.mem_cons, if_true, if_false,
            or_true, ih]
        · simp only [setEntry, same, later, other, List.map_cons, List.mem_cons, if_false,
            or_self, ih, List.cons_append]

theorem setEntry_nodup (key : κ) (value : α) {entries : List (κ × α)}
    (nodup : (entries.map Prod.fst).Nodup) :
    ((setEntry key value entries).map Prod.fst).Nodup := by
  rw [setEntry_keys]
  split
  · exact nodup
  · next fresh => exact List.nodup_append.mpr ⟨nodup, List.nodup_singleton _, by
      intro other member last equal
      rw [List.mem_singleton] at equal
      rintro rfl
      exact fresh (equal ▸ member)⟩

/-- Store a value under a key. -/
def set (dict : Dict κ α) (key : κ) (value : α) : Dict κ α :=
  ⟨setEntry key value dict.entries, setEntry_nodup key value dict.nodup⟩

theorem keys_set (dict : Dict κ α) (key : κ) (value : α) :
    (dict.set key value).keys = if key ∈ dict.keys then dict.keys else dict.keys ++ [key] :=
  setEntry_keys key value dict.entries

@[simp] theorem get?_empty (key : κ) : (empty : Dict κ α).get? key = none := rfl

/-- Setting a key changes the value under no other. -/
theorem get?_set (dict : Dict κ α) (key other : κ) (value : α) :
    (dict.set key value).get? other = if other = key then some value else dict.get? other := by
  have steps : ∀ entries : List (κ × α),
      ((setEntry key value entries).find? fun entry => entry.1 = other).map Prod.snd =
        if other = key then some value
        else (entries.find? fun entry => entry.1 = other).map Prod.snd := by
    intro entries
    induction entries with
    | nil => by_cases same : other = key <;> simp [setEntry, same, Ne.symm]
    | cons entry rest ih =>
        by_cases here : entry.1 = key
        · by_cases same : other = key
          · simp [setEntry, here, same]
          · simp [setEntry, here, same, Ne.symm same]
        · by_cases found : entry.1 = other
          · have different : other ≠ key := found ▸ here
            simp [setEntry, found, different]
          · simp [setEntry, here, found, ih]
  exact steps dict.entries

theorem mem_keys_iff {dict : Dict κ α} {key : κ} : key ∈ dict.keys ↔ (dict.get? key).isSome := by
  simp only [keys, get?, List.mem_map, Option.isSome_map, List.find?_isSome, decide_eq_true_eq]

/-- The entries of a dictionary are its keys with their values. -/
theorem mem_entries_iff {dict : Dict κ α} {key : κ} {value : α} :
    (key, value) ∈ dict.entries ↔ dict.get? key = some value := by
  constructor
  · intro member
    have unique : dict.entries.find? (fun entry => entry.1 = key) = some (key, value) := by
      rcases found : dict.entries.find? (fun entry => entry.1 = key) with _ | other
      · simpa using List.find?_eq_none.mp found _ member
      · have same : other.1 = key := by simpa using List.find?_some found
        have equal := List.inj_on_of_nodup_map dict.nodup (List.mem_of_find?_eq_some found) member
          same
        exact equal ▸ found
    rw [get?, unique]
    rfl
  · intro found
    obtain ⟨entry, first, rfl⟩ := Option.map_eq_some_iff.mp found
    have same : entry.1 = key := by simpa using List.find?_some first
    have member := List.mem_of_find?_eq_some first
    rwa [← same]

/-- The values in the order of their keys. -/
theorem values_eq (dict : Dict κ α) : dict.values = dict.keys.filterMap dict.get? := by
  rw [keys, List.filterMap_map, values, ← List.filterMap_eq_map]
  refine List.filterMap_congr fun entry member => ?_
  exact (mem_entries_iff.mp member).symm

end Dict

/-! ## Journals -/

section Journal

variable {ρ : Type u} {κ : Type v} [DecidableEq κ] (key : ρ → κ)

/-- The latest record of each key, the keys in the order of their first record. -/
def latest (journal : List ρ) : Dict κ ρ :=
  journal.foldl (fun dict record => dict.set (key record) record) Dict.empty

theorem latest_append_singleton (journal : List ρ) (record : ρ) :
    latest key (journal ++ [record]) = (latest key journal).set (key record) record := by
  simp [latest]

/-- The keys of the latest records are those of the journal, each at its first record. -/
theorem keys_latest (journal : List ρ) :
    (latest key journal).keys = (journal.map key).eraseDups := by
  induction journal using List.reverseRecOn with
  | nil => rfl
  | append_singleton front last ih =>
      rw [latest_append_singleton, Dict.keys_set, ih, List.map_append, List.map_singleton,
        List.eraseDups_append, List.removeAll, List.filter_singleton]
      by_cases known : key last ∈ front.map key
      · rw [if_pos (List.mem_eraseDups.mpr known)]
        simp [List.mem_map.mp known]
      · rw [if_neg (mt List.mem_eraseDups.mp known)]
        simp [mt List.mem_map.mpr known, List.eraseDups_cons]

theorem mem_keys_latest {journal : List ρ} {name : κ} :
    name ∈ (latest key journal).keys ↔ name ∈ journal.map key := by
  rw [keys_latest, List.mem_eraseDups]

/-- The latest record of a key is a record of that key. -/
theorem mem_of_latest {journal : List ρ} {name : κ} {record : ρ}
    (found : (latest key journal).get? name = some record) :
    record ∈ journal ∧ key record = name := by
  induction journal using List.reverseRecOn with
  | nil => cases found
  | append_singleton front last ih =>
      rw [latest_append_singleton, Dict.get?_set] at found
      split at found
      · next same =>
          cases found
          exact ⟨by simp, same.symm⟩
      · obtain ⟨member, same⟩ := ih found
        exact ⟨List.mem_append_left _ member, same⟩

theorem latest_eq_none {journal : List ρ} {name : κ} :
    (latest key journal).get? name = none ↔ name ∉ journal.map key := by
  rw [← mem_keys_latest, Dict.mem_keys_iff, Option.not_isSome_iff_eq_none]

/-! ### Settled journals -/

/-- No record follows a finished record of its key. -/
def Settled (finished : ρ → Bool) (journal : List ρ) : Prop :=
  journal.Pairwise fun earlier later => finished earlier → key later ≠ key earlier

variable {key} {finished : ρ → Bool} {journal : List ρ}

/-- A finished record is the latest of its key. -/
theorem Settled.latest_eq (settled : Settled key finished journal) {record : ρ}
    (member : record ∈ journal) (done : finished record) :
    (latest key journal).get? (key record) = some record := by
  induction journal using List.reverseRecOn with
  | nil => cases member
  | append_singleton front last ih =>
      obtain ⟨before, -, across⟩ := List.pairwise_append.mp settled
      rw [latest_append_singleton, Dict.get?_set]
      rw [List.mem_append, List.mem_singleton] at member
      rcases member with early | rfl
      · rw [if_neg (Ne.symm (across record early last (List.mem_singleton_self _) done))]
        exact ih before early
      · exact if_pos rfl

/-- The finished records of a key: its latest record, if that one is finished. -/
theorem Settled.filter_eq (settled : Settled key finished journal) (name : κ) :
    journal.filter (fun record => key record = name && finished record) =
      ((latest key journal).get? name).toList.filter finished := by
  induction journal using List.reverseRecOn with
  | nil => rfl
  | append_singleton front last ih =>
      obtain ⟨before, -, across⟩ := List.pairwise_append.mp settled
      rw [latest_append_singleton, Dict.get?_set, List.filter_append, List.filter_singleton]
      by_cases here : name = key last
      · have none : front.filter (fun record => key record = name && finished record) = [] := by
          refine List.filter_eq_nil_iff.mpr fun record member both => ?_
          rw [Bool.and_eq_true, decide_eq_true_eq] at both
          exact across record member last (List.mem_singleton_self _) both.2
            (here.symm.trans both.1.symm)
        rw [none, if_pos here, List.nil_append, Option.toList_some, List.filter_singleton]
        simp [here]
      · rw [if_neg here, ← ih before]
        simp [Ne.symm here]

/-- A key has at most one finished record. -/
theorem Settled.count_le_one (settled : Settled key finished journal) (name : κ) :
    journal.countP (fun record => key record = name && finished record) ≤ 1 := by
  rw [List.countP_eq_length_filter, settled.filter_eq]
  have one : ((latest key journal).get? name).toList.length ≤ 1 := by
    cases (latest key journal).get? name <;> simp
  exact (List.length_filter_le ..).trans one

/-! ### Passes over a plan -/

/-- The distinct keys, in order of first occurrence, form a front of the plan. -/
def Covers (plan keys : List κ) : Prop := keys.eraseDups <+: plan

variable {plan keys : List κ} {due : κ → Bool}

theorem Covers.mem_iff (covers : Covers plan keys) {name : κ} :
    name ∈ keys ↔ name ∈ plan.take keys.eraseDups.length := by
  rw [← List.prefix_iff_eq_take.mp covers, List.mem_eraseDups]

theorem eraseDups_eq_self {xs : List κ} (nodup : xs.Nodup) : xs.eraseDups = xs := by
  induction xs with
  | nil => rfl
  | cons x rest ih =>
      obtain ⟨fresh, tail⟩ := List.nodup_cons.mp nodup
      rw [List.eraseDups_cons, List.filter_eq_self.mpr, ih tail]
      intro y member
      have different : y ≠ x := fun same => fresh (same ▸ member)
      simpa using different

/-- Leaving out the first elements of a duplicate-free list by name drops them. -/
theorem filter_notMem_take {xs : List κ} (nodup : xs.Nodup) (count stop : Nat) :
    (xs.take stop).filter (fun x => x ∉ xs.take count) = (xs.take stop).drop count := by
  induction xs generalizing count stop with
  | nil => simp
  | cons x rest ih =>
      obtain ⟨fresh, tail⟩ := List.nodup_cons.mp nodup
      cases stop with
      | zero => simp
      | succ stop =>
          cases count with
          | zero => simp
          | succ count =>
              rw [List.take_succ_cons, List.take_succ_cons, List.drop_succ_cons, ← ih tail,
                List.filter_cons_of_neg (by simp)]
              refine List.filter_congr fun y member => ?_
              have different : y ≠ x := fun same => fresh (same ▸ List.mem_of_mem_take member)
              simp [different]

/-- A pass in which every key not yet seen is due covers all it went through. -/
theorem Covers.append_pass (nodup : plan.Nodup) (covers : Covers plan keys)
    (fresh : ∀ name ∈ plan, name ∉ keys → due name) (stop : Nat) :
    (keys ++ (plan.take stop).filter due).eraseDups =
      plan.take (max keys.eraseDups.length stop) := by
  have unseen : ((plan.take stop).filter due).removeAll keys =
      (plan.take stop).drop keys.eraseDups.length := by
    rw [← filter_notMem_take nodup, List.removeAll, List.filter_filter]
    refine List.filter_congr fun name member => ?_
    have due := fresh name (List.mem_of_mem_take member)
    rw [← Bool.coe_iff_coe, Bool.and_eq_true, decide_eq_true_eq, ← covers.mem_iff]
    simpa using due
  have front := List.prefix_iff_eq_take.mp covers
  have once := nodup.sublist ((List.drop_sublist keys.eraseDups.length _).trans
    (List.take_sublist stop plan))
  calc (keys ++ (plan.take stop).filter due).eraseDups
      = plan.take keys.eraseDups.length ++ (plan.take stop).drop keys.eraseDups.length := by
        rw [List.eraseDups_append, unseen, eraseDups_eq_self once, ← front]
    _ = plan.take (keys.eraseDups.length + (stop - keys.eraseDups.length)) := by
        rw [List.drop_take, List.take_add]
    _ = plan.take (max keys.eraseDups.length stop) := by
        congr 1
        omega

/-- The latest records of a journal that covers a plan, in the order of the plan. -/
theorem Covers.values_latest (nodup : plan.Nodup) (covers : Covers plan (journal.map key)) :
    (latest key journal).values = plan.filterMap (latest key journal).get? := by
  obtain ⟨rest, rfl⟩ := covers
  have behind : rest.filterMap (latest key journal).get? = [] := by
    refine List.filterMap_eq_nil_iff.mpr fun name member => (latest_eq_none key).mpr fun known => ?_
    exact (List.nodup_append.mp nodup).2.2 name (List.mem_eraseDups.mpr known) name member rfl
  rw [Dict.values_eq, keys_latest, List.filterMap_append, behind, List.append_nil]

/-- A pass that leaves finished keys out and takes no key twice keeps a journal settled. -/
theorem Settled.append_pass {added : List ρ} (nodup : (added.map key).Nodup)
    (settled : Settled key finished journal)
    (due : ∀ record ∈ added, ∀ previous, (latest key journal).get? (key record) = some previous →
      finished previous = false) : Settled key finished (journal ++ added) := by
  refine List.pairwise_append.mpr ⟨settled, ?_, ?_⟩
  · exact (List.pairwise_map.mp nodup).imp fun different _ same => different same.symm
  · intro record earlier later member done same
    have previous := settled.latest_eq earlier done
    rw [← same] at previous
    have open' := due later member record previous
    exact Bool.false_ne_true (open'.symm.trans done)

end Journal

end LlmLab
