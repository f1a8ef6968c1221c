import LlmLab.Benchmarks.ServingCommon.NativeRecords

/-!
# Passing the checks

When the single checks of `validate_native_records` raise nothing, and what they return then.
-/

namespace LlmLab.Benchmarks

/-- A check that raises nothing and whose result has a property. -/
abbrev Passes {α : Type} (post : α → Prop) (check : Except NativeError α) : Prop :=
  Ensures (fun _ => False) post check

section Passes

variable {α β : Type} {P : α → Prop} {Q : β → Prop} {context name message : String}

theorem Passes.andThen {check : Except NativeError α} {rest : Except NativeError β}
    (first : Passes P check) (later : Passes Q rest) : Passes Q (check >>= fun _ => rest) :=
  first.bind fun _ _ => later

/-- A check whose result is known hands it on. -/
theorem Passes.known {check : Except NativeError α} {value : α}
    {next : α → Except NativeError β} (first : Passes (· = value) check)
    (later : Passes Q (next value)) : Passes Q (check >>= next) :=
  first.bind fun _ same => by rwa [same]

theorem passes_throwIf {condition : Prop} [Decidable condition] {error : NativeError}
    (fails : ¬ condition) : Passes (fun _ => True) (throwIf condition error) := by
  rw [throwIf_of_not fails]
  trivial

theorem passes_reject {condition : Prop} [Decidable condition] (fails : ¬ condition) :
    Passes (fun _ => True) (reject context condition message) :=
  passes_throwIf fails

theorem passes_rejectShowing {condition : Prop} [Decidable condition] {shown : List Json}
    (fails : ¬ condition) : Passes (fun _ => True) (rejectShowing context condition message shown) :=
  passes_throwIf fails

theorem passes_requireOneOf {value : Json} {names : List String} {shown : List Json}
    (listed : oneOf value names = true) :
    Passes (fun _ => True) (requireOneOf value names context message shown) := by
  have hashable : value.isHashable = true := by
    cases value with
    | arr items => cases listed
    | obj members => cases listed
    | _ => rfl
  unfold requireOneOf
  exact (passes_throwIf (by simp [hashable])).andThen (passes_rejectShowing (by simp [listed]))

theorem passes_forM {xs : List β} {check : β → Except NativeError Unit}
    (each : ∀ x ∈ xs, Passes (fun _ => True) (check x)) :
    Passes (fun _ => True) (xs.forM check) := by
  induction xs with
  | nil => trivial
  | cons x xs ih =>
      rw [List.forall_mem_cons] at each
      exact Passes.andThen each.1 (ih each.2)

end Passes

/-! ## Fields -/

section Fields

variable {record : Record} {name context : String}

theorem passes_fieldInt {value : Int} (found : record.get name = .int value) (nonneg : 0 ≤ value) :
    Passes (· = value) (fieldInt record name context) := by
  unfold fieldInt
  rw [found]
  exact (passes_reject (Int.not_lt.mpr nonneg)).andThen rfl

/-- A field that holds a count. -/
def IsCount (value : Json) : Prop := ∃ number : Int, value = .int number ∧ 0 ≤ number

theorem passes_nullableInt {value : Option Int} (found : record.get name = optional value)
    (nonneg : ∀ number, value = some number → 0 ≤ number) :
    Passes (· = value) (nullableInt record name context) := by
  unfold nullableInt
  rw [found]
  cases value with
  | none => rfl
  | some number => exact (passes_reject (Int.not_lt.mpr (nonneg number rfl))).andThen rfl

/-- The keys of a record are the expected ones. -/
theorem passes_closedFields {expected : List Text}
    (keys : ∀ key, key ∈ record.map Prod.fst ↔ key ∈ expected) :
    Passes (fun _ => True) (closedFields record expected context) := by
  have noneMissing : expected.filter
      (fun key => (record.map Prod.fst).contains key = false) = [] := by
    refine List.filter_eq_nil_iff.mpr fun key member => ?_
    rw [List.contains_iff_mem.mpr ((keys key).mpr member)]
    decide
  have noneExtra : (record.map Prod.fst).filter (fun key => expected.contains key = false) = [] := by
    refine List.filter_eq_nil_iff.mpr fun key member => ?_
    rw [List.contains_iff_mem.mpr ((keys key).mp member)]
    decide
  unfold closedFields
  exact (passes_throwIf (not_not.mpr noneMissing)).andThen (passes_throwIf (not_not.mpr noneExtra))

theorem passes_nullableStr {value : Json} (fine : value.isNull = true ∨ value.str?.isSome = true) :
    Passes (fun _ => True) (nullableStr value name context) := by
  refine passes_reject fun bad => ?_
  rcases fine with null | string
  · rw [null] at bad
    cases bad.1
  · rw [Option.isNone_iff_eq_none] at bad
    rw [bad.2] at string
    cases string

end Fields

/-! ## Numbers -/

section Numbers

variable {name context : String}

theorem equal_int_iff {left right : Int} : (Json.int left).equal (.int right) = true ↔ left = right := by
  simp [Json.equal, Json.number?]

theorem passes_conserved {actual expected : Json} (same : actual.equal expected = true) :
    Passes (fun _ => True) (conserved actual expected name context) :=
  passes_throwIf (by simp [same])

theorem passes_conserved_int {actual expected : Int} (same : actual = expected) :
    Passes (fun _ => True) (conserved (.int actual) (.int expected) name context) :=
  passes_conserved (equal_int_iff.mpr same)

/-- What is copied is conserved. -/
theorem passes_conservedFor {subject actual expected : Json} (same : actual = expected) :
    Passes (fun _ => True) (conservedFor subject actual expected name context) :=
  passes_throwIf (by rw [same, Json.identical_self]; exact fun both => Bool.noConfusion both.1)

theorem passes_exactNumber {actual expected : Json} (some : expected.isNull = false)
    (number : actual.isNumber = true) (same : actual.equal expected = true) :
    Passes (fun _ => True) (exactNumber actual expected name context) := by
  rw [exactNumber, if_neg (by rw [some]; decide)]
  exact passes_throwIf (by simp [number, same])

theorem passes_exactNumber_null :
    Passes (fun _ => True) (exactNumber .null .null name context) := by
  rw [exactNumber, if_pos (by decide)]
  exact passes_reject (by decide)

theorem passes_exactNumber_optional (value : Option Int) :
    Passes (fun _ => True) (exactNumber (optional value) (optional value) name context) := by
  cases value with
  | none => exact passes_exactNumber_null
  | some number => exact passes_exactNumber rfl rfl (equal_int_iff.mpr rfl)

end Numbers

/-! ## Accepted streams -/

theorem nativeRecord_oneOf {item : Json × Nat} {indexed : Nat × Record}
    (result : nativeRecord item = .ok indexed) :
    oneOf (indexed.2.get "record_type") nativeRecordTypes = true := by
  unfold nativeRecord at result
  split at result
  · cases result
  · next record _ =>
      obtain ⟨_, checked, result⟩ := except_bind_eq_ok.mp result
      obtain ⟨_, -, result⟩ := except_bind_eq_ok.mp result
      obtain ⟨_, -, result⟩ := except_bind_eq_ok.mp result
      obtain rfl := Except.ok.inj result
      obtain ⟨_, -, listed⟩ := except_bind_eq_ok.mp checked
      exact Bool.eq_true_of_not_eq_false (throwIf_eq_ok.mp listed)

/-- Every record of the stream is of one type. -/
theorem length_ofType {items : List (Nat × Record)}
    (typed : ∀ item ∈ items, oneOf (item.2.get "record_type") nativeRecordTypes = true) :
    (ofType "request" items).length + (ofType "iteration" items).length +
      (ofType "summary" items).length = items.length := by
  induction items with
  | nil => rfl
  | cons item items ih =>
      rw [List.forall_mem_cons] at typed
      obtain ⟨kind, found, listed⟩ := (Option.any_eq_true _ _).mp typed.1
      have rest := ih typed.2
      have types : ∀ name, oneOf (item.2.get "record_type") [name] = decide (kind = text name) :=
        fun name => by simp [oneOf, found]
      simp only [nativeRecordTypes, List.map_cons, List.map_nil, List.contains_iff_mem,
        List.mem_cons, List.not_mem_nil, or_false] at listed
      simp only [ofType, List.filter_cons, types] at rest ⊢
      rcases listed with rfl | rfl | rfl <;>
        simp only [text_injective.eq_iff, decide_true, if_true, List.length_cons,
          String.reduceEq, decide_false, Bool.false_eq_true, if_false] <;> omega

/-- An accepted stream consists of its requests, its iterations and its summary. -/
theorem validateNativeRecords_length {divide : Int → Int → FloatNumeral}
    {config : Option NativeConfig} {workload : Option (List Record)} {records : List Json}
    {requests iterations : List Record} {summary : Record}
    (accepted : validateNativeRecords divide config workload records =
      .ok (requests, iterations, summary)) :
    records.length = requests.length + iterations.length + 1 := by
  unfold validateNativeRecords at accepted
  obtain ⟨indexed, each, accepted⟩ := except_bind_eq_ok.mp accepted
  have typed : ∀ item ∈ indexed, oneOf (item.2.get "record_type") nativeRecordTypes = true :=
    fun item member => by
      obtain ⟨source, -, result⟩ := exists_mem_of_forall₂ (forall₂_of_mapM each) member
      exact nativeRecord_oneOf result
  have whole := length_ofType typed
  have same := (forall₂_of_mapM each).length_eq
  rw [List.length_zipIdx] at same
  split at accepted
  · next line summary' last summaries _ =>
      simp only [except_bind_eq_ok] at accepted
      obtain ⟨_, -, seen, -, _, -, _, -, _, -, _, -, _, -, returned⟩ := accepted
      obtain ⟨rfl, others⟩ := Prod.mk.inj (Except.ok.inj returned)
      obtain ⟨rfl, -⟩ := Prod.mk.inj others
      rw [summaries, List.length_singleton] at whole
      rw [List.length_map, List.length_map]
      omega
  · cases accepted

end LlmLab.Benchmarks
