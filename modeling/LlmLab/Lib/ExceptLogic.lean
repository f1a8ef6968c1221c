import Mathlib.Tactic.Common

/-!
# A postcondition judgment for fallible computations

`Ensures allowed post action` says that every result of `action` satisfies `post` and
every error it raises is one of the `allowed` ones.  The judgment composes along `>>=`
and along a monadic left fold, so the specification of a function that can fail is
assembled from those of the functions it calls.
-/

namespace LlmLab

universe u v

variable {ε : Type u} {α β σ : Type v} {allowed : ε → Prop}

/-- Every result satisfies `post`; every error is allowed. -/
def Ensures (allowed : ε → Prop) (post : α → Prop) : Except ε α → Prop
  | .ok value => post value
  | .error error => allowed error

/-- Raise an error when a condition holds. -/
def throwIf (condition : Prop) [Decidable condition] (error : ε) : Except ε PUnit :=
  if condition then .error error else .ok ⟨⟩

@[simp] theorem ensures_ok {post : α → Prop} {value : α} :
    Ensures allowed post (.ok value) ↔ post value := Iff.rfl

@[simp] theorem ensures_pure {post : α → Prop} {value : α} :
    Ensures allowed post (pure value) ↔ post value := Iff.rfl

@[simp] theorem ensures_error {post : α → Prop} {error : ε} :
    Ensures allowed post (.error error : Except ε α) ↔ allowed error := Iff.rfl

@[simp] theorem ensures_throw {post : α → Prop} {error : ε} :
    Ensures allowed post (throw error : Except ε α) ↔ allowed error := Iff.rfl

theorem Ensures.of_eq_ok {post : α → Prop} {action : Except ε α} {value : α}
    (safe : Ensures allowed post action) (result : action = .ok value) : post value := by
  subst result
  exact safe

theorem Ensures.of_eq_error {post : α → Prop} {action : Except ε α} {error : ε}
    (safe : Ensures allowed post action) (result : action = .error error) : allowed error := by
  subst result
  exact safe

/-- Where no error is allowed there is a result. -/
theorem Ensures.exists_ok {post : α → Prop} {action : Except ε α}
    (safe : Ensures (fun _ => False) post action) : ∃ value, action = .ok value ∧ post value := by
  cases action with
  | error error => exact safe.elim
  | ok value => exact ⟨value, rfl, safe⟩

theorem Ensures.bind {p : α → Prop} {q : β → Prop} {action : Except ε α}
    {next : α → Except ε β} (safe : Ensures allowed p action)
    (continuation : ∀ value, p value → Ensures allowed q (next value)) :
    Ensures allowed q (action >>= next) := by
  cases action with
  | error error => exact safe
  | ok value => exact continuation value safe

/-- Like `Ensures.bind`, and the continuation also learns which value was returned. -/
theorem Ensures.bind_eq {p : α → Prop} {q : β → Prop} {action : Except ε α}
    {next : α → Except ε β} (safe : Ensures allowed p action)
    (continuation : ∀ value, action = .ok value → p value → Ensures allowed q (next value)) :
    Ensures allowed q (action >>= next) := by
  cases action with
  | error error => exact safe
  | ok value => exact continuation value rfl safe

theorem Ensures.mono {p q : α → Prop} {action : Except ε α}
    (safe : Ensures allowed p action) (weaken : ∀ value, p value → q value) :
    Ensures allowed q action := by
  cases action with
  | error error => exact safe
  | ok value => exact weaken value safe

theorem Ensures.mono_allowed {allowed' : ε → Prop} {p : α → Prop} {action : Except ε α}
    (safe : Ensures allowed p action) (weaken : ∀ error, allowed error → allowed' error) :
    Ensures allowed' p action := by
  cases action with
  | error error => exact weaken error safe
  | ok value => exact safe

/-- Where every error is allowed, any computation has the trivial postcondition. -/
theorem Ensures.trivial (all : ∀ error, allowed error) (action : Except ε α) :
    Ensures allowed (fun _ => True) action := by
  cases action with
  | error error => exact all error
  | ok value => exact True.intro

/-- A guard passes on the negation of its condition. -/
theorem Ensures.throwIf_bind {condition : Prop} [Decidable condition] {error : ε}
    {q : α → Prop} {next : PUnit → Except ε α} (raised : condition → allowed error)
    (continuation : ¬ condition → Ensures allowed q (next ⟨⟩)) :
    Ensures allowed q (throwIf condition error >>= next) := by
  unfold throwIf
  split
  · next holds => exact raised holds
  · next fails => exact continuation fails

/-- The invariant rule of a monadic fold: the invariant is indexed by the elements
already consumed. -/
theorem Ensures.foldlM (invariant : List β → σ → Prop) {step : σ → β → Except ε σ}
    {elements : List β} {state : σ} (start : invariant [] state)
    (preserved : ∀ consumed element rest state, elements = consumed ++ element :: rest →
      invariant consumed state →
      Ensures allowed (invariant (consumed ++ [element])) (step state element)) :
    Ensures allowed (invariant elements) (elements.foldlM step state) := by
  suffices general : ∀ rest consumed state, elements = consumed ++ rest →
      invariant consumed state → Ensures allowed (invariant elements) (rest.foldlM step state) from
    general elements [] state rfl start
  intro rest
  induction rest with
  | nil =>
      intro consumed state split holds
      rw [List.append_nil] at split
      subst split
      exact holds
  | cons element rest ih =>
      intro consumed state split holds
      rw [List.foldlM_cons]
      refine (preserved consumed element rest state split holds).bind fun next holds => ?_
      exact ih (consumed ++ [element]) next (by simpa using split) holds

/-- Two continuations that agree on what the first half can return. -/
theorem except_bind_congr {action : Except ε α} {next next' : α → Except ε β}
    (same : ∀ value, action = .ok value → next value = next' value) :
    action >>= next = action >>= next' := by
  cases action with
  | error error => rfl
  | ok value => exact same value rfl

/-- The last step of a monadic fold. -/
theorem foldlM_concat {step : σ → β → Except ε σ} (elements : List β) (last : β) (state : σ) :
    (elements ++ [last]).foldlM step state =
      elements.foldlM step state >>= fun before => step before last := by
  rw [List.foldlM_append]
  refine congrArg _ (funext fun before => ?_)
  rw [List.foldlM_cons]
  exact bind_pure _

/-- Two loops whose bodies agree on the elements agree. -/
theorem foldlM_congr {step step' : σ → β → Except ε σ} {elements : List β}
    (same : ∀ element ∈ elements, ∀ state, step state element = step' state element) (state : σ) :
    elements.foldlM step state = elements.foldlM step' state := by
  induction elements generalizing state with
  | nil => rfl
  | cons first rest ih =>
      rw [List.foldlM_cons, List.foldlM_cons, same first List.mem_cons_self]
      exact congrArg _ (funext fun next =>
        ih (fun element member => same element (List.mem_cons_of_mem first member)) next)

/-- Two loops whose bodies agree, and keep a property, where it holds agree. -/
theorem foldlM_congr_of {step step' : σ → β → Except ε σ} {property : σ → Prop}
    {elements : List β}
    (same : ∀ element ∈ elements, ∀ state, property state → step state element = step' state element)
    (kept : ∀ element ∈ elements, ∀ state next, property state →
      step' state element = .ok next → property next) {state : σ} (start : property state) :
    elements.foldlM step state = elements.foldlM step' state := by
  induction elements generalizing state with
  | nil => rfl
  | cons first rest ih =>
      rw [List.foldlM_cons, List.foldlM_cons, same first List.mem_cons_self state start]
      exact except_bind_congr fun next result =>
        ih (fun element member => same element (List.mem_cons_of_mem first member))
          (fun element member => kept element (List.mem_cons_of_mem first member))
          (kept first List.mem_cons_self state next start result)

theorem throwIf_eq_ok {condition : Prop} [Decidable condition] {error : ε} {done : PUnit} :
    throwIf condition error = .ok done ↔ ¬ condition := by
  unfold throwIf
  split <;> simp_all

@[simp] theorem throwIf_of_not {condition : Prop} [Decidable condition] {error : ε}
    (fails : ¬ condition) : (throwIf condition error : Except ε PUnit) = .ok ⟨⟩ :=
  if_neg fails

@[simp] theorem throwIf_of {condition : Prop} [Decidable condition] {error : ε}
    (holds : condition) : (throwIf condition error : Except ε PUnit) = .error error :=
  if_pos holds

/-- A successful bind splits into its two successful halves. -/
theorem except_bind_eq_ok {action : Except ε α} {next : α → Except ε β} {result : β} :
    action >>= next = .ok result ↔ ∃ value, action = .ok value ∧ next value = .ok result := by
  cases action with
  | error error => simp [bind, Except.bind]
  | ok value => simp [bind, Except.bind]

/-- Where every call succeeds, so does the map. -/
theorem mapM_map_eq_ok {γ : Type v} {step : β → Except ε γ} {source : α → β} {image : α → γ}
    {xs : List α} (each : ∀ x ∈ xs, step (source x) = .ok (image x)) :
    (xs.map source).mapM step = .ok (xs.map image) := by
  induction xs with
  | nil => rfl
  | cons x xs ih =>
      rw [List.map_cons, List.mapM_cons, each x List.mem_cons_self,
        ih fun y member => each y (List.mem_cons_of_mem x member)]
      rfl

/-- A map whose calls succeed under a condition succeeds when all of them do. -/
theorem mapM_eq_ok_iff {step : α → Except ε β} {image : α → β} {fits : α → Prop} {xs : List α}
    {ys : List β} (each : ∀ x ∈ xs, ∀ y, step x = .ok y ↔ y = image x ∧ fits x) :
    xs.mapM step = .ok ys ↔ ys = xs.map image ∧ ∀ x ∈ xs, fits x := by
  induction xs generalizing ys with
  | nil =>
      rw [List.mapM_nil, List.map_nil]
      exact ⟨fun same => ⟨(Except.ok.inj same).symm, List.forall_mem_nil _⟩,
        fun both => congrArg Except.ok both.1.symm⟩
  | cons x xs ih =>
      rw [List.forall_mem_cons] at each
      rw [List.mapM_cons, except_bind_eq_ok, List.map_cons, List.forall_mem_cons]
      simp only [each.1, except_bind_eq_ok, ih each.2]
      constructor
      · rintro ⟨y, ⟨rfl, here⟩, rest, ⟨rfl, later⟩, same⟩
        exact ⟨(Except.ok.inj same).symm, here, later⟩
      · rintro ⟨rfl, here, later⟩
        exact ⟨_, ⟨rfl, here⟩, _, ⟨rfl, later⟩, rfl⟩

/-- The results of a map that succeeds, one for each element. -/
theorem forall₂_of_mapM {step : α → Except ε β} {xs : List α} {ys : List β}
    (result : xs.mapM step = .ok ys) : List.Forall₂ (fun x y => step x = .ok y) xs ys := by
  induction xs generalizing ys with
  | nil =>
      obtain rfl := Except.ok.inj result
      exact List.Forall₂.nil
  | cons x xs ih =>
      rw [List.mapM_cons] at result
      obtain ⟨y, first, result⟩ := except_bind_eq_ok.mp result
      obtain ⟨rest, later, result⟩ := except_bind_eq_ok.mp result
      obtain rfl := Except.ok.inj result
      exact List.Forall₂.cons first (ih later)

/-- Every step of a fold that succeeds has succeeded. -/
theorem foldlM_each {step : σ → β → Except ε σ} {elements : List β} {state final : σ}
    (result : elements.foldlM step state = .ok final) :
    ∀ element ∈ elements, ∃ before after, step before element = .ok after := by
  induction elements generalizing state with
  | nil => exact fun element member => nomatch member
  | cons first rest ih =>
      rw [List.foldlM_cons] at result
      obtain ⟨next, here, later⟩ := except_bind_eq_ok.mp result
      exact List.forall_mem_cons.mpr ⟨⟨state, next, here⟩, ih later⟩

theorem mapError_eq_ok {ε' : Type u} {action : Except ε α} {change : ε → ε'} {value : α} :
    action.mapError change = .ok value ↔ action = .ok value := by
  cases action with
  | error error => exact ⟨(nomatch ·), (nomatch ·)⟩
  | ok found => exact ⟨fun same => congrArg Except.ok (Except.ok.inj same),
      fun same => congrArg Except.ok (Except.ok.inj same)⟩

@[simp] theorem except_ok_bind {value : α} {next : α → Except ε β} :
    (Except.ok value : Except ε α) >>= next = next value := rfl

@[simp] theorem except_error_bind {error : ε} {next : α → Except ε β} :
    (Except.error error : Except ε α) >>= next = .error error := rfl

end LlmLab
