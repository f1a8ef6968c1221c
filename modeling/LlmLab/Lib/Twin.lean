import LlmLab.Lib.ExceptLogic

/-!
# Two fallible computations side by side

`Twin related left right` says that both computations raise the same error, or that their results
are related.  Like `Ensures`, the judgment composes along `>>=` and along a monadic left fold, so
that two runs of a function on related states are compared call by call.
-/

namespace LlmLab

universe u v

variable {ε : Type u} {α α' β β' γ σ σ' : Type v}

/-- Both raise the same error, or their results are related. -/
inductive Twin (related : α → α' → Prop) : Except ε α → Except ε α' → Prop
  | ok {value : α} {value' : α'} (alike : related value value') :
      Twin related (.ok value) (.ok value')
  | error (error : ε) : Twin related (.error error) (.error error)

namespace Twin

variable {related : α → α' → Prop} {further : β → β' → Prop} {left : Except ε α}
  {right : Except ε α'}

theorem same (action : Except ε α) : Twin Eq action action := by
  cases action with
  | error error => exact .error error
  | ok value => exact .ok rfl

/-- Equal results are what `Eq` relates. -/
theorem eq {action action' : Except ε α} (twin : Twin Eq action action') : action = action' := by
  cases twin with
  | error error => rfl
  | ok alike => rw [alike]

/-- Both fail, or both succeed. -/
theorem outcomes (twin : Twin related left right) :
    (∃ error, left = .error error ∧ right = .error error) ∨
      ∃ value value', left = .ok value ∧ right = .ok value' ∧ related value value' := by
  cases twin with
  | error error => exact .inl ⟨error, rfl, rfl⟩
  | ok alike => exact .inr ⟨_, _, rfl, rfl, alike⟩

theorem bind {next : α → Except ε β} {next' : α' → Except ε β'} (twin : Twin related left right)
    (continuation : ∀ value value', related value value' →
      Twin further (next value) (next' value')) :
    Twin further (left >>= next) (right >>= next') := by
  cases twin with
  | error error => exact .error error
  | ok alike => exact continuation _ _ alike

/-- One computation, made on both sides. -/
theorem bind_same {action : Except ε γ} {next : γ → Except ε β} {next' : γ → Except ε β'}
    (continuation : ∀ value, Twin further (next value) (next' value)) :
    Twin further (action >>= next) (action >>= next') :=
  (same action).bind fun value _ alike => alike ▸ continuation value

/-- A guard that both sides decide alike. -/
theorem throwIf_bind {condition condition' : Prop} [Decidable condition] [Decidable condition']
    {error : ε} {next : PUnit → Except ε β} {next' : PUnit → Except ε β'}
    (alike : condition ↔ condition')
    (continuation : ¬ condition → Twin further (next ⟨⟩) (next' ⟨⟩)) :
    Twin further (throwIf condition error >>= next) (throwIf condition' error >>= next') := by
  by_cases holds : condition
  · rw [throwIf_of holds, throwIf_of (alike.mp holds)]
    exact .error error
  · rw [throwIf_of_not holds, throwIf_of_not fun other => holds (alike.mpr other)]
    exact continuation holds

/-- A branch that both sides take alike. -/
theorem ite {condition condition' : Prop} [Decidable condition] [Decidable condition']
    {holds fails : Except ε β} {holds' fails' : Except ε β'} (alike : condition ↔ condition')
    (positive : condition → Twin further holds holds')
    (negative : ¬ condition → Twin further fails fails') :
    Twin further (if condition then holds else fails) (if condition' then holds' else fails') := by
  by_cases taken : condition
  · rw [if_pos taken, if_pos (alike.mp taken)]
    exact positive taken
  · rw [if_neg taken, if_neg fun other => taken (alike.mpr other)]
    exact negative taken

/-- Two folds over one list whose steps keep a relation. -/
theorem foldlM {related : σ → σ' → Prop} {step : σ → β → Except ε σ} {step' : σ' → β → Except ε σ'}
    {elements : List β} {state : σ} {state' : σ'} (start : related state state')
    (preserved : ∀ state state' element, element ∈ elements → related state state' →
      Twin related (step state element) (step' state' element)) :
    Twin related (elements.foldlM step state) (elements.foldlM step' state') := by
  induction elements generalizing state state' with
  | nil => exact .ok start
  | cons element rest ih =>
      rw [List.foldlM_cons, List.foldlM_cons]
      exact (preserved state state' element List.mem_cons_self start).bind fun next next' alike =>
        ih alike fun state state' other member =>
          preserved state state' other (List.mem_cons_of_mem element member)

end Twin

end LlmLab
