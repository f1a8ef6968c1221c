import Mathlib.Logic.Basic
import Mathlib.Data.List.Basic
import Mathlib.Data.List.Induction

/-!
# Runs of a deterministic machine

A machine takes an input to an output and a next state.  A run is the fold of its inputs; the
rules below lift a step lemma to every run, to every run whose steps meet a side condition, to two
machines side by side, to runs in any order, and to a machine that is observed by a ghost.
-/

namespace LlmLab

universe u v w x

/-- A deterministic machine over states `σ`, inputs `ι` and outputs `ω`. -/
structure Machine (σ : Type u) (ι : Type v) (ω : Type w) where
  step : σ → ι → ω × σ

namespace Machine

variable {σ : Type u} {ι : Type v} {ω : Type w} {γ : Type x} (machine : Machine σ ι ω)

/-- The state after one input. -/
def next (state : σ) (input : ι) : σ := (machine.step state input).2

/-- The output of one input. -/
def output (state : σ) (input : ι) : ω := (machine.step state input).1

/-- The state after a list of inputs. -/
def run (state : σ) (inputs : List ι) : σ := inputs.foldl machine.next state

/-- The outputs of a run, in order. -/
def outputs (state : σ) : List ι → List ω
  | [] => []
  | input :: rest => machine.output state input :: outputs (machine.next state input) rest

/-- Every step of the run meets a condition on the state before it and its input. -/
def Along (condition : σ → ι → Prop) : σ → List ι → Prop
  | _, [] => True
  | state, input :: rest => condition state input ∧ Along condition (machine.next state input) rest

instance decidableAlong (condition : σ → ι → Prop) [∀ state input, Decidable (condition state input)] :
    ∀ (state : σ) (inputs : List ι), Decidable (machine.Along condition state inputs)
  | _, [] => .isTrue True.intro
  | state, input :: rest =>
      have := decidableAlong condition (machine.next state input) rest
      inferInstanceAs (Decidable (condition state input ∧ machine.Along condition _ rest))

@[simp] theorem run_nil (state : σ) : machine.run state [] = state := rfl

@[simp] theorem run_cons (state : σ) (input : ι) (rest : List ι) :
    machine.run state (input :: rest) = machine.run (machine.next state input) rest := rfl

/-- The states a run goes through, its first and its last one included. -/
def states (state : σ) : List ι → List σ
  | [] => [state]
  | input :: rest => state :: states (machine.next state input) rest

theorem states_concat (state : σ) (inputs : List ι) (input : ι) :
    machine.states state (inputs ++ [input]) =
      machine.states state inputs ++ [machine.next (machine.run state inputs) input] := by
  induction inputs generalizing state with
  | nil => rfl
  | cons first rest ih => exact congrArg _ (ih _)

theorem run_append (state : σ) (before after : List ι) :
    machine.run state (before ++ after) = machine.run (machine.run state before) after :=
  List.foldl_append ..

theorem outputs_append (state : σ) (before after : List ι) :
    machine.outputs state (before ++ after) =
      machine.outputs state before ++ machine.outputs (machine.run state before) after := by
  induction before generalizing state with
  | nil => rfl
  | cons input rest ih => exact congrArg _ (ih _)

theorem run_concat (state : σ) (inputs : List ι) (input : ι) :
    machine.run state (inputs ++ [input]) = machine.next (machine.run state inputs) input := by
  simp [run]

variable {machine}

theorem Along.mono {condition weaker : σ → ι → Prop}
    (implies : ∀ state input, condition state input → weaker state input) {state : σ}
    {inputs : List ι} (along : machine.Along condition state inputs) :
    machine.Along weaker state inputs := by
  induction inputs generalizing state with
  | nil => exact True.intro
  | cons input rest ih => exact ⟨implies state input along.1, ih along.2⟩

/-- A condition on the inputs alone. -/
theorem along_of_forall {condition : ι → Prop} {state : σ} {inputs : List ι}
    (all : ∀ input ∈ inputs, condition input) :
    machine.Along (fun _ input => condition input) state inputs := by
  induction inputs generalizing state with
  | nil => exact True.intro
  | cons input rest ih =>
      exact ⟨all input List.mem_cons_self, ih fun other member =>
        all other (List.mem_cons_of_mem input member)⟩

/-- What the steps of a conditioned run preserve holds at its end. -/
theorem Along.invariant {condition : σ → ι → Prop} {property : σ → Prop}
    (preserved : ∀ state input, property state → condition state input →
      property (machine.next state input)) {state : σ} {inputs : List ι} (start : property state)
    (along : machine.Along condition state inputs) : property (machine.run state inputs) := by
  induction inputs generalizing state with
  | nil => exact start
  | cons input rest ih => exact ih (preserved state input start along.1) along.2

/-- What every step preserves holds at the end of every run. -/
theorem run_invariant {property : σ → Prop}
    (preserved : ∀ state input, property state → property (machine.next state input))
    {state : σ} (inputs : List ι) (start : property state) :
    property (machine.run state inputs) := by
  induction inputs generalizing state with
  | nil => exact start
  | cons input rest ih => exact ih (preserved state input start)

/-- What every step preserves, also about the states already seen, holds of every run. -/
theorem states_invariant {property : List σ → σ → Prop}
    (preserved : ∀ seen state input, property seen state →
      property (seen ++ [machine.next state input]) (machine.next state input))
    {state : σ} (inputs : List ι) (start : property [state] state) :
    property (machine.states state inputs) (machine.run state inputs) := by
  induction inputs using List.reverseRecOn with
  | nil => exact start
  | append_singleton front last ih =>
      rw [states_concat, run_concat]
      exact preserved _ _ last ih

/-- A weight of the steps, summed along a run. -/
def tally (machine : Machine σ ι ω) (weight : σ → ι → Nat) : σ → List ι → Nat
  | _, [] => 0
  | state, input :: rest =>
      weight state input + tally machine weight (machine.next state input) rest

/-- What the steps of a conditioned run preserve as they add to a count holds at its end. -/
theorem Along.tally {condition : σ → ι → Prop} {weight : σ → ι → Nat} {property : σ → Nat → Prop}
    (preserved : ∀ state input count, property state count → condition state input →
      property (machine.next state input) (count + weight state input)) {state : σ}
    {inputs : List ι} {count : Nat} (start : property state count)
    (along : machine.Along condition state inputs) :
    property (machine.run state inputs) (count + machine.tally weight state inputs) := by
  induction inputs generalizing state count with
  | nil => exact start
  | cons input rest ih =>
      have after := ih (preserved state input count start along.1) along.2
      rwa [Nat.add_assoc] at after

/-! ## Two machines side by side -/

/-- Machines whose related states answer alike and stay related run alike. -/
theorem simulation {σ' : Type u} {ω' : Type w} {other : Machine σ' ι ω'}
    {condition : σ → ι → Prop} {related : σ → σ' → Prop} {alike : ω → ω' → Prop}
    (step : ∀ state state' input, related state state' → condition state input →
      alike (machine.output state input) (other.output state' input) ∧
        related (machine.next state input) (other.next state' input))
    {state : σ} {state' : σ'} {inputs : List ι} (start : related state state')
    (along : machine.Along condition state inputs) :
    List.Forall₂ alike (machine.outputs state inputs) (other.outputs state' inputs) ∧
      related (machine.run state inputs) (other.run state' inputs) := by
  induction inputs generalizing state state' with
  | nil => exact ⟨.nil, start⟩
  | cons input rest ih =>
      obtain ⟨answer, after⟩ := step state state' input start along.1
      obtain ⟨answers, final⟩ := ih after along.2
      exact ⟨.cons answer answers, final⟩

/-- The machine fed with translated inputs. -/
def translated {ι' : Type v} (machine : Machine σ ι ω) (translate : ι' → ι) : Machine σ ι' ω :=
  ⟨fun state input => machine.step state (translate input)⟩

section Translated

variable {ι' : Type v} (translate : ι' → ι)

theorem run_translated (state : σ) (inputs : List ι') :
    (machine.translated translate).run state inputs =
      machine.run state (inputs.map translate) := by
  induction inputs generalizing state with
  | nil => rfl
  | cons input rest ih => exact ih _

theorem outputs_translated (state : σ) (inputs : List ι') :
    (machine.translated translate).outputs state inputs =
      machine.outputs state (inputs.map translate) := by
  induction inputs generalizing state with
  | nil => rfl
  | cons input rest ih => exact congrArg _ (ih _)

end Translated

/-! ## Runs in any order -/

/-- Inputs that commute wherever they are ready reach one state in every order. -/
theorem run_perm {ready : σ → List ι → Prop}
    (advance : ∀ state input rest, ready state (input :: rest) →
      ready (machine.next state input) rest)
    (reorder : ∀ state before after, before.Perm after → ready state before → ready state after)
    (commute : ∀ state a b rest, ready state (a :: b :: rest) →
      machine.next (machine.next state a) b = machine.next (machine.next state b) a)
    {state : σ} {before after : List ι} (start : ready state before) (perm : before.Perm after) :
    machine.run state before = machine.run state after := by
  induction perm generalizing state with
  | nil => rfl
  | cons input _ ih => exact ih (advance state input _ start)
  | swap a b rest =>
      rw [run_cons, run_cons, run_cons, run_cons, commute state b a rest start]
  | trans first _ ih ih' => exact (ih start).trans (ih' (reorder state _ _ first start))

/-! ## Ghost observers -/

/-- The machine together with a ghost that watches every step. -/
def observed (machine : Machine σ ι ω) (observe : γ → σ → ι → ω → γ) :
    Machine (γ × σ) ι ω where
  step := fun (ghost, state) input =>
    (machine.output state input,
      (observe ghost state input (machine.output state input), machine.next state input))

/-- Watching a machine does not change its runs. -/
@[simp] theorem run_observed (observe : γ → σ → ι → ω → γ) (ghost : γ) (state : σ)
    (inputs : List ι) :
    ((machine.observed observe).run (ghost, state) inputs).2 = machine.run state inputs := by
  induction inputs generalizing ghost state with
  | nil => rfl
  | cons input rest ih => exact ih _ _

end Machine

end LlmLab
