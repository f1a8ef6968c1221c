import LlmLab.Serving.CheckedMath

/-!
# Requests

`request.h` / `request.cpp`: the request record, its lifecycle states and the legal
transitions between them.
-/

namespace LlmLab.Serving

/-- `RequestId` wraps a `uint64_t` and is compared by it. -/
abbrev RequestId := Nat

/-- A token id of an exact prompt. -/
abbrev Token := Int32

inductive RequestState where
  | waiting
  | prefilling
  | decoding
  | finished
  /-- Reserved; no operation of the sources enters it. -/
  | preempted
  | cancelled
deriving DecidableEq, Repr

/-- `is_legal_transition`. -/
def isLegalTransition : RequestState → RequestState → Bool
  | .waiting, next => next = .prefilling || next = .cancelled
  | .prefilling, next =>
      next = .decoding || next = .finished || next = .preempted || next = .cancelled
  | .decoding, next => next = .finished || next = .preempted || next = .cancelled
  | .preempted, next => next = .waiting || next = .cancelled
  | .finished, _ => false
  | .cancelled, _ => false

/-- The authoritative prompt of a request: only a length, or its exact tokens. -/
inductive Prompt where
  | countOnly (length : Nat)
  | exactTokens (tokens : List Token)
deriving DecidableEq

structure Request where
  requestId : RequestId
  arrivalTimeUs : Int
  maxNewTokens : Nat
  generatedTokenCount : Nat
  state : RequestState
  admittedTimeUs : Option Int
  firstScheduledTimeUs : Option Int
  firstTokenTimeUs : Option Int
  finishTimeUs : Option Int
  prompt : Prompt
deriving DecidableEq

namespace Request

/-- The two constructors of `Request`, which reject a negative arrival time. -/
def create (id : RequestId) (arrivalUs : Int) (prompt : Prompt) (outputLimit : Nat) :
    Except Exn Request := do
  throwIf (arrivalUs < 0) (.invalidArgument "request arrival_time_us must be non-negative")
  return { requestId := id, arrivalTimeUs := arrivalUs, maxNewTokens := outputLimit,
           generatedTokenCount := 0, state := .waiting, admittedTimeUs := none,
           firstScheduledTimeUs := none, firstTokenTimeUs := none, finishTimeUs := none,
           prompt }

/-- `prompt_length`. -/
def promptLength (request : Request) : Nat :=
  match request.prompt with
  | .countOnly length => length
  | .exactTokens tokens => tokens.length

/-- `has_exact_prompt_tokens` together with `prompt_tokens`. -/
def promptTokens? (request : Request) : Option (List Token) :=
  match request.prompt with
  | .countOnly _ => none
  | .exactTokens tokens => some tokens

/-- `transition_to`. -/
def transitionTo (request : Request) (next : RequestState) : Except Exn Request := do
  throwIf (isLegalTransition request.state next = false)
    (.logicError "illegal request state transition")
  throwIf (request.state = .prefilling ∧ next = .finished ∧ request.maxNewTokens ≠ 0)
    (.logicError "Prefilling-to-Finished requires a zero output limit")
  return { request with state := next }

/-- The admission test shared by both engines: nothing has happened to the request yet. -/
def Pristine (request : Request) : Prop :=
  request.state = .waiting ∧ request.generatedTokenCount = 0 ∧
    request.admittedTimeUs = none ∧ request.firstScheduledTimeUs = none ∧
    request.firstTokenTimeUs = none ∧ request.finishTimeUs = none

instance (request : Request) : Decidable request.Pristine := by
  unfold Pristine
  infer_instance

/-- The request that the constructors make. -/
def initial (id : RequestId) (arrivalUs : Int) (prompt : Prompt) (outputLimit : Nat) : Request :=
  { requestId := id, arrivalTimeUs := arrivalUs, maxNewTokens := outputLimit,
    generatedTokenCount := 0, state := .waiting, admittedTimeUs := none,
    firstScheduledTimeUs := none, firstTokenTimeUs := none, finishTimeUs := none, prompt }

/-- A request as it was when it was submitted. -/
def submission (request : Request) : Request :=
  initial request.requestId request.arrivalTimeUs request.prompt request.maxNewTokens

theorem Pristine.submission_eq {request : Request} (pristine : request.Pristine) :
    request.submission = request := by
  obtain ⟨waiting, unused, unadmitted, unscheduled, noToken, unfinished⟩ := pristine
  cases request
  cases waiting
  cases unused
  cases unadmitted
  cases unscheduled
  cases noToken
  cases unfinished
  rfl

theorem create_eq_ok {id : RequestId} {arrivalUs : Int} {prompt : Prompt} {outputLimit : Nat}
    (nonneg : 0 ≤ arrivalUs) :
    create id arrivalUs prompt outputLimit = .ok (initial id arrivalUs prompt outputLimit) := by
  rw [create, throwIf_of_not (Int.not_lt.mpr nonneg)]
  rfl

theorem initial_pristine (id : RequestId) (arrivalUs : Int) (prompt : Prompt) (outputLimit : Nat) :
    (initial id arrivalUs prompt outputLimit).Pristine := ⟨rfl, rfl, rfl, rfl, rfl, rfl⟩

theorem promptLength_eq_length {request : Request} {tokens : List Token}
    (exact : request.promptTokens? = some tokens) : request.promptLength = tokens.length := by
  cases prompt : request.prompt with
  | countOnly length => simp [promptTokens?, prompt] at exact
  | exactTokens stored =>
      simp only [promptTokens?, prompt, Option.some.injEq] at exact
      simp only [promptLength, prompt, exact]

/-- A legal transition changes the state and nothing else. -/
theorem transitionTo_eq_ok {request : Request} {next : RequestState}
    (legal : isLegalTransition request.state next = true)
    (zero : request.state = .prefilling → next = .finished → request.maxNewTokens = 0) :
    request.transitionTo next = .ok { request with state := next } := by
  unfold transitionTo
  rw [throwIf_of_not (by simp [legal]), throwIf_of_not fun bad => bad.2.2 (zero bad.1 bad.2.1)]
  rfl

end Request

end LlmLab.Serving
