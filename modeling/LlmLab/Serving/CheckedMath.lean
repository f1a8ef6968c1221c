import LlmLab.Lib.ExceptLogic
import Mathlib.Data.Int.Init
import Mathlib.Tactic.Linarith

/-!
# Exceptions and checked arithmetic

The C++ exception classes the serving sources throw, with their messages, and the checked
64-bit helpers: the unsigned `inc`/`add` of `kv_cache.cpp`, which are also
`checked_incremented`/`checked_add_unsigned` of `continuous_batching.cpp`, and the signed
`checked_add`/`checked_multiply` of `simulated_backend.cpp`.

Unsigned values are `Nat` and signed values `Int`; the checks say where a value would leave
its 64-bit type.
-/

namespace LlmLab.Serving

/-- The exception classes of the serving sources, with the `what()` text. -/
inductive Exn where
  | invalidArgument (what : String)
  | logicError (what : String)
  | outOfRange (what : String)
  | overflowError (what : String)
  | runtimeError (what : String)
  | kvCapacityError (what : String)
  /-- An operation the C++ standard leaves undefined, such as reading an empty optional. -/
  | undefinedBehavior (what : String)
deriving DecidableEq, Repr

/-- A checked 64-bit counter, epoch, timestamp or total would have overflowed. -/
def Exn.IsOverflow : Exn → Prop
  | .overflowError _ => True
  | _ => False

instance : DecidablePred Exn.IsOverflow := fun error => by
  cases error <;> unfold Exn.IsOverflow <;> infer_instance

@[simp] theorem Exn.isOverflow_overflowError (what : String) :
    (Exn.overflowError what).IsOverflow := True.intro

def uint64Max : Nat := 2 ^ 64 - 1
/-- `size_t` is 64 bits wide. -/
def sizeMax : Nat := 2 ^ 64 - 1
def int64Max : Int := 2 ^ 63 - 1
def int64Min : Int := -(2 ^ 63)

/-! ## Unsigned helpers -/

/-- `inc` / `checked_incremented`. -/
def inc (value : Nat) (message : String) : Except Exn Nat :=
  if value = uint64Max then .error (.overflowError message) else .ok (value + 1)

/-- `add` / `checked_add_unsigned`: throws exactly when the sum is not representable. -/
def add (a b : Nat) (message : String) : Except Exn Nat :=
  if a + b > uint64Max then .error (.overflowError message) else .ok (a + b)

theorem inc_ensures (value : Nat) (message : String) :
    Ensures Exn.IsOverflow (fun result => result = value + 1) (inc value message) := by
  unfold inc
  split
  · exact True.intro
  · rfl

theorem add_ensures (a b : Nat) (message : String) :
    Ensures Exn.IsOverflow (fun result => result = a + b ∧ a + b ≤ uint64Max)
      (add a b message) := by
  unfold add
  split
  · exact True.intro
  · next fits => exact ⟨rfl, not_lt.mp fits⟩

/-! ## Signed helpers -/

/-- `checked_add` of `checked_math.h`. -/
def checkedAdd (lhs rhs : Int) : Except Exn Int :=
  if (rhs > 0 ∧ lhs > int64Max - rhs) ∨ (rhs < 0 ∧ lhs < int64Min - rhs) then
    .error (.overflowError "signed 64-bit addition overflow")
  else .ok (lhs + rhs)

/-- `checked_multiply` of `checked_math.h`; C++ integer division truncates. -/
def checkedMultiply (lhs rhs : Int) : Except Exn Int :=
  if lhs = 0 ∨ rhs = 0 then .ok 0
  else if (lhs = -1 ∧ rhs = int64Min) ∨ (rhs = -1 ∧ lhs = int64Min) then
    .error (.overflowError "signed 64-bit multiplication overflow")
  else if lhs > 0 then
    if (rhs > 0 ∧ lhs > int64Max.tdiv rhs) ∨ (rhs < 0 ∧ rhs < int64Min.tdiv lhs) then
      .error (.overflowError "signed 64-bit multiplication overflow")
    else .ok (lhs * rhs)
  else if (rhs > 0 ∧ lhs < int64Min.tdiv rhs) ∨ (rhs < 0 ∧ lhs < int64Max.tdiv rhs) then
    .error (.overflowError "signed 64-bit multiplication overflow")
  else .ok (lhs * rhs)

/-- `checked_count`: a 64-bit count as a signed 64-bit factor. -/
def checkedCount (value : Nat) (description : String) : Except Exn Int :=
  if (value : Int) > int64Max then .error (.overflowError description) else .ok value

theorem checkedAdd_ensures (lhs rhs : Int) :
    Ensures Exn.IsOverflow (fun result => result = lhs + rhs) (checkedAdd lhs rhs) := by
  unfold checkedAdd
  split
  · exact True.intro
  · rfl

/-- A checked sum does not lie above the range of its type when its first summand does not. -/
theorem checkedAdd_le {lhs rhs sum : Int} (small : lhs ≤ int64Max)
    (added : checkedAdd lhs rhs = .ok sum) : sum ≤ int64Max := by
  unfold checkedAdd at added
  split at added
  · cases added
  · next fits =>
      obtain rfl := Except.ok.inj added
      rw [not_or, not_and, not_and] at fits
      by_cases positive : rhs > 0
      · have := fits.1 positive
        omega
      · omega

theorem checkedMultiply_ensures (lhs rhs : Int) :
    Ensures Exn.IsOverflow (fun result => result = lhs * rhs) (checkedMultiply lhs rhs) := by
  unfold checkedMultiply
  split
  · next zero => rcases zero with rfl | rfl <;> simp
  · repeat' split
    all_goals first | exact True.intro | rfl

theorem checkedCount_ensures (value : Nat) (description : String) :
    Ensures Exn.IsOverflow (fun result => result = (value : Int))
      (checkedCount value description) := by
  unfold checkedCount
  split
  · exact True.intro
  · rfl

end LlmLab.Serving
