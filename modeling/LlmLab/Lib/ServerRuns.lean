import LlmLab.Lib.SingleServer
import Mathlib.Order.Basic

/-!
# A single server at work

The server as a machine: it waits for the next arrival, begins to serve a customer who has arrived,
or goes on with the one it serves.  It begins with the first customer in line, and never puts one
off for another.  When all have left, they were served at the times of the recursion.
-/

namespace LlmLab

universe u v

section Serve

variable {α : Type u} {arrival cost cost' : α → Int}

/-- The customers are served in their order. -/
theorem serve_map_fst (free : Option Int) (customers : List α) :
    (serve arrival cost free customers).map Prod.fst = customers := by
  induction customers generalizing free with
  | nil => rfl
  | cons customer rest ih =>
      unfold serve
      rw [List.map_cons, ih]

/-- Only what the customers cost counts. -/
theorem serve_congr {customers : List α} (free : Option Int)
    (same : ∀ customer ∈ customers, cost customer = cost' customer) :
    serve arrival cost free customers = serve arrival cost' free customers := by
  induction customers generalizing free with
  | nil => rfl
  | cons customer rest ih =>
      unfold serve
      dsimp only
      rw [same customer List.mem_cons_self,
        ih _ fun other member => same other (List.mem_cons_of_mem _ member)]

end Serve

/-- What has become of a customer. -/
inductive Stage where
  | waiting
  | inService (startUs : Int)
  | left (startUs : Int)
deriving DecidableEq

/-- When the service began, if it did. -/
def Stage.start? : Stage → Option Int
  | .waiting => none
  | .inService start | .left start => some start

/-- The customers of a server at a time. -/
structure Floor (α : Type u) where
  now : Int
  stage : α → Stage

section Server

variable {α : Type u} {κ : Type v} [LinearOrder κ]

/-- The customers of a server: their place in line, their arrival and what they cost.  Who comes
first in line does not arrive later. -/
structure Line (α : Type u) (κ : Type v) [LinearOrder κ] where
  customers : List α
  key : α → κ
  arrival : α → Int
  cost : α → Int
  distinct : ∀ first ∈ customers, ∀ second ∈ customers, key first = key second → first = second
  ordered : ∀ first second, key first < key second → arrival first ≤ arrival second
  nonneg : ∀ customer, 0 ≤ cost customer

variable {line : Line α κ} {floor next : Floor α} {customer other : α} {start : Int}

/-- The stages other than that of one customer stay. -/
def Floor.KeepsOthers (line : Line α κ) (floor next : Floor α) (customer : α) : Prop :=
  ∀ other ∈ line.customers, other ≠ customer → next.stage other = floor.stage other

/-- A customer is in service, or leaves now. -/
def Floor.Occupies (line : Line α κ) (floor : Floor α) (customer : α) (start : Int) : Prop :=
  floor.stage customer = .inService start ∨
    (floor.stage customer = .left start ∧ start + line.cost customer = floor.now)

/-- One step of the server. -/
inductive Attends (line : Line α κ) (floor next : Floor α) : Prop
  | waits : (∀ customer ∈ line.customers, next.stage customer = floor.stage customer) →
      floor.now ≤ next.now →
      (∀ customer ∈ line.customers, floor.stage customer = .waiting →
        next.now ≤ line.arrival customer) →
      Attends line floor next
  | begins {customer : α} : customer ∈ line.customers → floor.stage customer = .waiting →
      line.arrival customer ≤ floor.now →
      (∀ other ∈ line.customers, ∀ start, floor.stage other ≠ .inService start) →
      (∀ other ∈ line.customers, floor.stage other = .waiting →
        line.arrival other ≤ floor.now → line.key customer ≤ line.key other) →
      floor.now ≤ next.now → next.Occupies line customer floor.now →
      floor.KeepsOthers line next customer → Attends line floor next
  | goesOn {customer : α} {start : Int} : customer ∈ line.customers →
      floor.stage customer = .inService start → floor.now ≤ next.now →
      next.Occupies line customer start → floor.KeepsOthers line next customer →
      Attends line floor next

/-- Nobody is served before an earlier customer has left, and no service is put off without one. -/
structure Orderly (line : Line α κ) (floor : Floor α) : Prop where
  arrived : ∀ customer ∈ line.customers, ∀ start, (floor.stage customer).start? = some start →
    line.arrival customer ≤ start
  ended : ∀ customer ∈ line.customers, ∀ start, floor.stage customer = .left start →
    start + line.cost customer ≤ floor.now
  earlier : ∀ first ∈ line.customers, ∀ second ∈ line.customers,
    line.key first < line.key second → ∀ start, (floor.stage second).start? = some start →
      ∃ before, floor.stage first = .left before ∧ before + line.cost first ≤ start
  prompt : ∀ customer ∈ line.customers, ∀ start, (floor.stage customer).start? = some start →
    start = line.arrival customer ∨ ∃ first ∈ line.customers,
      line.key first < line.key customer ∧ ∃ before, floor.stage first = .left before ∧
        before + line.cost first = start
  busy : ∀ customer ∈ line.customers, floor.stage customer = .waiting →
    line.arrival customer < floor.now → ∃ first ∈ line.customers,
      line.key first < line.key customer ∧ ∃ start, floor.Occupies line first start

/-- A server opens before the first arrival. -/
theorem Orderly.opening (waiting : ∀ customer ∈ line.customers, floor.stage customer = .waiting)
    (early : ∀ customer ∈ line.customers, floor.now ≤ line.arrival customer) :
    Orderly line floor := by
  have none {customer start} (member : customer ∈ line.customers)
      (begun : (floor.stage customer).start? = some start) : False := by
    rw [waiting customer member] at begun
    cases begun
  refine ⟨fun customer member start begun => (none member begun).elim,
    fun customer member start left => ?_, fun first _ second member _ start begun =>
      (none member begun).elim, fun customer member start begun => (none member begun).elim,
    fun customer member _ late => ?_⟩
  · rw [waiting customer member] at left
    cases left
  · exact absurd late (not_lt.mpr (early customer member))

namespace Orderly

theorem key_lt (first : customer ∈ line.customers) (second : other ∈ line.customers)
    (apart : other ≠ customer) (least : ¬ line.key other < line.key customer) :
    line.key customer < line.key other :=
  lt_of_le_of_ne (not_lt.mp least)
    fun same => apart (line.distinct _ second _ first same.symm)

/-- A customer who waits stands behind the one in service. -/
theorem behind (orderly : Orderly line floor) (member : customer ∈ line.customers)
    (served : floor.stage customer = .inService start) (inside : other ∈ line.customers)
    (waits : floor.stage other = .waiting) : line.key customer < line.key other := by
  refine key_lt member inside (fun same => ?_) fun less => ?_
  · rw [same, served] at waits
    cases waits
  · obtain ⟨before, left, -⟩ := orderly.earlier other inside customer member less start
      (by rw [served]; rfl)
    rw [waits] at left
    cases left

/-- There is one customer in service at a time. -/
theorem single (orderly : Orderly line floor) (member : customer ∈ line.customers)
    (served : floor.stage customer = .inService start) (inside : other ∈ line.customers)
    {start' : Int} (also : floor.stage other = .inService start') : other = customer := by
  by_contra apart
  have ends {a b : α} {s t : Int} (memberA : a ∈ line.customers) (memberB : b ∈ line.customers)
      (servedA : floor.stage a = .inService s) (servedB : floor.stage b = .inService t)
      (less : line.key a < line.key b) : False := by
    obtain ⟨before, left, -⟩ := orderly.earlier a memberA b memberB less t
      (by rw [servedB]; rfl)
    rw [servedA] at left
    cases left
  by_cases less : line.key other < line.key customer
  · exact ends inside member also served less
  · exact ends member inside served also (key_lt member inside apart less)

end Orderly

/-- What a step of the service of one customer leaves of the others. -/
structure Serves (line : Line α κ) (floor next : Floor α) (customer : α) (start : Int) :
    Prop where
  member : customer ∈ line.customers
  open' : ∀ before, floor.stage customer ≠ .left before
  forward : floor.now ≤ next.now
  occupies : next.Occupies line customer start
  others : floor.KeepsOthers line next customer
  arrived : line.arrival customer ≤ start
  before : ∀ first ∈ line.customers, line.key first < line.key customer →
    ∃ before, floor.stage first = .left before ∧ before + line.cost first ≤ start
  prompt : start = line.arrival customer ∨ ∃ first ∈ line.customers,
    line.key first < line.key customer ∧ ∃ before, floor.stage first = .left before ∧
      before + line.cost first = start
  behind : ∀ other ∈ line.customers, other ≠ customer → floor.stage other = .waiting →
    line.key customer < line.key other

theorem Floor.Occupies.start? (occupies : floor.Occupies line customer start) :
    (floor.stage customer).start? = some start := by
  rcases occupies with served | ⟨left, -⟩
  · rw [served]
    rfl
  · rw [left]
    rfl

namespace Serves

variable (serves : Serves line floor next customer start)
include serves

/-- Who has left stays so. -/
theorem keeps_left (inside : other ∈ line.customers) {before : Int}
    (left : floor.stage other = .left before) : next.stage other = .left before := by
  rw [serves.others other inside fun same => serves.open' before (same ▸ left)]
  exact left

/-- An orderly floor is orderly after the next service. -/
theorem orderly (orderly : Orderly line floor) : Orderly line next := by
  -- The customer of the step is in service from its start; all others are as before.
  have cases' {other start'} (inside : other ∈ line.customers)
      (begun : (next.stage other).start? = some start') :
      (other = customer ∧ start' = start) ∨
        (other ≠ customer ∧ (floor.stage other).start? = some start') := by
    by_cases same : other = customer
    · rw [same, serves.occupies.start?] at begun
      exact Or.inl ⟨same, (Option.some.inj begun).symm⟩
    · rw [serves.others other inside same] at begun
      exact Or.inr ⟨same, begun⟩
  constructor
  case arrived =>
    intro other inside start' begun
    rcases cases' inside begun with ⟨rfl, rfl⟩ | ⟨-, before⟩
    · exact serves.arrived
    · exact orderly.arrived other inside start' before
  case ended =>
    intro other inside start' left
    by_cases same : other = customer
    · rw [same] at left ⊢
      rcases serves.occupies with served | ⟨also, now⟩
      · rw [served] at left
        cases left
      · rw [also] at left
        cases left
        exact now.le
    · rw [serves.others other inside same] at left
      exact (orderly.ended other inside start' left).trans serves.forward
  case earlier =>
    intro first memberFirst second memberSecond less start' begun
    have left : ∃ before, floor.stage first = .left before ∧
        before + line.cost first ≤ start' := by
      rcases cases' memberSecond begun with ⟨rfl, rfl⟩ | ⟨-, before⟩
      · exact serves.before first memberFirst less
      · exact orderly.earlier first memberFirst second memberSecond less start' before
    obtain ⟨before, left, ended⟩ := left
    exact ⟨before, serves.keeps_left memberFirst left, ended⟩
  case prompt =>
    intro other inside start' begun
    have reason : start' = line.arrival other ∨ ∃ first ∈ line.customers,
        line.key first < line.key other ∧ ∃ before, floor.stage first = .left before ∧
          before + line.cost first = start' := by
      rcases cases' inside begun with ⟨rfl, rfl⟩ | ⟨-, before⟩
      · exact serves.prompt
      · exact orderly.prompt other inside start' before
    refine reason.imp_right fun ⟨first, member, less, before, left, ended⟩ => ?_
    exact ⟨first, member, less, before, serves.keeps_left member left, ended⟩
  case busy =>
    intro other inside waits _
    have apart : other ≠ customer := fun same => by
      have begun := serves.occupies.start?
      rw [← same, waits] at begun
      cases begun
    rw [serves.others other inside apart] at waits
    exact ⟨customer, serves.member, serves.behind other inside apart waits, start, serves.occupies⟩

end Serves

/-- A step keeps the order of service. -/
theorem Attends.orderly (attends : Attends line floor next) (orderly : Orderly line floor) :
    Orderly line next := by
  cases attends with
  | waits same forward early =>
      constructor
      case arrived =>
        intro customer member start begun
        exact orderly.arrived customer member start (same customer member ▸ begun)
      case ended =>
        intro customer member start left
        exact (orderly.ended customer member start (same customer member ▸ left)).trans forward
      case earlier =>
        intro first memberFirst second memberSecond less start begun
        rw [same first memberFirst]
        exact orderly.earlier first memberFirst second memberSecond less start
          (same second memberSecond ▸ begun)
      case prompt =>
        intro customer member start begun
        refine (orderly.prompt customer member start (same customer member ▸ begun)).imp_right
          fun ⟨first, inside, less, before, left, ended⟩ => ?_
        exact ⟨first, inside, less, before, (same first inside).trans left, ended⟩
      case busy =>
        intro customer member waits late
        rw [same customer member] at waits
        exact absurd late (not_lt.mpr (early customer member waits))
  | @begins customer member waits arrives free least forward occupies others =>
      have before : ∀ first ∈ line.customers, line.key first < line.key customer →
          ∃ before, floor.stage first = .left before ∧
            before + line.cost first ≤ floor.now := fun first inside less => by
        cases stage : floor.stage first with
        | waiting =>
            have sooner := (line.ordered first customer less).trans arrives
            exact absurd less (not_lt.mpr (least first inside stage sooner))
        | inService start => exact absurd stage (free first inside start)
        | left before => exact ⟨before, rfl, orderly.ended first inside before stage⟩
      refine Serves.orderly ⟨member, fun before left => ?_, forward, occupies, others, arrives,
        before, ?_, fun other inside apart also => ?_⟩ orderly
      · rw [waits] at left
        cases left
      · rcases arrives.lt_or_eq with late | same
        · obtain ⟨first, inside, less, start, occupied⟩ := orderly.busy customer member waits late
          rcases occupied with served | ⟨left, ended⟩
          · exact absurd served (free first inside start)
          · exact Or.inr ⟨first, inside, less, start, left, ended⟩
        · exact Or.inl same.symm
      · refine Orderly.key_lt member inside apart fun less => ?_
        have sooner := (line.ordered other customer less).trans arrives
        exact absurd less (not_lt.mpr (least other inside also sooner))
  | @goesOn customer start member served forward occupies others =>
      have begun : (floor.stage customer).start? = some start := by
        rw [served]
        rfl
      refine Serves.orderly ⟨member, fun before left => ?_, forward, occupies, others,
        orderly.arrived customer member start begun, fun first inside less =>
          orderly.earlier first inside customer member less start begun,
        orderly.prompt customer member start begun, fun other inside _ waits =>
          orderly.behind member served inside waits⟩ orderly
      rw [served] at left
      cases left

/-- When all customers have left, they were served at the times of the recursion. -/
theorem Orderly.serve_eq (orderly : Orderly line floor) {startUs : α → Int}
    (done : ∀ customer ∈ line.customers, floor.stage customer = .left (startUs customer))
    {order : List α} (complete : ∀ customer, customer ∈ order ↔ customer ∈ line.customers)
    (sorted : order.Pairwise fun first second => line.key first < line.key second) :
    serve line.arrival line.cost none order =
      order.map fun customer => (customer, startUs customer) := by
  have begun {customer} (member : customer ∈ line.customers) :
      (floor.stage customer).start? = some (startUs customer) := by
    rw [done customer member]
    rfl
  refine @serve_eq_map _ _ _ _ [] order none (fun customer _ => line.nonneg customer)
    (fun customer member => ?_) (sorted.imp_of_mem fun {first second} here there less => ?_)
    (fun earlier customer rest split => ?_) rfl
  · have member := (complete customer).mp member
    exact orderly.arrived customer member _ (begun member)
  · have here := (complete first).mp here
    have there := (complete second).mp there
    obtain ⟨before, left, ended⟩ := orderly.earlier first here second there less _ (begun there)
    rw [done first here] at left
    cases left
    exact ended
  · rw [List.nil_append] at split
    have member : customer ∈ line.customers := (complete customer).mp (by rw [split]; simp)
    refine (orderly.prompt customer member _ (begun member)).imp_right
      fun ⟨first, inside, less, before, left, ended⟩ => ?_
    rw [done first inside] at left
    cases left
    refine ⟨first, ?_, ended⟩
    -- A customer with a smaller key stands before this one.
    have place : first ∈ earlier ++ customer :: rest := split ▸ (complete first).mpr inside
    rcases List.mem_append.mp place with before | behind
    · exact before
    · rw [split, List.pairwise_append] at sorted
      rcases List.mem_cons.mp behind with rfl | later
      · exact absurd less (lt_irrefl _)
      · have greater := List.rel_of_pairwise_cons sorted.2.1 later
        exact absurd less (lt_asymm greater)

end Server

end LlmLab
