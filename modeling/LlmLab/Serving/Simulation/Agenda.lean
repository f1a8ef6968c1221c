import LlmLab.Serving.Simulation.Engine

/-!
# The agenda of the simulation

What is due for each request: at most one event, the time it is queued for, and whether it is to
be ignored.  The event queue and the pending events hold the agenda between them.
-/

namespace LlmLab.Serving

structure Due where
  type : EventType
  timestampUs : Int
  ignored : Bool

/-- The event due for each request. -/
abbrev Agenda := RequestId → Option Due

namespace SimulationEngine

variable {engine : SimulationEngine} {agenda : Agenda} {id : RequestId} {type : EventType}
  {timestampUs : Int}

/-- The queue and the pending events hold exactly the agenda. -/
structure Holds (engine : SimulationEngine) (agenda : Agenda) : Prop where
  pending : ∀ id, (engine.pendingEvents.find? id).map
      (fun pending => (pending.type, pending.authorizedCancelledIgnore)) =
    (agenda id).map fun due => (due.type, due.ignored)
  queued : ∀ key id type, engine.events.events.find? key = some (id, type) ↔
    ∃ pending due, engine.pendingEvents.find? id = some pending ∧ agenda id = some due ∧
      due.type = type ∧ key = toLex (due.timestampUs, pending.eventSequence)
  distinct : ∀ id other pending pending', engine.pendingEvents.find? id = some pending →
    engine.pendingEvents.find? other = some pending' →
    pending.eventSequence = pending'.eventSequence → id = other
  fresh : ∀ id pending, engine.pendingEvents.find? id = some pending →
    pending.eventSequence < engine.events.nextSequence
  ahead : ∀ id due, agenda id = some due → engine.nowUs ≤ due.timestampUs

/-- The next event of the queue. -/
structure IsNext (engine : SimulationEngine) (event : Event) : Prop where
  queued : engine.events.events.find? event.key = some (event.requestId, event.type)
  least : ∀ key found, engine.events.events.find? key = some found → event.key ≤ key

theorem isNext_of_top {event : Event} (top : engine.events.top? = some event) :
    engine.IsNext event := by
  unfold EventQueue.top? at top
  rw [Option.map_eq_some_iff] at top
  obtain ⟨⟨key, value⟩, first, rfl⟩ := top
  exact ⟨(OrdMap.entries_head? first).1, (OrdMap.entries_head? first).2⟩

namespace Holds

/-- The agenda is held by the queue, the pending events and the clock alone. -/
theorem congr {next : SimulationEngine} (holds : engine.Holds agenda)
    (pending : next.pendingEvents = engine.pendingEvents) (events : next.events = engine.events)
    (now : next.nowUs = engine.nowUs) : next.Holds agenda where
  pending := pending ▸ holds.pending
  queued := by
    rw [pending, events]
    exact holds.queued
  distinct := pending ▸ holds.distinct
  fresh := by
    rw [pending, events]
    exact holds.fresh
  ahead := now ▸ holds.ahead

theorem pending_none (holds : engine.Holds agenda) (nothing : agenda id = none) :
    engine.pendingEvents.find? id = none := by
  have pending := holds.pending id
  rwa [nothing, Option.map_none, Option.map_eq_none_iff] at pending

theorem pending_some (holds : engine.Holds agenda) {due : Due} (something : agenda id = some due) :
    ∃ sequence, engine.pendingEvents.find? id = some ⟨sequence, due.type, due.ignored⟩ := by
  have pending := holds.pending id
  rw [something, Option.map_some, Option.map_eq_some_iff] at pending
  obtain ⟨⟨sequence, type, ignored⟩, found, same⟩ := pending
  simp only [Prod.mk.injEq] at same
  obtain ⟨rfl, rfl⟩ := same
  exact ⟨sequence, found⟩

/-- A queued event is due for its request. -/
theorem due_of_queued (holds : engine.Holds agenda) {key : EventKey}
    (queued : engine.events.events.find? key = some (id, type)) :
    ∃ due, agenda id = some due ∧ due.type = type ∧ due.timestampUs = (ofLex key).1 ∧
      engine.pendingEvents.find? id = some ⟨(ofLex key).2, type, due.ignored⟩ := by
  obtain ⟨pending, due, found, something, rfl, rfl⟩ := (holds.queued key id type).mp queued
  obtain ⟨sequence, found'⟩ := holds.pending_some something
  rw [found, Option.some.injEq] at found'
  subst found'
  exact ⟨due, something, rfl, rfl, found⟩

theorem queued_of_due (holds : engine.Holds agenda) {due : Due} (something : agenda id = some due) :
    ∃ sequence, engine.events.events.find? (toLex (due.timestampUs, sequence)) =
      some (id, due.type) := by
  obtain ⟨sequence, found⟩ := holds.pending_some something
  exact ⟨sequence, (holds.queued _ _ _).mpr ⟨_, due, found, something, rfl, rfl⟩⟩

/-! ## Scheduling -/

/-- The engine once an event is scheduled. -/
def scheduled (engine : SimulationEngine) (timestampUs : Int) (id : RequestId) (type : EventType) :
    SimulationEngine :=
  { engine with
    events := {
      events := engine.events.events.insert (toLex (timestampUs, engine.events.nextSequence))
        (id, type)
      nextSequence := engine.events.nextSequence + 1 }
    pendingEvents := engine.pendingEvents.insert id
      ⟨engine.events.nextSequence, type, false⟩ }

/-- To queue an event for a request that has none keeps the agenda. -/
theorem scheduled_holds (holds : engine.Holds agenda) (nothing : agenda id = none)
    (ahead : engine.nowUs ≤ timestampUs) : (scheduled engine timestampUs id type).Holds
      (Function.update agenda id (some ⟨type, timestampUs, false⟩)) := by
  have free := holds.pending_none nothing
  constructor
  · intro other
    dsimp only [scheduled]
    rw [OrdMap.find?_insert, Function.update_apply]
    split
    · rfl
    · exact holds.pending other
  · intro key other type'
    dsimp only [scheduled]
    rw [OrdMap.find?_insert, OrdMap.find?_insert, Function.update_apply]
    by_cases same : key = toLex (timestampUs, engine.events.nextSequence)
    · subst same
      rw [if_pos rfl, Option.some.injEq]
      constructor
      · intro equal
        cases equal
        exact ⟨_, _, if_pos rfl, if_pos rfl, rfl, rfl⟩
      · rintro ⟨pending, due, found, something, rfl, key⟩
        have sequence := congrArg (fun key => (ofLex key).2) key
        by_cases mine : other = id
        · rw [if_pos mine, Option.some.injEq] at something
          rw [mine, ← something]
        · rw [if_neg mine] at found
          exact absurd sequence (Nat.ne_of_gt (holds.fresh _ _ found))
    · rw [if_neg same]
      by_cases mine : other = id
      · subst mine
        rw [if_pos rfl, if_pos rfl]
        constructor
        · intro queued
          obtain ⟨due, something, -⟩ := holds.due_of_queued queued
          rw [nothing] at something
          cases something
        · rintro ⟨pending, due, found, something, rfl, rfl⟩
          cases found
          cases something
          exact absurd rfl same
      · rw [if_neg mine, if_neg mine]
        exact holds.queued key other type'
  · intro first second pending pending' found found' sequence
    dsimp only [scheduled] at found found'
    rw [OrdMap.find?_insert] at found found'
    by_cases mine : first = id
    · by_cases mine' : second = id
      · exact mine.trans mine'.symm
      · rw [if_pos mine, Option.some.injEq] at found
        rw [if_neg mine'] at found'
        have older := holds.fresh _ _ found'
        rw [← sequence, ← found] at older
        exact absurd older (lt_irrefl _)
    · rw [if_neg mine] at found
      by_cases mine' : second = id
      · rw [if_pos mine', Option.some.injEq] at found'
        have older := holds.fresh _ _ found
        rw [sequence, ← found'] at older
        exact absurd older (lt_irrefl _)
      · rw [if_neg mine'] at found'
        exact holds.distinct _ _ _ _ found found' sequence
  · intro other pending found
    dsimp only [scheduled] at found ⊢
    rw [OrdMap.find?_insert] at found
    split at found
    · cases found
      exact Nat.lt_succ_self _
    · exact (holds.fresh _ _ found).trans (Nat.lt_succ_self _)
  · intro other due something
    rw [Function.update_apply] at something
    split at something
    · cases something
      exact ahead
    · exact holds.ahead other due something

theorem schedule (holds : engine.Holds agenda) (nothing : agenda id = none)
    (ahead : engine.nowUs ≤ timestampUs) (nonneg : 0 ≤ timestampUs) :
    Ensures Exn.IsOverflow (fun next => next = scheduled engine timestampUs id type ∧
        next.Holds (Function.update agenda id (some ⟨type, timestampUs, false⟩)))
      (engine.scheduleRequestEvent timestampUs id type) := by
  have free := holds.pending_none nothing
  unfold scheduleRequestEvent EventQueue.schedule
  rw [throwIf_of_not (by simp [OrdMap.contains_eq_false_iff.mpr free]), except_ok_bind,
    throwIf_of_not (not_lt.mpr nonneg), except_ok_bind]
  by_cases full : engine.events.nextSequence = uint64Max
  · rw [throwIf_of full]
    exact trivial
  · rw [throwIf_of_not full, except_ok_bind]
    exact ⟨rfl, holds.scheduled_holds nothing ahead⟩

theorem scheduleAfter (holds : engine.Holds agenda) (nothing : agenda id = none) {costUs : Int}
    (cost : 0 ≤ costUs) (now : 0 ≤ engine.nowUs) :
    Ensures Exn.IsOverflow (fun next => next = scheduled engine (engine.nowUs + costUs) id type ∧
        next.Holds (Function.update agenda id (some ⟨type, engine.nowUs + costUs, false⟩)))
      (engine.scheduleAfter costUs id type) := by
  unfold SimulationEngine.scheduleAfter
  rw [throwIf_of_not (not_lt.mpr cost), except_ok_bind]
  refine (checkedAdd_ensures _ _).bind fun time time_eq => ?_
  subst time_eq
  exact holds.schedule nothing (by omega) (by omega)

/-! ## The next event -/

/-- The queue is empty exactly when nothing is due. -/
theorem top_none_iff (holds : engine.Holds agenda) :
    engine.events.top? = none ↔ ∀ id, agenda id = none := by
  unfold EventQueue.top?
  rw [Option.map_eq_none_iff, List.head?_eq_none_iff]
  constructor
  · intro empty id
    cases something : agenda id with
    | none => rfl
    | some due =>
        obtain ⟨sequence, queued⟩ := holds.queued_of_due something
        rw [OrdMap.find?_eq_some_iff, empty] at queued
        cases queued
  · intro nothing
    refine OrdMap.entries_eq_nil fun key => ?_
    cases queued : engine.events.events.find? key with
    | none => rfl
    | some found =>
        obtain ⟨other, type⟩ := found
        obtain ⟨due, something, -⟩ := holds.due_of_queued queued
        rw [nothing] at something
        cases something

/-- The next event is due no later than any other. -/
theorem first (holds : engine.Holds agenda) {event : Event} (next : engine.IsNext event)
    {due : Due} (something : agenda id = some due) : event.timestampUs ≤ due.timestampUs := by
  obtain ⟨sequence, queued⟩ := holds.queued_of_due something
  have before := next.least _ _ queued
  rw [Prod.Lex.le_iff] at before
  rcases before with earlier | ⟨same, -⟩
  · exact earlier.le
  · exact same.le

/-- The clock may advance up to the next event. -/
theorem advance (holds : engine.Holds agenda)
    (first : ∀ id due, agenda id = some due → timestampUs ≤ due.timestampUs) :
    ({ engine with nowUs := timestampUs } : SimulationEngine).Holds agenda :=
  ⟨holds.pending, holds.queued, holds.distinct, holds.fresh, first⟩

/-- The engine once an event is out of the queue and no longer pending. -/
def popped (engine : SimulationEngine) (event : Event) : SimulationEngine :=
  { engine with
    events := { engine.events with events := engine.events.events.erase event.key }
    pendingEvents := engine.pendingEvents.erase event.requestId }

/-- To pop the next event takes it off the agenda. -/
theorem popped_holds (holds : engine.Holds agenda) {event : Event}
    (next : engine.IsNext event) :
    (popped engine event).Holds (Function.update agenda event.requestId none) := by
  obtain ⟨due, something, type, time, found⟩ := holds.due_of_queued next.queued
  constructor
  · intro other
    dsimp only [popped]
    rw [OrdMap.find?_erase, Function.update_apply]
    split
    · rfl
    · exact holds.pending other
  · intro key other type'
    dsimp only [popped]
    rw [OrdMap.find?_erase, OrdMap.find?_erase, Function.update_apply]
    by_cases mine : other = event.requestId
    · subst mine
      rw [if_pos rfl, if_pos rfl]
      constructor
      · intro queued
        split at queued
        · cases queued
        · next apart =>
          obtain ⟨due', something', -, time', found'⟩ := holds.due_of_queued queued
          rw [found, Option.some.injEq] at found'
          rw [something, Option.some.injEq] at something'
          subst something'
          have sequence := congrArg PendingEvent.eventSequence found'
          exact absurd (Prod.ext (time'.symm.trans time) sequence.symm) apart
      · rintro ⟨pending, due', held, -⟩
        cases held
    · rw [if_neg mine, if_neg mine]
      by_cases same : key = event.key
      · subst same
        rw [if_pos rfl]
        constructor
        · exact nofun
        · intro held
          have queued := (holds.queued _ _ _).mpr held
          rw [next.queued, Option.some.injEq, Prod.mk.injEq] at queued
          exact absurd queued.1.symm mine
      · rw [if_neg same]
        exact holds.queued key other type'
  · intro first second pending pending' held held' sequence
    dsimp only [popped] at held held'
    rw [OrdMap.find?_erase] at held held'
    split at held
    · cases held
    · split at held'
      · cases held'
      · exact holds.distinct _ _ _ _ held held' sequence
  · intro other pending held
    dsimp only [popped] at held
    rw [OrdMap.find?_erase] at held
    split at held
    · cases held
    · exact holds.fresh _ _ held
  · intro other due something
    rw [Function.update_apply] at something
    split at something
    · cases something
    · exact holds.ahead other due something

/-! ## Cancelling -/

/-- An authorization to ignore changes only that flag. -/
theorem authorize (holds : engine.Holds agenda) (id : RequestId) :
    ({ engine with pendingEvents := engine.pendingEvents.modify id fun pending =>
        { pending with authorizedCancelledIgnore := true } } : SimulationEngine).Holds
      (Function.update agenda id ((agenda id).map fun due => { due with ignored := true })) := by
  have kept : ∀ other pending, (engine.pendingEvents.modify id fun pending =>
      { pending with authorizedCancelledIgnore := true }).find? other = some pending →
      ∃ before, engine.pendingEvents.find? other = some before ∧
        before.eventSequence = pending.eventSequence := by
    intro other pending found
    rw [OrdMap.find?_modify] at found
    split at found
    · obtain ⟨before, present, rfl⟩ := Option.map_eq_some_iff.mp found
      exact ⟨before, present, rfl⟩
    · exact ⟨pending, found, rfl⟩
  constructor
  · intro other
    dsimp only
    rw [OrdMap.find?_modify, Function.update_apply]
    have pending := holds.pending other
    by_cases mine : other = id
    · subst mine
      rw [if_pos rfl, if_pos rfl]
      cases found : engine.pendingEvents.find? other <;> cases something : agenda other <;>
        simp_all
    · rw [if_neg mine, if_neg mine]
      exact pending
  · intro key other type'
    dsimp only
    rw [holds.queued, OrdMap.find?_modify, Function.update_apply]
    by_cases mine : other = id
    · subst mine
      rw [if_pos rfl, if_pos rfl]
      constructor
      · rintro ⟨pending, due, found, something, rfl, rfl⟩
        exact ⟨{ pending with authorizedCancelledIgnore := true }, { due with ignored := true },
          by rw [found]; rfl, by rw [something]; rfl, rfl, rfl⟩
      · rintro ⟨pending, due, found, something, rfl, rfl⟩
        obtain ⟨before, present, rfl⟩ := Option.map_eq_some_iff.mp found
        obtain ⟨was, planned, rfl⟩ := Option.map_eq_some_iff.mp something
        exact ⟨before, was, present, planned, rfl, rfl⟩
    · rw [if_neg mine, if_neg mine]
  · intro first second pending pending' found found' sequence
    obtain ⟨before, present, same⟩ := kept first pending found
    obtain ⟨before', present', same'⟩ := kept second pending' found'
    exact holds.distinct _ _ _ _ present present' (same.trans (sequence.trans same'.symm))
  · intro other pending found
    obtain ⟨before, present, same⟩ := kept other pending found
    exact same ▸ holds.fresh _ _ present
  · intro other due something
    rw [Function.update_apply] at something
    split at something
    · next mine =>
        obtain ⟨was, planned, rfl⟩ := Option.map_eq_some_iff.mp something
        exact holds.ahead id was planned
    · exact holds.ahead other due something

end Holds

end SimulationEngine

end LlmLab.Serving
