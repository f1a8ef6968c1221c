import LlmLab.Benchmarks.LlamaBench.Run

/-!
# Durable resume

One pass of `runPlan` appends a record for each invocation that is due before it stops
(`runPlan_pass`), so what the passes of a journal keep holds of `run.jsonl` after any number of
resumes (`durable_resume`).
-/

namespace LlmLab.Benchmarks.LlamaBench

/-- The identifiers of a plan, in its order. -/
def idsOf (plan : List Invocation) : List String := plan.map (·.invocationId)

/-- The summary counts the latest records. -/
structure Summary.Counts (summary : Summary) (latest : Dict String Record) : Prop where
  completed : summary.completedInvocations = latest.size
  successes : summary.successfulInvocations = latest.values.countP successful
  failures : summary.failedInvocations = latest.values.countP (!successful ·)
  timedOut : summary.timedOutInvocations = latest.values.countP (·.status = .timedOut)

theorem Summary.counts_count (summary : Summary) (latest : Dict String Record) :
    (summary.count latest).Counts latest where
  completed := rfl
  successes := rfl
  failures := by
    have both := List.length_eq_countP_add_countP successful (l := latest.values)
    have size : latest.values.length = latest.size := List.length_map ..
    have sub : (summary.count latest).failedInvocations =
      latest.size - latest.values.countP successful := rfl
    simp only [decide_not, Bool.decide_eq_true] at both
    omega
  timedOut := rfl

/-! ## One pass over the plan -/

/-- The journal, the map of the latest records and the counters agree. -/
structure Progress.Consistent (progress : Progress) : Prop where
  journal : progress.files.records = progress.existing
  latest : progress.latest = latestRecords progress.existing
  counts : progress.summary.Counts progress.latest

theorem Progress.Consistent.append {progress : Progress} {invocation : Invocation}
    {record : Record} (same : record.invocationId = invocation.invocationId) (elapsed : Rat)
    (consistent : progress.Consistent) :
    (progress.append invocation record elapsed).Consistent where
  journal := congrArg (· ++ [record]) consistent.journal
  latest := by
    change progress.latest.set invocation.invocationId record = _
    rw [consistent.latest, ← same]
    exact (latest_append_singleton _ _ _).symm
  counts :=
    have counted := Summary.counts_count progress.summary
      (progress.latest.set invocation.invocationId record)
    ⟨counted.completed, counted.successes, counted.failures, counted.timedOut⟩

/-- What one pass over the invocations `rest` does, up to where it stops. -/
structure Pass (options : RunOptions) (rest : List Invocation) (progress after : Progress)
    (ending : Ending) (stop : Nat) (added : List Record) (executed : List Invocation) : Prop where
  finished : ending = .finished → stop = rest.length
  existing : after.existing = progress.existing ++ added
  ran : after.executed = progress.executed ++ executed
  keys : added.map (·.invocationId) = ((idsOf rest).take stop).filter fun name =>
    !skips options (progress.latest.get? name)
  planned : ∀ record ∈ added, ∃ invocation ∈ rest,
    invocation.invocationId = record.invocationId ∧ invocation.warmup = record.warmup
  announced : executed.Sublist rest
  due : ∀ invocation ∈ executed,
    skips options (progress.latest.get? invocation.invocationId) = false
  keeps : after.summary.plannedInvocations = progress.summary.plannedInvocations ∧
    after.summary.configFingerprint = progress.summary.configFingerprint

variable {host : Host} {config : BenchmarkConfig} {options : RunOptions} {session : Session}
  {runId : String} {before : Rat}

theorem idsOf_cons (invocation : Invocation) (rest : List Invocation) :
    idsOf (invocation :: rest) = invocation.invocationId :: idsOf rest := rfl

/-- A pass that first passes over an invocation. -/
theorem Pass.skip {rest : List Invocation} {invocation : Invocation} {progress after : Progress}
    {ending : Ending} {stop : Nat} {added : List Record} {executed : List Invocation}
    (skipped : skips options (progress.latest.get? invocation.invocationId) = true)
    (pass : Pass options rest progress after ending stop added executed) :
    Pass options (invocation :: rest) progress after ending (stop + 1) added executed where
  finished finished := congrArg (· + 1) (pass.finished finished)
  existing := pass.existing
  ran := pass.ran
  keys := by
    rw [pass.keys, idsOf_cons, List.take_succ_cons, List.filter_cons_of_neg]
    simpa using skipped
  planned record member := by
    obtain ⟨other, planned, same⟩ := pass.planned record member
    exact ⟨other, List.mem_cons_of_mem _ planned, same⟩
  announced := pass.announced.cons _
  due := pass.due
  keeps := pass.keeps

/-- A pass that first executes and records an invocation. -/
theorem Pass.record {rest : List Invocation} {invocation : Invocation} {record : Record}
    {elapsed : Rat} {progress after : Progress} {ending : Ending} {stop : Nat}
    {added : List Record} {executed : List Invocation}
    (fresh : invocation.invocationId ∉ idsOf rest)
    (same : invocation.invocationId = record.invocationId ∧ invocation.warmup = record.warmup)
    (needed : skips options (progress.latest.get? invocation.invocationId) = false)
    (pass : Pass options rest ((progress.announce invocation).append invocation record elapsed)
      after ending stop added executed) :
    Pass options (invocation :: rest) progress after ending (stop + 1) (record :: added)
      (invocation :: executed) := by
  -- The record of this invocation leaves the latest records of the later ones as they are.
  have unchanged : ∀ name ∈ idsOf rest,
      (progress.latest.set invocation.invocationId record).get? name =
        progress.latest.get? name := by
    intro name member
    have different : name ≠ invocation.invocationId := fun equal => fresh (equal ▸ member)
    rw [Dict.get?_set, if_neg different]
  refine ⟨fun finished => congrArg (· + 1) (pass.finished finished), ?_, ?_, ?_, ?_,
    pass.announced.cons_cons _, ?_, pass.keeps⟩
  · rw [pass.existing]
    exact List.append_assoc progress.existing [record] added
  · rw [pass.ran]
    exact List.append_assoc progress.executed [invocation] executed
  · rw [idsOf_cons, List.map_cons, List.take_succ_cons,
      List.filter_cons_of_pos (by simpa using needed), pass.keys, same.1]
    refine congrArg _ (List.filter_congr fun name member => ?_)
    exact congrArg (fun previous => !skips options previous)
      (unchanged name (List.mem_of_mem_take member))
  · rintro other (_ | ⟨_, member⟩)
    · exact ⟨invocation, List.mem_cons_self, same⟩
    · obtain ⟨source, planned, equal⟩ := pass.planned other member
      exact ⟨source, List.mem_cons_of_mem _ planned, equal⟩
  · rintro other (_ | ⟨_, member⟩)
    · exact needed
    · have due := pass.due other member
      have kept := unchanged other.invocationId
        (List.mem_map_of_mem (pass.announced.subset member))
      exact kept ▸ due

/-- The loop over a plan of distinct identifiers is one pass, and keeps the journal consistent. -/
theorem runPlan_pass {rest : List Invocation} {progress : Progress}
    (distinct : (idsOf rest).Nodup) (consistent : progress.Consistent) :
    (runPlan host config options session runId before rest progress).1.Consistent ∧
      ∃ stop added executed, Pass options rest progress
        (runPlan host config options session runId before rest progress).1
        (runPlan host config options session runId before rest progress).2
        stop added executed := by
  induction rest generalizing progress with
  | nil =>
      exact ⟨consistent, 0, [], [], fun _ => rfl, by simp [runPlan], by simp [runPlan], rfl,
        by simp, .slnil, by simp, ⟨rfl, rfl⟩⟩
  | cons invocation rest ih =>
      obtain ⟨fresh, tail⟩ := List.nodup_cons.mp distinct
      unfold runPlan
      split
      · next skipped =>
          obtain ⟨after, stop, added, executed, pass⟩ := ih tail consistent
          exact ⟨after, stop + 1, added, executed, pass.skip skipped⟩
      · next needed =>
          have needed : skips options (progress.latest.get? invocation.invocationId) = false := by
            simpa using needed
          dsimp only
          split
          · exact ⟨⟨consistent.journal, consistent.latest, ⟨consistent.counts.completed,
              consistent.counts.successes, consistent.counts.failures,
              consistent.counts.timedOut⟩⟩, 0, [], [], nofun, by simp, by simp, rfl, by simp,
              List.nil_sublist _, by simp, ⟨rfl, rfl⟩⟩
          · split
            · exact ⟨⟨consistent.journal, consistent.latest, consistent.counts⟩, 0, [],
                [invocation], nofun, by simp [Progress.announce], rfl, rfl, by simp, by simp,
                by simpa using needed, ⟨rfl, rfl⟩⟩
            · next result executes =>
                have announced : (progress.announce invocation).Consistent :=
                  ⟨consistent.journal, consistent.latest, consistent.counts⟩
                have same : (recordOf host config runId invocation (session.turn invocation)
                    result).invocationId = invocation.invocationId := rfl
                obtain ⟨after, stop, added, executed, pass⟩ := ih tail (announced.append same
                  (before + (session.turn invocation).recordedAt - session.start))
                exact ⟨after, stop + 1, _ :: added, invocation :: executed,
                  pass.record fresh ⟨rfl, rfl⟩ needed⟩

/-! ## One run -/

/-- Whether every measured invocation has a record. -/
def measuredRecorded (plan : List Invocation) (records : List Record) : Bool :=
  (plan.filter (!·.warmup)).all fun invocation =>
    ((latestRecords records).get? invocation.invocationId).isSome

/-- What one run does to the files of its directory. -/
structure Ran (options : RunOptions) (fingerprint : String) (plan : List Invocation)
    (files : Directory) (result : RunResult) (stop : Nat) (added : List Record) : Prop where
  finished : result.ending = .finished → stop = plan.length
  records : result.files.records = files.records ++ added
  keys : added.map (·.invocationId) = ((idsOf plan).take stop).filter fun name =>
    !skips options ((latestRecords files.records).get? name)
  planned : ∀ record ∈ added, ∃ invocation ∈ plan,
    invocation.invocationId = record.invocationId ∧ invocation.warmup = record.warmup
  announced : result.executed.Sublist plan
  due : ∀ invocation ∈ result.executed,
    skips options ((latestRecords files.records).get? invocation.invocationId) = false
  summary : ∃ summary, result.files.runSummary = some summary ∧
    summary.configFingerprint = fingerprint ∧ summary.plannedInvocations = plan.length ∧
    summary.Counts (latestRecords result.files.records) ∧
    (result.ending ≠ .interrupted → measuredRecorded plan result.files.records = true →
      summary.runStatus = .completed)
  csv : result.files.normalizedCsv = csvFile options
    (measuredRecorded plan result.files.records) (normalizedRecords result.files.records)

/-- A run starts on its own records: those of the directory, and none in a fresh one. -/
theorem existing_eq {files : Directory}
    (fresh : ¬(options.resume = false ∧ (files.runJsonl.isSome ∨ files.runSummary.isSome))) :
    (if options.resume then files.records else []) = files.records := by
  split
  · rfl
  · next first =>
      have first : options.resume = false := by simpa using first
      have absent : files.runJsonl = none := by
        by_contra present
        exact fresh ⟨first, .inl (Option.isSome_iff_ne_none.mpr present)⟩
      rw [Directory.records, absent]
      rfl

theorem startRun_consistent (fingerprint : String) (oldSummary : Option Summary)
    (plan : List Invocation) (files : Directory) :
    (startRun fingerprint runId options oldSummary plan files.records files).Consistent where
  journal := rfl
  latest := rfl
  counts := Summary.counts_count _ _

/-- The end of a run on what its pass has left. -/
theorem Pass.ends {fingerprint : String} {plan : List Invocation} {files : Directory} {progress after : Progress}
    {ending : Ending} {stop : Nat} {added : List Record} {executed : List Invocation}
    (start : progress.Consistent) (same : progress.existing = files.records)
    (print : progress.summary.configFingerprint = fingerprint) (length : progress.summary.plannedInvocations = plan.length) (first : progress.executed = [])
    (consistent : after.Consistent)
    (pass : Pass options plan progress after ending stop added executed) :
    Ran options fingerprint plan files (finishRun options session before plan after ending) stop
      added := by
  have records : after.files.records = files.records ++ added := by
    rw [consistent.journal, pass.existing, same]
  have latest : progress.latest = latestRecords files.records := by rw [start.latest, same]
  have latest' : after.latest = latestRecords after.files.records := by
    rw [consistent.latest, consistent.journal]
  have announced : after.executed = executed := by rw [pass.ran, first, List.nil_append]
  refine ⟨pass.finished, records, latest ▸ pass.keys, pass.planned, ?_, ?_, ?_, ?_⟩
  · change after.executed.Sublist plan
    rw [announced]
    exact pass.announced
  · change ∀ invocation ∈ after.executed, _
    rw [announced, ← latest]
    exact pass.due
  · refine ⟨_, rfl, pass.keeps.2.trans print, pass.keeps.1.trans length, ?_, fun running complete => ?_⟩
    · have counts := consistent.counts
      rw [latest'] at counts
      exact ⟨counts.completed, counts.successes, counts.failures, counts.timedOut⟩
    · have complete : ((plan.filter (!·.warmup)).all fun invocation =>
          (after.latest.get? invocation.invocationId).isSome) = true := latest' ▸ complete
      have running : ending ≠ .interrupted := running
      dsimp only
      rw [if_neg running, if_pos complete]
  · have rows : normalizedRecords after.existing = normalizedRecords after.files.records := by
      rw [consistent.journal]
    dsimp only [finishRun]
    rw [latest', rows]
    rfl

/-- A run that raises no error appends what one pass over the plan executes, and writes the
summary and the rows of all records. -/
theorem run_ran {plan : List Invocation} {files : Directory} {result : RunResult}
    (planned : invocations config = .ok plan) (distinct : (idsOf plan).Nodup)
    (ran : run host config options session files = .ok result) :
    ∃ stop added, Ran options (host.configFingerprint config) plan files result stop added := by
  unfold run at ran
  rw [planned] at ran
  obtain ⟨-, -, ran⟩ := except_bind_eq_ok.mp ran
  rw [except_ok_bind] at ran
  obtain ⟨-, -, ran⟩ := except_bind_eq_ok.mp ran
  obtain ⟨-, -, ran⟩ := except_bind_eq_ok.mp ran
  obtain ⟨_, unused, ran⟩ := except_bind_eq_ok.mp ran
  rw [existing_eq (throwIf_eq_ok.mp unused)] at ran
  generalize (if options.resume then files.runSummary else none) = oldSummary at ran
  generalize ((oldSummary.map (·.runId)).filter (· ≠ "")).getD session.uuid = runId at ran
  generalize (oldSummary.map (·.elapsedSeconds)).getD 0 = before at ran
  have start := @startRun_consistent options runId (host.configFingerprint config) oldSummary
    plan files
  obtain ⟨consistent, stop, added, executed, pass⟩ :=
    @runPlan_pass host config options session runId before _ _ distinct start
  obtain rfl := Except.ok.inj ran
  exact ⟨stop, added, pass.ends start rfl rfl rfl rfl consistent⟩

/-! ## What every run keeps -/

/-- What `run.jsonl` satisfies after every run. -/
structure Durable (plan : List Invocation) (records : List Record) : Prop where
  covers : Covers (idsOf plan) (records.map (·.invocationId))
  settled : Settled Record.invocationId successful records
  planned : ∀ record ∈ records, ∃ invocation ∈ plan,
    invocation.invocationId = record.invocationId ∧ invocation.warmup = record.warmup

theorem durable_nil (plan : List Invocation) : Durable plan [] where
  covers := by simp [Covers]
  settled := List.Pairwise.nil
  planned := by simp

section Run

variable {fingerprint : String} {plan : List Invocation} {files : Directory} {result : RunResult}
  {stop : Nat} {added : List Record}

theorem Ran.nodup_added (distinct : (idsOf plan).Nodup)
    (ran : Ran options fingerprint plan files result stop added) :
    (added.map (·.invocationId)).Nodup := by
  rw [ran.keys]
  exact (distinct.sublist (List.take_sublist ..)).filter _

/-- The recorded identifiers are those up to where some run has stopped. -/
theorem Ran.front (distinct : (idsOf plan).Nodup) (durable : Durable plan files.records)
    (ran : Ran options fingerprint plan files result stop added) :
    (result.files.records.map (·.invocationId)).eraseDups = (idsOf plan).take
      (max (files.records.map (·.invocationId)).eraseDups.length stop) := by
  rw [ran.records, List.map_append, ran.keys]
  refine durable.covers.append_pass distinct (fun name _ fresh => ?_) stop
  rw [latestRecords, (latest_eq_none _).mpr fresh]
  rfl

theorem Ran.durable (distinct : (idsOf plan).Nodup) (durable : Durable plan files.records)
    (ran : Ran options fingerprint plan files result stop added) :
    Durable plan result.files.records := by
  refine ⟨?_, ran.records ▸ ?_, fun record member => ?_⟩
  · rw [Covers, ran.front distinct durable]
    exact List.take_prefix ..
  · refine durable.settled.append_pass (ran.nodup_added distinct) fun record member previous
      found => ?_
    have due : record.invocationId ∈ added.map (·.invocationId) := List.mem_map_of_mem member
    rw [ran.keys, List.mem_filter, latestRecords, found] at due
    simp only [skips, Bool.not_eq_true', Bool.or_eq_false_iff] at due
    exact due.2.2
  · rw [ran.records, List.mem_append] at member
    exact member.elim (durable.planned record) (ran.planned record)

/-- A run that does not retry failures records no invocation again. -/
theorem Ran.nodup (distinct : (idsOf plan).Nodup)
    (ran : Ran options fingerprint plan files result stop added)
    (keep : options.retryFailures = false)
    (nodup : (files.records.map (·.invocationId)).Nodup) :
    (result.files.records.map (·.invocationId)).Nodup := by
  rw [ran.records, List.map_append]
  refine List.nodup_append.mpr ⟨nodup, ran.nodup_added distinct, ?_⟩
  rintro name known other member rfl
  rw [ran.keys, List.mem_filter] at member
  have recorded := (mem_keys_latest Record.invocationId).mpr known
  obtain ⟨previous, found⟩ := Option.isSome_iff_exists.mp (Dict.mem_keys_iff.mp recorded)
  rw [latestRecords, found] at member
  simp [skips, keep] at member

/-- A run does not execute an invocation with a successful record. -/
theorem Ran.executed_ne (durable : Durable plan files.records)
    (ran : Ran options fingerprint plan files result stop added) {record : Record}
    (member : record ∈ files.records) (success : successful record) {invocation : Invocation}
    (executed : invocation ∈ result.executed) :
    invocation.invocationId ≠ record.invocationId := by
  intro same
  have due := ran.due invocation executed
  rw [same, latestRecords, durable.settled.latest_eq member success] at due
  simp [skips, success] at due

/-- A run that goes through its plan leaves a record of every invocation. -/
theorem Ran.recorded (distinct : (idsOf plan).Nodup) (durable : Durable plan files.records)
    (ran : Ran options fingerprint plan files result stop added)
    (finished : result.ending = .finished) {invocation : Invocation} (member : invocation ∈ plan) :
    invocation.invocationId ∈ result.files.records.map (·.invocationId) := by
  have length : plan.length = (idsOf plan).length := (List.length_map ..).symm
  rw [← List.mem_eraseDups, ran.front distinct durable, List.take_of_length_le]
  · exact List.mem_map_of_mem member
  · rw [ran.finished finished]
    exact length ▸ le_max_right ..

/-- The rows of a durable journal: those of the successful record of each measured invocation, in
the order of the plan. -/
theorem Durable.normalizedRecords_eq {records : List Record} (distinct : (idsOf plan).Nodup)
    (durable : Durable plan records) :
    normalizedRecords records = (plan.filter (!·.warmup)).flatMap fun invocation =>
      (records.filter fun record =>
        record.invocationId = invocation.invocationId && successful record).flatMap rowsOf := by
  have values := durable.covers.values_latest distinct
  rw [normalizedRecords, latestRecords, values, idsOf, List.filterMap_map,
    List.filterMap_eq_flatMap_toList, List.flatMap_assoc, flatMap_filter]
  refine List.flatMap_congr fun invocation member => ?_
  rw [durable.settled.filter_eq, Function.comp_apply]
  cases found : (latest Record.invocationId records).get? invocation.invocationId with
  | none => simp
  | some record =>
      obtain ⟨known, same⟩ := mem_of_latest _ found
      obtain ⟨source, planned, equal, warmup⟩ := durable.planned record known
      have unique := List.inj_on_of_nodup_map distinct planned member (equal.trans same)
      rw [← unique, warmup, Option.toList_some, List.flatMap_singleton, List.filter_singleton]
      cases measured : record.warmup <;> cases success : successful record <;>
        simp [rowsOf, measured, success]

end Run

/-! ## A first run and its resumes -/

/-- One start of the harness. -/
structure Launch where
  options : RunOptions
  session : Session

/-- A first run in a fresh directory and any number of resumes, the last one first.  The
configuration is the same throughout, and no resume is forced. -/
inductive Chronicle (host : Host) (config : BenchmarkConfig) : List (Launch × RunResult) → Prop
  | first {launch : Launch} {result : RunResult} (options : launch.options.resume = false)
      (ran : run host config launch.options launch.session .fresh = .ok result) :
      Chronicle host config [(launch, result)]
  | resume {launch earlier : Launch} {result before : RunResult}
      {past : List (Launch × RunResult)} (history : Chronicle host config ((earlier, before) :: past))
      (options : launch.options.resume = true) (unforced : launch.options.forceResume = false)
      (ran : run host config launch.options launch.session before.files = .ok result) :
      Chronicle host config ((launch, result) :: (earlier, before) :: past)

section Chronicle

variable {plan : List Invocation} {launch : Launch} {result : RunResult}
  {past : List (Launch × RunResult)}

/-- The last run of a chronicle, on the directory the one before it left. -/
theorem Chronicle.last (planned : invocations config = .ok plan) (distinct : (idsOf plan).Nodup)
    (history : Chronicle host config ((launch, result) :: past)) :
    ∃ files stop added,
      Ran launch.options (host.configFingerprint config) plan files result stop added ∧
        Durable plan files.records ∧
        (∀ entry ∈ past, entry.2.files.records ⊆ files.records) ∧
        ((∀ entry ∈ past, entry.1.options.retryFailures = false) →
          (files.records.map (·.invocationId)).Nodup) := by
  generalize runs : (launch, result) :: past = entries at history
  induction history generalizing launch result past with
  | first options ran =>
      cases runs
      obtain ⟨stop, added, ran⟩ := run_ran planned distinct ran
      refine ⟨.fresh, stop, added, ran, durable_nil plan, by simp, fun _ => ?_⟩
      exact List.nodup_nil
  | @resume _ earlier _ before past history options unforced ran ih =>
      cases runs
      obtain ⟨stop, added, ran⟩ := run_ran planned distinct ran
      obtain ⟨files, stop', added', previous, durable, kept, once⟩ := ih rfl
      refine ⟨before.files, stop, added, ran, previous.durable distinct durable, ?_, ?_⟩
      · have grown : files.records ⊆ before.files.records := by
          rw [previous.records]
          exact List.subset_append_left ..
        rintro entry (_ | ⟨_, member⟩)
        · exact List.Subset.refl _
        · exact List.Subset.trans (kept entry member) grown
      · intro keep
        exact previous.nodup distinct (keep _ List.mem_cons_self)
          (once fun entry member => keep entry (List.mem_cons_of_mem _ member))

/-- Every resume with an unchanged configuration is accepted. -/
theorem Chronicle.resume_accepted (planned : invocations config = .ok plan)
    (distinct : (idsOf plan).Nodup) (history : Chronicle host config ((launch, result) :: past))
    (resume : options.resume = true) (verified : verifyModels config session = .ok ()) :
    ∃ after, run host config options session result.files = .ok after := by
  obtain ⟨files, stop, added, ran, -⟩ := history.last planned distinct
  obtain ⟨summary, written, print, -⟩ := ran.summary
  simp [run, verified, planned, resume, written, print, throwIf]

/-- Durable resume: after every run of a chronicle, the recorded invocations form a front of the
plan, successes stay settled, and the summary and the rows are those of the latest records. -/
theorem durable_resume (planned : invocations config = .ok plan)
    (distinct : (plan.map (·.invocationId)).Nodup)
    (history : Chronicle host config ((launch, result) :: past)) :
    (result.files.records.map (·.invocationId)).eraseDups <+: plan.map (·.invocationId) ∧
    (∀ entry ∈ past, ∀ record ∈ entry.2.files.records, successful record →
      ∀ invocation ∈ result.executed, invocation.invocationId ≠ record.invocationId) ∧
    (result.executed.map (·.invocationId)).Nodup ∧
    (∀ name, result.files.records.countP
      (fun record => record.invocationId = name && successful record) ≤ 1) ∧
    (∀ record ∈ result.files.records, successful record →
      (latestRecords result.files.records).get? record.invocationId = some record) ∧
    ((∀ entry ∈ (launch, result) :: past, entry.1.options.retryFailures = false) →
      (result.files.records.map (·.invocationId)).Nodup) ∧
    (∃ summary, result.files.runSummary = some summary ∧
      summary.plannedInvocations = plan.length ∧
      summary.Counts (latestRecords result.files.records) ∧
      (result.ending = .finished → summary.runStatus = .completed ∧
        ∀ invocation ∈ plan,
          invocation.invocationId ∈ result.files.records.map (·.invocationId))) ∧
    normalizedRecords result.files.records =
      ((plan.filter (!·.warmup)).flatMap fun invocation =>
        (result.files.records.filter fun record =>
          record.invocationId = invocation.invocationId && successful record).flatMap rowsOf) ∧
    result.files.normalizedCsv = csvFile launch.options
      (measuredRecorded plan result.files.records) (normalizedRecords result.files.records) := by
  obtain ⟨files, stop, added, ran, before, kept, once⟩ := history.last planned distinct
  have durable := ran.durable distinct before
  refine ⟨durable.covers, ?_, ?_, durable.settled.count_le_one, ?_, ?_, ?_,
    durable.normalizedRecords_eq distinct, ran.csv⟩
  · intro entry earlier record member success invocation executed
    exact ran.executed_ne before (kept entry earlier member) success executed
  · exact distinct.sublist (ran.announced.map _)
  · intro record member success
    exact durable.settled.latest_eq member success
  · intro keep
    exact ran.nodup distinct (keep _ List.mem_cons_self)
      (once fun entry member => keep entry (List.mem_cons_of_mem _ member))
  · obtain ⟨summary, written, -, length, counts, completed⟩ := ran.summary
    refine ⟨summary, written, length, counts, fun finished => ?_⟩
    have all := fun (invocation : Invocation) (member : invocation ∈ plan) =>
      ran.recorded distinct before finished member
    refine ⟨completed (by rw [finished]; decide) ?_, all⟩
    refine List.all_eq_true.mpr fun invocation member => ?_
    rw [latestRecords, ← Dict.mem_keys_iff, mem_keys_latest]
    exact all invocation (List.mem_of_mem_filter member)

end Chronicle

/-! ## A failed and an interrupted invocation -/

def samplePath : Path := ⟨"/models", "tiny.gguf"⟩

/-- One case of one model, measured twice. -/
def sampleConfig : BenchmarkConfig where
  executable := ⟨"/fake", "llama-bench"⟩
  model := samplePath
  threads := [1]
  promptTokens := [128]
  generatedTokens := [32]
  batchSizes := [64]
  contextSizes := [512]
  ubatchSizes := [64]
  repetitions := 2
  warmupRuns := 0
  timeoutSeconds := 1
  mmap := true
  cpuOnly := true
  explicitCases := none
  models := [⟨"tiny", samplePath, "UNKNOWN", none, none⟩]
  kvCacheVariants := [("f16", "f16")]
  measureMemory := false
  timeExecutable := ⟨"/usr/bin", "time"⟩

def sampleHost : Host := ⟨fun _ => "print", fun _ => .ok [], fun _ => none, fun _ => none⟩

def sampleOptions : RunOptions := ⟨false, false, false, false, false, none⟩

/-- The first invocation fails, the second is interrupted. -/
def sampleSession : Session where
  uuid := "run"
  start := 0
  turn := fun invocation =>
    ⟨0, "now", if invocation.repetition = 1 then some ⟨"", "", some 7, 0, false⟩ else none, 0⟩
  finish := 1
  modelFile := fun _ => none

def samplePlan : List Invocation := (invocations sampleConfig).toOption.getD []

/-- An interrupted run, resumed with retries: the records stay a prefix of the plan. -/
theorem durable_resume_retried :
    ∃ first second, Chronicle sampleHost sampleConfig
        [(⟨{ sampleOptions with resume := true, retryFailures := true }, sampleSession⟩, second),
          (⟨sampleOptions, sampleSession⟩, first)] ∧
      first.ending = .interrupted ∧ first.files.records.length = 1 ∧
      (second.files.records.map (·.invocationId)).eraseDups <+:
        samplePlan.map (·.invocationId) := by
  have planned : invocations sampleConfig = .ok samplePlan := by decide +kernel
  have distinct : (samplePlan.map (·.invocationId)).Nodup := by decide +kernel
  have outcome : (run sampleHost sampleConfig sampleOptions sampleSession .fresh).map
      (fun result => (result.ending, result.files.records.length)) = .ok (.interrupted, 1) := by
    decide +kernel
  cases ran : run sampleHost sampleConfig sampleOptions sampleSession .fresh with
  | error error =>
      rw [ran] at outcome
      cases outcome
  | ok first =>
      rw [ran] at outcome
      obtain ⟨ending, length⟩ := Prod.mk.inj (Except.ok.inj outcome)
      have history : Chronicle sampleHost sampleConfig
          [(⟨sampleOptions, sampleSession⟩, first)] := .first rfl ran
      have verified : verifyModels sampleConfig sampleSession = .ok () := by decide +kernel
      obtain ⟨second, again⟩ := @Chronicle.resume_accepted sampleHost sampleConfig
        { sampleOptions with resume := true, retryFailures := true } sampleSession _ _ _ _ planned
        distinct history rfl verified
      have resumed := @Chronicle.resume sampleHost sampleConfig
        ⟨{ sampleOptions with resume := true, retryFailures := true }, sampleSession⟩ _ _ _ _
        history rfl rfl again
      exact ⟨first, second, resumed, ending, length,
        (durable_resume planned distinct resumed).1⟩

end LlmLab.Benchmarks.LlamaBench
