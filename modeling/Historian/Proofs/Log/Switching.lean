import Historian.Proofs.Log.Offers

/-!
# What a log tells about its switching

The records ever appended to a log that never stops taking them tell when it ran.  Its status
records say off and on by turns, beginning with the opposite of the configuration; the log runs
exactly if the last of them says so; and no sample stands where they say that it did not run
(`TrendLog.Tells`).  A switch that changes something adds one status record, and nothing else
adds any, as long as no sample passes itself off as one.
-/

namespace Historian

/-- The status of a log, if that is what the datum is. -/
def Datum.status? : Datum → Option LogStatus
  | .logStatus status => some status
  | _ => none

/-- The statuses among some records. -/
def statuses (records : List LogRecord) : List LogStatus :=
  records.filterMap fun record => record.datum.status?

/-- Statuses that say off and on by turns, the first of them not `running`. -/
def Alternates : (running : Bool) → List LogStatus → Prop
  | _, [] => True
  | running, status :: rest => status = .ofRunning (!running) ∧ Alternates (!running) rest

/-- What the last status says, or `running` if there is none. -/
def saidLast (running : Bool) (said : List LogStatus) : Bool :=
  match said.getLast? with
  | some status => status = FlagSet.empty
  | none => running

theorem ofRunning_eq_empty (running : Bool) :
    decide (LogStatus.ofRunning running = FlagSet.empty) = running := by
  cases running <;> decide

theorem saidLast_append (running enable : Bool) (said : List LogStatus) :
    saidLast running (said ++ [.ofRunning enable]) = enable := by
  unfold saidLast
  rw [List.getLast?_concat]
  exact ofRunning_eq_empty enable

theorem saidLast_cons (running : Bool) (rest : List LogStatus) :
    saidLast running (.ofRunning (!running) :: rest) = saidLast (!running) rest := by
  cases hlast : rest.getLast? with
  | none =>
      rw [List.getLast?_eq_none_iff.mp hlast]
      exact ofRunning_eq_empty (!running)
  | some last =>
      unfold saidLast
      rw [List.getLast?_cons, hlast]
      rfl

theorem alternates_append {running : Bool} {said : List LogStatus}
    (halternates : Alternates running said) :
    Alternates running (said ++ [.ofRunning (!saidLast running said)]) := by
  induction said generalizing running with
  | nil => exact ⟨rfl, trivial⟩
  | cons status rest ih =>
      obtain ⟨rfl, hrest⟩ := halternates
      rw [saidLast_cons]
      exact ⟨rfl, ih hrest⟩

/-- On, off and on again is told of a log that was set up off. -/
example : Alternates false [.ofRunning true, .ofRunning false, .ofRunning true] := by
  simp [Alternates]

namespace TrendLog

/-- What the records ever appended to a log tell, if it was set up to be `enabled`. -/
structure Tells (enabled running : Bool) (records : List LogRecord) : Prop where
  alternates : Alternates enabled (statuses records)
  runs : running = saidLast enabled (statuses records)
  /-- A sample stands only where the log was last said to run. -/
  silent : ∀ earlier record later, records = earlier ++ record :: later →
    record.datum.status? = none → saidLast enabled (statuses earlier) = true

namespace Tells

variable {enabled running : Bool} {records : List LogRecord}

theorem nil (enabled : Bool) : Tells enabled enabled [] :=
  ⟨trivial, rfl, fun _ _ _ heq => absurd heq (by simp)⟩

theorem silent_append (htells : Tells enabled running records) {record : LogRecord}
    (hrecord : record.datum.status? = none → running = true) :
    ∀ earlier sample later, records ++ [record] = earlier ++ sample :: later →
      sample.datum.status? = none → saidLast enabled (statuses earlier) = true := by
  intro earlier sample later heq hsample
  -- Either the sample is the new record, or it is one of the old ones.
  rcases List.eq_nil_or_concat later with rfl | ⟨rest, last, rfl⟩
  · obtain ⟨rfl, hsame⟩ := List.append_inj' heq rfl
    cases hsame
    rw [← htells.runs]
    exact hrecord hsample
  · have hinit : records = earlier ++ sample :: rest := by
      have hsplit : records ++ [record] = (earlier ++ sample :: rest) ++ [last] := by
        simpa using heq
      exact (List.append_inj' hsplit rfl).1
    exact htells.silent earlier sample rest hinit hsample

theorem sample (htells : Tells enabled running records) {record : LogRecord}
    (hsample : record.datum.status? = none) (hrunning : running = true) :
    Tells enabled running (records ++ [record]) := by
  have hsame : statuses (records ++ [record]) = statuses records := by
    simp [statuses, List.filterMap_append, hsample]
  refine ⟨?_, ?_, htells.silent_append fun _ => hrunning⟩
  · rw [hsame]
    exact htells.alternates
  · rw [hsame]
    exact htells.runs

theorem switch (htells : Tells enabled running records) (now : Reading) :
    Tells enabled (!running) (records ++ [.ofSwitch (!running) now]) := by
  have hnew : statuses (records ++ [.ofSwitch (!running) now]) =
      statuses records ++ [.ofRunning (!running)] := by
    simp [statuses, List.filterMap_append, LogRecord.ofSwitch, Datum.status?]
  refine ⟨?_, ?_, htells.silent_append fun hnone => by cases hnone⟩
  · rw [hnew, htells.runs]
    exact alternates_append htells.alternates
  · rw [hnew, saidLast_append]

end Tells

/-! ## Steps -/

/-- No sample of the step is a status. -/
def Step.Plain : Step → Prop
  | .record value _ | .observe _ value _ => value.datum.status? = none
  | .sample _ read => ∀ point value, read point = some value → value.datum.status? = none
  | .switch _ _ | .clear => True

/-- The records ever appended to a log in some steps, unless it stops when full. -/
def appended (log : TrendLog) (steps : List Step) : List LogRecord :=
  (History.of (log.offers steps)).pushed

theorem pushed_foldl_acts (history : History) (log : TrendLog) (taken : Step) :
    ((log.acts taken).foldl History.extend history).pushed =
      history.pushed ++ (log.offer? taken).toList := by
  unfold acts
  split
  · exact (List.append_nil _).symm
  · rw [History.foldl_push]

theorem appended_append (log : TrendLog) (steps : List Step) (taken : Step) :
    log.appended (steps ++ [taken]) =
      log.appended steps ++ ((log.run steps).offer? taken).toList := by
  rw [appended, offers_append, History.of, List.foldl_append, pushed_foldl_acts]
  rfl

/-- A plain step offers nothing, or the new state if it is a switch that changes something, or a
sample if the log runs. -/
theorem offer?_cases (log : TrendLog) {taken : Step} (hplain : taken.Plain) :
    log.offer? taken = none ∧ (log.step taken).running = log.running ∨
      (∃ now, taken = .switch (!log.running) now ∧
        log.offer? taken = some (.ofSwitch (!log.running) now)) ∨
      ∃ record, log.offer? taken = some record ∧ record.datum.status? = none ∧
        log.running = true ∧ (log.step taken).running = log.running := by
  -- Every step but a switch keeps the log running or stopped; what it offers then is a sample, and
  -- plain samples are no status.
  cases taken with
  | switch enable now =>
      by_cases hsame : log.running = enable
      · refine .inl ⟨if_pos hsame, ?_⟩
        rw [hsame]
        exact log.running_switch now enable
      · obtain rfl : enable = !log.running := by
          revert hsame
          cases log.running <;> cases enable <;> simp
        exact .inr (.inl ⟨now, rfl, if_neg hsame⟩)
  | clear => exact .inl ⟨rfl, rfl⟩
  | record sample now =>
      have hkept : (log.step (.record sample now)).running = log.running :=
        log.running_record sample now
      by_cases hrunning : log.running
      · exact .inr (.inr ⟨_, if_pos hrunning, hplain, hrunning, hkept⟩)
      · exact .inl ⟨if_neg hrunning, hkept⟩
  | sample now read =>
      have hkept : (log.step (.sample now read)).running = log.running :=
        log.running_sample now read
      cases hoffer : log.offer? (.sample now read) with
      | none => exact .inl ⟨rfl, hkept⟩
      | some record =>
          obtain ⟨point, hreads, hoffered⟩ := Option.bind_eq_some_iff.mp hoffer
          obtain ⟨sample, hread, rfl⟩ := Option.map_eq_some_iff.mp hoffered
          have hrunning : log.running = true := by
            unfold reads? at hreads
            split at hreads
            · cases hreads
            · exact log.running_of_periodicPoint? hreads
          exact .inr (.inr ⟨_, rfl, hplain point sample hread, hrunning, hkept⟩)
  | observe point sample now =>
      have hkept : (log.step (.observe point sample now)).running = log.running :=
        log.running_observe sample point now
      by_cases hwanted : (log.follows point && log.exceeds sample) = true
      · have hrunning := log.running_of_follows ((Bool.and_eq_true _ _).mp hwanted).1
        exact .inr (.inr ⟨_, if_pos hwanted, hplain, hrunning, hkept⟩)
      · exact .inl ⟨if_neg hwanted, hkept⟩

/-- **Every step keeps what the records tell.** -/
theorem Tells.step {log : TrendLog} {enabled : Bool} {records : List LogRecord}
    (htells : Tells enabled log.running records) {taken : Step} (hplain : taken.Plain) :
    Tells enabled (log.step taken).running (records ++ (log.offer? taken).toList) := by
  obtain ⟨hnone, hkept⟩ | ⟨now, rfl, hswitched⟩ | ⟨record, hoffer, hsample, hrunning, hkept⟩ :=
    log.offer?_cases hplain
  · rw [hnone, hkept, Option.toList_none, List.append_nil]
    exact htells
  · have hafter : (log.step (.switch (!log.running) now)).running = !log.running :=
      log.running_switch now _
    rw [hswitched, hafter]
    exact htells.switch now
  · rw [hoffer, hkept]
    exact htells.sample hsample hrunning

theorem tells_run (config : LogConfig) {steps : List Step} (hplain : ∀ taken ∈ steps, taken.Plain) :
    Tells config.enable ((ofConfig config).run steps).running
      ((ofConfig config).appended steps) := by
  induction steps using List.reverseRecOn with
  | nil => exact .nil config.enable
  | append_singleton earlier taken ih =>
      obtain ⟨hearlier, hlast⟩ := List.forall_mem_append.mp hplain
      rw [run_append, appended_append]
      exact (ih hearlier).step (hlast taken List.mem_cons_self)

end TrendLog

namespace Archive

open TrendLog (Step)

/-- No sample of the operation is a status. -/
def Operation.Plain : Operation → Prop
  | .record _ sample _ | .observe _ sample _ => sample.datum.status? = none
  | .samplePeriodic _ read =>
      ∀ calls point sample, read calls point = some sample → sample.datum.status? = none
  | .add _ | .load _ | .remove _ | .clearAll | .switch _ _ _ | .clear _ => True

theorem Operation.Plain.of_gives {operation : Operation} (hplain : operation.Plain)
    {number : UInt32} {taken : Step} (hgives : operation.Gives number taken) : taken.Plain := by
  cases hgives with
  | switch | clear => trivial
  | record | observe => exact hplain
  | sample now read calls => exact hplain calls

/-- The statuses that an operation makes a log record. -/
def announced (log : TrendLog) : Operation → List LogStatus
  | .switch number enable _ =>
      if number = log.number ∧ log.running ≠ enable then [.ofRunning enable] else []
  | _ => []

theorem announced_of_kept {log : TrendLog} {operation : Operation} {taken : Step}
    (hgives : operation.Gives log.number taken) (hkept : (log.step taken).running = log.running) :
    announced log operation = [] := by
  cases hgives with
  | switch enable now =>
      have hsame : enable = log.running := (log.running_switch now enable).symm.trans hkept
      exact if_neg fun hboth => hboth.2 hsame.symm
  | clear | record | sample | observe => rfl

theorem statuses_pushed_acts {log : TrendLog} {operation : Operation} (hplain : operation.Plain)
    {taken : Step} (hgives : operation.Gives log.number taken) :
    statuses (History.of (log.acts taken)).pushed = announced log operation := by
  have hpushed : (History.of (log.acts taken)).pushed = (log.offer? taken).toList :=
    TrendLog.pushed_foldl_acts .empty log taken
  rw [hpushed]
  obtain ⟨hnone, hkept⟩ | ⟨now, rfl, hswitched⟩ | ⟨record, hoffer, hsample, hrunning, hkept⟩ :=
    log.offer?_cases (hplain.of_gives hgives)
  · rw [hnone, announced_of_kept hgives hkept]
    rfl
  · cases hgives
    rw [hswitched]
    simp [statuses, announced, LogRecord.ofSwitch, Datum.status?]
  · rw [hoffer, announced_of_kept hgives hkept]
    simp [statuses, hsample]

/-- What an operation adds to the acts of a log. -/
theorem exists_offers_append {operations : List Operation} {log : TrendLog}
    (hlog : log ∈ (replay operations).1.logs) {operation : Operation} (hplain : operation.Plain) :
    ∃ more, (TrendLog.ofConfig log.config).offers (life log.number (operations ++ [operation])) =
        (TrendLog.ofConfig log.config).offers (life log.number operations) ++ more ∧
      statuses (History.of more).pushed = announced log operation := by
  have hfound := get?_of_mem hlog
  rw [life_append, hfound, if_pos (by rfl)]
  obtain hnone | ⟨taken, hgives, hone⟩ := (replay operations).1.steps_cases log.number operation
  · refine ⟨[], by rw [hnone, List.append_nil, List.append_nil], ?_⟩
    cases operation with
    | switch target enable now =>
        -- A switch of this log would be a step of it.
        have hother : target ≠ log.number := by
          rintro rfl
          rw [steps, if_pos rfl] at hnone
          cases hnone
        exact (if_neg fun hboth => hother hboth.1).symm
    | add | load | remove | clearAll | clear | record | samplePeriodic | observe => rfl
  · refine ⟨log.acts taken, ?_, statuses_pushed_acts hplain hgives⟩
    rw [hone, TrendLog.offers_append, ← eq_run_life hfound]

/-- **After every run without samples that pass for statuses, the records ever appended to a log
that never stops taking them tell when it ran**, and an operation adds a status to them exactly
if it switches the log on or off. -/
theorem tells_replay {operations : List Operation}
    (hplain : ∀ operation ∈ operations, operation.Plain) {log : TrendLog}
    (hlog : log ∈ (replay operations).1.logs)
    (hdrops : log.config.stopWhenFull = false) :
    let acts := (TrendLog.ofConfig log.config).offers (life log.number operations)
    log.ring = (Ring.ofCapacity log.config.bufferSize.toNat).run acts ∧
      TrendLog.Tells log.config.enable log.running (History.of acts).pushed ∧
      ∀ operation : Operation, operation.Plain →
        ∃ more, (TrendLog.ofConfig log.config).offers
            (life log.number (operations ++ [operation])) = acts ++ more ∧
          statuses (History.of more).pushed = announced log operation := by
  intro acts
  have hlife := eq_run_life (get?_of_mem hlog)
  have hsteps : ∀ taken ∈ life log.number operations, taken.Plain := by
    intro taken htaken
    obtain ⟨operation, hoperation, hgives⟩ := exists_gives_of_mem_life htaken
    exact (hplain operation hoperation).of_gives hgives
  refine ⟨?_, ?_, fun operation => exists_offers_append hlog⟩
  · have hring := TrendLog.ring_run (TrendLog.ofConfig log.config) (life log.number operations)
    change _ = List.foldl (Ring.receive log.config.stopWhenFull) _ _ at hring
    rw [← hlife, hdrops, Ring.receive_false] at hring
    exact hring
  · have htells := TrendLog.tells_run log.config hsteps
    rw [← hlife] at htells
    exact htells

/-- A log takes a sample, is switched off twice, misses a sample, and is switched on again. -/
theorem tells_replay_off :
    let config : LogConfig := LogConfig.of 1 "flow"
    let now : Reading := ⟨⟨2025, 5, 6, by decide⟩, 36180, 0, by decide, by decide⟩
    let sample : Sample := ⟨.unsigned 7, FlagSet.empty⟩
    let operations : List Operation :=
      [.add config, .record 1 sample now, .switch 1 false now, .switch 1 false now,
        .record 1 sample now, .switch 1 true now]
    let records := (History.of ((TrendLog.ofConfig config).offers (life 1 operations))).pushed
    records = [sample.recordAt now, .ofSwitch false now, .ofSwitch true now] ∧
      ∃ log ∈ (replay operations).1.logs, log.ring.records = records ∧
        TrendLog.Tells true log.running records := by
  intro config now sample operations records
  have hrecords : records = [sample.recordAt now, .ofSwitch false now, .ofSwitch true now] := by
    decide +kernel
  have hplain : ∀ operation ∈ operations, operation.Plain := by
    simp [operations, Operation.Plain, sample, Datum.status?]
  obtain ⟨log, hlog, hconfig, hheld⟩ : ∃ log ∈ (replay operations).1.logs,
      log.config = config ∧ log.ring.records = records :=
    ⟨_, List.mem_cons_self, TrendLog.config_run (.ofConfig config)
      [.record sample now, .switch false now, .switch false now, .record sample now,
        .switch true now], by decide +kernel⟩
  have hnumber : log.number = 1 := congrArg LogConfig.number hconfig
  have htells := (tells_replay hplain hlog (by rw [hconfig]; rfl)).2.1
  rw [hconfig, hnumber] at htells
  exact ⟨hrecords, log, hlog, hheld, htells⟩

end Archive

end Historian
