import Historian.Proofs.Log.Follower

/-!
# The dead band of a log of changes

A log of changes takes a number only if it lies far enough from the last number logged.  The last
number that a log remembers is the last one among the records that it has stored since it was set
up or cleared (`TrendLog.remembers_run`).  What is not stored leaves the log as it was, so it
cannot move the reference, and small steps add up until the log notices them
(`Archive.deadBand_replay`).
-/

namespace Historian

/-- The last number among some records. -/
def LogRecord.lastNumber? (records : List LogRecord) : Option Float :=
  (records.filterMap fun record => record.datum.number?).getLast?

theorem LogRecord.lastNumber?_append (records : List LogRecord) (record : LogRecord) :
    lastNumber? (records ++ [record]) = record.datum.number?.or (lastNumber? records) := by
  unfold lastNumber?
  rw [List.filterMap_append, List.getLast?_append]
  cases hnumber : record.datum.number? with
  | none => simp [hnumber]
  | some value => simp [hnumber]

/-- A sample lies no less than the increment away from the last number.  It does if one of the two
is missing. -/
def Sample.Departs (increment : Float) (last : Option Float) (sample : Sample) : Prop :=
  last = none ∨ sample.datum.number? = none ∨
    ∃ previous value, last = some previous ∧ sample.datum.number? = some value ∧
      (value - previous).abs ≥ increment

namespace TrendLog

/-- The log is not full, or drops what is oldest. -/
def HasRoom (log : TrendLog) : Prop :=
  log.config.stopWhenFull = true → log.ring.records.length < log.config.bufferSize.toNat

theorem refuses_eq_false_iff {log : TrendLog} (huse : log.InUse) :
    log.refuses = false ↔ log.HasRoom := by
  have hcapacity := huse.capacity_eq
  have hlength := huse.length_records_le_capacity
  unfold refuses HasRoom Ring.isFull
  rw [Bool.and_eq_false_imp, decide_eq_false_iff_not]
  refine imp_congr_right fun _ => ?_
  omega

end TrendLog

namespace Ring

theorem capacity_push (ring : Ring) (record : LogRecord) :
    (ring.push record).1.capacity = ring.capacity := by
  unfold push
  split <;> rfl

theorem records_push {ring : Ring} (hpos : 0 < ring.capacity)
    (hlength : ring.records.length ≤ ring.capacity) (record : LogRecord) :
    (ring.push record).1.records = (ring.records ++ [record]).rtake ring.capacity := by
  unfold push isFull List.rtake
  rw [List.length_append, List.length_singleton]
  split
  · rename_i hfull
    have hfull := of_decide_eq_true hfull
    have hone : ring.records.length + 1 - ring.capacity = 1 := by omega
    rw [hone, List.drop_append_of_le_length (by omega)]
  · rename_i hfull
    have hfull := of_decide_eq_false (Bool.not_eq_true _ ▸ hfull)
    have hzero : ring.records.length + 1 - ring.capacity = 0 := by omega
    rw [hzero]
    rfl

end Ring

namespace TrendLog

/-! ## What a log has stored -/

/-- The record that a step stores. -/
def stores? (log : TrendLog) (taken : Step) : Option LogRecord :=
  if log.refuses then none else log.offer? taken

/-- What a log has stored since it was last cleared, after one more step. -/
def keep (log : TrendLog) (kept : List LogRecord) (taken : Step) : List LogRecord :=
  match taken with
  | .clear => []
  | taken => kept ++ (log.stores? taken).toList

/-- What a log has stored in some steps, since it was set up or last cleared. -/
def kept (log : TrendLog) (steps : List Step) : List LogRecord :=
  (steps.foldl (fun state taken => (state.1.step taken, state.1.keep state.2 taken)) (log, [])).2

theorem kept_append (log : TrendLog) (steps : List Step) (taken : Step) :
    log.kept (steps ++ [taken]) = (log.run steps).keep (log.kept steps) taken := by
  have hrun : (steps.foldl (fun state taken =>
      (state.1.step taken, state.1.keep state.2 taken)) (log, [])).1 = log.run steps := by
    induction steps using List.reverseRecOn with
    | nil => rfl
    | append_singleton earlier last ih =>
        rw [List.foldl_append, run_append, ← ih]
        rfl
  rw [kept, List.foldl_append, ← hrun]
  rfl

section

variable (log : TrendLog)

/-- A step that does not clear the buffer pushes what it stores. -/
theorem ring_step_of_ne_clear {taken : Step} (hclear : taken ≠ .clear) :
    (log.step taken).ring =
      ((log.stores? taken).map fun record => (log.ring.push record).1).getD log.ring := by
  have hacts : log.acts taken = (log.offer? taken).toList.map .push := by
    cases taken with
    | clear => exact absurd rfl hclear
    | switch | record | sample | observe => rfl
  rw [ring_step, hacts, stores?]
  cases log.offer? taken with
  | none => cases log.refuses <;> rfl
  | some record =>
      change (if log.refuses then log.ring else (log.ring.push record).1) = _
      cases log.refuses <;> rfl

theorem lastValue_append (record : LogRecord) :
    (log.append record).1.lastValue = log.lastValue := by
  unfold append
  split <;> rfl

theorem lastValue_record (sample : Sample) (now : Reading) :
    (log.record sample now).1.lastValue =
      if log.running && !log.refuses then sample.datum.number?.or log.lastValue
      else log.lastValue := by
  rw [record_eq]
  split <;> rfl

/-- Likewise the number of what it stores is the last one from then on. -/
theorem lastValue_step_of_ne_clear {taken : Step} (hclear : taken ≠ .clear) :
    (log.step taken).lastValue =
      ((log.stores? taken).bind fun record => record.datum.number?).or log.lastValue := by
  unfold stores?
  cases taken with
  | clear => exact absurd rfl hclear
  | switch enable now =>
      -- A switch may be stored too, but it is no number.
      have hnumber : (LogRecord.ofSwitch enable now).datum.number? = none := rfl
      unfold step switch offer?
      by_cases hsame : log.running = enable
      · simp [hsame]
      · simp only [if_neg hsame, lastValue_append]
        cases log.refuses <;> simp [hnumber]
  | record sample now =>
      rw [step, lastValue_record, offer?]
      cases log.refuses <;> cases log.running <;> rfl
  | sample now read =>
      -- A periodic sample is taken if a point is read, the time has come, and the point is there.
      unfold step TrendLog.sample offer? reads?
      cases hpoint : log.periodicPoint? with
      | none => simp
      | some point =>
          have hrunning := log.running_of_periodicPoint? hpoint
          by_cases hearly : now < log.due now
          · simp [hearly]
          · cases hread : read point with
            | none => simp [hearly, hread]
            | some value =>
                simp only [if_neg hearly, hread, lastValue_record, hrunning]
                cases log.refuses <;> simp [hread, Sample.recordAt]
  | observe point sample now =>
      unfold step observe offer?
      by_cases hwanted : (log.follows point && log.exceeds sample) = true
      · have hrunning := log.running_of_follows ((Bool.and_eq_true _ _).mp hwanted).1
        simp only [if_pos hwanted, lastValue_record, hrunning]
        cases log.refuses <;> rfl
      · simp [hwanted]

end

/-! ## What a log remembers -/

/-- The buffer holds the last of the records that the log has stored, and the log remembers the
last number among all of them. -/
structure Remembers (log : TrendLog) (kept : List LogRecord) : Prop where
  capacity_pos : 0 < log.ring.capacity
  records : log.ring.records = kept.rtake log.ring.capacity
  lastValue : log.lastValue = LogRecord.lastNumber? kept

theorem remembers_ofConfig (config : LogConfig) : (ofConfig config).Remembers [] :=
  ⟨Nat.lt_of_lt_of_le Nat.zero_lt_one (Nat.le_max_right _ _), (List.rtake_nil _).symm, rfl⟩

theorem remembers_step {log : TrendLog} {kept : List LogRecord} (hremembers : log.Remembers kept)
    (taken : Step) : (log.step taken).Remembers (log.keep kept taken) := by
  obtain ⟨hpos, hrecords, hlast⟩ := hremembers
  -- A clearing starts over, with nothing kept and no last number.
  by_cases hclear : taken = .clear
  · subst hclear
    exact ⟨hpos, (List.rtake_nil _).symm, rfl⟩
  have hkeep : log.keep kept taken = kept ++ (log.stores? taken).toList := by
    cases taken with
    | clear => exact absurd rfl hclear
    | switch | record | sample | observe => rfl
  have hring := log.ring_step_of_ne_clear hclear
  have hvalue := log.lastValue_step_of_ne_clear hclear
  rw [hkeep]
  cases hstores : log.stores? taken with
  | none =>
      rw [hstores] at hring hvalue
      rw [Option.toList_none, List.append_nil]
      refine ⟨?_, ?_, hvalue.trans hlast⟩
      · rw [hring]
        exact hpos
      · rw [hring]
        exact hrecords
  | some record =>
      -- The record goes behind what is kept, of which the buffer still holds the end.
      rw [hstores] at hring hvalue
      have hlength : log.ring.records.length ≤ log.ring.capacity := by
        rw [hrecords, List.rtake, List.length_drop]
        omega
      refine ⟨?_, ?_, ?_⟩
      · rw [hring]
        exact (log.ring.capacity_push record).symm ▸ hpos
      · rw [hring]
        change (log.ring.push record).1.records =
          (kept ++ [record]).rtake (log.ring.push record).1.capacity
        rw [log.ring.capacity_push, Ring.records_push hpos hlength, hrecords,
          rtake_rtake_append]
      · rw [hvalue, Option.toList_some, LogRecord.lastNumber?_append, hlast]
        rfl

/-- **After every run a log remembers the last number among all that it has stored**, however many
of those records have been pushed out since. -/
theorem remembers_run (config : LogConfig) (steps : List Step) :
    ((ofConfig config).run steps).Remembers ((ofConfig config).kept steps) := by
  induction steps using List.reverseRecOn with
  | nil => exact remembers_ofConfig config
  | append_singleton earlier taken ih =>
      rw [run_append, kept_append]
      exact remembers_step ih taken

/-! ## Offering a sample -/

theorem exceeds_iff (log : TrendLog) (sample : Sample) :
    log.exceeds sample = true ↔ sample.Departs log.config.increment log.lastValue := by
  unfold exceeds Sample.Departs
  cases log.lastValue with
  | none => simp
  | some previous =>
      cases sample.datum.number? with
      | none => simp
      | some value => simp

theorem record_iff {log : TrendLog} (huse : log.InUse) (sample : Sample) (now : Reading) :
    (log.record sample now).2 = true ↔ log.running = true ∧ log.HasRoom := by
  rw [← refuses_eq_false_iff huse, record_eq]
  cases log.running <;> cases log.refuses <;> simp

theorem observe_iff {log : TrendLog} (huse : log.InUse) (hchange : log.config.trigger = .change)
    (point : PointRef) (sample : Sample) (now : Reading) :
    (log.observe point sample now).2 = true ↔
      log.running = true ∧ log.HasRoom ∧ log.config.point = some point ∧
        sample.Departs log.config.increment log.lastValue := by
  rw [← exceeds_iff, ← refuses_eq_false_iff huse, observe, record_eq]
  unfold follows
  rw [hchange]
  by_cases hpoint : log.config.point = some point <;>
    cases log.running <;> cases log.refuses <;> cases log.exceeds sample <;> simp [hpoint]

theorem record_of_stored (log : TrendLog) (sample : Sample) (now : Reading) :
    (log.record sample now).1 =
      if (log.record sample now).2 then log.storing sample now else log := by
  rw [record_eq]
  split <;> rfl

theorem observe_of_stored (log : TrendLog) (point : PointRef) (sample : Sample) (now : Reading) :
    (log.observe point sample now).1 =
      if (log.observe point sample now).2 then log.storing sample now else log := by
  obtain heq | heq := log.observe_cases point sample now
  · rw [heq]
    rfl
  · rw [heq]
    exact log.record_of_stored sample now

end TrendLog

namespace Archive

theorem get?_replay_append {operations : List Operation} {log : TrendLog}
    (hlog : log ∈ (replay operations).1.logs) {operation : Operation}
    (hstays : ¬ operation.Ends log.number) :
    (replay (operations ++ [operation])).1.get? log.number =
      some (log.run ((replay operations).1.steps log.number operation)) := by
  rw [replay_append]
  exact get?_perform_of_some (get?_of_mem hlog) hstays

/-- **A log of changes measures from the last number that it has stored**: after every run, a
sample of its point is stored if the log runs, has room, and the sample lies no less than the
increment away from the last number among all records stored since the log was set up or cleared.
A sample that is not stored, shown or recorded, leaves the log as it was. -/
theorem deadBand_replay {operations : List Operation} {log : TrendLog}
    (hlog : log ∈ (replay operations).1.logs) (hchange : log.config.trigger = .change) :
    let kept := (TrendLog.ofConfig log.config).kept (life log.number operations)
    log.ring.records = kept.rtake log.config.bufferSize.toNat ∧
      (∀ point sample now,
        ((log.observe point sample now).2 = true ↔
          log.running = true ∧ log.HasRoom ∧ log.config.point = some point ∧
            sample.Departs log.config.increment (LogRecord.lastNumber? kept)) ∧
        (replay (operations ++ [.observe point sample now])).1.get? log.number =
          some (if (log.observe point sample now).2 then log.storing sample now else log)) ∧
      ∀ sample now,
        ((log.record sample now).2 = true ↔ log.running = true ∧ log.HasRoom) ∧
        (replay (operations ++ [.record log.number sample now])).1.get? log.number =
          some (if (log.record sample now).2 then log.storing sample now else log) := by
  intro kept
  have huse := (follows_replay operations).inUse log hlog
  have hremembers := TrendLog.remembers_run log.config (life log.number operations)
  rw [← eq_run_life (get?_of_mem hlog)] at hremembers
  refine ⟨?_, fun point sample now => ⟨?_, ?_⟩, fun sample now => ⟨?_, ?_⟩⟩
  · rw [← huse.capacity_eq]
    exact hremembers.records
  · rw [← hremembers.lastValue]
    exact TrendLog.observe_iff huse hchange point sample now
  · rw [get?_replay_append hlog id, ← log.observe_of_stored]
    rfl
  · exact TrendLog.record_iff huse sample now
  · rw [get?_replay_append hlog id, ← log.record_of_stored, steps, if_pos rfl]
    rfl

/-- A log of changes by 5 has stored 20.  It drops 23, so it stores 25, though that is only 2
more. -/
theorem deadBand_replay_five :
    let point : PointRef := ⟨.analogValue, 1⟩
    let config : LogConfig :=
      { LogConfig.of 1 "level" with trigger := .change, increment := 5, point := some point }
    let now : Reading := ⟨⟨2025, 5, 6, by decide⟩, 36180, 0, by decide, by decide⟩
    let sample : UInt32 → Sample := fun value => ⟨.unsigned value, FlagSet.empty⟩
    let operations : List Operation :=
      [.add config, .observe point (sample 20) now, .observe point (sample 23) now]
    ∃ log ∈ (replay operations).1.logs,
      log.ring.records = [(sample 20).recordAt now] ∧
        (log.observe point (sample 25) now).2 = true ∧
        (log.observe point (sample 24) now).2 = false := by
  intro point config now sample operations
  obtain ⟨log, hlog, hconfig, hrunning, hrecords⟩ : ∃ log ∈ (replay operations).1.logs,
      log.config = config ∧ log.running = true ∧ log.ring.records = [(sample 20).recordAt now] :=
    ⟨_, List.mem_cons_self, TrendLog.config_run (.ofConfig config)
      [.observe point (sample 20) now, .observe point (sample 23) now],
      by decide +kernel, by decide +kernel⟩
  -- What the log will store next is told by what it has kept, which is 20 alone.
  have hnumber : log.number = 1 := congrArg LogConfig.number hconfig
  obtain ⟨-, hoffered, -⟩ := deadBand_replay hlog (by rw [hconfig])
  have hkept :
      (TrendLog.ofConfig config).kept (life 1 operations) = [(sample 20).recordAt now] := by
    decide +kernel
  have hroom : log.HasRoom := fun hstops => by
    rw [hconfig] at hstops
    cases hstops
  rw [hconfig, hnumber, hkept] at hoffered
  refine ⟨log, hlog, hrecords, ?_, ?_⟩
  · refine (hoffered point (sample 25) now).1.mpr ⟨hrunning, hroom, rfl, .inr (.inr ?_)⟩
    exact ⟨20, 25, rfl, rfl, by decide +kernel⟩
  · refine Bool.eq_false_iff.mpr fun hstored => ?_
    -- Were 24 stored, it would depart from 20 by 5 or more.
    obtain ⟨-, -, -, hnone | hnone | ⟨previous, value, hprevious, hvalue, hfar⟩⟩ :=
      (hoffered point (sample 24) now).1.mp hstored
    · cases hnone
    · cases hnone
    · cases hprevious
      cases hvalue
      exact absurd hfar (by decide +kernel)

end Archive

end Historian
