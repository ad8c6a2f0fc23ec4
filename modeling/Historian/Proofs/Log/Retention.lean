import Historian.Proofs.Log.Offers

/-!
# Which records a log keeps

Of the records offered since it was set up or last cleared, a log keeps the last ones, as many as
its buffer holds; a log that stops when full keeps the first ones instead
(`TrendLog.retains_run`).  The count of all records moves on by one with every record that is
taken and stands still otherwise, and what the operations report is the number of logs whose
count has moved.  `Archive.retains_replay` says so of every log of every archive.

## Strategy

The offers are a history (`History.of`), of which only the part since the last clearing matters
(`History.recent`).  A log that drops the oldest follows this history like any buffer, which
`Ring.tracks_run` has settled.  A log that stops when full does not, since it takes no part of
the history after the first records; for it there is an invariant of its own
(`Ring.KeepsFirst`).
-/

namespace Historian

/-- The records since the last clearing. -/
def History.recent (history : History) : List LogRecord := history.pushed.drop history.cleared

namespace Ring

variable {capacity : Nat} {ring : Ring} {history : History}

/-- A buffer at the end of its history holds the last of the recent records. -/
theorem Tracks.records_eq_drop_recent (htracks : Tracks capacity ring history) :
    ring.records = history.recent.drop (history.recent.length - capacity) := by
  have hcleared := htracks.cleared_le
  rw [htracks.records, History.recent, List.drop_drop, List.length_drop]
  congr 1
  unfold History.first History.live
  omega

/-- The buffer holds the first of the recent records. -/
structure KeepsFirst (capacity : Nat) (ring : Ring) (history : History) : Prop where
  capacity_eq : ring.capacity = capacity
  cleared_le : history.cleared ≤ history.pushed.length
  records : ring.records = history.recent.take capacity

theorem keepsFirst_ofCapacity (capacity : Nat) :
    KeepsFirst (max capacity 1) (ofCapacity capacity) History.empty :=
  ⟨rfl, Nat.le_refl _, by simp [ofCapacity, History.recent, History.empty]⟩

namespace KeepsFirst

theorem receive (hkeeps : KeepsFirst capacity ring history) (done : Act) :
    KeepsFirst capacity (ring.receive true done) (history.extend done) := by
  obtain ⟨hcapacity, hcleared, hrecords⟩ := hkeeps
  cases done with
  | clear =>
      refine ⟨hcapacity, Nat.le_refl _, ?_⟩
      simp [Ring.receive, Ring.clear, History.recent, History.extend]
  | push record =>
      have hpushed : (history.extend (.push record)).recent = history.recent ++ [record] :=
        List.drop_append_of_le_length hcleared
      have hkept : history.cleared ≤ (history.extend (.push record)).pushed.length := by
        rw [History.pushed_push, List.length_append]
        exact Nat.le_add_right_of_le hcleared
      have hlength : ring.records.length = min capacity history.recent.length := by
        rw [hrecords, List.length_take]
      by_cases hfull : ring.isFull
      · -- What is turned down was not among the first records anyway.
        have hcount : ring.records.length = ring.capacity := of_decide_eq_true hfull
        have hturned : ring.receive true (.push record) = ring := if_pos (by simp [hfull])
        rw [hturned]
        refine ⟨hcapacity, hkept, ?_⟩
        rw [hpushed, List.take_append_of_le_length (by omega), hrecords]
      · -- There is still room, so the buffer holds all that came since the clearing.
        have hcount : ring.records.length ≠ ring.capacity := fun heq => hfull (decide_eq_true heq)
        have htaken : ring.receive true (.push record) = (ring.push record).1 :=
          if_neg (by simp [hfull])
        have hall : ring.records = history.recent := by
          rw [hrecords, List.take_of_length_le (by omega)]
        rw [htaken, Ring.push, if_neg hfull]
        refine ⟨hcapacity, hkept, ?_⟩
        rw [hpushed, ← hall, List.take_of_length_le]
        rw [List.length_append, List.length_singleton]
        omega

theorem foldl (hkeeps : KeepsFirst capacity ring history) (acts : List Act) :
    KeepsFirst capacity (acts.foldl (Ring.receive true) ring)
      (acts.foldl History.extend history) := by
  induction acts generalizing ring history with
  | nil => exact hkeeps
  | cons done rest ih => exact ih (hkeeps.receive done)

end KeepsFirst

/-! ## The count -/

theorem next_ne (sequence : UInt32) : Sequence.next sequence ≠ sequence := by
  unfold Sequence.next
  split
  · rename_i heq
    rw [heq]
    decide
  · intro heq
    have hnat := congrArg UInt32.toNat heq
    rw [UInt32.toNat_add] at hnat
    have hlt := sequence.toNat_lt
    change (_ + 1) % 2 ^ 32 = _ at hnat
    omega

theorem toNat_next (sequence : UInt32) :
    (Sequence.next sequence).toNat = sequence.toNat % Sequence.cycle + 1 := by
  unfold Sequence.next Sequence.cycle
  split
  · rename_i heq
    rw [heq]
    rfl
  · rename_i hne
    have hlt := sequence.toNat_lt
    have hlast : sequence.toNat ≠ 4294967295 := fun heq => hne (UInt32.toNat_inj.mp heq)
    rw [UInt32.toNat_add]
    change (_ + 1) % 2 ^ 32 = _
    omega

/-- The buffer has taken one more record, for which a full one gave up its oldest. -/
def Took (ring later : Ring) : Prop :=
  ∃ record,
    later.records = (if ring.isFull then ring.records.drop 1 else ring.records) ++ [record] ∧
    later.total.toNat = ring.total.toNat % Sequence.cycle + 1

theorem took_push (ring : Ring) (record : LogRecord) : Took ring (ring.push record).1 := by
  refine ⟨record, ?_, ?_⟩
  · unfold push
    split <;> rfl
  · rw [← toNat_next]
    unfold push
    split <;> rfl

theorem total_push_ne (ring : Ring) (record : LogRecord) :
    (ring.push record).1.total ≠ ring.total := by
  have hnext : (ring.push record).1.total = Sequence.next ring.total := by
    unfold push
    split <;> rfl
  rw [hnext]
  exact next_ne ring.total

end Ring

/-! ## Logs -/

namespace TrendLog

/-- The records offered to a log since it was last cleared. -/
def offered (log : TrendLog) (steps : List Step) : List LogRecord :=
  (History.of (log.offers steps)).recent

/-- A log keeps the latest of the records offered to it, or, if it stops when full, the
earliest. -/
structure Retains (log : TrendLog) (offered : List LogRecord) : Prop where
  latest : log.config.stopWhenFull = false →
    log.ring.records = offered.drop (offered.length - log.config.bufferSize.toNat)
  earliest : log.config.stopWhenFull = true →
    log.ring.records = offered.take log.config.bufferSize.toNat

theorem retains_run {config : LogConfig} (hsize : config.bufferSize ≠ 0) (steps : List Step) :
    Retains ((ofConfig config).run steps) ((ofConfig config).offered steps) := by
  have hconfig := config_run (ofConfig config) steps
  have hring := ring_run (ofConfig config) steps
  have hpos : config.bufferSize.toNat ≠ 0 := fun hzero => hsize (UInt32.toNat_inj.mp hzero)
  have hcapacity : max config.bufferSize.toNat 1 = config.bufferSize.toNat := by omega
  -- The two ways of a full log follow two histories of the ring: one that forgets its oldest
  -- records, and one that takes no more.
  refine ⟨fun hstops => ?_, fun hstops => ?_⟩
  · rw [hconfig] at hstops ⊢
    have htracks := Ring.tracks_run config.bufferSize.toNat ((ofConfig config).offers steps)
    change (ofConfig config).config.stopWhenFull = false at hstops
    rw [hstops, Ring.receive_false] at hring
    rw [hcapacity] at htracks
    rw [hring]
    exact htracks.records_eq_drop_recent
  · rw [hconfig] at hstops ⊢
    have hkeeps := (Ring.keepsFirst_ofCapacity config.bufferSize.toNat).foldl
      ((ofConfig config).offers steps)
    change (ofConfig config).config.stopWhenFull = true at hstops
    rw [hstops] at hring
    rw [hcapacity] at hkeeps
    rw [hring]
    exact hkeeps.records

/-! ### Taking records -/

/-- The count of a log has moved. -/
def hasTaken (log later : TrendLog) : Bool := later.ring.total ≠ log.ring.total

section

variable (log : TrendLog) (sample : Sample) (point : PointRef) (now : Reading)
  (read : PointRef → Option Sample)

theorem hasTaken_self : log.hasTaken log = false := decide_eq_false (not_not.mpr rfl)

theorem hasTaken_record :
    log.hasTaken (log.record sample now).1 = (log.record sample now).2 := by
  rw [record_eq]
  split
  · exact decide_eq_true (log.ring.total_push_ne (sample.recordAt now))
  · exact log.hasTaken_self

theorem hasTaken_sample :
    log.hasTaken (log.sample now read).1 = (log.sample now read).2 := by
  obtain ⟨nextDue, heq⟩ | ⟨value, nextDue, heq⟩ := log.sample_cases now read
  · rw [heq]
    exact log.hasTaken_self
  · rw [heq]
    exact log.hasTaken_record value now

theorem hasTaken_observe :
    log.hasTaken (log.observe point sample now).1 = (log.observe point sample now).2 := by
  obtain heq | heq := log.observe_cases point sample now
  · rw [heq]
    exact log.hasTaken_self
  · rw [heq]
    exact log.hasTaken_record sample now

end

/-- What becomes of the buffer of a log in one operation.  Nothing clears it unless `clears`. -/
structure Accounts (log later : TrendLog) (clears : Prop) : Prop where
  changes : later.ring = log.ring ∨ log.ring.Took later.ring ∨
    clears ∧ later.ring.records = [] ∧ later.ring.total = log.ring.total
  closed : log.config.stopWhenFull = true →
    log.ring.records.length = log.config.bufferSize.toNat → ¬ clears → later.ring = log.ring

theorem accounts_self (log : TrendLog) (clears : Prop) : Accounts log log clears :=
  ⟨.inl rfl, fun _ _ _ => rfl⟩

/-- Every step takes a record, clears the buffer or leaves it. -/
theorem accounts_step {log : TrendLog} (hcapacity : log.ring.capacity = log.config.bufferSize.toNat)
    {taken : Step} {clears : Prop} (hclears : taken = .clear → clears) :
    Accounts log (log.step taken) clears := by
  have hring := log.ring_step taken
  unfold acts at hring
  split at hring
  · exact ⟨.inr (.inr ⟨hclears rfl, rfl, rfl⟩), fun _ _ hnot => absurd (hclears rfl) hnot⟩
  · cases hoffer : log.offer? taken with
    | none =>
        rw [hoffer] at hring
        exact ⟨.inl hring, fun _ _ _ => hring⟩
    | some record =>
        -- A record is offered.  Only a log that stops when full can turn it down, and only when
        -- full.
        rw [hoffer] at hring
        change (log.step taken).ring =
          log.ring.receive log.config.stopWhenFull (.push record) at hring
        rw [Ring.receive] at hring
        refine ⟨?_, fun hstops hfull _ => ?_⟩
        · split at hring
          · exact .inl hring
          · rw [hring]
            exact .inr (.inl (log.ring.took_push record))
        · have hisFull : log.ring.isFull = true := decide_eq_true (hfull.trans hcapacity.symm)
          rwa [if_pos (by rw [hstops, hisFull]; rfl)] at hring

end TrendLog

namespace Archive

open TrendLog (Step)

/-! ## What operations report -/

/-- The number of records that a round of sampling stores, with points as in `sampleEach`. -/
def storedEach (now : Reading) (read : Nat → PointRef → Option Sample) :
    (calls : Nat) → List TrendLog → Nat
  | _, [] => 0
  | calls, log :: rest =>
      (if (log.sample now (read calls)).2 then 1 else 0) +
        storedEach now read (if (log.reads? now).isSome then calls + 1 else calls) rest

theorem length_filter_eq_countP {α : Type} (holds : α → Bool) (list : List α) :
    (list.filter holds).length = list.countP holds :=
  List.countP_eq_length_filter.symm

/-- Points that answer the same however often they are asked. -/
theorem stored_samplePeriodic (archive : Archive) (now : Reading)
    (read : PointRef → Option Sample) (calls : Nat) :
    (archive.samplePeriodic now read).2 = storedEach now (fun _ => read) calls archive.logs := by
  simp only [samplePeriodic, forEach, length_filter_eq_countP]
  induction archive.logs generalizing calls with
  | nil => rfl
  | cons log rest ih =>
      rw [storedEach, ← ih, List.map_cons, List.countP_cons, Nat.add_comm]

/-- The number of records stored that an operation reports, if it does.  Of a round it is that of
`storedEach`, which is what `samplePeriodic` reports of points of its kind. -/
def report? (archive : Archive) : Operation → Option Nat
  | .record number sample now =>
      match archive.record number sample now with
      | .ok (_, stored) => some (if stored then 1 else 0)
      | .error _ => none
  | .samplePeriodic now read => some (storedEach now read 0 archive.logs)
  | .observe point sample now => some (archive.observe point sample now).2
  | _ => none

/-- The number of logs whose count has moved. -/
def taken (archive later : Archive) : Nat :=
  (archive.logs.zip later.logs).countP fun pair => pair.1.hasTaken pair.2

theorem countP_hasTaken_self (logs : List TrendLog) :
    (logs.zip logs).countP (fun pair => pair.1.hasTaken pair.2) = 0 := by
  induction logs with
  | nil => rfl
  | cons log rest ih => simp [ih, log.hasTaken_self]

theorem countP_hasTaken_replace {number : UInt32} {log changed : TrendLog} {logs : List TrendLog}
    (hlog : logs.find? (fun log => log.number = number) = some log) :
    (logs.zip (replace number changed logs)).countP (fun pair => pair.1.hasTaken pair.2) =
      if log.hasTaken changed then 1 else 0 := by
  induction logs with
  | nil => cases hlog
  | cons first rest ih =>
      by_cases hfirst : first.number = number
      · rw [find?_cons_self hfirst] at hlog
        cases hlog
        rw [replace, if_pos hfirst, List.zip_cons_cons, List.countP_cons, countP_hasTaken_self,
          Nat.zero_add]
      · rw [find?_cons_other hfirst] at hlog
        rw [replace, if_neg hfirst, List.zip_cons_cons, List.countP_cons, ih hlog,
          first.hasTaken_self]
        rfl

theorem countP_hasTaken_sampleEach (now : Reading) (read : Nat → PointRef → Option Sample)
    (calls : Nat) (logs : List TrendLog) :
    (logs.zip (sampleEach now read calls logs)).countP (fun pair => pair.1.hasTaken pair.2) =
      storedEach now read calls logs := by
  induction logs generalizing calls with
  | nil => rfl
  | cons log rest ih =>
      rw [sampleEach, storedEach, List.zip_cons_cons, List.countP_cons, ih, log.hasTaken_sample,
        Nat.add_comm]

/-- **What is reported is the number of records stored.** -/
theorem eq_taken_of_report? {archive : Archive} {operation : Operation} {count : Nat}
    (hreport : archive.report? operation = some count) :
    count = archive.taken (archive.perform operation) := by
  cases operation with
  | record number sample now =>
      cases hlog : archive.get? number with
      | none => simp [report?, Archive.record, modify, hlog] at hreport
      | some log =>
          have hrecord : archive.record number sample now =
              .ok (⟨replace number (log.record sample now).1 archive.logs⟩,
                (log.record sample now).2) := by
            simp [Archive.record, modify, hlog]
          have hattempt : archive.attempt (.record number sample now) = .ok _ :=
            congrArg (Except.map Prod.fst) hrecord
          rw [report?, hrecord] at hreport
          rw [perform_of_ok hattempt, taken, countP_hasTaken_replace hlog, log.hasTaken_record]
          exact (Option.some.inj hreport).symm
  | samplePeriodic now read =>
      rw [← Option.some.inj hreport, taken]
      exact (countP_hasTaken_sampleEach now read 0 archive.logs).symm
  | observe point sample now =>
      rw [← Option.some.inj hreport]
      simp only [taken, perform, attempt, Archive.observe, forEach, length_filter_eq_countP,
        List.map_map]
      induction archive.logs with
      | nil => rfl
      | cons log rest ih =>
          rw [List.map_cons, List.map_cons, List.zip_cons_cons, List.countP_cons, List.countP_cons,
            ih]
          simp only [Function.comp_apply, log.hasTaken_observe]
  | add | load | remove | clearAll | switch | clear => cases hreport

/-! ## All logs of an archive -/

/-- An operation that leaves a log in the archive accounts for its buffer. -/
theorem accounts_perform {archive : Archive} (huse : archive.InUse) {log : TrendLog}
    {number : UInt32} (hlog : archive.get? number = some log) {operation : Operation}
    (hstays : ¬ operation.Ends number) :
    ∃ later, (archive.perform operation).get? number = some later ∧
      log.Accounts later (operation = .clear number) := by
  refine ⟨_, get?_perform_of_some hlog hstays, ?_⟩
  obtain hnone | ⟨taken, hgives, hone⟩ := archive.steps_cases number operation
  · rw [hnone]
    exact log.accounts_self _
  · rw [hone]
    refine TrendLog.accounts_step (huse.of_get? hlog).capacity_eq fun hclear => ?_
    subst hclear
    cases hgives
    rfl

/-- A round with points that answer the same however often they are asked. -/
theorem samplePeriodic_eq (archive : Archive) (now : Reading) (read : PointRef → Option Sample) :
    (archive.samplePeriodic now read).1 = archive.perform (.samplePeriodic now fun _ => read) ∧
      archive.report? (.samplePeriodic now fun _ => read) =
        some (archive.samplePeriodic now read).2 :=
  ⟨congrArg Archive.mk (logs_samplePeriodic archive now read 0),
    congrArg some (stored_samplePeriodic archive now read 0).symm⟩

/-- **After every run, each log holds the latest records that it was offered, or the earliest if
it stops when full**; whatever is done next takes one record, clears the buffer or leaves it, a
full buffer that stops is only cleared, and what is reported is the number of records stored. -/
theorem retains_replay (operations : List Operation) :
    (∀ log ∈ (replay operations).1.logs,
      log.Retains ((TrendLog.ofConfig log.config).offered (life log.number operations))) ∧
    (∀ operation, ∀ log ∈ (replay operations).1.logs, ¬ operation.Ends log.number →
      ∃ later, ((replay operations).1.perform operation).get? log.number = some later ∧
        log.Accounts later (operation = .clear log.number)) ∧
    (∀ operation count, (replay operations).1.report? operation = some count →
      count = (replay operations).1.taken ((replay operations).1.perform operation)) ∧
    ∀ now (read : PointRef → Option Sample),
      ((replay operations).1.samplePeriodic now read).1 =
          (replay operations).1.perform (.samplePeriodic now fun _ => read) ∧
        (replay operations).1.report? (.samplePeriodic now fun _ => read) =
          some ((replay operations).1.samplePeriodic now read).2 := by
  have huse := (follows_replay operations).inUse
  refine ⟨fun log hlog => ?_, fun operation log hlog hstays => ?_, fun operation count => ?_,
    samplePeriodic_eq _⟩
  · have hretains := TrendLog.retains_run (huse log hlog).size_ne_zero (life log.number operations)
    rwa [← eq_run_life (get?_of_mem hlog)] at hretains
  · exact accounts_perform huse (get?_of_mem hlog) hstays
  · exact eq_taken_of_report?

/-- A log with room for two records that stops when full is offered three. -/
theorem retains_replay_full :
    let config : LogConfig := { LogConfig.of 1 "flow" with bufferSize := 2, stopWhenFull := true }
    let now : Reading := ⟨⟨2025, 5, 6, by decide⟩, 36180, 0, by decide, by decide⟩
    let sample : UInt32 → Sample := fun value => ⟨.unsigned value, FlagSet.empty⟩
    let operations : List Operation :=
      [.add config, .record 1 (sample 7) now, .record 1 (sample 8) now, .record 1 (sample 9) now]
    let offered := (TrendLog.ofConfig config).offered (life 1 operations)
    offered = [(sample 7).recordAt now, (sample 8).recordAt now, (sample 9).recordAt now] ∧
      ∃ log ∈ (replay operations).1.logs, log.Retains offered ∧
        log.ring.records = [(sample 7).recordAt now, (sample 8).recordAt now] := by
  intro config now sample operations offered
  obtain ⟨log, hlog, hconfig, hrecords⟩ : ∃ log ∈ (replay operations).1.logs,
      log.config = config ∧
      log.ring.records = [(sample 7).recordAt now, (sample 8).recordAt now] :=
    ⟨_, List.mem_cons_self, TrendLog.config_run (.ofConfig config)
      [.record (sample 7) now, .record (sample 8) now, .record (sample 9) now],
      by decide +kernel⟩
  have hnumber : log.number = 1 := congrArg LogConfig.number hconfig
  have hretains := (retains_replay operations).1 log hlog
  rw [hconfig, hnumber] at hretains
  exact ⟨by decide +kernel, log, hlog, hretains, hrecords⟩

end Archive

end Historian
