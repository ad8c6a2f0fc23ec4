import Historian.Proofs.Log.Life

/-!
# What is offered to the buffer of a log

A step of a log offers at most one record to its buffer: the sample, if the log runs and wants
it, or the new state, if the log is switched.  The offers of a life and its clearings are a run
of acts (`TrendLog.offers`), and the buffer is what it makes of them (`TrendLog.ring_run`): a
log that stops when full turns a record down where any other log would push out its oldest.
-/

namespace Historian

/-- The status that says whether a log runs. -/
def LogStatus.ofRunning (running : Bool) : LogStatus :=
  if running then FlagSet.empty else LogStatus.disabled

/-- The record of a switch. -/
def LogRecord.ofSwitch (enable : Bool) (now : Reading) : LogRecord :=
  ⟨Stamp.ofReading now, .logStatus (LogStatus.ofRunning enable), FlagSet.empty⟩

namespace Ring

/-- The buffer of a log after an act.  If the log stops when full, a full buffer takes nothing. -/
def receive (stops : Bool) (ring : Ring) : Act → Ring
  | .push record => if stops && ring.isFull then ring else (ring.push record).1
  | .clear => ring.clear

theorem receive_false : receive false = act := by
  funext ring done
  cases done <;> rfl

end Ring

namespace TrendLog

/-- The record that a step offers to the buffer. -/
def offer? (log : TrendLog) : Step → Option LogRecord
  | .switch enable now => if log.running = enable then none else some (.ofSwitch enable now)
  | .clear => none
  | .record sample now => if log.running then some (sample.recordAt now) else none
  | .sample now read =>
      (log.reads? now).bind fun point => (read point).map fun sample => sample.recordAt now
  | .observe point sample now =>
      if log.follows point && log.exceeds sample then some (sample.recordAt now) else none

/-- What a step does to the buffer, if the buffer lets it. -/
def acts (log : TrendLog) (taken : Step) : List Act :=
  match taken with
  | .clear => [.clear]
  | taken => (log.offer? taken).toList.map .push

/-- What the steps of a log do to its buffer, if the buffer lets them. -/
def offers : TrendLog → List Step → List Act
  | _, [] => []
  | log, taken :: rest => log.acts taken ++ offers (log.step taken) rest

theorem offers_append (log : TrendLog) (steps : List Step) (taken : Step) :
    log.offers (steps ++ [taken]) = log.offers steps ++ (log.run steps).acts taken := by
  induction steps generalizing log with
  | nil => exact List.append_nil _
  | cons first rest ih => rw [List.cons_append, offers, offers, ih, List.append_assoc, run, run,
      List.foldl_cons]

/-! ## The buffer after a step -/

section

variable (log : TrendLog)

theorem ring_append (record : LogRecord) :
    (log.append record).1.ring = log.ring.receive log.config.stopWhenFull (.push record) := by
  unfold append refuses Ring.receive
  split <;> rfl

theorem ring_record (sample : Sample) (now : Reading) :
    (log.record sample now).1.ring =
      if log.running then
        log.ring.receive log.config.stopWhenFull (.push (sample.recordAt now))
      else log.ring := by
  rw [record_eq]
  unfold Ring.receive
  change _ = if log.running then (if log.refuses then _ else _) else _
  cases log.running <;> cases log.refuses <;> rfl

theorem running_of_periodicPoint? {point : PointRef} (hpoint : log.periodicPoint? = some point) :
    log.running = true := by
  unfold periodicPoint? at hpoint
  split at hpoint
  · rename_i hboth
    exact hboth.1
  · cases hpoint

theorem running_of_follows {point : PointRef} (hfollows : log.follows point = true) :
    log.running = true := by
  unfold follows at hfollows
  simp only [Bool.and_eq_true] at hfollows
  exact hfollows.1.1

theorem ring_sample (now : Reading) (read : PointRef → Option Sample) :
    (log.sample now read).1.ring =
      ((log.acts (.sample now read)).foldl (Ring.receive log.config.stopWhenFull) log.ring) := by
  unfold sample acts offer? reads?
  cases hpoint : log.periodicPoint? with
  | none => simp
  | some point =>
      have hrunning := log.running_of_periodicPoint? hpoint
      by_cases hearly : now < log.due now
      · simp [hearly]
      · cases hread : read point with
        | none => simp [hearly, hread]
        | some value => simp [hearly, hread, ring_record, hrunning]

/-- **The buffer takes or turns down what a step offers, and nothing else happens to it.** -/
theorem ring_step (taken : Step) :
    (log.step taken).ring =
      (log.acts taken).foldl (Ring.receive log.config.stopWhenFull) log.ring := by
  cases taken with
  | switch enable now =>
      unfold step switch acts offer?
      by_cases hsame : log.running = enable
      · simp [hsame]
      · simp only [if_neg hsame]
        exact ring_append { log with running := enable, nextDue := none } _
  | clear => rfl
  | record sample now =>
      rw [step, ring_record]
      unfold acts offer?
      by_cases hrunning : log.running <;> simp [hrunning]
  | sample now read => exact log.ring_sample now read
  | observe point sample now =>
      unfold step observe acts offer?
      by_cases hwanted : (log.follows point && log.exceeds sample) = true
      · have hrunning := log.running_of_follows ((Bool.and_eq_true _ _).mp hwanted).1
        simp only [if_pos hwanted, ring_record, if_pos hrunning]
        rfl
      · simp only [if_neg hwanted]
        rfl

end

theorem ring_run (log : TrendLog) (steps : List Step) :
    (log.run steps).ring =
      (log.offers steps).foldl (Ring.receive log.config.stopWhenFull) log.ring := by
  induction steps generalizing log with
  | nil => rfl
  | cons taken rest ih =>
      rw [offers, List.foldl_append, ← ring_step, ← (log.grows_step taken).config, ← ih]
      rfl

end TrendLog

end Historian
