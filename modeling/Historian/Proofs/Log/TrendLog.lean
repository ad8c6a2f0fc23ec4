import Historian.Log.TrendLog
import Historian.Proofs.Log.History

/-!
# What is done to a log reaches its buffer by pushing and clearing

A sample is stored or leaves the log as it was (`TrendLog.record_eq`).  Whatever a
trend log is told, its configuration stays and its buffer goes through a run of
pushes and clears (`TrendLog.Grows`).  So the buffer of a log that has been in use is
still the end of a history (`TrendLog.InUse`), and what is known of buffers after a
run holds for it.
-/

namespace Historian

/-- The record of a sample taken at a time. -/
def Sample.recordAt (sample : Sample) (now : Reading) : LogRecord :=
  ⟨Stamp.ofReading now, sample.datum, sample.status⟩

namespace TrendLog

/-! ## What is done with a sample -/

/-- The log once it has stored a sample. -/
def storing (log : TrendLog) (sample : Sample) (now : Reading) : TrendLog :=
  { log with
    ring := (log.ring.push (sample.recordAt now)).1
    lastValue := sample.datum.number?.or log.lastValue
    lastLogged := some now }

/-- **A sample is stored if the log runs and has room; else nothing happens.** -/
theorem record_eq (log : TrendLog) (sample : Sample) (now : Reading) :
    log.record sample now =
      if log.running && !log.refuses then (log.storing sample now, true) else (log, false) := by
  unfold record append storing Sample.recordAt
  cases log.running <;> cases log.refuses <;> rfl

/-- A new value of a point is recorded, or nothing happens. -/
theorem observe_cases (log : TrendLog) (point : PointRef) (sample : Sample) (now : Reading) :
    log.observe point sample now = (log, false) ∨
      log.observe point sample now = log.record sample now := by
  unfold observe
  split
  · exact .inr rfl
  · exact .inl rfl

/-- A round of sampling records a value or none, and may set the due time. -/
theorem sample_cases (log : TrendLog) (now : Reading) (read : PointRef → Option Sample) :
    (∃ nextDue, log.sample now read = ({ log with nextDue }, false)) ∨
      ∃ value nextDue, log.sample now read =
        ({ (log.record value now).1 with nextDue }, (log.record value now).2) := by
  unfold sample
  split
  · exact .inl ⟨log.nextDue, rfl⟩
  · rename_i point _
    split
    · exact .inl ⟨_, rfl⟩
    · cases read point with
      | none => exact .inl ⟨_, rfl⟩
      | some value => exact .inr ⟨value, _, rfl⟩

/-! ## Growing -/

/-- The configuration is the same and the buffer has gone on from where it was. -/
structure Grows (log changed : TrendLog) : Prop where
  config : changed.config = log.config
  ring : ∃ acts, changed.ring = log.ring.run acts

namespace Grows

variable {log changed later : TrendLog}

theorem of_eq (hconfig : changed.config = log.config) (hring : changed.ring = log.ring) :
    Grows log changed :=
  ⟨hconfig, [], hring⟩

theorem refl (log : TrendLog) : Grows log log := of_eq rfl rfl

theorem trans (hfirst : Grows log changed) (hsecond : Grows changed later) : Grows log later := by
  obtain ⟨acts, hacts⟩ := hfirst.ring
  obtain ⟨more, hmore⟩ := hsecond.ring
  refine ⟨hsecond.config.trans hfirst.config, acts ++ more, ?_⟩
  rw [hmore, hacts, Ring.run, Ring.run, Ring.run, List.foldl_append]

end Grows

/-! ## The operations -/

theorem grows_append (log : TrendLog) (record : LogRecord) :
    Grows log (log.append record).1 := by
  unfold append
  split
  · exact .refl log
  · exact ⟨rfl, [.push record], rfl⟩

theorem grows_record (log : TrendLog) (sample : Sample) (now : Reading) :
    Grows log (log.record sample now).1 := by
  rw [record_eq]
  split
  · exact ⟨rfl, [.push (sample.recordAt now)], rfl⟩
  · exact .refl log

theorem grows_switch (log : TrendLog) (enable : Bool) (now : Reading) :
    Grows log (log.switch enable now) := by
  unfold switch
  split
  · exact .refl log
  · -- The switch itself is recorded with the new state, not the old.
    have hswitched : Grows log { log with running := enable, nextDue := none } := .of_eq rfl rfl
    exact hswitched.trans (grows_append _ _)

theorem grows_clear (log : TrendLog) : Grows log log.clear := ⟨rfl, [.clear], rfl⟩

theorem grows_sample (log : TrendLog) (now : Reading) (read : PointRef → Option Sample) :
    Grows log (log.sample now read).1 := by
  obtain ⟨nextDue, heq⟩ | ⟨value, nextDue, heq⟩ := log.sample_cases now read
  · rw [heq]
    exact .of_eq rfl rfl
  · rw [heq]
    exact (log.grows_record value now).trans (.of_eq rfl rfl)

theorem grows_observe (log : TrendLog) (point : PointRef) (sample : Sample) (now : Reading) :
    Grows log (log.observe point sample now).1 := by
  obtain heq | heq := log.observe_cases point sample now
  · rw [heq]
    exact .refl log
  · rw [heq]
    exact log.grows_record sample now

/-! ## Logs in use -/

/-- The buffer is of a size that an archive accepts, and has been through some run. -/
structure InUse (log : TrendLog) : Prop where
  size_ne_zero : log.config.bufferSize ≠ 0
  size_le : log.config.bufferSize ≤ LogConfig.maxBufferSize
  ring : ∃ acts, log.ring = (Ring.ofCapacity log.config.bufferSize.toNat).run acts

theorem inUse_ofConfig {config : LogConfig} (hsome : config.bufferSize ≠ 0)
    (hle : config.bufferSize ≤ LogConfig.maxBufferSize) : InUse (ofConfig config) :=
  ⟨hsome, hle, [], rfl⟩

namespace InUse

variable {log changed : TrendLog}

theorem of_grows (hlog : log.InUse) (hgrows : Grows log changed) : changed.InUse := by
  obtain ⟨acts, hacts⟩ := hlog.ring
  obtain ⟨more, hmore⟩ := hgrows.ring
  refine ⟨?_, ?_, acts ++ more, ?_⟩
  · rw [hgrows.config]
    exact hlog.size_ne_zero
  · rw [hgrows.config]
    exact hlog.size_le
  · rw [hmore, hacts, hgrows.config, Ring.run, Ring.run, Ring.run, List.foldl_append]

/-- The buffer has the capacity that the log was set up with. -/
theorem capacity_eq (hlog : log.InUse) : log.ring.capacity = log.config.bufferSize.toNat := by
  obtain ⟨acts, hacts⟩ := hlog.ring
  have hpos : log.config.bufferSize.toNat ≠ 0 :=
    fun hzero => hlog.size_ne_zero (UInt32.toNat_inj.mp hzero)
  have hcapacity := (Ring.tracks_run log.config.bufferSize.toNat acts).capacity_eq
  rw [← hacts] at hcapacity
  omega

theorem length_records_le_capacity (hlog : log.InUse) :
    log.ring.records.length ≤ log.ring.capacity := by
  obtain ⟨acts, hacts⟩ := hlog.ring
  have htracks := Ring.tracks_run log.config.bufferSize.toNat acts
  rw [← hacts] at htracks
  rw [htracks.length_records, htracks.capacity_eq]
  exact Nat.min_le_left _ _

/-- The buffer of a log in use is never longer than the largest buffer. -/
theorem length_records_le (hlog : log.InUse) : log.ring.records.length ≤ 10000 := by
  have hcapacity := hlog.length_records_le_capacity
  have hsize : log.config.bufferSize.toNat ≤ 10000 := UInt32.le_iff_toNat_le.mp hlog.size_le
  rw [hlog.capacity_eq] at hcapacity
  exact Nat.le_trans hcapacity hsize

theorem length_records_lt (hlog : log.InUse) : log.ring.records.length < Sequence.cycle :=
  Nat.lt_of_le_of_lt hlog.length_records_le (by decide)

/-- So a reader of the log sees its true count. -/
theorem toNat_count (hlog : log.InUse) : log.view.count.toNat = log.ring.records.length :=
  Sequence.toNat_ofNat hlog.length_records_lt

end InUse

end TrendLog

end Historian
