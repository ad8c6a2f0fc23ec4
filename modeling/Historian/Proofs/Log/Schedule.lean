import Historian.Proofs.Log.Grid
import Historian.Proofs.Log.Life

/-!
# When a log is sampled

A running periodic log is read by some of the rounds of sampling that come, and which they are
is told here from the times of the rounds alone.  Without alignment the first round reads, and
then every round that comes an interval or more after the last reading.  With alignment to an
interval that divides the day, a round reads if a grid point has come that no earlier reading
has covered; before the first reading, points count from the first round on.

The due time of a log is hidden state, fixed when a round first asks and renewed at each
reading.  It is pinned down by two lists, the times of all rounds since the schedule last
started over and the times of those that read (`TrendLog.Rounds`), and every step keeps it so
(`TrendLog.Paced.step`).  Whether the point was available and whether the log was full takes no
part in it.  `Archive.scheduled_replay` says all this of every log of every archive.
-/

namespace Historian

/-! ## Rounds -/

namespace TrendLog

/-- The rounds of sampling since the schedule of a log last started over. -/
structure Rounds where
  /-- When they came. -/
  came : List Reading
  /-- When those came that read the point of the log. -/
  read : List Reading

namespace Rounds

def fresh : Rounds := ⟨[], []⟩

/-- The rounds after one more step of the log.  Clearing and switching start the schedule over. -/
def extend (log : TrendLog) (rounds : Rounds) : Step → Rounds
  | .switch enable _ => if log.running = enable then rounds else fresh
  | .clear => fresh
  | .sample now _ =>
      ⟨rounds.came ++ [now], rounds.read ++ if (log.reads? now).isSome then [now] else []⟩
  | .record _ _ | .observe _ _ _ => rounds

/-- When the log is due, as far as the rounds have fixed it. -/
def due? (config : LogConfig) (rounds : Rounds) : Option Reading :=
  match rounds.read.getLast? with
  | some last => some (Schedule.following config last)
  | none => rounds.came.head?.map (Schedule.first config)

end Rounds

/-- A log and its rounds after one more step. -/
def pace (state : TrendLog × Rounds) (taken : Step) : TrendLog × Rounds :=
  (state.1.step taken, state.2.extend state.1 taken)

/-- The rounds of a log that starts anew, after some steps. -/
def rounds (log : TrendLog) (steps : List Step) : Rounds :=
  (steps.foldl pace (log, .fresh)).2

theorem rounds_append (log : TrendLog) (steps : List Step) (taken : Step) :
    log.rounds (steps ++ [taken]) = (log.rounds steps).extend (log.run steps) taken := by
  have hlog : (steps.foldl pace (log, .fresh)).1 = log.run steps := by
    induction steps using List.reverseRecOn with
    | nil => rfl
    | append_singleton earlier taken ih =>
        rw [List.foldl_append, run_append, ← ih]
        rfl
  rw [rounds, List.foldl_append, ← hlog]
  rfl

/-! ### The due time follows from the rounds -/

theorem periodicPoint?_congr {log changed : TrendLog} (hconfig : changed.config = log.config)
    (hrunning : changed.running = log.running) :
    changed.periodicPoint? = log.periodicPoint? := by
  unfold periodicPoint?
  rw [hconfig, hrunning]

theorem isSome_reads? {log : TrendLog} {point : PointRef}
    (hpoint : log.periodicPoint? = some point) (now : Reading) :
    (log.reads? now).isSome ↔ ¬ now < log.due now := by
  unfold reads?
  split
  · simp [*]
  · simp [*]

theorem reads?_eq_some_iff {log : TrendLog} {point : PointRef}
    (hpoint : log.periodicPoint? = some point) (now : Reading) :
    log.reads? now = some point ↔ log.due now ≤ now := by
  unfold reads?
  rw [hpoint, ← Reading.not_lt]
  split <;> simp [*]

theorem nextDue_sample {log : TrendLog} {point : PointRef}
    (hpoint : log.periodicPoint? = some point) (now : Reading)
    (read : PointRef → Option Sample) :
    (log.sample now read).1.nextDue =
      some (if now < log.due now then log.due now else Schedule.following log.config now) := by
  unfold sample
  rw [hpoint]
  simp only
  split
  · rfl
  · rfl

/-- The due time of a log is what its rounds make it, as long as rounds concern the log. -/
structure Paced (log : TrendLog) (rounds : Rounds) : Prop where
  due : log.periodicPoint?.isSome → log.nextDue = rounds.due? log.config
  sublist : rounds.read.Sublist rounds.came
  /-- Without alignment, the first round reads. -/
  prompt : log.periodicPoint?.isSome → log.config.aligned = false → rounds.read = [] →
    rounds.came = []

namespace Paced

variable {log changed : TrendLog} {rounds : Rounds}

theorem of_nextDue_eq_none (hnone : log.nextDue = none) : Paced log .fresh :=
  ⟨fun _ => hnone, .refl [], fun _ _ _ => rfl⟩

theorem congr (hpaced : Paced log rounds) (hconfig : changed.config = log.config)
    (hrunning : changed.running = log.running) (hnext : changed.nextDue = log.nextDue) :
    Paced changed rounds := by
  obtain ⟨hdue, hsublist, hprompt⟩ := hpaced
  rw [← periodicPoint?_congr hconfig hrunning, ← hconfig] at hdue hprompt
  exact ⟨fun hpoint => hnext.trans (hdue hpoint), hsublist, hprompt⟩

theorem sample (hpaced : Paced log rounds) (now : Reading) (read : PointRef → Option Sample) :
    Paced (log.sample now read).1 (rounds.extend log (.sample now read)) := by
  have hpoint := periodicPoint?_congr (log.grows_sample now read).config
    (log.running_sample now read)
  refine ⟨fun hsome => ?_, ?_, fun hsome haligned hunread => ?_⟩
  · rw [hpoint] at hsome
    obtain ⟨point, hpoint⟩ := Option.isSome_iff_exists.mp hsome
    have hdue := hpaced.due hsome
    rw [nextDue_sample hpoint, (log.grows_sample now read).config]
    by_cases hearly : now < log.due now
    · -- The due time stays, or is fixed now if this is the first round.
      have hskips := mt (isSome_reads? hpoint now).mp (not_not.mpr hearly)
      rw [if_pos hearly]
      simp only [Rounds.extend, if_neg hskips, List.append_nil, TrendLog.due, hdue, Rounds.due?]
      cases rounds.read.getLast? with
      | some last => rfl
      | none => cases rounds.came <;> rfl
    · have hreads := (isSome_reads? hpoint now).mpr hearly
      simp only [Rounds.extend, if_pos hreads, if_neg hearly, Rounds.due?, List.getLast?_concat]
  · refine hpaced.sublist.append ?_
    split
    · exact .refl _
    · exact List.nil_sublist _
  · rw [hpoint] at hsome
    rw [(log.grows_sample now read).config] at haligned
    obtain ⟨point, hpoint⟩ := Option.isSome_iff_exists.mp hsome
    obtain ⟨hread, hskips⟩ := List.append_eq_nil_iff.mp hunread
    have hcame := hpaced.prompt hsome haligned hread
    -- An aligned log that has come and not read is due at once: it reads in its first round.
    have hnow : log.due now = now := by
      simp [TrendLog.due, hpaced.due hsome, Rounds.due?, hread, hcame, Schedule.first, haligned]
    have hreads := (isSome_reads? hpoint now).mpr (hnow.symm ▸ Reading.lt_irrefl now)
    rw [if_pos hreads] at hskips
    cases hskips

/-- **Every step keeps the due time as the rounds make it.** -/
theorem step (hpaced : Paced log rounds) (taken : Step) :
    Paced (log.step taken) (rounds.extend log taken) := by
  -- Only switches and clearings give up the due time; of the others only a round changes it.
  cases taken with
  | switch enable now =>
      unfold TrendLog.step Rounds.extend
      simp only
      split
      · rename_i hsame
        rw [TrendLog.switch, if_pos hsame]
        exact hpaced
      · rename_i hchanged
        refine of_nextDue_eq_none ?_
        rw [TrendLog.switch, if_neg hchanged]
        exact nextDue_append _ _
  | clear => exact of_nextDue_eq_none rfl
  | record sample now =>
      exact hpaced.congr (log.grows_record sample now).config (log.running_record sample now)
        (log.nextDue_record sample now)
  | sample now read => exact hpaced.sample now read
  | observe point sample now =>
      exact hpaced.congr (log.grows_observe point sample now).config
        (log.running_observe sample point now) (log.nextDue_observe sample point now)

end Paced

theorem paced_run {log : TrendLog} (hnone : log.nextDue = none) (steps : List Step) :
    Paced (log.run steps) (log.rounds steps) := by
  induction steps using List.reverseRecOn with
  | nil => exact .of_nextDue_eq_none hnone
  | append_singleton earlier taken ih =>
      rw [run_append, rounds_append]
      exact ih.step taken

/-! ### Which rounds read -/

/-- Times that never decrease, outside leap seconds. -/
def Chronological (times : List Reading) : Prop :=
  times.Pairwise (· ≤ ·) ∧ ∀ time ∈ times, time.Plain

/-- A time is past what the rounds before one at `now` have covered: after the last reading, or
not before the first round if there was no reading. -/
def Rounds.Uncovered (rounds : Rounds) (now time : Reading) : Prop :=
  match rounds.read.getLast? with
  | some last => last < time
  | none => rounds.came.headD now ≤ time

theorem Rounds.uncovered_iff_of_last {rounds : Rounds} {now time last : Reading}
    (hlast : rounds.read.getLast? = some last) : rounds.Uncovered now time ↔ last < time := by
  rw [Uncovered, hlast]

theorem Rounds.uncovered_iff_of_unread {rounds : Rounds} {now time : Reading}
    (hunread : rounds.read.getLast? = none) :
    rounds.Uncovered now time ↔ rounds.came.headD now ≤ time := by
  rw [Uncovered, hunread]

section

variable {log : TrendLog} {rounds : Rounds} {point : PointRef} {now : Reading}

theorem Chronological.plain_last {last : Reading}
    (hchronological : Chronological (rounds.came ++ [now]))
    (hsublist : rounds.read.Sublist rounds.came) (hlast : rounds.read.getLast? = some last) :
    last.Plain :=
  hchronological.2 last (List.mem_append_left _ (hsublist.subset (List.mem_of_getLast? hlast)))

theorem due_of_getLast? (hpaced : Paced log rounds) (hpoint : log.periodicPoint? = some point)
    {last : Reading} (hlast : rounds.read.getLast? = some last) :
    log.due now = Schedule.following log.config last := by
  rw [due, hpaced.due (by rw [hpoint]; rfl), Rounds.due?, hlast]
  rfl

theorem due_of_unread (hpaced : Paced log rounds) (hpoint : log.periodicPoint? = some point)
    (hunread : rounds.read.getLast? = none) :
    log.due now = Schedule.first log.config (rounds.came.headD now) := by
  rw [due, hpaced.due (by rw [hpoint]; rfl), Rounds.due?, hunread]
  cases rounds.came <;> rfl

/-- **Without alignment, the first round reads, and then any that comes an interval or more
after the last reading.** -/
theorem reads?_of_unaligned (hpaced : Paced log rounds)
    (hpoint : log.periodicPoint? = some point)
    (hchronological : Chronological (rounds.came ++ [now]))
    (haligned : log.config.aligned = false) :
    log.reads? now = some point ↔
      rounds.came = [] ∨ ∃ last, rounds.read.getLast? = some last ∧
        last.instant + log.config.seconds * nanosPerSecond ≤ now.instant := by
  have hplain : now.Plain := hchronological.2 now (List.mem_append_right _ List.mem_cons_self)
  rw [reads?_eq_some_iff hpoint]
  cases hlast : rounds.read.getLast? with
  | some last =>
      have hplainLast := hchronological.plain_last hpaced.sublist hlast
      have hcame : rounds.came ≠ [] :=
        List.ne_nil_of_mem (hpaced.sublist.subset (List.mem_of_getLast? hlast))
      rw [due_of_getLast? hpaced hpoint hlast, Schedule.following, haligned,
        if_neg Bool.false_ne_true, Reading.le_iff (Reading.plain_addSeconds hplainLast _) hplain,
        Reading.instant_addSeconds hplainLast]
      simp [hcame]
  | none =>
      have hread := List.getLast?_eq_none_iff.mp hlast
      have hcame := hpaced.prompt (by rw [hpoint]; rfl) haligned hread
      rw [due_of_unread hpaced hpoint hlast, hcame, Schedule.first, haligned,
        if_neg Bool.false_ne_true]
      exact iff_of_true (Reading.lt_irrefl now) (.inl rfl)

/-- **With alignment, a round reads if a grid point has come that is not covered yet.** -/
theorem reads?_of_aligned (hpaced : Paced log rounds) (hpoint : log.periodicPoint? = some point)
    (haligned : log.config.aligned = true) (hdivides : log.config.seconds ∣ daySeconds) :
    log.reads? now = some point ↔
      ∃ reading, Schedule.OnGrid log.config.seconds reading ∧ rounds.Uncovered now reading ∧
        reading ≤ now := by
  have hinterval : 0 < log.config.seconds :=
    Nat.lt_of_lt_of_le Nat.zero_lt_one (Nat.le_max_right _ _)
  rw [reads?_eq_some_iff hpoint]
  cases hlast : rounds.read.getLast? with
  | some last =>
      rw [due_of_getLast? hpaced hpoint hlast, Schedule.following, if_pos haligned]
      simp only [Rounds.uncovered_iff_of_last hlast]
      exact Schedule.boundary_le_iff hinterval hdivides last true now
  | none =>
      rw [due_of_unread hpaced hpoint hlast, Schedule.first, if_pos haligned]
      simp only [Rounds.uncovered_iff_of_unread hlast]
      exact Schedule.boundary_le_iff hinterval hdivides _ false now

end

/-! ### Cells of the grid -/

/-- Between two readings lies a grid point, and a round that comes after one, counted from the
first round, finds its cell of the grid read or reads it. -/
structure Even (interval : Nat) (rounds : Rounds) : Prop where
  once : rounds.read.Pairwise fun earlier later =>
    ∃ reading, Schedule.OnGrid interval reading ∧ earlier < reading ∧ reading ≤ later
  complete : ∀ first ∈ rounds.came.head?, ∀ time ∈ rounds.came,
    (∃ reading, Schedule.OnGrid interval reading ∧ first ≤ reading ∧ reading ≤ time) →
      ∃ last ∈ rounds.read, last ≤ time ∧
        ∀ reading, Schedule.OnGrid interval reading → last < reading → ¬ reading ≤ time

theorem even_fresh (interval : Nat) : Even interval .fresh :=
  ⟨.nil, fun _ hfirst => absurd hfirst (Option.not_mem_none _)⟩

theorem le_getLast {times : List Reading} {last time : Reading}
    (hsorted : times.Pairwise (· ≤ ·)) (hlast : times.getLast? = some last) (htime : time ∈ times) :
    time ≤ last := by
  obtain ⟨earlier, rfl⟩ := List.getLast?_eq_some_iff.mp hlast
  rcases List.mem_append.mp htime with hearlier | hsame
  · exact (List.pairwise_append.mp hsorted).2.2 time hearlier last List.mem_cons_self
  · rw [List.mem_singleton.mp hsame]
    exact Reading.lt_irrefl last

section

variable {log : TrendLog} {rounds : Rounds} {now : Reading} (hpaced : Paced log rounds)
  (hchronological : Chronological (rounds.came ++ [now]))

include hpaced hchronological

/-- What is not covered comes after every reading, not only after the last. -/
theorem lt_of_uncovered {earlier time : Reading} (hearlier : earlier ∈ rounds.read)
    (hplain : time.Plain) (huncovered : rounds.Uncovered now time) : earlier < time := by
  have hsorted := (List.pairwise_append.mp hchronological.1).1.sublist hpaced.sublist
  cases hlast : rounds.read.getLast? with
  | none =>
      rw [List.getLast?_eq_none_iff.mp hlast] at hearlier
      cases hearlier
  | some last =>
      have hplainLast := hchronological.plain_last hpaced.sublist hlast
      have hplainEarlier : earlier.Plain :=
        hchronological.2 _ (List.mem_append_left _ (hpaced.sublist.subset hearlier))
      have hbefore := le_getLast hsorted hlast hearlier
      have hafter := (Rounds.uncovered_iff_of_last hlast).mp huncovered
      rw [Reading.le_iff hplainEarlier hplainLast] at hbefore
      rw [Reading.lt_iff hplainLast hplain] at hafter
      rw [Reading.lt_iff hplainEarlier hplain]
      exact Int.lt_of_le_of_lt hbefore hafter

/-- If nothing in the grid is uncovered, the cell of `now` has been read, unless no grid point has
come since the first round. -/
theorem exists_read_of_covered {interval : Nat} {first : Reading}
    (hfirst : rounds.came.headD now = first)
    (hcovered : ¬ ∃ reading, Schedule.OnGrid interval reading ∧ rounds.Uncovered now reading ∧
      reading ≤ now)
    (hpassed : ∃ reading, Schedule.OnGrid interval reading ∧ first ≤ reading ∧ reading ≤ now) :
    ∃ last ∈ rounds.read, last ≤ now ∧
      ∀ reading, Schedule.OnGrid interval reading → last < reading → ¬ reading ≤ now := by
  obtain ⟨reading, hgrid, hfrom, hto⟩ := hpassed
  cases hlast : rounds.read.getLast? with
  | none =>
      rw [← hfirst, ← Rounds.uncovered_iff_of_unread hlast] at hfrom
      exact absurd ⟨reading, hgrid, hfrom, hto⟩ hcovered
  | some last =>
      have hmem := List.mem_of_getLast? hlast
      refine ⟨last, hmem, ?_, fun other hother hlt hle => ?_⟩
      · exact (List.pairwise_append.mp hchronological.1).2.2 last (hpaced.sublist.subset hmem) now
          List.mem_cons_self
      · exact hcovered ⟨other, hother, (Rounds.uncovered_iff_of_last hlast).mpr hlt, hle⟩

/-- **A round keeps the readings even.** -/
theorem Even.sample (hsome : log.periodicPoint?.isSome) (haligned : log.config.aligned = true)
    (hdivides : log.config.seconds ∣ daySeconds) (heven : Even log.config.seconds rounds)
    (read : PointRef → Option Sample) :
    Even log.config.seconds (rounds.extend log (.sample now read)) := by
  obtain ⟨point, hpoint⟩ := Option.isSome_iff_exists.mp hsome
  have hreads : log.reads? now = some point ↔ _ :=
    reads?_of_aligned hpaced hpoint haligned hdivides
  rw [reads?_eq_some_iff hpoint, ← Reading.not_lt, ← isSome_reads? hpoint] at hreads
  refine ⟨List.pairwise_append.mpr ⟨heven.once, by split <;> simp, ?_⟩, ?_⟩
  · -- Between two readings lies a point of the grid that the earlier one does not cover.
    intro earlier hearlier later hlater
    split at hlater
    · rename_i hsomeRead
      obtain rfl := List.mem_singleton.mp hlater
      obtain ⟨reading, hgrid, huncovered, hle⟩ := hreads.mp hsomeRead
      have hlt := lt_of_uncovered hpaced hchronological hearlier hgrid.plain huncovered
      exact ⟨reading, hgrid, hlt, hle⟩
    · cases hlater
  · -- Once a point of the grid has passed there is a reading that covers it: from before this
    -- round, from this round, or, if nothing is read now, from before because nothing is due.
    intro first hfirst time htime hpassed
    have hheadD : rounds.came.headD now = first := by
      cases hcame : rounds.came with
      | nil => simpa [Rounds.extend, hcame] using hfirst
      | cons head rest => simpa [Rounds.extend, hcame] using hfirst
    rcases List.mem_append.mp htime with hold | hnew
    · have hhead : first ∈ rounds.came.head? := by
        cases hcame : rounds.came with
        | nil => rw [hcame] at hold; cases hold
        | cons head rest => simpa [hcame] using hheadD
      obtain ⟨last, hlast, hcovers⟩ := heven.complete first hhead time hold hpassed
      exact ⟨last, List.mem_append_left _ hlast, hcovers⟩
    · obtain rfl := List.mem_singleton.mp hnew
      by_cases hsomeRead : (log.reads? time).isSome
      · refine ⟨time, ?_, Reading.lt_irrefl time, fun reading _ hlt => not_not.mpr hlt⟩
        exact List.mem_append_right _ (by simp [hsomeRead])
      · obtain ⟨last, hlast, hcovers⟩ :=
          exists_read_of_covered hpaced hchronological hheadD (mt hreads.mpr hsomeRead) hpassed
        exact ⟨last, List.mem_append_left _ hlast, hcovers⟩

end

theorem even_run {log : TrendLog} (hnone : log.nextDue = none)
    (haligned : log.config.aligned = true) (hdivides : log.config.seconds ∣ daySeconds)
    {steps : List Step} (hsome : (log.run steps).periodicPoint?.isSome)
    (hchronological : Chronological (log.rounds steps).came) :
    Even log.config.seconds (log.rounds steps) := by
  -- Induction on the end of the run, since a step decides from the rounds before it whether to
  -- read.
  induction steps using List.reverseRecOn with
  | nil => exact even_fresh _
  | append_singleton earlier taken ih =>
      have hpaced := paced_run hnone earlier
      have hconfig := config_run log earlier
      rw [rounds_append] at hchronological ⊢
      rw [run_append] at hsome
      cases taken with
      | switch enable now =>
          unfold Rounds.extend at hchronological ⊢
          simp only at hchronological ⊢
          split
          · rename_i hsame
            rw [if_pos hsame] at hchronological
            refine ih ?_ hchronological
            have hkept : (log.run earlier).run [.switch enable now] = log.run earlier :=
              if_pos hsame
            rwa [hkept] at hsome
          · exact even_fresh _
      | clear => exact even_fresh _
      | record sample now =>
          refine ih ?_ hchronological
          rwa [← periodicPoint?_congr ((log.run earlier).grows_record sample now).config
            ((log.run earlier).running_record sample now)]
      | observe point sample now =>
          refine ih ?_ hchronological
          rwa [← periodicPoint?_congr ((log.run earlier).grows_observe point sample now).config
            ((log.run earlier).running_observe sample point now)]
      | sample now read =>
          -- A round: it leaves the log with its point, and the rounds before it were in order as
          -- well.
          have hbefore : (log.run earlier).periodicPoint?.isSome := by
            rwa [← periodicPoint?_congr ((log.run earlier).grows_sample now read).config
              ((log.run earlier).running_sample now read)]
          have hearlier : Chronological (log.rounds earlier).came :=
            ⟨(List.pairwise_append.mp hchronological.1).1,
              fun time htime => hchronological.2 time (List.mem_append_left _ htime)⟩
          rw [← hconfig] at haligned hdivides ⊢
          refine Even.sample hpaced hchronological hbefore haligned hdivides ?_ read
          rw [hconfig]
          exact ih hbefore hearlier

/-! ### The whole schedule -/

/-- A round asks for the value of the point that it reads, and for no other. -/
theorem sample_congr {log : TrendLog} {now : Reading} {read other : PointRef → Option Sample}
    (hsame : ∀ point, log.reads? now = some point → read point = other point) :
    log.sample now read = log.sample now other := by
  cases hpoint : log.periodicPoint? with
  | none => simp [sample, hpoint]
  | some point =>
      by_cases hearly : now < log.due now
      · simp [sample, hpoint, hearly]
      · have hread := hsame point ((reads?_eq_some_iff hpoint now).mpr hearly)
        simp only [sample, hpoint, if_neg hearly, hread]

theorem sample_of_reads? {log : TrendLog} {now : Reading} {read : PointRef → Option Sample}
    {point : PointRef} {value : Sample} (hreads : log.reads? now = some point)
    (hvalue : read point = some value) :
    (log.sample now read).1.ring = (log.record value now).1.ring ∧
      (log.sample now read).2 = (log.record value now).2 := by
  unfold reads? at hreads
  split at hreads
  · cases hreads
  · rename_i hdue
    simp [sample, hreads, hdue, hvalue]

/-- What a round at `now` does to a running periodic log, from the rounds before it. -/
structure Scheduled (log : TrendLog) (rounds : Rounds) (point : PointRef) (now : Reading) :
    Prop where
  unaligned : log.config.aligned = false →
    (log.reads? now = some point ↔
      rounds.came = [] ∨ ∃ last, rounds.read.getLast? = some last ∧
        last.instant + log.config.seconds * nanosPerSecond ≤ now.instant)
  aligned : log.config.aligned = true → log.config.seconds ∣ daySeconds →
    (log.reads? now = some point ↔
      ∃ reading, Schedule.OnGrid log.config.seconds reading ∧ rounds.Uncovered now reading ∧
        reading ≤ now)
  even : log.config.aligned = true → log.config.seconds ∣ daySeconds →
    Even log.config.seconds rounds
  /-- The value of a point makes a difference only if it is read. -/
  asks : ∀ read other : PointRef → Option Sample,
    (log.reads? now = some point → read point = other point) →
      log.sample now read = log.sample now other
  /-- What is read is recorded like any sample. -/
  takes : ∀ (read : PointRef → Option Sample) value, log.reads? now = some point →
    read point = some value →
      (log.sample now read).1.ring = (log.record value now).1.ring ∧
        (log.sample now read).2 = (log.record value now).2

theorem scheduled_run {config : LogConfig} {steps : List Step} {log : TrendLog}
    (hlog : log = (ofConfig config).run steps) {point : PointRef}
    (hpoint : log.periodicPoint? = some point) {now : Reading}
    (hchronological : Chronological (((ofConfig config).rounds steps).came ++ [now])) :
    Scheduled log ((ofConfig config).rounds steps) point now := by
  subst hlog
  have hpaced : Paced ((ofConfig config).run steps) ((ofConfig config).rounds steps) :=
    paced_run rfl steps
  have hconfig : ((ofConfig config).run steps).config = config := config_run _ steps
  have hcame : Chronological ((ofConfig config).rounds steps).came :=
    ⟨(List.pairwise_append.mp hchronological.1).1,
      fun time htime => hchronological.2 time (List.mem_append_left _ htime)⟩
  refine ⟨reads?_of_unaligned hpaced hpoint hchronological,
    reads?_of_aligned hpaced hpoint, fun haligned hdivides => ?_, ?_,
    fun _ _ => sample_of_reads?⟩
  · rw [hconfig] at haligned hdivides ⊢
    exact even_run rfl haligned hdivides (by rw [hpoint]; rfl) hcame
  · -- Only the point that is due is asked for a sample, so nothing else that `read` tells can
    -- matter.
    intro read other hsame
    refine sample_congr fun asked hasked => ?_
    have hsamePoint : asked = point := by
      unfold reads? at hasked
      split at hasked
      · cases hasked
      · exact Option.some.inj (hasked.symm.trans hpoint)
    rw [hsamePoint] at hasked ⊢
    exact hsame hasked

end TrendLog

namespace Archive

/-- **Every log of every archive is sampled on schedule**: which rounds read its point follows
from their times since the log was added, cleared or last switched.  And with points that answer
the same however often they are asked, it lives as if it were alone. -/
theorem scheduled_replay {operations : List Operation} {log : TrendLog}
    (hlog : log ∈ (replay operations).1.logs) {point : PointRef}
    (hpoint : log.periodicPoint? = some point) {now : Reading}
    (hchronological : TrendLog.Chronological
      (((TrendLog.ofConfig log.config).rounds (life log.number operations)).came ++ [now])) :
    TrendLog.Scheduled log ((TrendLog.ofConfig log.config).rounds (life log.number operations))
        point now ∧
      ∀ more : List Operation, (∀ operation ∈ more, operation.Steady) →
        (∀ operation ∈ more, ¬ operation.Ends log.number) →
        (more.foldl perform (replay operations).1).get? log.number =
          (more.foldl perform ⟨[log]⟩).get? log.number := by
  have hfound := get?_of_mem hlog
  refine ⟨TrendLog.scheduled_run (eq_run_life hfound) hpoint hchronological, ?_⟩
  intro more hsteady hstays
  exact get?_foldl_congr hfound (find?_cons_self rfl []) hsteady hstays

/-- Every ten minutes a point is read that is not available: a round before ten past ten comes
too early, one at twelve past ten reads, and one at twenty past ten will read again. -/
theorem scheduled_replay_late :
    let config : LogConfig :=
      { LogConfig.of 1 "flow" with interval := 600, point := some ⟨.analogValue, 1⟩ }
    let date : CalendarDate := ⟨2025, 5, 6, by decide⟩
    let early : Reading := ⟨date, 36180, 500000000, by decide, by decide⟩
    let late : Reading := ⟨date, 36720, 0, by decide, by decide⟩
    let now : Reading := ⟨date, 37200, 0, by decide, by decide⟩
    let operations : List Operation :=
      [.add config, .samplePeriodic early fun _ _ => none, .samplePeriodic late fun _ _ => none]
    let rounds := (TrendLog.ofConfig config).rounds (life 1 operations)
    rounds.came = [early, late] ∧ rounds.read = [late] ∧
      ∃ log ∈ (replay operations).1.logs,
        log.reads? now = some ⟨.analogValue, 1⟩ ∧
        TrendLog.Scheduled log rounds ⟨.analogValue, 1⟩ now := by
  intro config date early late now operations rounds
  have hcame : rounds.came = [early, late] := by decide +kernel
  have hchronological : TrendLog.Chronological (rounds.came ++ [now]) := by
    rw [hcame]
    exact ⟨by decide, by decide⟩
  obtain ⟨log, hlog, hconfig, hpoint, hreads⟩ : ∃ log ∈ (replay operations).1.logs,
      log.config = config ∧ log.periodicPoint? = some ⟨.analogValue, 1⟩ ∧
      log.reads? now = some ⟨.analogValue, 1⟩ :=
    ⟨_, List.mem_cons_self, TrendLog.config_run (.ofConfig config)
      [.sample early fun _ => none, .sample late fun _ => none], by decide +kernel,
      by decide +kernel⟩
  have hnumber : log.number = 1 := congrArg LogConfig.number hconfig
  have hrounds : (TrendLog.ofConfig log.config).rounds (life log.number operations) = rounds := by
    rw [hconfig, hnumber]
  have hscheduled := (scheduled_replay hlog hpoint (hrounds ▸ hchronological)).1
  rw [hrounds] at hscheduled
  exact ⟨hcame, by decide +kernel, log, hlog, hreads, hscheduled⟩

end Archive

end Historian
