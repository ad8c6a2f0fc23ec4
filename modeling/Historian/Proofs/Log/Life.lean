import Historian.Proofs.Log.Roster
import Mathlib.Data.List.Induction

/-!
# The life of a log

A run of operations on an archive is, for each log in it, a run of steps of that log: the
operations that name it, and its turns in the rounds and observations that go to all logs
(`Archive.steps`).  Written down from the moment the log is added, these are its life
(`Archive.life`), and the log is what its configuration and its life make of it
(`Archive.eq_run_life`).  What is proved of a log and its steps therefore holds of every log
of every archive.

A round of sampling asks the points of the logs in front first.  That is the only way in which
other logs can be felt: with points that answer the same however often they are asked, a log
lives as if it were alone (`Archive.get?_foldl_congr`).
-/

namespace Historian

/-! ## Steps of one log -/

namespace TrendLog

/-- What is done to a log that is there. -/
inductive Step where
  | switch (enable : Bool) (now : Reading)
  | clear
  | record (sample : Sample) (now : Reading)
  | sample (now : Reading) (read : PointRef → Option Sample)
  | observe (point : PointRef) (sample : Sample) (now : Reading)

/-- The log after a step. -/
def step (log : TrendLog) : Step → TrendLog
  | .switch enable now => log.switch enable now
  | .clear => log.clear
  | .record sample now => (log.record sample now).1
  | .sample now read => (log.sample now read).1
  | .observe point sample now => (log.observe point sample now).1

def run (log : TrendLog) (steps : List Step) : TrendLog := steps.foldl step log

theorem run_append (log : TrendLog) (steps more : List Step) :
    log.run (steps ++ more) = (log.run steps).run more :=
  List.foldl_append

theorem grows_step (log : TrendLog) (taken : Step) : Grows log (log.step taken) := by
  cases taken with
  | switch enable now => exact log.grows_switch enable now
  | clear => exact log.grows_clear
  | record sample now => exact log.grows_record sample now
  | sample now read => exact log.grows_sample now read
  | observe point sample now => exact log.grows_observe point sample now

theorem grows_run (log : TrendLog) (steps : List Step) : Grows log (log.run steps) := by
  induction steps generalizing log with
  | nil => exact .refl log
  | cons taken rest ih => exact (log.grows_step taken).trans (ih (log.step taken))

theorem config_run (log : TrendLog) (steps : List Step) : (log.run steps).config = log.config :=
  (log.grows_run steps).config

/-! ### What steps do to the switch and the due time -/

section

variable (log : TrendLog) (stored : LogRecord) (sample : Sample) (point : PointRef) (now : Reading)
  (read : PointRef → Option Sample)

@[simp] theorem running_append : (log.append stored).1.running = log.running := by
  unfold append
  split <;> rfl

@[simp] theorem nextDue_append : (log.append stored).1.nextDue = log.nextDue := by
  unfold append
  split <;> rfl

@[simp] theorem running_record : (log.record sample now).1.running = log.running := by
  rw [record_eq]
  split <;> rfl

@[simp] theorem nextDue_record : (log.record sample now).1.nextDue = log.nextDue := by
  rw [record_eq]
  split <;> rfl

@[simp] theorem running_observe : (log.observe point sample now).1.running = log.running := by
  obtain heq | heq := log.observe_cases point sample now
  · rw [heq]
  · rw [heq, running_record]

@[simp] theorem nextDue_observe : (log.observe point sample now).1.nextDue = log.nextDue := by
  obtain heq | heq := log.observe_cases point sample now
  · rw [heq]
  · rw [heq, nextDue_record]

@[simp] theorem running_sample : (log.sample now read).1.running = log.running := by
  obtain ⟨nextDue, heq⟩ | ⟨value, nextDue, heq⟩ := log.sample_cases now read
  · rw [heq]
  · rw [heq]
    exact log.running_record value now

@[simp] theorem running_switch (enable : Bool) : (log.switch enable now).running = enable := by
  unfold switch
  split
  · assumption
  · exact running_append _ _

end

theorem Grows.number {log changed : TrendLog} (hgrows : Grows log changed) :
    changed.number = log.number :=
  congrArg LogConfig.number hgrows.config

end TrendLog

namespace Archive

open TrendLog (Step)

/-- The number of points that a round has asked when it comes to the log with a number. -/
def callsBefore (number : UInt32) (now : Reading) : (calls : Nat) → List TrendLog → Nat
  | calls, [] => calls
  | calls, log :: rest =>
      if log.number = number then calls
      else callsBefore number now (if (log.reads? now).isSome then calls + 1 else calls) rest

/-- The steps of the log with a number in an operation. -/
def steps (archive : Archive) (number : UInt32) : Operation → List Step
  | .switch target enable now => if target = number then [.switch enable now] else []
  | .clear target => if target = number then [.clear] else []
  | .record target sample now => if target = number then [.record sample now] else []
  | .samplePeriodic now read => [.sample now (read (callsBefore number now 0 archive.logs))]
  | .observe point sample now => [.observe point sample now]
  | .add _ | .load _ | .remove _ | .clearAll => []

/-- An operation takes out the log with a number. -/
def Operation.Ends (number : UInt32) : Operation → Prop
  | .remove target => target = number
  | .clearAll => True
  | _ => False

/-- An operation can make the log with a number take a step. -/
inductive Operation.Gives (number : UInt32) : Operation → Step → Prop
  | switch (enable : Bool) (now : Reading) :
      Gives number (.switch number enable now) (.switch enable now)
  | clear : Gives number (.clear number) .clear
  | record (sample : Sample) (now : Reading) :
      Gives number (.record number sample now) (.record sample now)
  | sample (now : Reading) (read : Nat → PointRef → Option Sample) (calls : Nat) :
      Gives number (.samplePeriodic now read) (.sample now (read calls))
  | observe (point : PointRef) (sample : Sample) (now : Reading) :
      Gives number (.observe point sample now) (.observe point sample now)

/-- An operation makes a log take one step or none. -/
theorem steps_cases (archive : Archive) (number : UInt32) (operation : Operation) :
    archive.steps number operation = [] ∨
      ∃ taken, operation.Gives number taken ∧ archive.steps number operation = [taken] := by
  cases operation with
  | switch target enable now =>
      by_cases hsame : target = number
      · subst hsame
        exact .inr ⟨_, .switch enable now, if_pos rfl⟩
      · exact .inl (if_neg hsame)
  | clear target =>
      by_cases hsame : target = number
      · subst hsame
        exact .inr ⟨_, .clear, if_pos rfl⟩
      · exact .inl (if_neg hsame)
  | record target sample now =>
      by_cases hsame : target = number
      · subst hsame
        exact .inr ⟨_, .record sample now, if_pos rfl⟩
      · exact .inl (if_neg hsame)
  | samplePeriodic now read => exact .inr ⟨_, .sample now read _, rfl⟩
  | observe point sample now => exact .inr ⟨_, .observe point sample now, rfl⟩
  | add | load | remove | clearAll => exact .inl rfl

/-! ## Finding a log after an operation -/

section

variable {archive : Archive} {number : UInt32} {log : TrendLog}

theorem find?_cons_self {first : TrendLog} (hfirst : first.number = number)
    (rest : List TrendLog) :
    (first :: rest).find? (fun log => log.number = number) = some first :=
  List.find?_cons_of_pos (by exact decide_eq_true hfirst)

theorem find?_cons_other {first : TrendLog} (hfirst : first.number ≠ number)
    (rest : List TrendLog) :
    (first :: rest).find? (fun log => log.number = number) =
      rest.find? fun log => log.number = number :=
  List.find?_cons_of_neg (by simpa using hfirst)

theorem get?_add_of_some {added : Archive} {config : LogConfig}
    (hadd : archive.add config = .ok added) (hlog : archive.get? number = some log) :
    added.get? number = some log := by
  obtain ⟨-, rfl⟩ := add_eq_ok_iff.mp hadd
  unfold get? at hlog ⊢
  rw [List.find?_append, hlog, Option.some_or]

theorem get?_addEach_of_some (hlog : archive.get? number = some log) (configs : List LogConfig) :
    (archive.addEach configs).get? number = some log := by
  induction configs generalizing archive with
  | nil => exact hlog
  | cons config rest ih =>
      unfold addEach
      split
      · rename_i added hadd
        exact ih (get?_add_of_some hadd hlog)
      · exact ih hlog

/-- A log that was not there before is as it was set up. -/
theorem get?_addEach_of_none (hnone : archive.get? number = none) {configs : List LogConfig}
    (hlog : (archive.addEach configs).get? number = some log) :
    log = TrendLog.ofConfig log.config := by
  induction configs generalizing archive with
  | nil =>
      rw [addEach, hnone] at hlog
      cases hlog
  | cons config rest ih =>
      unfold addEach at hlog
      split at hlog
      · rename_i added hadd
        obtain ⟨-, rfl⟩ := add_eq_ok_iff.mp hadd
        -- Once the number is taken, no later addition brings up another log under it.
        by_cases hnumber : (TrendLog.ofConfig config).number = number
        · have hadded : Archive.get? ⟨archive.logs ++ [TrendLog.ofConfig config]⟩ number =
              some (TrendLog.ofConfig config) := by
            unfold get? at hnone ⊢
            rw [List.find?_append, hnone, Option.none_or]
            exact find?_cons_self hnumber []
          rw [get?_addEach_of_some hadded] at hlog
          cases hlog
          rfl
        · refine ih ?_ hlog
          unfold get? at hnone ⊢
          rw [List.find?_append, hnone, Option.none_or]
          exact find?_cons_other hnumber []
      · exact ih hnone hlog

theorem find?_replace_self {changed : TrendLog} (hnumber : changed.number = number)
    {logs : List TrendLog} (hlog : logs.find? (fun log => log.number = number) = some log) :
    (replace number changed logs).find? (fun log => log.number = number) = some changed := by
  induction logs with
  | nil => cases hlog
  | cons first rest ih =>
      by_cases hfirst : first.number = number
      · rw [replace, if_pos hfirst, find?_cons_self hnumber]
      · rw [find?_cons_other hfirst] at hlog
        rw [replace, if_neg hfirst, find?_cons_other hfirst, ih hlog]

theorem find?_replace_other {target : UInt32} {changed : TrendLog} (hother : target ≠ number)
    (hnumber : changed.number = target) (logs : List TrendLog) :
    (replace target changed logs).find? (fun log => log.number = number) =
      logs.find? fun log => log.number = number := by
  induction logs with
  | nil => rfl
  | cons first rest ih =>
      by_cases hfirst : first.number = target
      · simp [replace, hfirst, hnumber, hother]
      · rw [replace, if_neg hfirst, List.find?_cons, List.find?_cons, ih]

/-- A change of the log with a number is found under this number and no other. -/
theorem get?_modify {α : Type} {target : UInt32} {change : TrendLog → TrendLog × α}
    (hchange : ∀ log, TrendLog.Grows log (change log).1) {operation : Operation}
    (hattempt : archive.attempt operation = (archive.modify target change).map Prod.fst)
    (hlog : archive.get? number = some log) :
    (archive.perform operation).get? number =
      some (if target = number then (change log).1 else log) := by
  cases htarget : archive.get? target with
  | none =>
      -- The target is missing and our log is not, so another one was meant: the operation fails and
      -- changes nothing.
      have hother : target ≠ number := by
        rintro rfl
        rw [htarget] at hlog
        cases hlog
      have herror : archive.attempt operation = .error (.unknown target) := by
        rw [hattempt, modify, htarget]
        rfl
      rw [perform_of_error herror, hlog, if_neg hother]
  | some first =>
      have hok : archive.attempt operation =
          .ok ⟨replace target (change first).1 archive.logs⟩ := by
        rw [hattempt, modify, htarget]
        rfl
      have hnumber : (change first).1.number = target :=
        (hchange first).number.trans (of_get?_eq_some htarget).2
      rw [perform_of_ok hok]
      -- The changed log keeps its number.  It is found in the place of the old one, and passed over
      -- by a search for any other number.
      by_cases hsame : target = number
      · subst hsame
        rw [htarget] at hlog
        cases hlog
        rw [if_pos rfl]
        exact find?_replace_self hnumber htarget
      · rw [if_neg hsame]
        exact (find?_replace_other hsame hnumber archive.logs).trans hlog

theorem find?_eraseP_other {target : UInt32} (hother : target ≠ number) (logs : List TrendLog) :
    (logs.eraseP fun log => log.number = target).find? (fun log => log.number = number) =
      logs.find? fun log => log.number = number := by
  induction logs with
  | nil => rfl
  | cons first rest ih =>
      by_cases hfirst : first.number = target
      · have hskips : first.number ≠ number := hfirst.trans_ne hother
        rw [List.eraseP_cons_of_pos (by simp [hfirst]), find?_cons_other hskips]
      · rw [List.eraseP_cons_of_neg (by simpa using hfirst), List.find?_cons, List.find?_cons, ih]

theorem find?_map_of_grows {change : TrendLog → TrendLog}
    (hchange : ∀ log, TrendLog.Grows log (change log)) (logs : List TrendLog) :
    (logs.map change).find? (fun log => log.number = number) =
      (logs.find? fun log => log.number = number).map change := by
  rw [List.find?_map]
  congr 2
  funext log
  simp [(hchange log).number]

/-- In a round a log is sampled with the points as they answer once those in front of it have
been asked. -/
theorem find?_sampleEach {now : Reading} {read : Nat → PointRef → Option Sample} {calls : Nat}
    {logs : List TrendLog} (hlog : logs.find? (fun log => log.number = number) = some log) :
    (sampleEach now read calls logs).find? (fun log => log.number = number) =
      some (log.sample now (read (callsBefore number now calls logs))).1 := by
  induction logs generalizing calls with
  | nil => cases hlog
  | cons first rest ih =>
      have hsampled : (first.sample now (read calls)).1.number = first.number :=
        (first.grows_sample now (read calls)).number
      by_cases hfirst : first.number = number
      · rw [find?_cons_self hfirst] at hlog
        cases hlog
        rw [sampleEach, callsBefore, if_pos hfirst, find?_cons_self (hsampled.trans hfirst)]
      · rw [find?_cons_other hfirst] at hlog
        rw [sampleEach, callsBefore, if_neg hfirst, find?_cons_other (hsampled.trans_ne hfirst),
          ih hlog]

/-- **An operation does to a log what the steps of the log say**, if it leaves the log there. -/
theorem get?_perform_of_some (hlog : archive.get? number = some log) {operation : Operation}
    (hstays : ¬ operation.Ends number) :
    (archive.perform operation).get? number = some (log.run (archive.steps number operation)) := by
  -- Where the log stays the first with its number, the archive after the operation has it as one
  -- step has made it, or as it was.
  cases operation with
  | add config =>
      -- Additions come behind the logs that are there and do not hide them.
      rw [perform_add]
      exact get?_addEach_of_some hlog [config]
  | load entries =>
      have hload : archive.perform (.load entries) = _ := load_eq_addEach archive entries
      rw [hload]
      exact get?_addEach_of_some hlog _
  | remove target =>
      -- Removing the log itself is ruled out; another log is removed, or none is found.
      cases htarget : archive.get? target with
      | none =>
          have herror : archive.attempt (.remove target) = .error (.unknown target) := by
            simp [attempt, Archive.remove, htarget, Except.map]
          rw [perform_of_error herror, hlog]
          rfl
      | some other =>
          have hok : archive.attempt (.remove target) =
              .ok ⟨archive.logs.eraseP fun log => log.number = target⟩ := by
            simp [attempt, Archive.remove, htarget, Except.map]
          rw [perform_of_ok hok]
          exact (find?_eraseP_other hstays archive.logs).trans hlog
  | clearAll => exact absurd trivial hstays
  | switch target enable now =>
      -- The next three are operations on one log: a step of ours if it is the target, none
      -- otherwise.
      rw [get?_modify (fun log => log.grows_switch enable now) rfl hlog, steps]
      split <;> rfl
  | clear target =>
      rw [get?_modify (fun log => log.grows_clear) rfl hlog, steps]
      split <;> rfl
  | record target sample now =>
      rw [get?_modify (fun log => log.grows_record sample now) rfl hlog, steps]
      split <;> rfl
  | samplePeriodic now read => exact find?_sampleEach hlog
  | observe point sample now =>
      -- Every log may take a step here.  None changes its number, so the search stops at the same
      -- place.
      have hall : (archive.perform (.observe point sample now)).logs =
          archive.logs.map fun log => (log.observe point sample now).1 := by
        simp [perform, attempt, Archive.observe, forEach]
      unfold get? at hlog ⊢
      rw [hall, find?_map_of_grows (fun log => log.grows_observe point sample now), hlog]
      rfl

/-- No operation but an addition brings up a log that was not there. -/
theorem get?_perform_of_none (hnone : archive.get? number = none) {operation : Operation}
    (hlog : (archive.perform operation).get? number = some log) :
    log = TrendLog.ofConfig log.config := by
  -- An operation that keeps the numbers cannot bring up a new one.  This leaves additions and
  -- removals.
  by_cases hkeeps : operation.Keeps
  · have hgrows : Grows archive (archive.perform operation) := grows_perform hkeeps
    have hsame := hgrows.configs
    rw [get?_eq_none_iff, numbers_eq, ← hsame, ← numbers_eq, ← get?_eq_none_iff, hlog] at hnone
    cases hnone
  cases operation with
  | add config =>
      rw [perform_add] at hlog
      exact get?_addEach_of_none hnone hlog
  | load entries =>
      have hload : archive.perform (.load entries) = _ := load_eq_addEach archive entries
      rw [hload] at hlog
      exact get?_addEach_of_none hnone hlog
  | remove target =>
      cases hattempt : archive.attempt (.remove target) with
      | error error =>
          rw [perform_of_error hattempt, hnone] at hlog
          cases hlog
      | ok rest =>
          obtain ⟨removed, hremove⟩ := exists_of_map_fst_eq_ok hattempt
          obtain rfl := of_remove_eq_ok hremove
          rw [perform_of_ok hattempt] at hlog
          -- Whatever is left after a removal was there before it, under the same number.
          have hmem := (of_get?_eq_some hlog).1
          have hold := List.mem_map_of_mem (f := TrendLog.number) (List.mem_of_mem_eraseP hmem)
          rw [(of_get?_eq_some hlog).2] at hold
          exact absurd hold (get?_eq_none_iff.mp hnone)
  | clearAll => cases hlog
  | switch | clear | record | samplePeriodic | observe => exact absurd trivial hkeeps

/-- What is taken out is gone. -/
theorem get?_perform_of_ends (hdistinct : (archive.logs.map TrendLog.number).Nodup)
    {operation : Operation} (hends : operation.Ends number) :
    (archive.perform operation).get? number = none := by
  cases operation with
  | remove target =>
      obtain rfl : target = number := hends
      cases hattempt : archive.attempt (.remove target) with
      | error error =>
          rw [perform_of_error hattempt]
          cases htarget : archive.get? target with
          | none => rfl
          | some log => simp [attempt, Archive.remove, htarget, Except.map] at hattempt
      | ok rest =>
          obtain ⟨removed, hremove⟩ := exists_of_map_fst_eq_ok hattempt
          obtain rfl := of_remove_eq_ok hremove
          rw [perform_of_ok hattempt, eraseP_eq_filter hdistinct]
          simp [get?]
  | clearAll => rfl
  | add | load | switch | clear | record | samplePeriodic | observe => exact hends.elim

end

/-! ## Lives -/

/-- An archive and the steps of the log with a number since it was added, after one more
operation.  A log that is not there has taken none. -/
def live (number : UInt32) (state : Archive × List Step) (operation : Operation) :
    Archive × List Step :=
  (state.1.perform operation,
    if (state.1.get? number).isSome then state.2 ++ state.1.steps number operation else [])

/-- The steps of the log with a number since it was added, in a run that starts without logs. -/
def life (number : UInt32) (operations : List Operation) : List Step :=
  (operations.foldl (live number) (empty, [])).2

theorem replay_append (operations : List Operation) (operation : Operation) :
    (replay (operations ++ [operation])).1 = (replay operations).1.perform operation := by
  simp [replay, advance]

theorem foldl_live (number : UInt32) (operations : List Operation) :
    (operations.foldl (live number) (empty, [])).1 = (replay operations).1 := by
  induction operations using List.reverseRecOn with
  | nil => rfl
  | append_singleton earlier operation ih =>
      rw [List.foldl_append, replay_append, ← ih]
      rfl

theorem life_append (number : UInt32) (operations : List Operation) (operation : Operation) :
    life number (operations ++ [operation]) =
      if ((replay operations).1.get? number).isSome then
        life number operations ++ (replay operations).1.steps number operation
      else [] := by
  rw [life, List.foldl_append, ← foldl_live number operations]
  rfl

/-- **A log is what its configuration and its life have made of it.** -/
theorem eq_run_life {operations : List Operation} {number : UInt32} {log : TrendLog}
    (hlog : (replay operations).1.get? number = some log) :
    log = (TrendLog.ofConfig log.config).run (life number operations) := by
  -- A life is written from its end, since only the last operation tells whether it goes on.
  induction operations using List.reverseRecOn generalizing log with
  | nil => cases hlog
  | append_singleton earlier operation ih =>
      rw [replay_append] at hlog
      rw [life_append]
      cases hbefore : (replay earlier).1.get? number with
      | none => exact get?_perform_of_none hbefore hlog
      | some before =>
          by_cases hends : operation.Ends number
          · rw [get?_perform_of_ends (follows_replay earlier).distinct hends] at hlog
            cases hlog
          · rw [get?_perform_of_some hbefore hends] at hlog
            cases hlog
            rw [TrendLog.config_run, if_pos (by rfl), TrendLog.run_append, ← ih hbefore]

theorem get?_of_mem {operations : List Operation} {log : TrendLog}
    (hlog : log ∈ (replay operations).1.logs) :
    (replay operations).1.get? log.number = some log :=
  (get?_eq_some_iff (follows_replay operations).distinct).mpr ⟨hlog, rfl⟩

/-- **Every step of a life is given by an operation of the run.** -/
theorem exists_gives_of_mem_life {number : UInt32} {operations : List Operation} {taken : Step}
    (htaken : taken ∈ life number operations) :
    ∃ operation ∈ operations, operation.Gives number taken := by
  induction operations using List.reverseRecOn with
  | nil => cases htaken
  | append_singleton earlier operation ih =>
      rw [life_append] at htaken
      split at htaken
      · rcases List.mem_append.mp htaken with hold | hnew
        · obtain ⟨done, hdone, hgives⟩ := ih hold
          exact ⟨done, List.mem_append_left _ hdone, hgives⟩
        · obtain hnone | ⟨given, hgives, hone⟩ :=
            (replay earlier).1.steps_cases number operation
          · rw [hnone] at hnew
            cases hnew
          · rw [hone, List.mem_singleton] at hnew
            subst hnew
            exact ⟨operation, List.mem_append_right _ List.mem_cons_self, hgives⟩
      · cases htaken

/-! ## Logs among others -/

/-- The points answer the same however often they are asked. -/
def Operation.Steady : Operation → Prop
  | .samplePeriodic _ read => ∀ calls, read calls = read 0
  | _ => True

theorem steps_congr {operation : Operation} (hsteady : operation.Steady) (number : UInt32)
    (archive other : Archive) : archive.steps number operation = other.steps number operation := by
  cases operation with
  | samplePeriodic now read =>
      have hsame : ∀ calls, read calls = read 0 := hsteady
      rw [steps, steps, hsame, hsame (callsBefore number now 0 other.logs)]
  | add | load | remove | clearAll | switch | clear | record | observe => rfl

/-- **With points that answer the same however often they are asked, the other logs of an
archive make no difference to a log.** -/
theorem get?_foldl_congr {number : UInt32} {archive other : Archive} {log : TrendLog}
    (hlog : archive.get? number = some log) (hother : other.get? number = some log)
    {operations : List Operation} (hsteady : ∀ operation ∈ operations, operation.Steady)
    (hstays : ∀ operation ∈ operations, ¬ operation.Ends number) :
    (operations.foldl perform archive).get? number =
      (operations.foldl perform other).get? number := by
  induction operations generalizing archive other log with
  | nil => exact hlog.trans hother.symm
  | cons operation rest ih =>
      obtain ⟨hsteadyFirst, hsteadyRest⟩ := List.forall_mem_cons.mp hsteady
      obtain ⟨hstaysFirst, hstaysRest⟩ := List.forall_mem_cons.mp hstays
      refine ih (get?_perform_of_some hlog hstaysFirst) ?_ hsteadyRest hstaysRest
      rw [steps_congr hsteadyFirst number archive other]
      exact get?_perform_of_some hother hstaysFirst

end Archive

end Historian
