import Historian.Log.Documents
import Historian.Proofs.Log.Archive
import Mathlib.Data.List.Nodup

/-!
# Which logs an archive holds

Whatever is done to an archive, one operation after another, it holds the logs that were
added and not taken out since, in the order in which they were added.  What counts as added
and as taken out is written down in a journal of events beside the archive
(`Archive.replay`), and which additions still stand is read off the journal alone
(`Archive.standing`).

The archive follows its journal (`Archive.Follows`); every operation keeps it so
(`Archive.Follows.advance`), and with it the limits on the number of logs, on their numbers
and on their buffers.  `Archive.sound_replay` gathers this for all runs.
-/

namespace Historian.Archive

/-! ## Operations -/

/-- One round of periodic sampling.  `read calls` is how the points answer once they have been
asked `calls` times in the round. -/
def sampleEach (now : Reading) (read : Nat → PointRef → Option Sample) :
    (calls : Nat) → List TrendLog → List TrendLog
  | _, [] => []
  | calls, log :: rest =>
      (log.sample now (read calls)).1 ::
        sampleEach now read (if (log.reads? now).isSome then calls + 1 else calls) rest

/-- Points that answer the same however often they are asked. -/
theorem logs_samplePeriodic (archive : Archive) (now : Reading)
    (read : PointRef → Option Sample) (calls : Nat) :
    (archive.samplePeriodic now read).1.logs =
      sampleEach now (fun _ => read) calls archive.logs := by
  simp only [samplePeriodic, forEach, List.map_map]
  induction archive.logs generalizing calls with
  | nil => rfl
  | cons log rest ih =>
      rw [sampleEach, ← ih, List.map_cons]
      rfl

/-- What can be done to an archive. -/
inductive Operation where
  | add (config : LogConfig)
  | load (entries : List Json)
  | remove (number : UInt32)
  | clearAll
  | switch (number : UInt32) (enable : Bool) (now : Reading)
  | clear (number : UInt32)
  | record (number : UInt32) (sample : Sample) (now : Reading)
  | samplePeriodic (now : Reading) (read : Nat → PointRef → Option Sample)
  | observe (point : PointRef) (sample : Sample) (now : Reading)

/-- The archive after an operation, or why it is not done.  A round of sampling is taken with
points that may answer anew each time; `logs_samplePeriodic` is the round with others. -/
def attempt (archive : Archive) : Operation → Except ArchiveError Archive
  | .add config => archive.add config
  | .load entries => .ok (archive.loadDocuments entries).1
  | .remove number => (archive.remove number).map Prod.fst
  | .clearAll => .ok archive.clearAll
  | .switch number enable now => archive.switch number enable now
  | .clear number => archive.clear number
  | .record number sample now => (archive.record number sample now).map Prod.fst
  | .samplePeriodic now read => .ok ⟨sampleEach now read 0 archive.logs⟩
  | .observe point sample now => .ok (archive.observe point sample now).1

/-- The archive that an operation leaves behind. -/
def perform (archive : Archive) (operation : Operation) : Archive :=
  match archive.attempt operation with
  | .ok changed => changed
  | .error _ => archive

namespace Operation

/-- The number of the log that an operation names. -/
def target? : Operation → Option UInt32
  | .add config => some config.number
  | .remove number | .switch number _ _ | .clear number | .record number _ _ => some number
  | .load _ | .clearAll | .samplePeriodic _ _ | .observe _ _ _ => none

/-- An operation takes no log in and none out. -/
def Keeps : Operation → Prop
  | .add _ | .load _ | .remove _ | .clearAll => False
  | .switch _ _ _ | .clear _ | .record _ _ _ | .samplePeriodic _ _ | .observe _ _ _ => True

end Operation

/-! ## The journal -/

/-- What has happened to an archive as a whole. -/
inductive Event where
  | added (config : LogConfig)
  | removed (number : UInt32)
  | cleared

/-- An event takes out the log with a number. -/
def Event.ends (number : UInt32) : Event → Bool
  | .added _ => false
  | .removed other => other = number
  | .cleared => true

/-- The configurations that were added and not taken out later, first added first. -/
def standing : List Event → List LogConfig
  | [] => []
  | .added config :: later =>
      if later.any (Event.ends config.number) then standing later else config :: standing later
  | .removed _ :: later => standing later
  | .cleared :: later => standing later

/-- The archive after all of some configurations have been offered. -/
def addEach (archive : Archive) : List LogConfig → Archive
  | [] => archive
  | config :: rest =>
      match archive.add config with
      | .ok added => addEach added rest
      | .error _ => addEach archive rest

/-- Those of them that are taken in. -/
def additions (archive : Archive) : List LogConfig → List Event
  | [] => []
  | config :: rest =>
      match archive.add config with
      | .ok added => .added config :: additions added rest
      | .error _ => additions archive rest

/-- What an operation writes into the journal. -/
def events (archive : Archive) : Operation → List Event
  | .add config => archive.additions [config]
  | .load entries => archive.additions (entries.filterMap LogConfig.ofJson?)
  | .remove number => if (archive.get? number).isSome then [.removed number] else []
  | .clearAll => [.cleared]
  | .switch _ _ _ | .clear _ | .record _ _ _ | .samplePeriodic _ _ | .observe _ _ _ => []

/-- An archive and its journal after one more operation. -/
def advance (state : Archive × List Event) (operation : Operation) : Archive × List Event :=
  (state.1.perform operation, state.2 ++ state.1.events operation)

/-- The archive and the journal after a run that starts without logs. -/
def replay (operations : List Operation) : Archive × List Event :=
  operations.foldl advance (empty, [])

/-! ### Reading the journal -/

section

variable (journal : List Event)

theorem standing_added (config : LogConfig) :
    standing (journal ++ [.added config]) = standing journal ++ [config] := by
  induction journal with
  | nil => rfl
  | cons first rest ih =>
      cases first with
      | added other =>
          simp only [List.cons_append, standing, ih, List.any_append, List.any_cons, List.any_nil,
            Event.ends, Bool.or_false]
          split <;> rfl
      | removed number => exact ih
      | cleared => exact ih

theorem standing_removed (number : UInt32) :
    standing (journal ++ [.removed number]) =
      (standing journal).filter fun config => config.number ≠ number := by
  induction journal with
  | nil => rfl
  | cons first rest ih =>
      cases first with
      | added config =>
          simp only [List.cons_append, standing, ih, List.any_append, List.any_cons, List.any_nil,
            Event.ends, Bool.or_false]
          cases rest.any (Event.ends config.number) with
          | true => simp
          | false =>
              by_cases hnumber : config.number = number
              · simp [hnumber]
              · simp [hnumber, Ne.symm hnumber]
      | removed number => exact ih
      | cleared => exact ih

/-- A log that is taken out and added again stands last. -/
example : standing [.added (.of 1 "first"), .added (.of 2 "second"), .removed 1,
    .added (.of 1 "third")] = [.of 2 "second", .of 1 "third"] := rfl

theorem standing_cleared : standing (journal ++ [.cleared]) = [] := by
  induction journal with
  | nil => rfl
  | cons first rest ih =>
      cases first with
      | added config => simp [standing, ih, Event.ends]
      | removed number => exact ih
      | cleared => exact ih

end

/-! ## The archive follows its journal -/

/-- An archive holds what stands in its journal: no more logs than are allowed, no two with one
number, all of them in use. -/
structure Follows (archive : Archive) (journal : List Event) : Prop where
  inUse : archive.InUse
  limited : archive.logs.length ≤ limit
  distinct : (archive.logs.map TrendLog.number).Nodup
  standing : archive.logs.map TrendLog.config = standing journal

theorem Grows.configs {archive changed : Archive} (hgrows : Grows archive changed) :
    changed.logs.map TrendLog.config = archive.logs.map TrendLog.config := by
  refine List.forall₂_eq_eq_eq ▸ List.forall₂_map_left_iff.mpr (List.forall₂_map_right_iff.mpr ?_)
  exact hgrows.flip.imp fun _ _ => TrendLog.Grows.config

theorem numbers_eq (archive : Archive) :
    archive.logs.map TrendLog.number =
      (archive.logs.map TrendLog.config).map LogConfig.number :=
  List.map_map.symm

/-- Where no two logs share a number, a log is found by its own. -/
theorem get?_eq_some_iff {archive : Archive}
    (hdistinct : (archive.logs.map TrendLog.number).Nodup) {number : UInt32} {log : TrendLog} :
    archive.get? number = some log ↔ log ∈ archive.logs ∧ log.number = number := by
  refine ⟨of_get?_eq_some, ?_⟩
  rintro ⟨hmem, rfl⟩
  cases hfound : archive.get? log.number with
  | none => exact absurd (List.mem_map_of_mem hmem) (get?_eq_none_iff.mp hfound)
  | some other =>
      obtain ⟨hother, hnumber⟩ := of_get?_eq_some hfound
      rw [List.inj_on_of_nodup_map hdistinct hother hmem hnumber]

/-- To take out the log with a number is to keep all others. -/
theorem eraseP_eq_filter {logs : List TrendLog} (hdistinct : (logs.map TrendLog.number).Nodup)
    (number : UInt32) :
    logs.eraseP (fun log => log.number = number) =
      logs.filter fun log => log.number ≠ number := by
  induction logs with
  | nil => rfl
  | cons first rest ih =>
      obtain ⟨hfresh, hrest⟩ := List.nodup_cons.mp hdistinct
      by_cases hfirst : first.number = number
      · have hothers : rest.filter (fun log => log.number ≠ number) = rest := by
          refine List.filter_eq_self.mpr fun log hlog => decide_eq_true ?_
          rintro rfl
          exact hfresh (List.mem_map.mpr ⟨log, hlog, hfirst.symm⟩)
        rw [List.eraseP_cons_of_pos (by simp [hfirst]),
          List.filter_cons_of_neg (by simp [hfirst]), hothers]
      · rw [List.eraseP_cons_of_neg (by simp [hfirst]),
          List.filter_cons_of_pos (by simp [hfirst]), ih hrest]

namespace Follows

variable {archive changed : Archive} {journal : List Event}

theorem grows (hfollows : Follows archive journal) (hgrows : Grows archive changed) :
    Follows changed journal where
  inUse := hfollows.inUse.of_grows hgrows
  limited := by
    rw [← List.length_map TrendLog.config, hgrows.configs, List.length_map]
    exact hfollows.limited
  distinct := by
    rw [numbers_eq, hgrows.configs, ← numbers_eq]
    exact hfollows.distinct
  standing := hgrows.configs.trans hfollows.standing

theorem add (hfollows : Follows archive journal) {config : LogConfig}
    (hadd : archive.add config = .ok changed) : Follows changed (journal ++ [.added config]) := by
  have huse := hfollows.inUse.add hadd
  obtain ⟨⟨hroom, -, -, hfresh⟩, rfl⟩ := add_eq_ok_iff.mp hadd
  refine ⟨huse, ?_, ?_, ?_⟩
  · rw [List.length_append, List.length_singleton]
    exact hroom
  · rw [List.map_append]
    exact hfollows.distinct.append (List.nodup_singleton _) (List.disjoint_singleton.mpr hfresh)
  · rw [List.map_append, hfollows.standing, standing_added]
    rfl

theorem addEach (hfollows : Follows archive journal) (configs : List LogConfig) :
    Follows (archive.addEach configs) (journal ++ archive.additions configs) := by
  induction configs generalizing archive journal with
  | nil => simpa [Archive.addEach, additions] using hfollows
  | cons config rest ih =>
      cases hadd : archive.add config with
      | ok added =>
          simp only [Archive.addEach, additions, hadd]
          rw [List.append_cons]
          exact ih (hfollows.add hadd)
      | error error =>
          simp only [Archive.addEach, additions, hadd]
          exact ih hfollows

theorem remove (hfollows : Follows archive journal) {number : UInt32} {log : TrendLog}
    (hremove : archive.remove number = .ok (changed, log)) :
    Follows changed (journal ++ [.removed number]) := by
  obtain rfl := of_remove_eq_ok hremove
  have hlogs := eraseP_eq_filter hfollows.distinct number
  have hsub : (archive.logs.eraseP fun log => log.number = number).Sublist archive.logs :=
    List.eraseP_sublist
  refine ⟨?_, Nat.le_trans hsub.length_le hfollows.limited, hfollows.distinct.sublist (hsub.map _), ?_⟩
  · exact fun log hlog => hfollows.inUse log (hsub.subset hlog)
  · rw [standing_removed, ← hfollows.standing, hlogs, List.filter_map]
    rfl

theorem clearAll (archive : Archive) (journal : List Event) :
    Follows archive.clearAll (journal ++ [.cleared]) where
  inUse := fun _ hlog => absurd hlog List.not_mem_nil
  limited := Nat.zero_le _
  distinct := List.nodup_nil
  standing := (standing_cleared journal).symm

end Follows

/-! ## Steps -/

theorem grows_sampleEach (now : Reading) (read : Nat → PointRef → Option Sample) (calls : Nat)
    (logs : List TrendLog) : List.Forall₂ TrendLog.Grows logs (sampleEach now read calls logs) := by
  induction logs generalizing calls with
  | nil => exact .nil
  | cons log rest ih => exact .cons (log.grows_sample now (read calls)) (ih _)

theorem replaced_of_attempt {archive changed : Archive} {operation : Operation} {number : UInt32}
    (hkeeps : operation.Keeps) (htarget : operation.target? = some number)
    (hattempt : archive.attempt operation = .ok changed) :
    ∃ log later, archive.get? number = some log ∧ log.Grows later ∧
      changed = ⟨replace number later archive.logs⟩ := by
  cases operation with
  | switch target enable now =>
      cases htarget
      exact replaced_of_modify (fun log => log.grows_switch enable now) hattempt
  | clear target =>
      cases htarget
      exact replaced_of_modify (fun log => log.grows_clear) hattempt
  | record target sample now =>
      cases htarget
      exact replaced_of_modify (fun log => log.grows_record sample now) hattempt
  | samplePeriodic | observe => cases htarget
  | add | load | remove | clearAll => exact hkeeps.elim

theorem grows_of_attempt {archive changed : Archive} {operation : Operation}
    (hkeeps : operation.Keeps) (hattempt : archive.attempt operation = .ok changed) :
    Grows archive changed := by
  cases operation with
  | switch | clear | record =>
      obtain ⟨log, later, hlog, hgrows, rfl⟩ := replaced_of_attempt hkeeps rfl hattempt
      exact grows_replace hlog hgrows
  | samplePeriodic now read =>
      cases hattempt
      exact grows_sampleEach now read 0 archive.logs
  | observe point sample now =>
      cases hattempt
      exact grows_forEach _ fun log => log.grows_observe point sample now
  | add | load | remove | clearAll => exact hkeeps.elim

theorem load_eq_addEach (archive : Archive) (entries : List Json) :
    (archive.loadDocuments entries).1 =
      archive.addEach (entries.filterMap LogConfig.ofJson?) := by
  unfold loadDocuments
  induction entries generalizing archive with
  | nil => rfl
  | cons entry rest ih =>
      cases hconfig : LogConfig.ofJson? entry with
      | none => simp [load, hconfig, ih]
      | some config =>
          cases hadd : archive.add config with
          | ok added => simp [load, addEach, hconfig, hadd, ih]
          | error error => simp [load, addEach, hconfig, hadd, ih]

theorem perform_of_ok {archive changed : Archive} {operation : Operation}
    (hattempt : archive.attempt operation = .ok changed) :
    archive.perform operation = changed := by
  rw [perform, hattempt]

theorem perform_of_error {archive : Archive} {operation : Operation} {error : ArchiveError}
    (hattempt : archive.attempt operation = .error error) :
    archive.perform operation = archive := by
  rw [perform, hattempt]

theorem perform_add (archive : Archive) (config : LogConfig) :
    archive.perform (.add config) = archive.addEach [config] := by
  cases hadd : archive.add config with
  | ok added => simp [perform, attempt, addEach, hadd]
  | error error => simp [perform, attempt, addEach, hadd]

theorem grows_perform {archive : Archive} {operation : Operation} (hkeeps : operation.Keeps) :
    Grows archive (archive.perform operation) := by
  cases hattempt : archive.attempt operation with
  | ok changed =>
      rw [perform_of_ok hattempt]
      exact grows_of_attempt hkeeps hattempt
  | error error =>
      rw [perform_of_error hattempt]
      exact List.forall₂_same.mpr fun log _ => .refl log

theorem events_of_keeps {archive : Archive} {operation : Operation} (hkeeps : operation.Keeps) :
    archive.events operation = [] := by
  cases operation with
  | add | load | remove | clearAll => exact hkeeps.elim
  | switch | clear | record | samplePeriodic | observe => rfl

/-- **Every operation keeps an archive in step with its journal.** -/
theorem Follows.advance {archive : Archive} {journal : List Event}
    (hfollows : Follows archive journal) (operation : Operation) :
    Follows (archive.perform operation) (journal ++ archive.events operation) := by
  -- Operations that keep the numbers leave no trace in the journal.  Additions and removals do.
  by_cases hkeeps : operation.Keeps
  · rw [events_of_keeps hkeeps, List.append_nil]
    exact hfollows.grows (grows_perform hkeeps)
  cases operation with
  | add config =>
      rw [perform_add]
      exact hfollows.addEach [config]
  | load entries =>
      have hload : archive.perform (.load entries) = _ := load_eq_addEach archive entries
      rw [hload]
      exact hfollows.addEach _
  | remove number =>
      cases hlog : archive.get? number with
      | none =>
          have hattempt : archive.attempt (.remove number) = .error (.unknown number) := by
            simp [attempt, Archive.remove, hlog, Except.map]
          simpa [perform_of_error hattempt, events, hlog] using hfollows
      | some log =>
          -- The log that is removed is the first with its number, and no other has it.
          have hremove : archive.remove number =
              .ok (⟨archive.logs.eraseP fun log => log.number = number⟩, log) := by
            simp [Archive.remove, hlog]
          have hattempt : archive.attempt (.remove number) = .ok _ :=
            congrArg (Except.map Prod.fst) hremove
          rw [perform_of_ok hattempt, events, hlog]
          exact hfollows.remove hremove
  | clearAll => exact .clearAll archive journal
  | switch | clear | record | samplePeriodic | observe => exact absurd trivial hkeeps

/-! ## What an operation leaves alone -/

/-- The logs with other numbers. -/
def others (archive : Archive) (number : UInt32) : List TrendLog :=
  archive.logs.filter fun log => log.number ≠ number

theorem filter_replace {number : UInt32} {changed : TrendLog} (hnumber : changed.number = number)
    (logs : List TrendLog) :
    (replace number changed logs).filter (fun log => log.number ≠ number) =
      logs.filter fun log => log.number ≠ number := by
  induction logs with
  | nil => rfl
  | cons first rest ih =>
      by_cases hfirst : first.number = number
      · simp [replace, hfirst, hnumber]
      · simpa [replace, hfirst] using ih

theorem others_add {archive added : Archive} {config : LogConfig}
    (hadd : archive.add config = .ok added) :
    added.others config.number = archive.others config.number := by
  obtain ⟨-, rfl⟩ := add_eq_ok_iff.mp hadd
  simp [others, TrendLog.number, TrendLog.ofConfig]

theorem others_remove {archive rest : Archive} {number : UInt32} {log : TrendLog}
    (hremove : archive.remove number = .ok (rest, log)) :
    rest.others number = archive.others number := by
  obtain rfl := of_remove_eq_ok hremove
  unfold others
  induction archive.logs with
  | nil => rfl
  | cons first rest ih =>
      by_cases hfirst : first.number = number
      · simp [hfirst]
      · simpa [List.eraseP_cons, hfirst] using ih

theorem others_perform {archive : Archive} {operation : Operation} {number : UInt32}
    (htarget : operation.target? = some number) :
    (archive.perform operation).others number = archive.others number := by
  cases hattempt : archive.attempt operation with
  | error error => rw [perform_of_error hattempt]
  | ok changed =>
      rw [perform_of_ok hattempt]
      -- An operation with a target touches the log with this number, and the others are those
      -- without it.
      cases operation with
      | add config =>
          cases htarget
          exact others_add hattempt
      | remove target =>
          cases htarget
          obtain ⟨log, hremove⟩ := exists_of_map_fst_eq_ok hattempt
          exact others_remove hremove
      | switch | clear | record =>
          obtain ⟨log, later, hlog, hgrows, rfl⟩ := replaced_of_attempt (by trivial) htarget hattempt
          have hnumber : later.number = number :=
            (congrArg LogConfig.number hgrows.config).trans (of_get?_eq_some hlog).2
          exact filter_replace hnumber archive.logs
      | load | clearAll | samplePeriodic | observe => cases htarget

/-- What an operation needs to be done. -/
def Allows (archive : Archive) : Operation → Prop
  | .add config =>
      archive.logs.length < limit ∧ config.bufferSize ≠ 0 ∧
        config.bufferSize ≤ LogConfig.maxBufferSize ∧
        config.number ∉ archive.logs.map TrendLog.number
  | .remove number | .switch number _ _ | .clear number | .record number _ _ =>
      number ∈ archive.logs.map TrendLog.number
  | .load _ | .clearAll | .samplePeriodic _ _ | .observe _ _ _ => True

theorem modify_ok_iff (archive : Archive) {α : Type} (number : UInt32)
    (change : TrendLog → TrendLog × α) :
    (∃ changed, (archive.modify number change).map Prod.fst = .ok changed) ↔
      number ∈ archive.logs.map TrendLog.number := by
  rw [← not_iff_not, ← get?_eq_none_iff]
  cases hlog : archive.get? number with
  | none => simp [modify, hlog, Except.map]
  | some log => simp [modify, hlog, Except.map]

theorem remove_ok_iff (archive : Archive) (number : UInt32) :
    (∃ rest, (archive.remove number).map Prod.fst = .ok rest) ↔
      number ∈ archive.logs.map TrendLog.number := by
  rw [← not_iff_not, ← get?_eq_none_iff]
  cases hlog : archive.get? number with
  | none => simp [remove, hlog, Except.map]
  | some log => simp [remove, hlog, Except.map]

/-- **An operation is done exactly if what it needs is there.** -/
theorem attempt_ok_iff (archive : Archive) (operation : Operation) :
    (∃ changed, archive.attempt operation = .ok changed) ↔ archive.Allows operation := by
  cases operation with
  | add config =>
      refine ⟨fun ⟨added, hadd⟩ => (add_eq_ok_iff.mp hadd).1, fun hallows => ?_⟩
      exact ⟨_, add_eq_ok_iff.mpr ⟨hallows, rfl⟩⟩
  | remove number => exact remove_ok_iff archive number
  | switch number enable now => exact modify_ok_iff archive number _
  | clear number => exact modify_ok_iff archive number _
  | record number sample now => exact modify_ok_iff archive number _
  | load | clearAll | samplePeriodic | observe => exact ⟨fun _ => trivial, fun _ => ⟨_, rfl⟩⟩

/-! ## Runs -/

theorem follows_foldl {archive : Archive} {journal : List Event}
    (hfollows : Follows archive journal) (operations : List Operation) :
    Follows (operations.foldl advance (archive, journal)).1
      (operations.foldl advance (archive, journal)).2 := by
  induction operations generalizing archive journal with
  | nil => exact hfollows
  | cons operation rest ih => exact ih (hfollows.advance operation)

/-- **After every run the archive is in step with the journal.** -/
theorem follows_replay (operations : List Operation) :
    Follows (replay operations).1 (replay operations).2 := by
  have hempty : Follows empty [] :=
    ⟨fun _ hlog => absurd hlog List.not_mem_nil, Nat.zero_le _, List.nodup_nil, rfl⟩
  exact follows_foldl hempty operations

/-- An archive as it should be: few logs, each with a number and a buffer of its own. -/
structure Sound (archive : Archive) : Prop where
  limited : archive.logs.length ≤ 50
  distinct : (archive.logs.map TrendLog.number).Nodup
  capacity : ∀ log ∈ archive.logs, log.ring.capacity = log.config.bufferSize.toNat ∧
    1 ≤ log.config.bufferSize.toNat ∧ log.config.bufferSize.toNat ≤ 10000
  counted : ∀ log ∈ archive.logs, log.view.count.toNat = log.ring.records.length ∧
    log.view.count.toNat ≤ log.ring.capacity
  found : ∀ number log,
    archive.get? number = some log ↔ log ∈ archive.logs ∧ log.number = number

/-- What an operation changes is what it names, and nothing if it is not done. -/
structure Framed (archive : Archive) (operation : Operation) : Prop where
  allowed : (∃ changed, archive.attempt operation = .ok changed) ↔ archive.Allows operation
  failed : ∀ error, archive.attempt operation = .error error →
    archive.perform operation = archive
  others : ∀ number, operation.target? = some number →
    (archive.perform operation).others number = archive.others number
  configs : operation.Keeps →
    (archive.perform operation).logs.map TrendLog.config = archive.logs.map TrendLog.config

theorem framed (archive : Archive) (operation : Operation) : Framed archive operation where
  allowed := attempt_ok_iff archive operation
  failed _ := perform_of_error
  others _ := others_perform
  configs hkeeps := (grows_perform hkeeps).configs

theorem Follows.sound {archive : Archive} {journal : List Event}
    (hfollows : Follows archive journal) : Sound archive where
  limited := hfollows.limited
  distinct := hfollows.distinct
  capacity log hlog := by
    have huse := hfollows.inUse log hlog
    have hpos : 1 ≤ log.config.bufferSize.toNat :=
      Nat.pos_of_ne_zero fun hzero => huse.size_ne_zero (UInt32.toNat_inj.mp hzero)
    exact ⟨huse.capacity_eq, hpos, UInt32.le_iff_toNat_le.mp huse.size_le⟩
  counted log hlog := by
    have huse := hfollows.inUse log hlog
    rw [huse.toNat_count]
    exact ⟨rfl, huse.length_records_le_capacity⟩
  found _ _ := get?_eq_some_iff hfollows.distinct

/-- **Whatever is done to an archive, it is sound.**  It holds the logs that were added and not
taken out since, in the order in which they were added, and no operation on it touches what it
does not name. -/
theorem sound_replay (operations : List Operation) :
    (replay operations).1.Sound ∧
      (replay operations).1.logs.map TrendLog.config = standing (replay operations).2 ∧
      ∀ operation, Framed (replay operations).1 operation :=
  have hfollows := follows_replay operations
  ⟨hfollows.sound, hfollows.standing, framed _⟩

end Historian.Archive
