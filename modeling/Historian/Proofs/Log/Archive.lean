import Historian.Log.Archive
import Historian.Proofs.Log.TrendLog
import Mathlib.Data.List.Forall2

/-!
# Reachable archives

An archive is reachable if its operations lead to it from an archive without logs.
All its logs are then in use (`Archive.inUse_of_reachable`): added with a buffer of an
accepted size, and since then only pushed into and cleared.
-/

namespace Historian.Archive

/-- Archives that the operations lead to. -/
inductive Reachable : Archive → Prop where
  | empty : Reachable Archive.empty
  | add {archive added : Archive} {config : LogConfig} (before : Reachable archive)
      (done : archive.add config = .ok added) : Reachable added
  | load {archive : Archive} {Entry : Type} (parse : Entry → Option LogConfig)
      (entries : List Entry) (before : Reachable archive) :
      Reachable (archive.load parse entries).1
  | remove {archive rest : Archive} {number : UInt32} {log : TrendLog}
      (before : Reachable archive) (done : archive.remove number = .ok (rest, log)) :
      Reachable rest
  | switch {archive changed : Archive} {number : UInt32} {enable : Bool} {now : Reading}
      (before : Reachable archive) (done : archive.switch number enable now = .ok changed) :
      Reachable changed
  | clear {archive changed : Archive} {number : UInt32} (before : Reachable archive)
      (done : archive.clear number = .ok changed) : Reachable changed
  | record {archive changed : Archive} {number : UInt32} {sample : Sample} {now : Reading}
      {stored : Bool} (before : Reachable archive)
      (done : archive.record number sample now = .ok (changed, stored)) : Reachable changed
  | samplePeriodic {archive : Archive} (now : Reading) (read : PointRef → Option Sample)
      (before : Reachable archive) : Reachable (archive.samplePeriodic now read).1
  | observe {archive : Archive} (point : PointRef) (sample : Sample) (now : Reading)
      (before : Reachable archive) : Reachable (archive.observe point sample now).1

/-! ## What is found, added and removed -/

theorem of_get?_eq_some {archive : Archive} {number : UInt32} {log : TrendLog}
    (hfound : archive.get? number = some log) : log ∈ archive.logs ∧ log.number = number := by
  refine ⟨List.mem_of_find?_eq_some hfound, ?_⟩
  unfold get? at hfound
  simpa using List.find?_some hfound

theorem get?_eq_none_iff {archive : Archive} {number : UInt32} :
    archive.get? number = none ↔ number ∉ archive.logs.map TrendLog.number := by
  simp [get?]

theorem add_eq_ok_iff {archive added : Archive} {config : LogConfig} :
    archive.add config = .ok added ↔
      (archive.logs.length < limit ∧ config.bufferSize ≠ 0 ∧
          config.bufferSize ≤ LogConfig.maxBufferSize ∧
          config.number ∉ archive.logs.map TrendLog.number) ∧
        added = ⟨archive.logs ++ [TrendLog.ofConfig config]⟩ := by
  rw [← get?_eq_none_iff]
  unfold add
  constructor
  · intro hadd
    split at hadd
    · cases hadd
    split at hadd
    · cases hadd
    split at hadd
    · cases hadd
    rename_i hroom hsize hfresh
    obtain ⟨hsome, hle⟩ := not_or.mp hsize
    exact ⟨⟨Nat.lt_of_not_le hroom, hsome, UInt32.not_lt.mp hle,
      Option.not_isSome_iff_eq_none.mp hfresh⟩, (Except.ok.inj hadd).symm⟩
  · rintro ⟨⟨hroom, hsome, hle, hfresh⟩, rfl⟩
    rw [if_neg (Nat.not_le_of_lt hroom), if_neg (not_or.mpr ⟨hsome, UInt32.not_lt.mpr hle⟩),
      hfresh]
    rfl

theorem of_remove_eq_ok {archive rest : Archive} {number : UInt32} {log : TrendLog}
    (hremove : archive.remove number = .ok (rest, log)) :
    rest = ⟨archive.logs.eraseP fun log => log.number = number⟩ := by
  unfold remove at hremove
  split at hremove
  · cases hremove
  · cases hremove
    rfl

/-- All logs are in use. -/
def InUse (archive : Archive) : Prop := ∀ log ∈ archive.logs, log.InUse

/-! ## Logs that stay -/

/-- No log has come or gone, and every one has gone on from where it was. -/
def Grows (archive changed : Archive) : Prop :=
  List.Forall₂ TrendLog.Grows archive.logs changed.logs

/-- No log has come or gone, every one has gone on from where it was, and one that is not
`touched` is as it was. -/
def ChangesOnly (touched : TrendLog → Prop) (archive changed : Archive) : Prop :=
  List.Forall₂ (fun log later => log.Grows later ∧ (¬ touched log → later = log))
    archive.logs changed.logs

theorem ChangesOnly.grows {touched : TrendLog → Prop} {archive changed : Archive}
    (hchanges : archive.ChangesOnly touched changed) : archive.Grows changed :=
  List.Forall₂.imp (fun _ _ hlog => hlog.1) hchanges

/-- A change of the log with a number changes no log but that. -/
theorem changesOnly_replace {number : UInt32} {log changed : TrendLog} {logs : List TrendLog}
    (hlog : logs.find? (fun log => log.number = number) = some log) (hgrows : log.Grows changed) :
    ChangesOnly (fun log => log.number = number) ⟨logs⟩ ⟨replace number changed logs⟩ := by
  unfold ChangesOnly
  induction logs with
  | nil => cases hlog
  | cons first rest ih =>
      by_cases hfirst : first.number = number
      · obtain rfl : first = log := by simpa [hfirst] using hlog
        simp only [replace, if_pos hfirst]
        exact .cons ⟨hgrows, absurd hfirst⟩ (List.forall₂_same.mpr fun _ _ => ⟨.refl _, fun _ => rfl⟩)
      · simp only [replace, if_neg hfirst]
        exact .cons ⟨.refl first, fun _ => rfl⟩ (ih (by simpa [hfirst] using hlog))

theorem grows_replace {number : UInt32} {log changed : TrendLog} {logs : List TrendLog}
    (hlog : logs.find? (fun log => log.number = number) = some log)
    (hgrows : log.Grows changed) :
    List.Forall₂ TrendLog.Grows logs (replace number changed logs) :=
  (changesOnly_replace hlog hgrows).grows

theorem exists_of_map_eq_ok {ε α β : Type} {result : Except ε α} {make : α → β} {made : β}
    (hmade : result.map make = .ok made) : ∃ value, result = .ok value ∧ made = make value := by
  cases result with
  | error error => cases hmade
  | ok value =>
      cases hmade
      exact ⟨value, rfl, rfl⟩

theorem exists_of_map_fst_eq_ok {α : Type} {result : Except ArchiveError (Archive × α)}
    {changed : Archive} (hresult : result.map Prod.fst = .ok changed) :
    ∃ value, result = .ok (changed, value) := by
  obtain ⟨pair, hpair, rfl⟩ := exists_of_map_eq_ok hresult
  exact ⟨pair.2, hpair⟩

/-- A change of one log puts the log as it goes on in its place. -/
theorem replaced_of_modify {archive changed : Archive} {α : Type} {number : UInt32}
    {change : TrendLog → TrendLog × α} (hchange : ∀ log, TrendLog.Grows log (change log).1)
    (hmodify : (archive.modify number change).map Prod.fst = .ok changed) :
    ∃ log later, archive.get? number = some log ∧ log.Grows later ∧
      changed = ⟨replace number later archive.logs⟩ := by
  obtain ⟨value, hresult⟩ := exists_of_map_fst_eq_ok hmodify
  unfold modify at hresult
  split at hresult
  · cases hresult
  · rename_i log hlog
    cases hresult
    exact ⟨log, (change log).1, hlog, hchange log, rfl⟩

theorem changesOnly_modify {archive changed : Archive} {α : Type} {number : UInt32}
    {change : TrendLog → TrendLog × α} (hchange : ∀ log, TrendLog.Grows log (change log).1)
    (hmodify : (archive.modify number change).map Prod.fst = .ok changed) :
    archive.ChangesOnly (fun log => log.number = number) changed := by
  obtain ⟨log, later, hlog, hgrows, rfl⟩ := replaced_of_modify hchange hmodify
  exact changesOnly_replace hlog hgrows

theorem grows_modify {archive changed : Archive} {α : Type} {number : UInt32}
    {change : TrendLog → TrendLog × α} (hchange : ∀ log, TrendLog.Grows log (change log).1)
    (hmodify : (archive.modify number change).map Prod.fst = .ok changed) :
    Grows archive changed :=
  (changesOnly_modify hchange hmodify).grows

theorem grows_forEach (archive : Archive) {change : TrendLog → TrendLog × Bool}
    (hchange : ∀ log, TrendLog.Grows log (change log).1) :
    Grows archive (archive.forEach change).1 := by
  unfold Grows forEach
  simp only [List.map_map]
  exact List.forall₂_map_right_iff.mpr (List.forall₂_same.mpr fun log _ => hchange log)

/-! ## What the operations keep -/

namespace InUse

variable {archive : Archive}

theorem of_get? (harchive : archive.InUse) {number : UInt32} {log : TrendLog}
    (hlog : archive.get? number = some log) : log.InUse :=
  harchive log (of_get?_eq_some hlog).1

theorem add (harchive : archive.InUse) {added : Archive} {config : LogConfig}
    (hadd : archive.add config = .ok added) : added.InUse := by
  obtain ⟨⟨-, hsome, hle, -⟩, rfl⟩ := add_eq_ok_iff.mp hadd
  intro log hlog
  rcases List.mem_append.mp hlog with hold | hnew
  · exact harchive log hold
  · rw [List.mem_singleton.mp hnew]
    exact TrendLog.inUse_ofConfig hsome hle

theorem load (harchive : archive.InUse) {Entry : Type} (parse : Entry → Option LogConfig)
    (entries : List Entry) : (archive.load parse entries).1.InUse := by
  induction entries generalizing archive with
  | nil => exact harchive
  | cons entry rest ih =>
      unfold Archive.load
      split
      · rename_i added hadded
        obtain ⟨config, -, hadd⟩ := Option.map_eq_some_iff.mp hadded
        exact ih (harchive.add hadd)
      · exact ih harchive

theorem of_grows (harchive : archive.InUse) {changed : Archive} (hgrows : Grows archive changed) :
    changed.InUse := by
  obtain ⟨logs⟩ := archive
  obtain ⟨later⟩ := changed
  change List.Forall₂ TrendLog.Grows logs later at hgrows
  unfold Archive.InUse at harchive ⊢
  induction hgrows with
  | nil => exact fun log hlog => absurd hlog List.not_mem_nil
  | cons hfirst _ ih =>
      obtain ⟨huse, hrest⟩ := List.forall_mem_cons.mp harchive
      exact List.forall_mem_cons.mpr ⟨huse.of_grows hfirst, ih hrest⟩

end InUse

/-- **All logs of a reachable archive are in use.** -/
theorem inUse_of_reachable {archive : Archive} (hreachable : archive.Reachable) :
    archive.InUse := by
  induction hreachable with
  | empty => exact fun log hlog => absurd hlog List.not_mem_nil
  | add _ hadd ih => exact ih.add hadd
  | load parse entries _ ih => exact ih.load parse entries
  | remove _ hremove ih =>
      obtain rfl := of_remove_eq_ok hremove
      exact fun log hlog => ih log (List.mem_of_mem_eraseP hlog)
  | switch _ hswitch ih =>
      exact ih.of_grows (grows_modify (fun log => log.grows_switch _ _) hswitch)
  | clear _ hclear ih => exact ih.of_grows (grows_modify (fun log => log.grows_clear) hclear)
  | record _ hrecord ih =>
      have hchanged := congrArg (Except.map Prod.fst) hrecord
      exact ih.of_grows (grows_modify (fun log => log.grows_record _ _) hchanged)
  | samplePeriodic now read _ ih =>
      exact ih.of_grows (grows_forEach _ fun log => log.grows_sample now read)
  | observe point sample now _ ih =>
      exact ih.of_grows (grows_forEach _ fun log => log.grows_observe point sample now)

end Historian.Archive
