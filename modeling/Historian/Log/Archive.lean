import Historian.Log.TrendLog

/-!
# The logs of a device

An archive holds the trend logs of a device in the order they were added.  It takes
at most fifty, of different instance numbers, with buffers of limited size.  An
operation that fails changes nothing, and one that names a log changes no other.
-/

namespace Historian

/-- Why an archive does not do as it is told. -/
inductive ArchiveError where
  | tooManyLogs
  | bufferSize (size : UInt32)
  | duplicate (number : UInt32)
  | unknown (number : UInt32)
  /-- A document without a list of logs. -/
  | noLogs
  /-- A text that is no document. -/
  | badText
  deriving DecidableEq, Repr

/-- A set of trend logs in order. -/
structure Archive where
  logs : List TrendLog

namespace Archive

/-- An archive without logs. -/
def empty : Archive := ⟨[]⟩

/-- The number of logs that an archive takes. -/
def limit : Nat := 50

/-- The log with an instance number. -/
def get? (archive : Archive) (number : UInt32) : Option TrendLog :=
  archive.logs.find? fun log => log.number = number

/-- The logs as range requests find them. -/
def repository (archive : Archive) : Repository := fun number =>
  (archive.get? number).map TrendLog.view

/-! ## Adding and removing -/

/-- Adds a log.  The first fault found is reported. -/
def add (archive : Archive) (config : LogConfig) : Except ArchiveError Archive :=
  if limit ≤ archive.logs.length then .error .tooManyLogs
  else if config.bufferSize = 0 ∨ LogConfig.maxBufferSize < config.bufferSize then
    .error (.bufferSize config.bufferSize)
  else if (archive.get? config.number).isSome then .error (.duplicate config.number)
  else .ok ⟨archive.logs ++ [TrendLog.ofConfig config]⟩

/-- Adds the logs of a list of entries, of which each is read by `parse`.  Entries
that cannot be read or added are passed over.  Gives the number of logs added. -/
def load {Entry : Type} (parse : Entry → Option LogConfig) (archive : Archive) :
    List Entry → Archive × Nat
  | [] => (archive, 0)
  | entry :: rest =>
      match (parse entry).map archive.add with
      | some (.ok added) =>
          let (loaded, count) := load parse added rest
          (loaded, count + 1)
      | _ => load parse archive rest

/-- Takes a log out of the archive. -/
def remove (archive : Archive) (number : UInt32) : Except ArchiveError (Archive × TrendLog) :=
  match archive.get? number with
  | none => .error (.unknown number)
  | some log => .ok (⟨archive.logs.eraseP fun log => log.number = number⟩, log)

/-- Takes all logs out of the archive. -/
def clearAll (archive : Archive) : Archive := { archive with logs := [] }

/-! ## Operations on one log -/

/-- Replaces the first log with an instance number. -/
def replace (number : UInt32) (log : TrendLog) : List TrendLog → List TrendLog
  | [] => []
  | first :: rest =>
      if first.number = number then log :: rest else first :: replace number log rest

/-- Changes the log with an instance number. -/
def modify {α : Type} (archive : Archive) (number : UInt32) (change : TrendLog → TrendLog × α) :
    Except ArchiveError (Archive × α) :=
  match archive.get? number with
  | none => .error (.unknown number)
  | some log =>
      let (changed, result) := change log
      .ok (⟨replace number changed archive.logs⟩, result)

/-- Switches a log on or off. -/
def switch (archive : Archive) (number : UInt32) (enable : Bool) (now : Reading) :
    Except ArchiveError Archive :=
  (archive.modify number fun log => (log.switch enable now, ())).map Prod.fst

/-- Clears a log. -/
def clear (archive : Archive) (number : UInt32) : Except ArchiveError Archive :=
  (archive.modify number fun log => (log.clear, ())).map Prod.fst

/-- Offers a sample to a log and tells whether it was stored. -/
def record (archive : Archive) (number : UInt32) (sample : Sample) (now : Reading) :
    Except ArchiveError (Archive × Bool) :=
  archive.modify number fun log => log.record sample now

/-! ## Operations on all logs -/

/-- Changes every log and counts those that stored a record. -/
def forEach (archive : Archive) (change : TrendLog → TrendLog × Bool) : Archive × Nat :=
  let changed := archive.logs.map change
  (⟨changed.map Prod.fst⟩, (changed.filter Prod.snd).length)

/-- One round of periodic sampling.  Gives the number of records stored. -/
def samplePeriodic (archive : Archive) (now : Reading) (read : PointRef → Option Sample) :
    Archive × Nat :=
  archive.forEach fun log => log.sample now read

/-- The points that a round of periodic sampling reads, in order. -/
def reads (archive : Archive) (now : Reading) : List PointRef :=
  archive.logs.filterMap fun log => log.reads? now

/-- Offers a new value of a point to the logs that follow it.  Gives the number of
records stored. -/
def observe (archive : Archive) (point : PointRef) (sample : Sample) (now : Reading) :
    Archive × Nat :=
  archive.forEach fun log => log.observe point sample now

/-- The logs of a point. -/
def ofPoint (archive : Archive) (point : PointRef) : List TrendLog :=
  archive.logs.filter fun log => log.config.point = some point

/-- The value of a property of a log. -/
def property (archive : Archive) (object : ObjectId) (property : PropertyId) :
    Except Refusal PropertyValue :=
  if object.type ≠ .trendLog then .error .unknownObject
  else
    match archive.get? object.number with
    | none => .error .unknownObject
    | some log => log.property property

end Archive

/-- The wording of an archive error. -/
def ArchiveError.message : ArchiveError → String
  | tooManyLogs => s!"maximum number of trend logs reached ({Archive.limit})"
  | bufferSize size => s!"buffer size {size} out of range (1..={LogConfig.maxBufferSize})"
  | duplicate number => s!"trend log {number} already exists"
  | unknown number => s!"unknown trend log {number}"
  | noLogs => "configuration has no 'trendlogs' array"
  | badText => "json error"

end Historian
