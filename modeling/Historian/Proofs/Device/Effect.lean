import Historian.Device.Command
import Historian.Proofs.Log.Archive

/-!
# What a command may change

A command is carried out as a whole or not at all.  It is carried out exactly if what it needs is
there (`Device.Allows`): the log or the point that it names, records that can be read, a file that
can be written.  A configuration needs nothing.  If the reply tells of an error the device is as
it was, and if not, the device differs from what it was at most in what the command names
(`Command.Keeps`): a log, a point and the logs that follow it, or everything, where a device is
configured anew.

Whether a file can be written is not for the device to decide.  `Device.answerOn` answers
commands on a machine that may refuse to write one, and `Device.answerOn_atomic` holds on every
such machine.
-/

namespace Historian

/-! ## Changes to the logs -/

/-- A new value is logged by the running logs that follow its point, and by no others. -/
theorem Archive.changesOnly_observe (archive : Archive) (point : PointRef) (sample : Sample)
    (now : Reading) :
    archive.ChangesOnly (fun log => log.follows point = true)
      (archive.observe point sample now).1 := by
  simp only [ChangesOnly, observe, forEach, List.map_map]
  refine List.forall₂_map_right_iff.mpr (List.forall₂_same.mpr fun log _ => ?_)
  refine ⟨log.grows_observe point sample now, fun hother => ?_⟩
  simp [TrendLog.observe, hother]

/-! ## Changes to the points -/

/-- The point with another present value. -/
def Point.holding (point : Point) (value : Float) : Point := { point with presentValue := value }

namespace PointTable

/-- At most the present value of one point has changed, and to `value`. -/
structure Sets (ref : PointRef) (value : Float) (table changed : PointTable) : Prop where
  refs : changed.entries.map Prod.fst = table.entries.map Prod.fst
  written : changed.get? ref = (table.get? ref).map fun point => point.holding value
  others : ∀ other, other ≠ ref → changed.get? other = table.get? other

section

variable {table : PointTable} {ref : PointRef} {point written : Point}

theorem lookup_overwrite (written : Point) (other : PointRef) (entries : List (PointRef × Point)) :
    (entries.map fun entry => if entry.1 = ref then (ref, written) else entry).lookup other =
      if other = ref then (entries.lookup ref).map fun _ => written
      else entries.lookup other := by
  induction entries with
  | nil => split <;> rfl
  | cons entry rest ih =>
      obtain ⟨key, point⟩ := entry
      by_cases hkey : key = ref
      · subst hkey
        by_cases hother : other = key
        · simp [hother]
        · have hskips : (other == key) = false := beq_eq_false_iff_ne.mpr hother
          simp only [List.map_cons, if_true, List.lookup_cons, hskips, ih, if_neg hother]
      · have hfirst : (ref == key) = false := beq_eq_false_iff_ne.mpr (Ne.symm hkey)
        by_cases hother : other = ref
        · subst hother
          simp only [List.map_cons, if_neg hkey, List.lookup_cons, hfirst, ih, if_true]
        · simp only [List.map_cons, if_neg hkey, List.lookup_cons, ih, if_neg hother]

theorem put_eq_of_some (hpoint : table.get? ref = some point) :
    table.put ref written =
      ⟨table.entries.map fun entry => if entry.1 = ref then (ref, written) else entry⟩ := by
  rw [put, hpoint]
  rfl

theorem get?_put (hpoint : table.get? ref = some point) (other : PointRef) :
    (table.put ref written).get? other = if other = ref then some written else table.get? other := by
  have hlookup := hpoint
  unfold get? at hlookup
  rw [put_eq_of_some hpoint]
  simp only [get?, lookup_overwrite, hlookup, Option.map_some]

end

theorem sets_of_write? {table changed : PointTable} {ref : PointRef} {value : Float}
    {sample : Sample} (hwrite : table.write? ref value = some (changed, sample)) :
    table.Sets ref value changed := by
  obtain ⟨point, hpoint, hwritten⟩ := Option.map_eq_some_iff.mp hwrite
  cases hwritten
  refine ⟨?_, ?_, fun other hother => ?_⟩
  · rw [put_eq_of_some hpoint, List.map_map]
    refine List.map_congr_left fun entry _ => ?_
    by_cases hentry : entry.1 = ref <;> simp [hentry]
  · rw [get?_put hpoint, if_pos rfl, hpoint]
    rfl
  · rw [get?_put hpoint, if_neg hother]

end PointTable

/-! ## Changes to a device -/

/-- What a command leaves as it was, and what it makes of the rest. -/
def Command.Keeps (device changed : Device) : Command → Prop
  | .ping | .status | .logs | .log _ | .records _ _ | .exportLog _ _ => changed = device
  | .switch number _ | .clear number =>
      changed.config = device.config ∧ changed.points = device.points ∧
        device.archive.ChangesOnly (fun log => log.number = number) changed.archive
  | .write point value =>
      changed.config = device.config ∧ device.points.Sets point value changed.points ∧
        device.archive.ChangesOnly (fun log => log.follows point = true) changed.archive
  | .configure config => changed = Device.ofConfig config

/-- A reply tells of an error. -/
def Json.tellsError : Json → Bool
  | .obj members => members.any fun member => member.1 = "error"
  | _ => false

namespace Device

variable {device : Device} {command : Command} {now : Reading} {outcome : Outcome}

theorem keeps_write {point : PointRef} {value : Float} {written : Device} {count : Nat}
    (hwrite : device.write point value now = .ok (written, count)) :
    Command.Keeps device written (.write point value) := by
  unfold write store at hwrite
  cases hstored : device.points.write? point value with
  | none =>
      rw [hstored] at hwrite
      cases hwrite
  | some stored =>
      obtain ⟨points, sample⟩ := stored
      rw [hstored] at hwrite
      cases hwrite
      exact ⟨rfl, PointTable.sets_of_write? hstored,
        device.archive.changesOnly_observe point sample now⟩

theorem of_withArchive_eq_ok {reply : Json} {result : Except ArchiveError Archive}
    (hdone : device.withArchive reply result = .ok outcome) :
    ∃ archive, result = .ok archive ∧ outcome = ⟨{ device with archive := archive }, reply, none⟩ := by
  cases result with
  | error error => cases hdone
  | ok archive =>
      cases hdone
      exact ⟨archive, rfl, rfl⟩

/-- **A command that is carried out stays within its bounds**, and its reply tells of no
error. -/
theorem keeps_execute (hexecute : device.execute command now = .ok outcome) :
    command.Keeps device outcome.device ∧ outcome.reply.tellsError = false := by
  -- One case for each command.  A step that fails leaves no outcome, so nothing is to be undone.
  cases command with
  | ping | status | logs =>
      cases hexecute
      exact ⟨rfl, rfl⟩
  | log number =>
      obtain ⟨log, -, rfl⟩ := Archive.exists_of_map_eq_ok hexecute
      exact ⟨rfl, rfl⟩
  | records number count =>
      obtain ⟨reply, hreply, rfl⟩ := Archive.exists_of_map_eq_ok hexecute
      obtain ⟨ack, -, rfl⟩ := Archive.exists_of_map_eq_ok hreply
      exact ⟨rfl, rfl⟩
  | switch number enable =>
      obtain ⟨archive, hswitch, rfl⟩ := of_withArchive_eq_ok hexecute
      have hchanges := Archive.changesOnly_modify (fun log => log.grows_switch enable now) hswitch
      exact ⟨⟨rfl, rfl, hchanges⟩, rfl⟩
  | clear number =>
      obtain ⟨archive, hclear, rfl⟩ := of_withArchive_eq_ok hexecute
      have hchanges := Archive.changesOnly_modify (fun log => log.grows_clear) hclear
      exact ⟨⟨rfl, rfl, hchanges⟩, rfl⟩
  | exportLog number path =>
      obtain ⟨log, -, rfl⟩ := Archive.exists_of_map_eq_ok hexecute
      exact ⟨rfl, rfl⟩
  | write point value =>
      obtain ⟨⟨written, count⟩, hwrite, rfl⟩ := Archive.exists_of_map_eq_ok hexecute
      exact ⟨keeps_write hwrite, rfl⟩
  | configure config =>
      cases hexecute
      exact ⟨rfl, rfl⟩

/-! ## Files that cannot be written -/

/-- Carries out the command of a text on a machine that may refuse to write a file;
`refused path content` is why it does, if it does. -/
def performOn (refused : String → String → Option String) (device : Device) (text : String)
    (now : Reading) : Except String Outcome :=
  match device.perform text now with
  | .error error => .error error.message
  | .ok outcome =>
      match outcome.file.bind fun (path, content) => refused path content with
      | some cause => .error cause
      | none => .ok outcome

/-- Answers the command of a text on such a machine. -/
def answerOn (refused : String → String → Option String) (device : Device) (text : String)
    (now : Reading) : Outcome :=
  match device.performOn refused text now with
  | .ok outcome => outcome
  | .error cause => device.saying (.obj [("error", .str cause)])

/-- Where every file can be written, commands are answered as `Device.answer` answers them. -/
theorem answerOn_eq_answer (device : Device) (text : String) (now : Reading) :
    device.answerOn (fun _ _ => none) text now = device.answer text now := by
  have hwritten : ∀ outcome : Outcome,
      (outcome.file.bind fun _ => (none : Option String)) = none := by
    intro outcome
    cases outcome.file <;> rfl
  unfold answerOn performOn answer
  cases device.perform text now with
  | error error => rfl
  | ok outcome => simp only [hwritten]

variable {refused : String → String → Option String} {text : String}

theorem keeps_performOn (hperform : device.performOn refused text now = .ok outcome) :
    ∃ command, Command.ofText? text = some command ∧ command.Keeps device outcome.device ∧
      outcome.reply.tellsError = false := by
  unfold performOn perform at hperform
  cases hcommand : Command.ofText? text with
  | none =>
      rw [hcommand] at hperform
      cases hperform
  | some command =>
      simp only [hcommand] at hperform
      cases hexecute : device.execute command now with
      | error error =>
          rw [hexecute] at hperform
          cases hperform
      | ok done =>
          simp only [hexecute] at hperform
          split at hperform
          · cases hperform
          · cases hperform
            exact ⟨command, rfl, keeps_execute hexecute⟩

/-! ## Commands that are carried out -/

/-- What a command needs to be carried out, on a machine that may refuse to write a file. -/
def Allows (device : Device) (refused : String → String → Option String) : Command → Prop
  | .ping | .status | .logs | .configure _ => True
  | .log number | .switch number _ | .clear number =>
      ∃ log, device.archive.get? number = some log
  | .records number count =>
      ∃ ack, Newest.read device.archive number (Newest.effectiveCount count) = .ok ack
  | .exportLog number path =>
      ∃ log, device.archive.get? number = some log ∧
        refused path (Export.table log.ring.records) = none
  | .write point _ => ∃ present, device.points.get? point = some present

/-- A text that is a command is carried out exactly if what the command needs is there. -/
theorem performOn_ok_iff (now : Reading) (hcommand : Command.ofText? text = some command) :
    (∃ outcome, device.performOn refused text now = .ok outcome) ↔
      device.Allows refused command := by
  simp only [performOn, perform, hcommand]
  -- A command fails at its one lookup or not at all; afterwards only a file can still be refused.
  cases command with
  | ping | status | logs | configure => exact ⟨fun _ => trivial, fun _ => ⟨_, rfl⟩⟩
  | log number =>
      cases hlog : device.archive.get? number <;>
        simp [Allows, execute, Device.log, saying, Except.map, hlog]
  | switch number enable =>
      cases hlog : device.archive.get? number <;>
        simp [Allows, execute, withArchive, Archive.switch, Archive.modify, Except.map, hlog]
  | clear number =>
      cases hlog : device.archive.get? number <;>
        simp [Allows, execute, withArchive, Archive.clear, Archive.modify, Except.map, hlog]
  | records number count =>
      cases hread : Newest.read device.archive number (Newest.effectiveCount count) <;>
        simp [Allows, execute, Newest.reply, saying, Except.map, hread]
  | exportLog number path =>
      cases hlog : device.archive.get? number with
      | none => simp [Allows, execute, Device.log, Except.map, hlog]
      | some log =>
          -- The one command with a file: the log is there, and the machine has the last word.
          cases hfile : refused path (Export.table log.ring.records) <;>
            simp [Allows, execute, Device.log, Except.map, hlog, hfile]
  | write point value =>
      cases hpoint : device.points.get? point <;>
        simp [Allows, execute, write, store, PointTable.write?, saying, Except.map, hpoint]

theorem answerOn_of_command (hcommand : Command.ofText? text = some command)
    (hallows : device.Allows refused command) :
    command.Keeps device (device.answerOn refused text now).device ∧
      (device.answerOn refused text now).reply.tellsError = false := by
  obtain ⟨outcome, hperform⟩ := (performOn_ok_iff now hcommand).mpr hallows
  obtain ⟨performed, hperformed, hkeeps, hreply⟩ := keeps_performOn hperform
  obtain rfl : command = performed := Option.some.inj (hcommand.symm.trans hperformed)
  rw [answerOn, hperform]
  exact ⟨hkeeps, hreply⟩

/-- **Commands are atomic and touch only what they name.**  The reply tells of an error exactly
if the command has failed, and of none exactly if the text is a command that has what it needs.
After an error the device is as it was; otherwise it is within the bounds of the command.  A
configuration is always carried out, and of the device that was there nothing is left. -/
theorem answerOn_atomic (refused : String → String → Option String) (device : Device)
    (text : String) (now : Reading) :
    ((device.answerOn refused text now).reply.tellsError = true ↔
        ∃ cause, device.performOn refused text now = .error cause) ∧
      ((device.answerOn refused text now).reply.tellsError = false ↔
        ∃ command, Command.ofText? text = some command ∧ device.Allows refused command) ∧
      (if (device.answerOn refused text now).reply.tellsError then
        (device.answerOn refused text now).device = device
      else
        ∃ command, Command.ofText? text = some command ∧
          command.Keeps device (device.answerOn refused text now).device) ∧
      ∀ config, Command.ofText? text = some (.configure config) →
        (device.answerOn refused text now).reply.tellsError = false ∧
          (device.answerOn refused text now).device = Device.ofConfig config := by
  have hconfigure : ∀ config, Command.ofText? text = some (.configure config) →
      (device.answerOn refused text now).reply.tellsError = false ∧
        (device.answerOn refused text now).device = Device.ofConfig config := by
    intro config hcommand
    exact (answerOn_of_command hcommand trivial).symm
  cases hperform : device.performOn refused text now with
  | error cause =>
      have hanswer : device.answerOn refused text now =
          device.saying (.obj [("error", .str cause)]) := by
        rw [answerOn, hperform]
      -- A command that had what it needs would have been performed.
      have hlacks : ∀ command, Command.ofText? text = some command →
          ¬ device.Allows refused command := by
        intro command hcommand hallows
        obtain ⟨outcome, hdone⟩ := (performOn_ok_iff now hcommand).mpr hallows
        cases hperform.symm.trans hdone
      refine ⟨?_, ?_, ?_, hconfigure⟩ <;> rw [hanswer]
      · exact ⟨fun _ => ⟨cause, rfl⟩, fun _ => rfl⟩
      · refine ⟨nofun, ?_⟩
        rintro ⟨command, hcommand, hallows⟩
        exact absurd hallows (hlacks command hcommand)
      · rfl
  | ok outcome =>
      have hanswer : device.answerOn refused text now = outcome := by rw [answerOn, hperform]
      obtain ⟨command, hcommand, hkeeps, hreply⟩ := keeps_performOn hperform
      have hallows := (performOn_ok_iff now hcommand).mp ⟨outcome, hperform⟩
      refine ⟨?_, ?_, ?_, hconfigure⟩ <;> rw [hanswer, hreply]
      · simp
      · exact ⟨fun _ => ⟨command, hcommand, hallows⟩, fun _ => rfl⟩
      · exact ⟨command, hcommand, hkeeps⟩

/-- A device with a point and a log that holds a record is configured anew on a machine that
refuses every file: only what the configuration names is there afterwards. -/
theorem answerOn_atomic_configured :
    let point : PointRef × Point := (⟨.binaryValue, 1⟩, ⟨"pump", 0, .binary, FlagSet.empty⟩)
    let now : Reading := ⟨⟨2025, 5, 6, by decide⟩, 36180, 0, by decide, by decide⟩
    let log := ((TrendLog.ofConfig (.of 1 "runs")).record ⟨.unsigned 7, FlagSet.empty⟩ now).1
    let device : Device := ⟨.usual, ⟨[point]⟩, ⟨[log]⟩⟩
    let text := "\x7b\"cmd\":\"config\",\"config\":" ++
      "\x7b\"trendlogs\":[\x7b\"instance\":2,\"name\":\"b\"\x7d]\x7d\x7d"
    let config : DeviceConfig :=
      { DeviceConfig.usual with logs := [.obj [("instance", .int 2), ("name", .str "b")]] }
    let answered := device.answerOn (fun _ _ => some "no room") text now
    log.ring.records.length = 1 ∧ Command.ofText? text = some (.configure config) ∧
      answered.reply.tellsError = false ∧ answered.device = ofConfig config ∧
      answered.device.points.entries.map Prod.fst = [] ∧
      answered.device.archive.logs.map (fun log => (log.number, log.ring.records)) = [(2, [])] := by
  intro point now log device text config answered
  -- The reader of texts is a mutual recursion, which `rfl` alone does not unfold.
  have hdocument : Json.parse? text =
      some (.obj [("cmd", .str "config"), ("config", .obj [("trendlogs", .arr config.logs)])]) := by
    simp only [text, config]
    with_unfolding_all rfl
  have hcommand : Command.ofText? text = some (.configure config) := by
    rw [Command.ofText?, hdocument]
    rfl
  obtain ⟨-, -, -, hconfigured⟩ := answerOn_atomic (fun _ _ => some "no room") device text now
  obtain ⟨hreply, hdevice⟩ := hconfigured config hcommand
  refine ⟨rfl, hcommand, hreply, hdevice, ?_, ?_⟩
  · rw [hdevice]
    rfl
  · rw [hdevice]
    decide +kernel

end Device

end Historian
