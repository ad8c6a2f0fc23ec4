import Historian.Proofs.Device.Effect
import Historian.Proofs.Log.Follower

/-!
# Writing to a point over many connections

A value is stored in its point first and shown to the logs afterwards, and between these two
steps other connections may take steps of their own.  `Writers.turn` is one step of one
connection, and a run is any sequence of turns.

The point follows the order in which values are stored, and the logs follow the order in which
they are shown.  Every value is stored once and shown once, but nothing ties the two orders to
each other: a connection that is overtaken between its steps shows its value after a newer one.
`Writers.settles` says what points and logs hold once all calls have finished, and
`Writers.settles_overtaken` is a run after which the newest record of a log is not a sample of
the present value.  Connections that take both steps at once do keep the two orders equal
(`Writers.quiet_run`).

## Strategy

What is stored and what is shown is written down beside the device.  `Writers.Follows` relates
both lists to the calls that were made and to the state of point and log; `Writers.Turned` says
all that a turn can do, and `Follows` is kept by each of its cases.
-/

namespace Historian

/-- The sample in the newest record of a log. -/
def TrendLog.newestSample? (log : TrendLog) : Option Sample :=
  log.ring.records.getLast?.map fun record => ⟨record.datum, record.status⟩

/-! ## Turns -/

/-- A value to be written, and the time of the writing. -/
structure WriteCall where
  value : Float
  now : Reading

/-- A value that was stored, with the sample that resulted. -/
structure Written where
  call : WriteCall
  sample : Sample

namespace Written

/-- What is shown to the logs. -/
def observation (written : Written) : Sample × Reading := (written.sample, written.call.now)

/-- The record of what is shown. -/
def record (written : Written) : LogRecord := written.sample.recordAt written.call.now

end Written

/-- A connection with the values that it still has to write. -/
structure Connection where
  /-- The value that it has stored and not yet shown. -/
  held : Option Written
  calls : List WriteCall

/-- A device and the connections over which one of its points is written. -/
structure Writers where
  device : Device
  connections : List Connection
  /-- The values stored, oldest first. -/
  stored : List Written
  /-- The values shown to the logs, oldest first. -/
  shown : List Written

namespace Writers

/-- Nothing has been written yet. -/
def start (device : Device) (calls : List (List WriteCall)) : Writers :=
  ⟨device, calls.map fun calls => ⟨none, calls⟩, [], []⟩

/-- The next step of one connection: it shows the value that it holds, or stores its next one.  A
value that cannot be stored is dropped. -/
def turn (point : PointRef) (writers : Writers) (who : Nat) : Writers :=
  match writers.connections[who]? with
  | none | some ⟨none, []⟩ => writers
  | some ⟨some written, calls⟩ =>
      { writers with
        device := (writers.device.observe point written.sample written.call.now).1
        connections := writers.connections.set who ⟨none, calls⟩
        shown := writers.shown ++ [written] }
  | some ⟨none, call :: calls⟩ =>
      match writers.device.store point call.value with
      | .error _ => { writers with connections := writers.connections.set who ⟨none, calls⟩ }
      | .ok (device, sample) =>
          { writers with
            device := device
            connections := writers.connections.set who ⟨some ⟨call, sample⟩, calls⟩
            stored := writers.stored ++ [⟨call, sample⟩] }

/-- The turns of a schedule, one after the other. -/
def run (point : PointRef) (writers : Writers) (schedule : List Nat) : Writers :=
  schedule.foldl (turn point) writers

/-- All calls have finished. -/
def finished (writers : Writers) : Bool :=
  writers.connections.all fun connection =>
    connection.held.isNone && connection.calls.isEmpty

/-! ### What a turn can do -/

/-- One connection of many takes a step, and the others do not. -/
inductive Turned (point : PointRef) : Writers → Writers → Prop where
  | idle (writers : Writers) : Turned point writers writers
  | showing {device : Device} {front back : List Connection} {written : Written}
      {calls : List WriteCall} {stored shown : List Written} :
      Turned point ⟨device, front ++ ⟨some written, calls⟩ :: back, stored, shown⟩
        ⟨(device.observe point written.sample written.call.now).1,
          front ++ ⟨none, calls⟩ :: back, stored, shown ++ [written]⟩
  | storing {device later : Device} {sample : Sample} {front back : List Connection}
      {call : WriteCall} {calls : List WriteCall} {stored shown : List Written}
      (done : device.store point call.value = .ok (later, sample)) :
      Turned point ⟨device, front ++ ⟨none, call :: calls⟩ :: back, stored, shown⟩
        ⟨later, front ++ ⟨some ⟨call, sample⟩, calls⟩ :: back, stored ++ [⟨call, sample⟩], shown⟩
  | dropping {device : Device} {error : DeviceError} {front back : List Connection}
      {call : WriteCall} {calls : List WriteCall} {stored shown : List Written}
      (failed : device.store point call.value = .error error) :
      Turned point ⟨device, front ++ ⟨none, call :: calls⟩ :: back, stored, shown⟩
        ⟨device, front ++ ⟨none, calls⟩ :: back, stored, shown⟩

theorem exists_split_of_getElem?_eq_some {connections : List Connection} {who : Nat}
    {connection : Connection} (hwho : connections[who]? = some connection) :
    ∃ front back, connections = front ++ connection :: back ∧
      ∀ later, connections.set who later = front ++ later :: back := by
  obtain ⟨hlt, rfl⟩ := List.getElem?_eq_some_iff.mp hwho
  refine ⟨connections.take who, connections.drop (who + 1), ?_, fun later => ?_⟩
  · rw [← List.drop_eq_getElem_cons hlt, List.take_append_drop]
  · exact List.set_eq_take_append_cons_drop.trans (if_pos hlt)

theorem turned_turn (point : PointRef) (writers : Writers) (who : Nat) :
    Turned point writers (writers.turn point who) := by
  obtain ⟨device, connections, stored, shown⟩ := writers
  unfold turn
  cases hwho : connections[who]? with
  | none => exact .idle _
  | some connection =>
      obtain ⟨front, back, rfl, hset⟩ := exists_split_of_getElem?_eq_some hwho
      obtain ⟨held, calls⟩ := connection
      cases held with
      | some written =>
          simp only [hset]
          exact .showing
      | none =>
          cases calls with
          | nil => exact .idle _
          | cons call calls =>
              simp only [hset]
              cases hstore : device.store point call.value with
              | error error => exact .dropping hstore
              | ok result => exact .storing hstore

section

variable {point : PointRef} {writers : Writers} {who : Nat} {calls : List WriteCall}

theorem turn_of_held {written : Written}
    (hwho : writers.connections[who]? = some ⟨some written, calls⟩) :
    writers.turn point who =
      ⟨(writers.device.observe point written.sample written.call.now).1,
        writers.connections.set who ⟨none, calls⟩, writers.stored, writers.shown ++ [written]⟩ := by
  unfold turn
  rw [hwho]

theorem turn_of_store {call : WriteCall} {later : Device} {sample : Sample}
    (hwho : writers.connections[who]? = some ⟨none, call :: calls⟩)
    (hstore : writers.device.store point call.value = .ok (later, sample)) :
    writers.turn point who =
      ⟨later, writers.connections.set who ⟨some ⟨call, sample⟩, calls⟩,
        writers.stored ++ [⟨call, sample⟩], writers.shown⟩ := by
  unfold turn
  rw [hwho]
  simp only [hstore]

/-- **A connection that is not interrupted writes as `Device.write` does.** -/
theorem turn_turn_eq_write {call : WriteCall} {written : Device} {count : Nat}
    (hwho : writers.connections[who]? = some ⟨none, call :: calls⟩)
    (hwrite : writers.device.write point call.value call.now = .ok (written, count)) :
    ((writers.turn point who).turn point who).device = written := by
  obtain ⟨hlt, -⟩ := List.getElem?_eq_some_iff.mp hwho
  obtain ⟨⟨later, sample⟩, hstore, hshown⟩ := Archive.exists_of_map_eq_ok hwrite
  rw [turn_of_store hwho hstore, turn_of_held (List.getElem?_set_self hlt)]
  exact (congrArg Prod.fst hshown).symm

end

/-! ## What point and log follow -/

/-- The value stored last, or the one from before. -/
def present (kept : Point) (stored : List Written) : Float :=
  (stored.getLast?.map fun written => written.call.value).getD kept.presentValue

/-- The calls, the lists and the state of the device agree: `kept` is the point and `log` the log
with which the run has begun, and `all` are the calls that were made. -/
structure Follows (point : PointRef) (number : UInt32) (kept : Point) (log : TrendLog)
    (all : List WriteCall) (writers : Writers) : Prop where
  calls : (writers.stored.map Written.call ++
    writers.connections.flatMap Connection.calls).Perm all
  stored : (writers.shown ++ writers.connections.filterMap Connection.held).Perm writers.stored
  sampled : ∀ written ∈ writers.stored, written.sample = (kept.holding written.call.value).sample
  found : writers.device.points.get? point = some (kept.holding (present kept writers.stored))
  logged : writers.device.archive.get? number =
    some (log.run (TrendLog.observations point (writers.shown.map Written.observation)))

section

variable {point : PointRef} {number : UInt32} {kept : Point} {log : TrendLog}
  {all : List WriteCall} {writers later : Writers}

theorem store_eq {device : Device} (hpoint : device.points.get? point = some kept)
    (value : Float) :
    device.store point value =
      .ok ({ device with points := device.points.put point (kept.holding value) },
        (kept.holding value).sample) := by
  simp only [Device.store, PointTable.write?, hpoint, Option.map_some]
  rfl

theorem follows_start {device : Device} {calls : List (List WriteCall)}
    (hpoint : device.points.get? point = some kept)
    (hlog : device.archive.get? number = some log) :
    Follows point number kept log calls.flatten (start device calls) where
  calls := by simp [start, List.flatMap_map, List.flatMap_id']
  stored := by simp [start, List.filterMap_map]
  sampled := nofun
  found := hpoint
  logged := hlog

/-- **Every turn keeps calls, lists and device in agreement.** -/
theorem Follows.turn (hfollows : Follows point number kept log all writers)
    (hturned : Turned point writers later) : Follows point number kept log all later := by
  obtain ⟨hcalls, hstored, hsampled, hpoint, hlog⟩ := hfollows
  -- One case for each kind of turn.  A turn moves at most one value from a connection to the end of
  -- a list, so the lists stay permutations of one another.
  cases hturned with
  | idle => exact ⟨hcalls, hstored, hsampled, hpoint, hlog⟩
  | @showing device front back written calls stored shown =>
      refine ⟨by simpa using hcalls, ?_, hsampled, hpoint, ?_⟩
      · -- The value moves from the connection to the end of what is shown.
        simp only [List.filterMap_append, List.filterMap_cons, List.append_assoc,
          List.singleton_append] at hstored ⊢
        exact (List.perm_middle.symm.append_left shown).trans hstored
      · -- The log has one more observation at the end of its run.
        have hrun : log.run (TrendLog.observations point
            ((shown ++ [written]).map Written.observation)) =
              ((log.run (TrendLog.observations point (shown.map Written.observation))).observe
                point written.sample written.call.now).1 := by
          rw [TrendLog.observations, List.map_append, List.map_append, TrendLog.run_append]
          rfl
        have hstays :
            ¬ (Archive.Operation.observe point written.sample written.call.now).Ends number := id
        rw [hrun]
        exact Archive.get?_perform_of_some hlog hstays
  | @storing device changed sample front back call calls stored shown done =>
      rw [store_eq hpoint] at done
      cases done
      refine ⟨?_, ?_, ?_, ?_, hlog⟩
      · -- The call moves from the connection to the end of what is stored.
        simp only [List.map_append, List.map_cons, List.map_nil, List.flatMap_append,
          List.flatMap_cons, List.append_assoc, List.cons_append, List.nil_append] at hcalls ⊢
        exact (List.perm_middle.symm.append_left _).trans hcalls
      · -- What is newly stored is held by the connection until it is shown.
        simp only [List.filterMap_append, List.filterMap_cons] at hstored ⊢
        rw [← List.append_assoc] at hstored ⊢
        exact List.perm_middle.trans ((hstored.cons _).trans (List.perm_append_singleton _ _).symm)
      · intro written hwritten
        rcases List.mem_append.mp hwritten with hold | hnew
        · exact hsampled written hold
        · rw [List.mem_singleton.mp hnew]
          rfl
      · -- The value stored last is the present one.
        simp only [present, List.getLast?_concat, Option.map_some, Option.getD_some]
        exact (PointTable.get?_put hpoint point).trans (if_pos rfl)
  | dropping failed =>
      -- Storing cannot fail, as the point is there.
      rw [store_eq hpoint] at failed
      cases failed

theorem Follows.run (hfollows : Follows point number kept log all writers)
    (schedule : List Nat) : Follows point number kept log all (writers.run point schedule) := by
  induction schedule generalizing writers with
  | nil => exact hfollows
  | cons who rest ih => exact ih (hfollows.turn (turned_turn point writers who))

/-! ### Without overtaking -/

/-- No connection is between its steps, and values were shown in the order in which they were
stored. -/
structure Quiet (writers : Writers) : Prop where
  idle : ∀ connection ∈ writers.connections, connection.held = none
  ordered : writers.shown = writers.stored

/-- A connection that takes both steps at once keeps the order. -/
theorem Quiet.turn_turn (hquiet : writers.Quiet)
    (hpoint : writers.device.points.get? point = some kept) (who : Nat) :
    ((writers.turn point who).turn point who).Quiet := by
  cases hwho : writers.connections[who]? with
  | none =>
      have hsame : writers.turn point who = writers := by
        unfold turn
        rw [hwho]
      rwa [hsame, hsame]
  | some connection =>
      obtain ⟨held, calls⟩ := connection
      obtain rfl : held = none := hquiet.idle _ (List.mem_of_getElem? hwho)
      cases calls with
      | nil =>
          have hsame : writers.turn point who = writers := by
            unfold turn
            rw [hwho]
          rwa [hsame, hsame]
      | cons call calls =>
          -- The first turn stores the next value and the second shows it: both lists grow by the
          -- same value, and the connection holds nothing again.
          obtain ⟨hlt, -⟩ := List.getElem?_eq_some_iff.mp hwho
          rw [turn_of_store hwho (store_eq hpoint call.value),
            turn_of_held (List.getElem?_set_self hlt)]
          refine ⟨fun connection hmem => ?_, congrArg (· ++ [_]) hquiet.ordered⟩
          rw [List.set_set] at hmem
          rcases List.mem_or_eq_of_mem_set hmem with hold | rfl
          · exact hquiet.idle connection hold
          · rfl

/-- **Writes that do not overlap are logged in the order in which they take effect.** -/
theorem quiet_run (hfollows : Follows point number kept log all writers)
    (hquiet : writers.Quiet) (whos : List Nat) :
    (writers.run point (whos.flatMap fun who => [who, who])).Quiet := by
  induction whos generalizing writers with
  | nil => exact hquiet
  | cons who rest ih =>
      have htwice : Follows point number kept log all ((writers.turn point who).turn point who) :=
        (hfollows.turn (turned_turn point writers who)).turn (turned_turn point _ who)
      exact ih htwice (hquiet.turn_turn hfollows.found who)

theorem nothing_left (hfinished : writers.finished = true) :
    writers.connections.flatMap Connection.calls = [] ∧
      writers.connections.filterMap Connection.held = [] := by
  have hidle : ∀ connection ∈ writers.connections,
      connection.held = none ∧ connection.calls = [] := by
    simpa [finished] using hfinished
  rw [List.flatMap_eq_nil_iff, List.filterMap_eq_nil_iff]
  exact ⟨fun connection hmem => (hidle connection hmem).2,
    fun connection hmem => (hidle connection hmem).1⟩

end

/-! ## When all calls have finished -/

/-- No value is written, and none has been logged last, that stands for an infinite number or
for what is not a number. -/
def FiniteCalls (kept : Point) (log : TrendLog) (all : List WriteCall) : Prop :=
  (∀ value, log.lastValue = some value → value.isFinite = true) ∧
    ∀ call ∈ all, (kept.holding call.value).sample.Finite

/-- What point and log hold when all calls have finished; `later` is the log at that time. -/
structure Settled (point : PointRef) (number : UInt32) (kept : Point) (log : TrendLog)
    (all : List WriteCall) (final : Writers) (later : TrendLog) : Prop where
  /-- Every value has been stored once and shown once. -/
  calls : (final.stored.map Written.call).Perm all
  stored : final.shown.Perm final.stored
  sampled : ∀ written ∈ final.stored, written.sample = (kept.holding written.call.value).sample
  /-- The present value is the one that was stored last. -/
  found : final.device.points.get? point = some (kept.holding (present kept final.stored))
  logged : final.device.archive.get? number = some later
  /-- The log has taken what was shown and could be told apart, in the order in which it was
  shown. -/
  records : later.ring.records = (log.ring.records ++
    (Sample.distinct log.lastValue (final.shown.map Written.observation)).map
      fun pair => pair.1.recordAt pair.2).rtake log.config.bufferSize.toNat
  /-- Of finite values none is missing. -/
  finite : FiniteCalls kept log all → later.ring.records =
    (log.ring.records ++ final.shown.map Written.record).rtake log.config.bufferSize.toNat
  /-- The newest record is what was shown last. -/
  newest : FiniteCalls kept log all → ∀ last, final.shown.getLast? = some last →
    later.newestSample? = some last.sample
  /-- It is the sample of the present value if values were shown in the order in which they were
  stored. -/
  ordered : FiniteCalls kept log all → final.shown = final.stored → final.stored ≠ [] →
    later.newestSample? = some (kept.holding (present kept final.stored)).sample

theorem getLast?_rtake {α : Type} {count : Nat} (hcount : count ≠ 0) (list : List α) :
    (list.rtake count).getLast? = list.getLast? := by
  rw [List.rtake, List.getLast?_drop]
  split
  · have hnil : list = [] := List.length_eq_zero_iff.mp (by omega)
    rw [hnil]
    rfl
  · rfl

section

variable {point : PointRef} {number : UInt32} {kept : Point} {log : TrendLog}
  {all : List WriteCall} {final : Writers} {shown : List Written}

theorem distinct_of_finiteCalls (hfinite : FiniteCalls kept log all)
    (hshown : ∀ written ∈ shown, written.call ∈ all ∧
      written.sample = (kept.holding written.call.value).sample) :
    Sample.distinct log.lastValue (shown.map Written.observation) =
      shown.map Written.observation := by
  refine Sample.distinct_of_finite hfinite.1 fun pair hpair => ?_
  obtain ⟨written, hwritten, rfl⟩ := List.mem_map.mp hpair
  obtain ⟨hcall, hsample⟩ := hshown written hwritten
  have hnumber : written.sample.Finite := hsample ▸ hfinite.2 written.call hcall
  exact hnumber

theorem newestSample?_of_records {later : TrendLog} {before : List LogRecord} {last : Written}
    {size : Nat} (hsize : size ≠ 0)
    (hrecords : later.ring.records = (before ++ shown.map Written.record).rtake size)
    (hlast : shown.getLast? = some last) : later.newestSample? = some last.sample := by
  rw [TrendLog.newestSample?, hrecords, getLast?_rtake hsize, List.getLast?_append,
    List.getLast?_map, hlast]
  rfl

theorem Follows.settled (hfollows : Follows point number kept log all final)
    (hfinished : final.finished = true) (huse : log.InUse) (htakes : log.TakesAll point) :
    ∃ later, Settled point number kept log all final later := by
  obtain ⟨hcalls, hstored, hsampled, hfound, hlogged⟩ := hfollows
  -- With no call left and nothing held, the two permutations say that all calls were stored, and
  -- all that was stored was shown.
  obtain ⟨hnoCalls, hnoneHeld⟩ := nothing_left hfinished
  rw [hnoCalls, List.append_nil] at hcalls
  rw [hnoneHeld, List.append_nil] at hstored
  have hsize : log.config.bufferSize.toNat ≠ 0 :=
    fun hzero => huse.size_ne_zero (UInt32.toNat_inj.mp hzero)
  have hshown : ∀ written ∈ final.shown, written.call ∈ all ∧
      written.sample = (kept.holding written.call.value).sample := by
    intro written hwritten
    have hmem := hstored.mem_iff.mp hwritten
    exact ⟨hcalls.mem_iff.mp (List.mem_map_of_mem hmem), hsampled written hmem⟩
  have hrecords := htakes.records_observed huse (final.shown.map Written.observation)
  have hall : FiniteCalls kept log all →
      (log.run (TrendLog.observations point (final.shown.map Written.observation))).ring.records =
        (log.ring.records ++ final.shown.map Written.record).rtake
          log.config.bufferSize.toNat := by
    intro hfinite
    rw [hrecords, distinct_of_finiteCalls hfinite hshown, List.map_map]
    rfl
  refine ⟨_, hcalls, hstored, hsampled, hfound, hlogged, hrecords, hall, ?_, ?_⟩
  · exact fun hfinite last hlast => newestSample?_of_records hsize (hall hfinite) hlast
  · -- In equal orders the value stored last was also shown last.
    intro hfinite hsame hsome
    have hlast := List.getLast?_eq_some_getLast hsome
    have hshownLast : final.shown.getLast? = some (final.stored.getLast hsome) := by
      rw [hsame, hlast]
    rw [newestSample?_of_records hsize (hall hfinite) hshownLast,
      hsampled _ (List.getLast_mem hsome), present, hlast]
    rfl

end

/-- **Values take effect in the order in which they are stored, and are logged in the order in
which they are shown.** -/
theorem settles {device : Device} {point : PointRef} {number : UInt32} {kept : Point}
    {log : TrendLog} (hpoint : device.points.get? point = some kept)
    (hlog : device.archive.get? number = some log) (huse : log.InUse)
    (htakes : log.TakesAll point) (calls : List (List WriteCall)) (schedule : List Nat)
    (hfinished : ((start device calls).run point schedule).finished = true) :
    ∃ later, Settled point number kept log calls.flatten
      ((start device calls).run point schedule) later :=
  ((follows_start hpoint hlog).run schedule).settled hfinished huse htakes

/-- A connection that stores 1 is overtaken by one that writes 0, and shows its value after it: the
newest record is then not a sample of the present value. -/
theorem settles_overtaken :
    let point : PointRef := ⟨.binaryValue, 1⟩
    let kept : Point := ⟨"pump", 0, .binary, FlagSet.empty⟩
    let config : LogConfig :=
      { LogConfig.of 1 "runs" with trigger := .change, increment := 0, point := some point }
    let device : Device := ⟨.usual, ⟨[(point, kept)]⟩, ⟨[TrendLog.ofConfig config]⟩⟩
    let now : Reading := ⟨⟨2025, 5, 6, by decide⟩, 36180, 0, by decide, by decide⟩
    let final := (start device [[⟨1, now⟩], [⟨0, now⟩]]).run point [0, 1, 1, 0]
    final.finished = true ∧ ∃ later, final.device.archive.get? 1 = some later ∧
      later.ring.records = [(kept.holding 0).sample.recordAt now,
        (kept.holding 1).sample.recordAt now] ∧
      later.newestSample? = some (kept.holding 1).sample ∧
      final.device.points.get? point = some (kept.holding 0) ∧
      (kept.holding 1).sample ≠ (kept.holding 0).sample := by
  intro point kept config device now final
  have hfinished : final.finished = true := rfl
  have hpoint : device.points.get? point = some kept := rfl
  have hlog : device.archive.get? 1 = some (TrendLog.ofConfig config) := rfl
  have huse : (TrendLog.ofConfig config).InUse :=
    TrendLog.inUse_ofConfig (by decide) (by decide)
  have htakes : (TrendLog.ofConfig config).TakesAll point := ⟨rfl, by decide +kernel, rfl⟩
  have hone : (kept.holding 1).sample.datum = .enumerated 1 := by decide +kernel
  have hzero : (kept.holding 0).sample.datum = .enumerated 0 := by decide +kernel
  -- Both values are enumerated, so the numbers that are compared are finite.
  have hfinite : FiniteCalls kept (TrendLog.ofConfig config) [⟨1, now⟩, ⟨0, now⟩] := by
    refine ⟨nofun, List.forall_mem_cons.mpr ⟨?_, List.forall_mem_singleton.mpr ?_⟩⟩
    · intro value hvalue
      rw [hone] at hvalue
      cases hvalue
      decide +kernel
    · intro value hvalue
      rw [hzero] at hvalue
      cases hvalue
      decide +kernel
  obtain ⟨later, hsettled⟩ := settles hpoint hlog huse htakes [[⟨1, now⟩], [⟨0, now⟩]]
    [0, 1, 1, 0] hfinished
  refine ⟨hfinished, later, hsettled.logged, ?_, ?_, hsettled.found, ?_⟩
  · exact (hsettled.finite hfinite).trans (by decide +kernel)
  · exact hsettled.newest hfinite ⟨⟨1, now⟩, (kept.holding 1).sample⟩ rfl
  · decide +kernel

end Writers

end Historian
