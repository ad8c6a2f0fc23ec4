import Historian.Proofs.Log.Answer
import Historian.Proofs.Log.Limit
import Historian.Proofs.Log.Offers
import Historian.Proofs.Time.Instant
import Mathlib.Data.List.Sort

/-!
# Logs in order of time

If the clock is never set back, and stays within the years that stamps can tell apart, the
records of every log are in order of time, whatever was pushed out, cleared or turned down in the
meantime: their stamps are some of the stamps of the operations, in the order in which these came
(`TrendLog.Stamped`).

Of a log in order, a time selects exactly the records wanted: the first that are not before it,
or the last that are not after it (`Selection.records_byTime`).  In general there may be others
between them; here the matches that are collected fill their span.  `Archive.ordered_replay` puts
the two together.
-/

namespace Historian

/-! ## Stamps follow the clock -/

/-- A buffer that is offered a record keeps some of its own and has at most this one more. -/
theorem Ring.sublist_receive (ring : Ring) (stops : Bool) (record : LogRecord) :
    (ring.receive stops (.push record)).records.Sublist (ring.records ++ [record]) := by
  by_cases hturned : (stops && ring.isFull) = true
  · rw [receive, if_pos hturned]
    exact List.sublist_append_left _ _
  · rw [receive, if_neg hturned]
    unfold push
    split
    · exact (List.drop_sublist 1 ring.records).append (.refl [record])
    · exact .refl _

namespace TrendLog

/-- When a step is taken, if it looks at the clock. -/
def Step.now? : Step → Option Reading
  | .switch _ now | .record _ now | .sample now _ | .observe _ _ now => some now
  | .clear => none

theorem stamp_of_offer? {log : TrendLog} {taken : Step} {record : LogRecord}
    (hoffer : log.offer? taken = some record) :
    ∃ now, taken.now? = some now ∧ record.stamp = Stamp.ofReading now := by
  cases taken with
  | switch enable now =>
      obtain ⟨-, hsome⟩ := Option.ite_none_left_eq_some.mp hoffer
      rw [← Option.some.inj hsome]
      exact ⟨now, rfl, rfl⟩
  | clear => cases hoffer
  | record sample now =>
      obtain ⟨-, hsome⟩ := Option.ite_none_right_eq_some.mp hoffer
      rw [← Option.some.inj hsome]
      exact ⟨now, rfl, rfl⟩
  | sample now read =>
      obtain ⟨point, -, hoffered⟩ := Option.bind_eq_some_iff.mp hoffer
      obtain ⟨sample, -, rfl⟩ := Option.map_eq_some_iff.mp hoffered
      exact ⟨now, rfl, rfl⟩
  | observe point sample now =>
      obtain ⟨-, hsome⟩ := Option.ite_none_right_eq_some.mp hoffer
      rw [← Option.some.inj hsome]
      exact ⟨now, rfl, rfl⟩

/-- The stamps of a log are some of those of the times, in order. -/
def Stamped (log : TrendLog) (times : List Reading) : Prop :=
  (log.ring.records.map LogRecord.stamp).Sublist (times.map Stamp.ofReading)

theorem Stamped.step {log : TrendLog} {times : List Reading} (hstamped : log.Stamped times)
    (taken : Step) : (log.step taken).Stamped (times ++ taken.now?.toList) := by
  unfold Stamped
  rw [log.ring_step, List.map_append]
  have hkept := hstamped.trans (List.sublist_append_left _ (taken.now?.toList.map Stamp.ofReading))
  unfold acts
  split
  · exact List.nil_sublist _
  · cases hoffer : log.offer? taken with
    | none => exact hkept
    | some record =>
        obtain ⟨now, hnow, hstamp⟩ := stamp_of_offer? hoffer
        have hsublist := (log.ring.sublist_receive log.config.stopWhenFull record).map
          LogRecord.stamp
        rw [List.map_append, List.map_singleton, hstamp] at hsublist
        rw [hnow]
        exact hsublist.trans (hstamped.append (.refl _))

theorem stamped_run (config : LogConfig) (steps : List Step) :
    ((ofConfig config).run steps).Stamped (steps.filterMap Step.now?) := by
  induction steps using List.reverseRecOn with
  | nil => exact List.nil_sublist _
  | append_singleton earlier taken ih =>
      have hlast : [taken].filterMap Step.now? = taken.now?.toList := by
        cases hnow : taken.now? <;> simp [hnow]
      rw [run_append, List.filterMap_append, hlast]
      exact ih.step taken

end TrendLog

namespace Archive

/-- When an operation is done, if it looks at the clock. -/
def Operation.now? : Operation → Option Reading
  | .switch _ _ now | .record _ _ now | .samplePeriodic now _ | .observe _ _ now => some now
  | .add _ | .load _ | .remove _ | .clearAll | .clear _ => none

/-- What the clock shows in the course of a run. -/
def clock (operations : List Operation) : List Reading := operations.filterMap Operation.now?

/-- A log sees no other clock than the archive. -/
theorem sublist_clock (number : UInt32) (operations : List Operation) :
    ((life number operations).filterMap TrendLog.Step.now?).Sublist (clock operations) := by
  induction operations using List.reverseRecOn with
  | nil => exact .refl _
  | append_singleton earlier operation ih =>
      rw [life_append, clock, List.filterMap_append]
      split
      · rw [List.filterMap_append]
        refine ih.append ?_
        obtain hnone | ⟨taken, hgives, hone⟩ := (replay earlier).1.steps_cases number operation
        · rw [hnone]
          exact List.nil_sublist _
        · rw [hone]
          cases hgives <;> exact .refl _
      · exact List.nil_sublist _

end Archive

/-! ## What a time selects of a log in order -/

/-- The wanted ones of those found on a side of a time: the first for a positive count, and else
the last. -/
def nearest {α : Type} (count : Int) (found : List α) : List α :=
  if 0 < count then found.take count.natAbs else found.drop (found.length - count.natAbs)

theorem map_nearest {α β : Type} (change : α → β) (count : Int) (found : List α) :
    (nearest count found).map change = nearest count (found.map change) := by
  unfold nearest
  split
  · rw [List.map_take]
  · rw [List.map_drop, List.length_map]

theorem nearest_sublist {α : Type} (count : Int) (found : List α) :
    (nearest count found).Sublist found := by
  unfold nearest
  split
  · exact List.take_sublist _ _
  · exact List.drop_sublist _ _

/-- The nearest are chosen in the same way by their indexes. -/
theorem filterMap_nearest {α β : Type} {change : α → Option β} (count : Int) {found : List α}
    (hsome : ∀ one ∈ found, (change one).isSome) :
    (nearest count found).filterMap change = nearest count (found.filterMap change) := by
  have hall : found.map change = (found.filterMap change).map some := by
    induction found with
    | nil => rfl
    | cons one rest ih =>
        obtain ⟨hone, hrest⟩ := List.forall_mem_cons.mp hsome
        obtain ⟨changed, hchanged⟩ := Option.isSome_iff_exists.mp hone
        rw [List.map_cons, hchanged, List.filterMap_cons_some hchanged, List.map_cons, ih hrest]
  have hnearest := congrArg (List.filterMap id) (map_nearest change count found)
  rw [hall, ← map_nearest, List.filterMap_map, List.filterMap_map] at hnearest
  simpa using hnearest

namespace Selection

variable {view : LogView} {reference : Stamp} {count : Int} {index : Nat}

/-- The indexes of the records on the wanted side. -/
def matching (view : LogView) (reference : Stamp) (count : Int) : List Nat :=
  (List.range view.count.toNat).filter (matchesTime view reference (decide (0 < count)))

theorem pairwise_matching : (matching view reference count).Pairwise (· < ·) :=
  List.pairwise_lt_range.filter _

/-- The nearest matches are collected in the order of the log or against it. -/
theorem mem_timeMatches_iff :
    index ∈ timeMatches view reference count ↔
      index ∈ nearest count (matching view reference count) := by
  unfold timeMatches scan nearest matching
  by_cases hforward : 0 < count
  · simp [hforward]
  · simp [hforward, List.filter_reverse, List.take_reverse]

/-- The span of a time reaches from the lowest match that is collected to the highest, so that
none lies outside. -/
theorem mem_indexes_of_byTime {span : Span} (hspan : byTime view reference count = some span)
    (hmem : index ∈ timeMatches view reference count) : index ∈ span.indexes := by
  simp only [byTime] at hspan
  split at hspan
  · rename_i lowest highest hlowest hhighest
    have hlow := (List.min?_eq_some_iff.mp hlowest).2 index hmem
    have hhigh := (List.max?_eq_some_iff.mp hhighest).2 index hmem
    rw [← Option.some.inj hspan, Span.indexes, List.mem_range'_1]
    simp only
    omega
  · cases hspan

theorem timeMatches_of_byTime_eq_none (hnone : byTime view reference count = none) :
    timeMatches view reference count = [] := by
  simp only [byTime] at hnone
  cases hfound : timeMatches view reference count with
  | nil => rfl
  | cons first rest => simp [hfound, List.min?_cons, List.max?_cons] at hnone

/-- **In a log in order, the matches that are collected fill their span.** -/
theorem indexes_of_byTime (hordered : view.Ordered)
    (hfull : ∀ index < view.count.toNat, (view.record? index).isSome) :
    (byTime view reference count).elim [] Span.indexes =
      nearest count (matching view reference count) := by
  cases hspan : byTime view reference count with
  | none =>
      refine (List.eq_nil_iff_forall_not_mem.mpr fun index hmem => ?_).symm
      rw [← mem_timeMatches_iff, timeMatches_of_byTime_eq_none hspan] at hmem
      cases hmem
  | some span =>
      obtain ⟨hlowest, hhighest⟩ := of_byTime hspan
      have hindexes : span.indexes.Pairwise (· < ·) := List.pairwise_lt_range'
      have hnearest := pairwise_matching.sublist
        (nearest_sublist count (matching view reference count))
      refine hindexes.eq_of_mem_iff hnearest fun index => ?_
      rw [← mem_timeMatches_iff]
      refine ⟨fun hmem => ?_, mem_indexes_of_byTime hspan⟩
      obtain ⟨hlow, hhigh⟩ := List.mem_range'_1.mp hmem
      -- In a log in order, what lies between two matches matches, and so it was collected.
      have hlast : index ≤ span.start + (span.count - 1) := by omega
      obtain ⟨record, hrecord⟩ := Option.isSome_iff_exists.mp
        (hfull index (Nat.lt_of_le_of_lt hlast (lt_of_mem_timeMatches hhighest)))
      have hside := hordered.unbroken reference count _ index _ record hlow hlast
        (matches_of_mem_timeMatches hlowest) (matches_of_mem_timeMatches hhighest) hrecord
      exact mem_timeMatches_of_between hlowest hhighest hlow hlast ⟨record, hrecord, hside⟩

/-- The matches of a buffer are its records on the wanted side. -/
theorem filterMap_matching {ring : Ring} (hcount : ring.view.count.toNat = ring.records.length) :
    (matching ring.view reference count).filterMap ring.view.record? =
      ring.records.filter fun record => record.OnSide reference count := by
  have hall : ring.records =
      (List.range ring.records.length).filterMap fun index => ring.records[index]? := by
    rw [Page.filterMap_getElem?_range, List.take_length]
  conv_rhs => rw [hall]
  rw [matching, hcount, List.filterMap_filter, List.filter_filterMap]
  congr 1
  funext index
  change (if matchesTime ring.view reference (decide (0 < count)) index = true then
    ring.records[index]? else none) = _
  cases hrecord : ring.records[index]? with
  | none => exact ite_self none
  | some record =>
      have hmatches : matchesTime ring.view reference (decide (0 < count)) index = true ↔
          record.OnSide reference count := by
        rw [matchesTime_iff]
        exact ⟨fun hmatches => hmatches.onSide hrecord, fun hside => ⟨record, hrecord, hside⟩⟩
      by_cases hside : record.OnSide reference count
      · rw [if_pos (hmatches.mpr hside)]
        exact (if_pos (decide_eq_true hside)).symm
      · rw [if_neg (mt hmatches.mp hside)]
        exact (if_neg (mt of_decide_eq_true hside)).symm

/-- **A time selects of a buffer in order the nearest records on the wanted side.** -/
theorem records_byTime {ring : Ring} (hcount : ring.view.count.toNat = ring.records.length)
    (hordered : (ring.records.map LogRecord.stamp).Pairwise (· ≤ ·)) :
    (Page.selected ring.view (byTime ring.view reference count)).map Prod.snd =
      nearest count (ring.records.filter fun record => record.OnSide reference count) := by
  have hview : ring.view.Ordered := by
    intro older newer first second hle hfirst hsecond
    rcases Nat.eq_or_lt_of_le hle with rfl | hlt
    · rw [hfirst] at hsecond
      cases hsecond
      exact Nat.le_refl _
    · obtain ⟨hold, rfl⟩ := List.getElem?_eq_some_iff.mp hfirst
      obtain ⟨hnew, rfl⟩ := List.getElem?_eq_some_iff.mp hsecond
      exact List.pairwise_iff_getElem.mp (List.pairwise_map.mp hordered) _ _ hold hnew hlt
  have hfull : ∀ index < ring.view.count.toNat, (ring.view.record? index).isSome := by
    intro index hindex
    rw [hcount] at hindex
    exact Option.isSome_iff_exists.mpr ⟨_, List.getElem?_eq_getElem hindex⟩
  have hsome : ∀ index ∈ matching ring.view reference count, (ring.view.record? index).isSome :=
    fun index hmem => hfull index (List.mem_range.mp (List.mem_filter.mp hmem).1)
  rw [← filterMap_matching hcount, ← filterMap_nearest count hsome,
    ← indexes_of_byTime hview hfull, Page.selected, List.map_filterMap]
  congr 1
  funext index
  rw [Option.map_map]
  exact Option.map_id_apply

end Selection

namespace Archive

/-- **If the clock is never set back, every log is in order of time**, and a time selects of it
the first records that are not before it, or the last that are not after it. -/
theorem ordered_replay {operations : List Operation}
    (hforward : (clock operations).Pairwise (· ≤ ·))
    (hcovered : ∀ now ∈ clock operations, Stamp.Covers now) {log : TrendLog}
    (hlog : log ∈ (replay operations).1.logs) :
    (log.ring.records.map LogRecord.stamp).Pairwise (· ≤ ·) ∧
      ∀ (reference : Stamp) (count : Int32), ∃ span,
        log.view.resolve (.byTime reference count) = .ok span ∧
        (Page.selected log.view span).map Prod.snd =
          nearest count.toInt
            (log.ring.records.filter fun record => record.OnSide reference count.toInt) := by
  have hstamped := TrendLog.stamped_run log.config (life log.number operations)
  rw [← eq_run_life (get?_of_mem hlog)] at hstamped
  have hstamps : ((clock operations).map Stamp.ofReading).Pairwise (· ≤ ·) := by
    refine List.pairwise_map.mpr (hforward.imp_of_mem fun hearlier hlater hle => ?_)
    exact Stamp.ofReading_le (hcovered _ hearlier) (hcovered _ hlater) hle
  have hordered := hstamps.sublist
    (hstamped.trans ((sublist_clock log.number operations).map Stamp.ofReading))
  have hcount := ((follows_replay operations).inUse log hlog).toNat_count
  refine ⟨hordered, fun reference count => ?_⟩
  by_cases hempty : log.view.count = 0
  · have hnil : log.ring.records = [] := by
      rw [hempty] at hcount
      exact List.eq_nil_of_length_eq_zero hcount.symm
    refine ⟨none, LogView.resolve_of_empty hempty nofun, ?_⟩
    rw [hnil]
    simp [nearest, Page.selected]
  · have hresolve : log.view.resolve (.byTime reference count) =
        .ok (Selection.byTime log.view reference count.toInt) := by
      simp only [LogView.resolve, if_neg hempty]
    exact ⟨_, hresolve, Selection.records_byTime hcount hordered⟩

/-- A log with room for two records takes a sample before midnight, which is pushed out when it is
switched off and on after midnight.  The last record up to then is that of switching on. -/
theorem ordered_replay_midnight :
    let config : LogConfig := { LogConfig.of 1 "flow" with bufferSize := 2 }
    let before : Reading := ⟨⟨2025, 12, 31, by decide⟩, 86399, 1500000000, by decide, by decide⟩
    let after : Reading := ⟨⟨2026, 1, 1, by decide⟩, 0, 250000000, by decide, by decide⟩
    let operations : List Operation :=
      [.add config, .record 1 ⟨.unsigned 7, FlagSet.empty⟩ before, .switch 1 false after,
        .switch 1 true after]
    ∃ log ∈ (replay operations).1.logs,
      log.ring.records = [.ofSwitch false after, .ofSwitch true after] ∧
      ∃ span, log.view.resolve (.byTime (Stamp.ofReading after) (-1)) = .ok span ∧
        (Page.selected log.view span).map Prod.snd = [.ofSwitch true after] := by
  intro config before after operations
  have hforward : (clock operations).Pairwise (· ≤ ·) := by decide
  have hcovered : ∀ now ∈ clock operations, Stamp.Covers now := by decide
  obtain ⟨log, hlog, hrecords⟩ : ∃ log ∈ (replay operations).1.logs,
      log.ring.records = [.ofSwitch false after, .ofSwitch true after] :=
    ⟨_, List.mem_cons_self, by decide +kernel⟩
  obtain ⟨span, hresolve, hselected⟩ :=
    (ordered_replay hforward hcovered hlog).2 (Stamp.ofReading after) (-1)
  rw [hrecords] at hselected
  exact ⟨log, hlog, hrecords, span, hresolve, hselected.trans (by decide +kernel)⟩

end Archive

end Historian
