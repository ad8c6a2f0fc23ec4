import Historian.Proofs.Log.Page
import Mathlib.Data.List.Perm.Subperm

/-!
# How much of a log a page gives away

A reader states how many records it wants.  Of positions and sequence numbers it never gets
more (`Selection.count_le_of_byPosition`).  Of times it never gets more records on the wanted
side, but with them come the records that happen to lie between two of those, if the clock
has been set back in the meantime.  `Page.limited_of_answer` says so of what is decoded from
a page.

## Strategy

The matches that are collected are the nearest ones, so nothing that matches lies between two
of them without being one of them (`Selection.mem_timeMatches_of_between`).
-/

namespace Historian

/-- A record lies on the side of a reference time that a count looks to: not before it for a
positive count, and else not after it. -/
def LogRecord.OnSide (reference : Stamp) (count : Int) (record : LogRecord) : Prop :=
  if 0 < count then reference ≤ record.stamp else record.stamp ≤ reference

instance (reference : Stamp) (count : Int) (record : LogRecord) :
    Decidable (record.OnSide reference count) := by
  unfold LogRecord.OnSide
  infer_instance

/-- The record at an index of a log, if there is one, lies on the wanted side. -/
def LogView.Matches (view : LogView) (reference : Stamp) (count : Int) (index : Nat) : Prop :=
  ∃ record, view.record? index = some record ∧ record.OnSide reference count

namespace LogView

theorem Matches.onSide {view : LogView} {reference : Stamp} {count : Int} {index : Nat}
    {record : LogRecord} (hmatches : view.Matches reference count index)
    (hrecord : view.record? index = some record) : record.OnSide reference count := by
  obtain ⟨found, hfound, hside⟩ := hmatches
  rw [hrecord] at hfound
  cases hfound
  exact hside

/-- No stamp of a log is before that of an older record. -/
def Ordered (view : LogView) : Prop :=
  ∀ older newer first second, older ≤ newer → view.record? older = some first →
    view.record? newer = some second → first.stamp ≤ second.stamp

/-- No record off the wanted side of a time lies between two records on it. -/
def Unbroken (view : LogView) (reference : Stamp) (count : Int) : Prop :=
  ∀ lower index higher record, lower ≤ index → index ≤ higher →
    view.Matches reference count lower → view.Matches reference count higher →
    view.record? index = some record → record.OnSide reference count

theorem Ordered.unbroken {view : LogView} (hordered : view.Ordered) (reference : Stamp)
    (count : Int) : view.Unbroken reference count := by
  rintro lower index higher record hlow hhigh ⟨first, hfirst, hafter⟩ ⟨last, hlast, hbefore⟩ hrecord
  have hfrom := hordered lower index first record hlow hfirst hrecord
  have hto := hordered index higher record last hhigh hrecord hlast
  by_cases hforward : 0 < count
  · simp only [LogRecord.OnSide, if_pos hforward] at hafter ⊢
    exact Nat.le_trans hafter hfrom
  · simp only [LogRecord.OnSide, if_neg hforward] at hbefore ⊢
    exact Nat.le_trans hto hbefore

end LogView

namespace Selection

variable {view : LogView} {reference : Stamp} {count : Int} {span : Span} {index : Nat}

/-! ## Positions -/

theorem count_le_of_byPosition {position size : Nat}
    (hspan : byPosition position size count = some span) : span.count ≤ count.natAbs := by
  obtain ⟨-, rfl | rfl⟩ := byPosition_cases hspan
  · exact Nat.le_trans (Nat.min_le_left _ _) (by omega)
  · simp only
    omega

/-! ## Times -/

theorem matchesTime_iff :
    matchesTime view reference (decide (0 < count)) index = true ↔
      view.Matches reference count index := by
  unfold matchesTime LogView.Matches LogRecord.OnSide
  cases view.record? index with
  | none => simp
  | some record => by_cases hforward : 0 < count <;> simp [hforward]

/-- The order in which the indexes of a log are looked at. -/
def Earlier (count : Int) (first second : Nat) : Prop :=
  if 0 < count then first < second else second < first

theorem pairwise_scan (size : Nat) (count : Int) :
    (scan size (decide (0 < count))).Pairwise (Earlier count) := by
  have hrange := List.pairwise_lt_range (n := size)
  unfold scan Earlier
  by_cases hforward : 0 < count
  · simpa [hforward] using hrange
  · simpa [hforward, List.pairwise_reverse] using hrange

/-- What comes no later than something taken from a sorted list is taken as well. -/
theorem mem_take_of_not_rel {α : Type} {relation : α → α → Prop} {list : List α} {size : Nat}
    {taken other : α} (hsorted : list.Pairwise relation) (htaken : taken ∈ list.take size)
    (hother : other ∈ list) (hnot : ¬ relation taken other) : other ∈ list.take size := by
  rw [← List.take_append_drop size list] at hsorted hother
  rcases List.mem_append.mp hother with hmem | hmem
  · exact hmem
  · exact absurd ((List.pairwise_append.mp hsorted).2.2 taken htaken other hmem) hnot

theorem mem_scan {size : Nat} {forward : Bool} : index ∈ scan size forward ↔ index < size := by
  unfold scan
  split <;> simp

/-- Only matches are collected. -/
theorem matches_of_mem_timeMatches (hmem : index ∈ timeMatches view reference count) :
    view.Matches reference count index :=
  matchesTime_iff.mp (List.mem_filter.mp (List.mem_of_mem_take hmem)).2

/-- **The matches that are collected are the nearest ones**: any that lies between two of them
is one of them. -/
theorem mem_timeMatches_of_between {lowest highest : Nat}
    (hlowest : lowest ∈ timeMatches view reference count)
    (hhighest : highest ∈ timeMatches view reference count)
    (hlow : lowest ≤ index) (hhigh : index ≤ highest)
    (hmatches : view.Matches reference count index) :
    index ∈ timeMatches view reference count := by
  have hlt : index < view.count.toNat := Nat.lt_of_le_of_lt hhigh (lt_of_mem_timeMatches hhighest)
  have hfound : index ∈ (scan view.count.toNat (decide (0 < count))).filter
      (matchesTime view reference (decide (0 < count))) :=
    List.mem_filter.mpr ⟨mem_scan.mpr hlt, matchesTime_iff.mpr hmatches⟩
  have hsorted := (pairwise_scan view.count.toNat count).filter
    (matchesTime view reference (decide (0 < count)))
  by_cases hforward : 0 < count
  · refine mem_take_of_not_rel hsorted hhighest hfound ?_
    rw [Earlier, if_pos hforward]
    exact Nat.not_lt_of_le hhigh
  · refine mem_take_of_not_rel hsorted hlowest hfound ?_
    rw [Earlier, if_neg hforward]
    exact Nat.not_lt_of_le hlow

theorem length_timeMatches_le : (timeMatches view reference count).length ≤ count.natAbs :=
  List.length_take_le _ _

/-- The span of a time goes from one of the matches to another. -/
theorem of_byTime (hspan : byTime view reference count = some span) :
    span.start ∈ timeMatches view reference count ∧
      span.start + (span.count - 1) ∈ timeMatches view reference count := by
  simp only [byTime] at hspan
  split at hspan
  · rename_i lowest highest hlowest hhighest
    have hle := (List.max?_eq_some_iff.mp hhighest).2 lowest (List.min?_mem hlowest)
    rw [← Option.some.inj hspan]
    refine ⟨List.min?_mem hlowest, ?_⟩
    have hstop : lowest + (highest - lowest + 1 - 1) = highest := by omega
    rw [hstop]
    exact List.max?_mem hhighest
  · cases hspan

end Selection

namespace Page

variable {view : LogView} {span : Span} {reference : Stamp} {count : Int}
  {entries : List (Nat × LogRecord)}

/-! ## The records of a span -/

theorem mem_selected {entry : Nat × LogRecord} :
    entry ∈ selected view (some span) ↔
      (span.start ≤ entry.1 ∧ entry.1 < span.stop) ∧ view.record? entry.1 = some entry.2 := by
  simp only [selected, Option.elim, List.mem_filterMap, Span.indexes, List.mem_range'_1,
    Option.map_eq_some_iff, Span.stop]
  constructor
  · rintro ⟨index, hindex, record, hrecord, rfl⟩
    exact ⟨hindex, hrecord⟩
  · rintro ⟨hindex, hrecord⟩
    exact ⟨entry.1, hindex, entry.2, hrecord, rfl⟩

theorem pairwise_selected (view : LogView) (span : Option Span) :
    (selected view span).Pairwise fun first second => first.1 < second.1 := by
  have hindexes : (span.elim [] Span.indexes).Pairwise (· < ·) := by
    cases span with
    | none => exact List.Pairwise.nil
    | some span => exact List.pairwise_lt_range'
  refine List.pairwise_filterMap.mpr (hindexes.imp ?_)
  intro first second hlt one hone two htwo
  obtain ⟨_, -, rfl⟩ := Option.map_eq_some_iff.mp hone
  obtain ⟨_, -, rfl⟩ := Option.map_eq_some_iff.mp htwo
  exact hlt

theorem length_le_of_prefix (hentries : entries <+: selected view (some span)) :
    entries.length ≤ span.count := by
  have hall := length_recordsIn_le view span
  rw [recordsIn_eq] at hall
  exact Nat.le_trans hentries.length_le hall

/-! ## Around a time -/

/-- What a page holds that was asked for by a time. -/
structure AroundTime (view : LogView) (reference : Stamp) (count : Int)
    (entries : List (Nat × LogRecord)) : Prop where
  /-- No more records on the wanted side than are wanted. -/
  limited : (entries.filter fun entry => entry.2.OnSide reference count).length ≤ count.natAbs
  /-- The first record is one of them. -/
  first : ∀ entry ∈ entries.head?, entry.2.OnSide reference count
  /-- Any other lies between two of the log. -/
  enclosed : ∀ entry ∈ entries, ¬ entry.2.OnSide reference count →
    ∃ lower higher, lower < entry.1 ∧ entry.1 < higher ∧
      view.Matches reference count lower ∧ view.Matches reference count higher
  /-- There is no other if the log holds none between two of them. -/
  unbroken : view.Unbroken reference count →
    entries.length ≤ count.natAbs ∧ ∀ entry ∈ entries, entry.2.OnSide reference count
  /-- In particular if the clock has not been set back. -/
  ordered : view.Ordered →
    entries.length ≤ count.natAbs ∧ ∀ entry ∈ entries, entry.2.OnSide reference count

section

variable (hspan : Selection.byTime view reference count = some span)
  (hentries : entries <+: selected view (some span))

include hspan hentries

/-- The records on the wanted side are among the matches that were collected. -/
theorem length_filter_onSide_le :
    (entries.filter fun entry => entry.2.OnSide reference count).length ≤ count.natAbs := by
  obtain ⟨hlowest, hhighest⟩ := Selection.of_byTime hspan
  have hnodup : ((entries.filter fun entry => entry.2.OnSide reference count).map
      Prod.fst).Nodup := by
    have hsorted := ((pairwise_selected view (some span)).sublist hentries.sublist).filter
      fun entry => entry.2.OnSide reference count
    exact List.pairwise_map.mpr (hsorted.imp Nat.ne_of_lt)
  have hsubset : (entries.filter fun entry => entry.2.OnSide reference count).map Prod.fst ⊆
      Selection.timeMatches view reference count := by
    intro index hindex
    obtain ⟨entry, hentry, rfl⟩ := List.mem_map.mp hindex
    obtain ⟨hmem, hside⟩ := List.mem_filter.mp hentry
    obtain ⟨hinside, hrecord⟩ := mem_selected.mp (hentries.subset hmem)
    unfold Span.stop at hinside
    exact Selection.mem_timeMatches_of_between hlowest hhighest hinside.1 (by omega)
      ⟨entry.2, hrecord, of_decide_eq_true hside⟩
  have hlength := (hnodup.subperm hsubset).length_le
  rw [List.length_map] at hlength
  exact Nat.le_trans hlength Selection.length_timeMatches_le

theorem onSide_of_mem_head {entry : Nat × LogRecord} (hentry : entry ∈ entries.head?) :
    entry.2.OnSide reference count := by
  have hlowest := Selection.matches_of_mem_timeMatches (Selection.of_byTime hspan).1
  obtain ⟨rest, hrest⟩ := List.head?_eq_some_iff.mp hentry
  obtain ⟨tail, htail⟩ := hentries
  have hsorted := pairwise_selected view (some span)
  rw [← htail, hrest, List.cons_append, List.pairwise_cons] at hsorted
  have hmem : entry ∈ selected view (some span) := by
    rw [← htail, hrest]
    exact List.mem_cons_self
  obtain ⟨hinside, hrecord⟩ := mem_selected.mp hmem
  -- The record at the start of the span is selected, so none before it is the first.
  have hstart : span.start = entry.1 := by
    obtain ⟨record, hfound, -⟩ := hlowest
    have hpos : span.start < span.stop := Nat.lt_of_le_of_lt hinside.1 hinside.2
    have hselected : (span.start, record) ∈ selected view (some span) :=
      mem_selected.mpr ⟨⟨Nat.le_refl _, hpos⟩, hfound⟩
    rw [← htail, hrest, List.cons_append] at hselected
    rcases List.mem_cons.mp hselected with heq | hlater
    · exact congrArg Prod.fst heq
    · exact absurd (hsorted.1 _ hlater) (Nat.not_lt_of_le hinside.1)
  rw [hstart] at hlowest
  exact hlowest.onSide hrecord

theorem enclosed_of_not_onSide {entry : Nat × LogRecord} (hmem : entry ∈ entries)
    (hoff : ¬ entry.2.OnSide reference count) :
    ∃ lower higher, lower < entry.1 ∧ entry.1 < higher ∧
      view.Matches reference count lower ∧ view.Matches reference count higher := by
  obtain ⟨hlowest, hhighest⟩ := Selection.of_byTime hspan
  have hlow := Selection.matches_of_mem_timeMatches hlowest
  have hhigh := Selection.matches_of_mem_timeMatches hhighest
  obtain ⟨hinside, hrecord⟩ := mem_selected.mp (hentries.subset hmem)
  have hnotLow : span.start ≠ entry.1 := by
    intro heq
    rw [heq] at hlow
    exact hoff (hlow.onSide hrecord)
  have hnotHigh : span.start + (span.count - 1) ≠ entry.1 := by
    intro heq
    rw [heq] at hhigh
    exact hoff (hhigh.onSide hrecord)
  unfold Span.stop at hinside
  exact ⟨span.start, span.start + (span.count - 1), by omega, by omega, hlow, hhigh⟩

/-- **A page holds no more records on the wanted side of a time than are wanted, and of the
others only such as lie between two of the log.** -/
theorem aroundTime_of_byTime : AroundTime view reference count entries := by
  have hunbroken : view.Unbroken reference count →
      entries.length ≤ count.natAbs ∧ ∀ entry ∈ entries, entry.2.OnSide reference count := by
    intro hunbroken
    have hside : ∀ entry ∈ entries, entry.2.OnSide reference count := by
      intro entry hmem
      by_contra hoff
      obtain ⟨lower, higher, hlow, hhigh, hlower, hhigher⟩ :=
        enclosed_of_not_onSide hspan hentries hmem hoff
      have hrecord := (mem_selected.mp (hentries.subset hmem)).2
      exact hoff (hunbroken lower entry.1 higher entry.2 (Nat.le_of_lt hlow) (Nat.le_of_lt hhigh)
        hlower hhigher hrecord)
    have hlimited := length_filter_onSide_le hspan hentries
    rw [List.filter_eq_self.mpr fun entry hmem => decide_eq_true (hside entry hmem)] at hlimited
    exact ⟨hlimited, hside⟩
  exact {
    limited := length_filter_onSide_le hspan hentries
    first := fun _ => onSide_of_mem_head hspan hentries
    enclosed := fun _ => enclosed_of_not_onSide hspan hentries
    unbroken := hunbroken
    ordered := fun hordered => hunbroken (hordered.unbroken reference count) }

end

/-! ## Every range -/

/-- How many records a range may be answered with, and which. -/
def Limited (view : LogView) (range : Range) (entries : List (Nat × LogRecord)) : Prop :=
  match range with
  | .byPosition _ count | .bySequence _ count => entries.length ≤ count.toInt.natAbs
  | .byTime reference count => AroundTime view reference count.toInt entries
  | .all | .unsupported _ => True

theorem limited_nil (view : LogView) (range : Range) : Limited view range [] := by
  cases range with
  | byTime reference count =>
      have hnone : ∀ entry ∈ ([] : List (Nat × LogRecord)), entry.2.OnSide reference count.toInt :=
        fun _ hmem => absurd hmem List.not_mem_nil
      exact ⟨Nat.zero_le _, nofun, nofun, fun _ => ⟨Nat.zero_le _, hnone⟩,
        fun _ => ⟨Nat.zero_le _, hnone⟩⟩
  | _ => simp [Limited]

theorem limited_of_resolve {range : Range} {span : Option Span}
    (hresolve : view.resolve range = .ok span) (hentries : entries <+: selected view span) :
    Limited view range entries := by
  cases span with
  | none =>
      obtain rfl : entries = [] := List.prefix_nil.mp hentries
      exact limited_nil view range
  | some span =>
      have hlength := length_le_of_prefix hentries
      have hselects := LogView.selects_of_resolve hresolve
      cases range with
      | byPosition reference count =>
          exact Nat.le_trans hlength (Selection.count_le_of_byPosition hselects.2)
      | bySequence reference count =>
          obtain ⟨position, -, hspan⟩ := hselects
          exact Nat.le_trans hlength (Selection.count_le_of_byPosition hspan)
      | byTime reference count => exact aroundTime_of_byTime hselects hentries
      | all => trivial
      | unsupported choice => trivial

/-- Whoever decodes a page gets the first records of the selection. -/
theorem exists_read_of_answer {repository : Repository} {request : RangeRequest}
    {out after : Octets} {page : Page}
    (hanswer : answer repository request out = (.ok page, after)) :
    ∃ view span entries ack,
      locate repository request = .ok (view, span) ∧ entries <+: selected view span ∧
      entries.length = page.count.toNat ∧
      RangeAck.decode (after.take page.length) = .ok (ack, []) ∧
      ack.items = entries.map fun entry => entry.2.received := by
  obtain ⟨view, span, flags, entries, hlocate, hentries, hsmall, -, rfl, -, hoctets⟩ :=
    exists_sending_of_answer hanswer
  rw [hoctets]
  exact ⟨view, span, entries, _, hlocate, hentries, (UInt32.toNat_ofNat_of_lt' hsmall).symm,
    RangeAck.decode_encode _ (firstSequence_ackOf_ne _ _ _ _), List.map_map⟩

/-- **A page gives away no more than its range allows.**  So says whoever decodes it: the items
are records of the log, in order, as many as the page counts. -/
theorem limited_of_answer {repository : Repository} {request : RangeRequest} {out after : Octets}
    {page : Page} (hanswer : answer repository request out = (.ok page, after)) :
    ∃ view ack entries,
      repository request.object.number = some view ∧
      RangeAck.decode (after.take page.length) = .ok (ack, []) ∧
      ack.items = entries.map (fun entry => entry.2.received) ∧
      entries.length = page.count.toNat ∧
      (∀ entry ∈ entries, view.record? entry.1 = some entry.2) ∧
      entries.Pairwise (fun first second => first.1 < second.1) ∧
      Limited view request.range entries := by
  obtain ⟨view, span, entries, ack, hlocate, hentries, hlength, hdecode, hitems⟩ :=
    exists_read_of_answer hanswer
  obtain ⟨-, hview, -, -, hresolve⟩ := (locate_eq_ok_iff _ _ _ _).mp hlocate
  refine ⟨view, ack, entries, hview, hdecode, hitems, hlength, ?_, ?_,
    limited_of_resolve hresolve hentries⟩
  · intro entry hmem
    have hselected := hentries.subset hmem
    cases span with
    | none => cases hselected
    | some span => exact (mem_selected.mp hselected).2
  · exact (pairwise_selected view span).sublist hentries.sublist

/-- Two records from 10:05 on are wanted of a log whose clock was set back for one record. -/
theorem limited_of_answer_setBack :
    let record : UInt8 → LogRecord := fun minute =>
      ⟨⟨⟨125, 3, 14, 5⟩, ⟨10, minute, 0, 0⟩⟩, .unsigned 2, FlagSet.empty⟩
    let view : LogView := ⟨3, 3, fun index => [record 5, record 0, record 6][index]?⟩
    let request : RangeRequest :=
      ⟨ObjectId.of .trendLog 1, .logBuffer, none, .byTime (record 5).stamp 2, 1⟩
    ∃ page after entries,
      answer (fun _ => some view) request (List.replicate 100 0) = (.ok page, after) ∧
      page.count = 3 ∧ entries.length = 3 ∧ AroundTime view (record 5).stamp 2 entries := by
  intro record view request
  have hfirst : (answer (fun _ => some view) request (List.replicate 100 0)).1 =
      .ok ⟨3, 1, ⟨3⟩, 73⟩ := by decide +kernel
  rcases hanswer : answer (fun _ => some view) request (List.replicate 100 0) with ⟨result, after⟩
  obtain rfl : result = .ok ⟨3, 1, ⟨3⟩, 73⟩ := by rw [← hfirst, hanswer]
  obtain ⟨_, ack, entries, hview, -, -, hlength, -, -, hlimited⟩ := limited_of_answer hanswer
  cases hview
  exact ⟨_, after, entries, rfl, rfl, hlength, hlimited⟩

/-- The record in between is returned as well, so that there are three. -/
theorem not_limited_setBack :
    let record : UInt8 → LogRecord := fun minute =>
      ⟨⟨⟨125, 3, 14, 5⟩, ⟨10, minute, 0, 0⟩⟩, .unsigned 2, FlagSet.empty⟩
    let view : LogView := ⟨3, 3, fun index => [record 5, record 0, record 6][index]?⟩
    let request : RangeRequest :=
      ⟨ObjectId.of .trendLog 1, .logBuffer, none, .byTime (record 5).stamp 2, 1⟩
    ∃ page after ack,
      answer (fun _ => some view) request (List.replicate 100 0) = (.ok page, after) ∧
      page.count = 3 ∧ RangeAck.decode (after.take page.length) = .ok (ack, []) ∧
      ack.items.length = 3 ∧ ∃ item ∈ ack.items, ¬ (record 5).stamp ≤ item.stamp := by
  intro record view request
  have hfirst : (answer (fun _ => some view) request (List.replicate 100 0)).1 =
      .ok ⟨3, 1, ⟨3⟩, 73⟩ := by decide +kernel
  rcases hanswer : answer (fun _ => some view) request (List.replicate 100 0) with ⟨result, after⟩
  obtain rfl : result = .ok ⟨3, 1, ⟨3⟩, 73⟩ := by rw [← hfirst, hanswer]
  obtain ⟨_, _, entries, ack, hlocate, hentries, hlength, hdecode, hitems⟩ :=
    exists_read_of_answer hanswer
  have hresolve : view.resolve request.range = .ok (some ⟨0, 3⟩) := by decide +kernel
  have hlocated := (locate_eq_ok_iff (fun _ => some view) request view _).mpr
    ⟨by decide, rfl, rfl, rfl, hresolve⟩
  rw [hlocated] at hlocate
  cases hlocate
  obtain rfl : entries = [(0, record 5), (1, record 0), (2, record 6)] :=
    hentries.eq_of_length hlength
  refine ⟨_, after, ack, rfl, rfl, hdecode, by rw [hitems]; rfl, (record 0).received, ?_, by decide⟩
  rw [hitems]
  exact List.mem_map.mpr ⟨(1, record 0), by simp, rfl⟩

end Page

end Historian
