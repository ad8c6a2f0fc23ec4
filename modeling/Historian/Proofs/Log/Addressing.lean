import Historian.Proofs.Log.Reckoning
import Historian.Proofs.Log.Sequence

/-!
# Positions and sequence numbers name the same records

A record of a log has two names: its position, counted from the oldest, and its sequence number,
counted back from the count of records ever taken.  A position outside the log is refused, a
sequence number that no record has selects nothing, and apart from this the two select alike
(`LogView.addressed`).

## Strategy

The newest record of a log stands at some place whose number is the count; one cycle is added to
it, so that as many places lie before it as a log can hold.  Counting back is then subtraction of
places, the numbers of a log are those of consecutive places, fewer than a cycle, and a number is
in the log exactly if it is less far from the oldest than the log is long.
-/

namespace Historian

namespace LogView

/-- The sequence number of the record at an index, counted back from the newest. -/
def numberOf (view : LogView) (index : Nat) : UInt32 :=
  Sequence.back view.total (view.count.toNat - 1 - index)

/-- A position of a log.  The oldest record has position 1. -/
def HasPosition (view : LogView) (reference : UInt32) : Prop :=
  1 ≤ reference ∧ reference ≤ view.count

/-- How the records of a log are addressed, for one count. -/
structure Addressed (view : LogView) (count : Int32) : Prop where
  /-- Positions outside the log are refused, and nothing else is held against a position. -/
  refused : ∀ reference refusal, view.resolve (.byPosition reference count) = .error refusal ↔
    refusal = .invalidArrayIndex ∧ ¬ view.HasPosition reference
  forward : ∀ reference, view.HasPosition reference → 0 < count.toInt →
    ∃ span, view.resolve (.byPosition reference count) = .ok (some span) ∧
      (span.start : Int) = reference.toNat - 1 ∧
      (span.stop : Int) = min (reference.toNat - 1 + count.toInt) view.count.toNat
  backward : ∀ reference, view.HasPosition reference → count.toInt < 0 →
    ∃ span, view.resolve (.byPosition reference count) = .ok (some span) ∧
      (span.start : Int) = max 0 (reference.toNat - (count.toInt.natAbs : Int)) ∧
      (span.stop : Int) = reference.toNat
  nothing : ∀ reference, view.HasPosition reference → count.toInt = 0 →
    view.resolve (.byPosition reference count) = .ok none
  /-- The number of a record selects what its position does. -/
  numbered : ∀ index < view.count.toNat,
    view.resolve (.bySequence (view.numberOf index) count) =
      view.resolve (.byPosition (UInt32.ofNat (index + 1)) count)
  unique : ∀ first < view.count.toNat, ∀ second < view.count.toNat,
    view.numberOf first = view.numberOf second → first = second
  /-- Zero numbers no record. -/
  numberOf_ne_zero : ∀ index < view.count.toNat, view.numberOf index ≠ 0
  unnumbered : ∀ reference, (∀ index < view.count.toNat, view.numberOf index ≠ reference) →
    view.resolve (.bySequence reference count) = .ok none
  /-- No sequence number is refused. -/
  served : ∀ reference, ∃ selection, view.resolve (.bySequence reference count) = .ok selection
  whole : view.resolve .all = .ok (some ⟨0, view.count.toNat⟩)
  /-- No span is empty or reaches past the log, whatever the range. -/
  inside : ∀ range span, view.resolve range = .ok (some span) →
    0 < span.count ∧ span.stop ≤ view.count.toNat
  /-- On the way to the span and to its end, no sum or difference leaves the words. -/
  reckoned : ∀ range, ∃ result, view.reckon range = some result ∧
    result.map (Option.map WordSpan.toSpan) = view.resolve range ∧
    ∀ span, result = .ok (some span) → ∃ stop, Word.sum? span.start span.count = some stop ∧
      stop.toNat = span.toSpan.stop

variable {view : LogView} {count : Int32} {reference : UInt32} {index : Nat}

/-! ## Positions -/

theorem HasPosition.toNat (hposition : view.HasPosition reference) :
    0 < reference.toNat ∧ reference.toNat ≤ view.count.toNat :=
  ⟨UInt32.le_iff_toNat_le.mp hposition.1, UInt32.le_iff_toNat_le.mp hposition.2⟩

theorem HasPosition.of_index (hindex : index < view.count.toNat) :
    (UInt32.ofNat (index + 1)).toNat = index + 1 ∧
      view.HasPosition (UInt32.ofNat (index + 1)) := by
  have hbound := view.count.toNat_lt
  have hnat : (UInt32.ofNat (index + 1)).toNat = index + 1 :=
    UInt32.toNat_ofNat_of_lt' (Nat.lt_of_le_of_lt hindex hbound)
  refine ⟨hnat, ?_, ?_⟩
  · rw [UInt32.le_iff_toNat_le, hnat]
    exact Nat.succ_pos index
  · rw [UInt32.le_iff_toNat_le, hnat]
    exact hindex

theorem not_hasPosition_iff :
    ¬ view.HasPosition reference ↔ reference = 0 ∨ view.count < reference := by
  have hone : (1 : UInt32).toNat = 1 := rfl
  have hzero : reference = 0 ↔ reference.toNat = 0 := UInt32.toNat_inj.symm
  rw [HasPosition, hzero, UInt32.le_iff_toNat_le, UInt32.le_iff_toNat_le, UInt32.lt_iff_toNat_lt,
    hone]
  omega

theorem resolve_byPosition (hposition : view.HasPosition reference) (count : Int32) :
    view.resolve (.byPosition reference count) =
      .ok (Selection.byPosition reference.toNat view.count.toNat count.toInt) := by
  obtain ⟨hpos, hle⟩ := hposition.toNat
  have hsome : view.count ≠ 0 := count_ne_zero_of_lt (Nat.lt_of_lt_of_le hpos hle)
  have hinside : ¬ (reference = 0 ∨ view.count < reference) := by
    rw [← not_hasPosition_iff, Classical.not_not]
    exact hposition
  simp only [resolve, if_neg hsome, if_neg hinside]

theorem resolve_byPosition_eq_error_iff (hsome : view.count ≠ 0) (refusal : Refusal) :
    view.resolve (.byPosition reference count) = .error refusal ↔
      refusal = .invalidArrayIndex ∧ ¬ view.HasPosition reference := by
  by_cases hposition : view.HasPosition reference
  · rw [resolve_byPosition hposition]
    exact ⟨nofun, fun hout => absurd hposition hout.2⟩
  · rw [resolve_byPosition_outside hsome (not_hasPosition_iff.mp hposition), Except.error.injEq]
    exact ⟨fun heq => ⟨heq.symm, hposition⟩, fun hout => hout.1.symm⟩

theorem exists_resolve_forward (hposition : view.HasPosition reference) (hcount : 0 < count.toInt) :
    ∃ span, view.resolve (.byPosition reference count) = .ok (some span) ∧
      (span.start : Int) = reference.toNat - 1 ∧
      (span.stop : Int) = min (reference.toNat - 1 + count.toInt) view.count.toNat := by
  obtain ⟨hpos, hle⟩ := hposition.toNat
  have hplace : reference.toNat = reference.toNat - 1 + 1 := by omega
  rw [resolve_byPosition hposition, hplace,
    Selection.byPosition_forward (by omega : reference.toNat - 1 < _) hcount]
  refine ⟨_, rfl, ?_, ?_⟩
  · simp only
    omega
  · simp only [Span.stop]
    omega

theorem exists_resolve_backward (hposition : view.HasPosition reference)
    (hcount : count.toInt < 0) :
    ∃ span, view.resolve (.byPosition reference count) = .ok (some span) ∧
      (span.start : Int) = max 0 (reference.toNat - (count.toInt.natAbs : Int)) ∧
      (span.stop : Int) = reference.toNat := by
  obtain ⟨hpos, -⟩ := hposition.toNat
  rw [resolve_byPosition hposition, Selection.byPosition_backward hpos hcount]
  refine ⟨_, rfl, ?_, ?_⟩
  · simp only
    omega
  · simp only [Span.stop]
    omega

theorem resolve_byPosition_zero (hposition : view.HasPosition reference)
    (hcount : count.toInt = 0) : view.resolve (.byPosition reference count) = .ok none := by
  rw [resolve_byPosition hposition, hcount]
  simp [Selection.byPosition]

/-! ## Sequence numbers -/

/-- The place of the oldest record, one cycle after where it was first given. -/
def firstPlace (view : LogView) : Nat :=
  view.total.toNat - 1 + Sequence.cycle - (view.count.toNat - 1)

theorem firstPlace_add (view : LogView) :
    view.firstPlace + (view.count.toNat - 1) = view.total.toNat - 1 + Sequence.cycle := by
  have hbound := view.count.toNat_lt
  unfold firstPlace Sequence.cycle
  omega

theorem toNat_count_le_cycle (view : LogView) : view.count.toNat ≤ Sequence.cycle :=
  Nat.le_of_lt_succ view.count.toNat_lt

section

variable (htotal : view.total ≠ 0)

include htotal

theorem total_eq : view.total = Sequence.number (view.firstPlace + (view.count.toNat - 1)) := by
  rw [firstPlace_add, Sequence.number_add_cycle, Sequence.number_toNat_sub_one htotal]

theorem firstLive_eq_number (hsome : view.count ≠ 0) :
    view.firstLive = Sequence.number view.firstPlace := by
  have hlast : (view.count - 1).toNat = view.count.toNat - 1 :=
    UInt32.toNat_sub_of_le _ _ (UInt32.le_iff_toNat_le.mpr (count_pos hsome))
  rw [firstLive, total_eq htotal, Sequence.before_number (by omega), hlast, Nat.add_sub_cancel]

/-- The numbers of a log are those of consecutive places. -/
theorem numberOf_eq (hindex : index < view.count.toNat) :
    view.numberOf index = Sequence.number (view.firstPlace + index) := by
  have hplace : view.firstPlace + (view.count.toNat - 1) - (view.count.toNat - 1 - index) =
      view.firstPlace + index := by omega
  rw [numberOf, total_eq htotal, Sequence.back_number (by omega), hplace]

theorem distance_numberOf (hindex : index < view.count.toNat) :
    (Sequence.distance view.firstLive (view.numberOf index)).toNat = index := by
  have hsome := count_ne_zero_of_lt hindex
  have hcycle := view.toNat_count_le_cycle
  rw [firstLive_eq_number htotal hsome, numberOf_eq htotal hindex,
    Sequence.toNat_distance_number (Nat.le_add_right _ _) (by omega), Nat.add_sub_cancel_left]

/-- A number less far from the oldest than the log is long is that of a record. -/
theorem numberOf_distance (hsome : view.count ≠ 0) (hreference : reference ≠ 0)
    (hlive : (Sequence.distance view.firstLive reference).toNat < view.count.toNat) :
    view.numberOf (Sequence.distance view.firstLive reference).toNat = reference := by
  rw [numberOf_eq htotal hlive, firstLive_eq_number htotal hsome]
  have hfound := Sequence.number_add_distance view.firstPlace (reference.toNat - 1)
  rwa [Sequence.number_toNat_sub_one hreference] at hfound

theorem resolve_bySequence_numberOf (hindex : index < view.count.toNat) (count : Int32) :
    view.resolve (.bySequence (view.numberOf index) count) =
      view.resolve (.byPosition (UInt32.ofNat (index + 1)) count) := by
  obtain ⟨hnat, hposition⟩ := HasPosition.of_index hindex
  have hsome := count_ne_zero_of_lt hindex
  have hne : view.numberOf index ≠ 0 := by
    rw [numberOf_eq htotal hindex]
    exact Sequence.number_ne_zero _
  by_cases hcount : count.toInt = 0
  · rw [resolve_byPosition_zero hposition hcount]
    simp only [resolve, if_neg hsome, Selection.bySequence, if_pos (Or.inr hcount)]
  · have hneither : ¬ (view.numberOf index = 0 ∨ count.toInt = 0) := not_or.mpr ⟨hne, hcount⟩
    rw [resolve_byPosition hposition, hnat]
    simp only [resolve, if_neg hsome, Selection.bySequence, if_neg hneither,
      distance_numberOf htotal hindex, if_neg (Nat.not_le_of_lt hindex)]

theorem resolve_bySequence_unnumbered (hsome : view.count ≠ 0)
    (hother : ∀ index < view.count.toNat, view.numberOf index ≠ reference) :
    view.resolve (.bySequence reference count) = .ok none := by
  by_cases hreference : reference = 0
  · simp only [resolve, if_neg hsome, Selection.bySequence, if_pos (Or.inl hreference)]
  · refine resolve_bySequence_dead (Nat.le_of_not_lt fun hlive => ?_)
    exact hother _ hlive (numberOf_distance htotal hsome hreference hlive)

theorem numberOf_inj {first second : Nat} (hfirst : first < view.count.toNat)
    (hsecond : second < view.count.toNat) (heq : view.numberOf first = view.numberOf second) :
    first = second := by
  rw [← distance_numberOf htotal hfirst, heq, distance_numberOf htotal hsecond]

end

/-! ## Words -/

/-- The end of a span of a log is a word, like its start and its count. -/
theorem exists_reckoned (view : LogView) (range : Range) :
    ∃ result, view.reckon range = some result ∧
      result.map (Option.map WordSpan.toSpan) = view.resolve range ∧
      ∀ span, result = .ok (some span) → ∃ stop, Word.sum? span.start span.count = some stop ∧
        stop.toNat = span.toSpan.stop := by
  obtain ⟨result, hreckon, hresolve⟩ := view.reckon_resolve range
  refine ⟨result, hreckon, hresolve, ?_⟩
  rintro span rfl
  have hstop := (stop_le_of_resolve hresolve.symm).2
  exact Word.exists_sum? (Nat.lt_of_le_of_lt hstop view.count.toNat_lt_size)

/-! ## The two names -/

/-- **Positions and sequence numbers select alike**, and never outside the log. -/
theorem addressed (view : LogView) (hsome : view.count ≠ 0) (htotal : view.total ≠ 0)
    (count : Int32) : view.Addressed count where
  refused _ refusal := resolve_byPosition_eq_error_iff hsome refusal
  forward _ := exists_resolve_forward
  backward _ := exists_resolve_backward
  nothing _ := resolve_byPosition_zero
  numbered _ hindex := resolve_bySequence_numberOf htotal hindex count
  unique _ hfirst _ hsecond := numberOf_inj htotal hfirst hsecond
  numberOf_ne_zero _ hindex := by
    rw [numberOf_eq htotal hindex]
    exact Sequence.number_ne_zero _
  unnumbered _ := resolve_bySequence_unnumbered htotal hsome
  served _ := exists_resolve_of_served nofun nofun
  whole := resolve_all hsome
  inside _ _ := stop_le_of_resolve
  reckoned := view.exists_reckoned

/-- The numbers of five records have just started over: the oldest has 2³² − 3, the fourth 1.  The
least count goes back from the fourth to the oldest. -/
theorem addressed_wrapped :
    let view : LogView := ⟨5, 2, fun _ => none⟩
    view.count ≠ 0 ∧ view.total ≠ 0 ∧ view.numberOf 0 = 4294967293 ∧ view.numberOf 3 = 1 ∧
      ∃ span, view.resolve (.bySequence 1 (-2147483648)) = .ok (some span) ∧
        (span.start : Int) = 0 ∧ (span.stop : Int) = 4 := by
  intro view
  have hsome : view.count ≠ 0 := by decide
  have htotal : view.total ≠ 0 := by decide
  have haddressed := addressed view hsome htotal (-2147483648)
  have hfourth : view.numberOf 3 = 1 := by decide
  have hnumbered := haddressed.numbered 3 (by decide)
  obtain ⟨span, hspan, hstart, hstop⟩ := haddressed.backward 4 ⟨by decide, by decide⟩ (by decide)
  rw [hfourth] at hnumbered
  exact ⟨hsome, htotal, by decide, hfourth, span, hnumbered.trans hspan, hstart, hstop⟩

end LogView

end Historian
