import Historian.Log.Selection

/-!
# Spans lie in their log

Whatever a range asks for, the span that it resolves to is not empty and ends no
later than the log (`LogView.stop_le_of_resolve`).  So indexes and counts of a span
fit the numbers they travel in.
-/

namespace Historian

namespace Span

/-- The indexes of a span in order. -/
def indexes (span : Span) : List Nat := List.range' span.start span.count

end Span

namespace Selection

variable {reference size : Nat} {count : Int} {span : Span}

theorem byPosition_cases (hspan : byPosition reference size count = some span) :
    0 < span.count ∧
      (span = ⟨reference - 1, min count.toNat (size - (reference - 1))⟩ ∨
        span = ⟨reference - count.natAbs, reference - (reference - count.natAbs)⟩) := by
  by_cases hforward : 0 < count
  · simp only [byPosition, if_pos hforward, Option.ite_none_right_eq_some,
      Option.some.injEq] at hspan
    obtain ⟨hpos, rfl⟩ := hspan
    exact ⟨hpos, .inl rfl⟩
  · simp only [byPosition, if_neg hforward, Option.ite_none_right_eq_some,
      Option.some.injEq] at hspan
    obtain ⟨hpos, rfl⟩ := hspan
    exact ⟨hpos, .inr rfl⟩

theorem stop_le_of_byPosition (hreference : reference ≤ size)
    (hspan : byPosition reference size count = some span) :
    0 < span.count ∧ span.stop ≤ size := by
  obtain ⟨hpos, rfl | rfl⟩ := byPosition_cases hspan
  · simp only [Span.stop] at hpos ⊢
    omega
  · simp only [Span.stop] at hpos ⊢
    omega

theorem byPosition_forward {index : Nat} (hindex : index < size) (hcount : 0 < count) :
    byPosition (index + 1) size count = some ⟨index, min count.toNat (size - index)⟩ := by
  have hpos : 0 < min count.toNat (size - index) := by omega
  simp only [byPosition, if_pos hcount, Nat.add_sub_cancel, if_pos hpos]

theorem byPosition_backward (hreference : 0 < reference) (hcount : count < 0) :
    byPosition reference size count =
      some ⟨reference - count.natAbs, reference - (reference - count.natAbs)⟩ := by
  have hback : ¬ 0 < count := by omega
  have hpos : 0 < reference - (reference - count.natAbs) := by omega
  simp only [byPosition, if_neg hback, if_pos hpos]

/-! ## Times -/

theorem lt_of_mem_timeMatches {view : LogView} {stamp : Stamp} {index : Nat}
    (hmem : index ∈ timeMatches view stamp count) : index < view.count.toNat := by
  have hscan := (List.mem_filter.mp (List.mem_of_mem_take hmem)).1
  unfold scan at hscan
  split at hscan
  · exact List.mem_range.mp hscan
  · exact List.mem_range.mp (List.mem_reverse.mp hscan)

theorem stop_le_of_byTime {view : LogView} {stamp : Stamp}
    (hspan : byTime view stamp count = some span) :
    0 < span.count ∧ span.stop ≤ view.count.toNat := by
  simp only [byTime] at hspan
  split at hspan
  · rename_i lowest highest hlowest hhighest
    have hlt := lt_of_mem_timeMatches (List.max?_mem hhighest)
    have hle := (List.max?_eq_some_iff.mp hhighest).2 lowest (List.min?_mem hlowest)
    rw [← Option.some.inj hspan]
    unfold Span.stop
    constructor
    · exact Nat.succ_pos _
    · simp only
      omega
  · cases hspan

end Selection

namespace LogView

variable {view : LogView}

theorem count_pos (hcount : view.count ≠ 0) : 0 < view.count.toNat := by
  rw [Nat.pos_iff_ne_zero]
  exact fun hzero => hcount (UInt32.toNat_inj.mp hzero)

theorem count_ne_zero_of_lt {index : Nat} (hindex : index < view.count.toNat) :
    view.count ≠ 0 := by
  intro hzero
  rw [hzero] at hindex
  exact Nat.not_lt_zero _ hindex

theorem resolve_of_empty {range : Range} (hcount : view.count = 0)
    (hserved : ∀ choice, range ≠ .unsupported choice) : view.resolve range = .ok none := by
  cases range with
  | unsupported choice => exact absurd rfl (hserved choice)
  | _ => simp only [resolve, if_pos hcount]

theorem resolve_all (hcount : view.count ≠ 0) :
    view.resolve .all = .ok (some ⟨0, view.count.toNat⟩) := by
  simp only [resolve, if_neg hcount]

/-- Nothing is held against a range but its kind and its position. -/
theorem exists_resolve_of_served {range : Range}
    (hserved : ∀ choice, range ≠ .unsupported choice)
    (hposition : ∀ reference count, range ≠ .byPosition reference count) :
    ∃ selection, view.resolve range = .ok selection := by
  by_cases hsome : view.count = 0
  · exact ⟨none, resolve_of_empty hsome hserved⟩
  · cases range with
    | unsupported choice => exact absurd rfl (hserved choice)
    | byPosition reference count => exact absurd rfl (hposition reference count)
    | _ => simp [resolve, hsome]

/-- A position of the log, with as many before it as are wanted. -/
theorem resolve_byPosition_backward {reference : UInt32} {count : Int32}
    (hreference : reference ≠ 0) (hinside : reference ≤ view.count) (hcount : count.toInt < 0) :
    view.resolve (.byPosition reference count) =
      .ok (some ⟨reference.toNat - count.toInt.natAbs,
        reference.toNat - (reference.toNat - count.toInt.natAbs)⟩) := by
  have hpos : 0 < reference.toNat :=
    Nat.pos_of_ne_zero fun hzero => hreference (UInt32.toNat_inj.mp hzero)
  have hsome : view.count ≠ 0 := by
    intro hzero
    have hle := UInt32.le_iff_toNat_le.mp hinside
    rw [hzero] at hle
    exact Nat.not_le_of_lt hpos hle
  have hneither : ¬ (reference = 0 ∨ view.count < reference) :=
    not_or.mpr ⟨hreference, UInt32.not_lt.mpr hinside⟩
  simp only [resolve, if_neg hsome, if_neg hneither, Selection.byPosition_backward hpos hcount]

theorem resolve_byPosition_outside {reference : UInt32} {count : Int32} (hsome : view.count ≠ 0)
    (houtside : reference = 0 ∨ view.count < reference) :
    view.resolve (.byPosition reference count) = .error .invalidArrayIndex := by
  simp only [resolve, if_neg hsome, if_pos houtside]

/-- A sequence number that lies `index` places from the oldest record of a log, and
before its end, goes on from there. -/
theorem resolve_bySequence_live {reference : UInt32} {count : Int32} {index : Nat}
    (hreference : reference ≠ 0) (hcount : 0 < count.toInt)
    (hdistance : (Sequence.distance view.firstLive reference).toNat = index)
    (hindex : index < view.count.toNat) :
    view.resolve (.bySequence reference count) =
      .ok (some ⟨index, min count.toInt.toNat (view.count.toNat - index)⟩) := by
  have hsome := count_ne_zero_of_lt hindex
  have hneither : ¬ (reference = 0 ∨ count.toInt = 0) := by
    rintro (hzero | hzero)
    · exact hreference hzero
    · omega
  simp only [resolve, if_neg hsome, Selection.bySequence, if_neg hneither, hdistance,
    if_neg (Nat.not_le_of_lt hindex), Selection.byPosition_forward hindex hcount]

/-- A sequence number that lies as far or farther selects nothing. -/
theorem resolve_bySequence_dead {reference : UInt32} {count : Int32}
    (hdistance : view.count.toNat ≤ (Sequence.distance view.firstLive reference).toNat) :
    view.resolve (.bySequence reference count) = .ok none := by
  by_cases hsome : view.count = 0
  · exact resolve_of_empty hsome nofun
  · simp only [resolve, if_neg hsome, Selection.bySequence, if_pos hdistance, ite_self]

/-- How a range comes to select a span.  A sequence number stands for a position. -/
def Selects (view : LogView) (range : Range) (span : Span) : Prop :=
  match range with
  | .byPosition reference count =>
      reference.toNat ≤ view.count.toNat ∧
        Selection.byPosition reference.toNat view.count.toNat count.toInt = some span
  | .bySequence _ count =>
      ∃ position ≤ view.count.toNat,
        Selection.byPosition position view.count.toNat count.toInt = some span
  | .byTime reference count => Selection.byTime view reference count.toInt = some span
  | .all => 0 < view.count.toNat ∧ span = ⟨0, view.count.toNat⟩
  | .unsupported _ => False

theorem selects_of_resolve {range : Range} {span : Span}
    (hresolve : view.resolve range = .ok (some span)) : view.Selects range span := by
  have hcount : view.count ≠ 0 := by
    intro hzero
    cases range <;> simp [resolve, hzero] at hresolve
  cases range with
  | byPosition reference count =>
      simp only [resolve, if_neg hcount] at hresolve
      split at hresolve
      · cases hresolve
      · rename_i hinside
        have hle : reference.toNat ≤ view.count.toNat := by
          have := mt Or.inr hinside
          rwa [UInt32.not_lt, UInt32.le_iff_toNat_le] at this
        exact ⟨hle, Except.ok.inj hresolve⟩
  | bySequence reference count =>
      simp only [resolve, if_neg hcount, Selection.bySequence] at hresolve
      have hspan := Except.ok.inj hresolve
      -- Nothing was selected for zero, nor for a number as far away as the log is long.
      split at hspan
      · cases hspan
      · split at hspan
        · cases hspan
        · rename_i hlive
          exact ⟨_, Nat.lt_of_not_le hlive, hspan⟩
  | byTime reference count =>
      simp only [resolve, if_neg hcount] at hresolve
      exact Except.ok.inj hresolve
  | all =>
      rw [resolve_all hcount] at hresolve
      exact ⟨count_pos hcount, (Option.some.inj (Except.ok.inj hresolve)).symm⟩
  | unsupported choice => cases hresolve

/-- **A span is not empty and lies in its log.** -/
theorem stop_le_of_resolve {range : Range} {span : Span}
    (hresolve : view.resolve range = .ok (some span)) :
    0 < span.count ∧ span.stop ≤ view.count.toNat := by
  have hselects := selects_of_resolve hresolve
  cases range with
  | byPosition reference count => exact Selection.stop_le_of_byPosition hselects.1 hselects.2
  | bySequence reference count =>
      obtain ⟨position, hposition, hspan⟩ := hselects
      exact Selection.stop_le_of_byPosition hposition hspan
  | byTime reference count => exact Selection.stop_le_of_byTime hselects
  | all =>
      obtain ⟨hpos, rfl⟩ := hselects
      exact ⟨hpos, by simp [Span.stop]⟩
  | unsupported choice => exact hselects.elim

/-- A span has fewer records than a count can number. -/
theorem count_lt_of_resolve {range : Range} {span : Span}
    (hresolve : view.resolve range = .ok (some span)) : span.count < 4294967296 := by
  have hstop := (stop_le_of_resolve hresolve).2
  have hbound := view.count.toNat_lt
  unfold Span.stop at hstop
  omega

end LogView

end Historian
