import Historian.Proofs.Log.Addressing
import Mathlib.Data.Nat.Count
import Mathlib.Order.Lattice.Nat
import Mathlib.Order.Interval.Finset.Nat

/-!
# What a time selects

A time selects the span from the lowest to the highest of the matches that come first when the
log is looked through, forward from the oldest record for a positive count and backward from the
newest for a negative one.  `LogView.selectsTime` says so of every log, whatever the order of its
stamps and whichever of its records cannot be produced.  If all can be produced and stamps never
decrease, this is what the position of the nearest match selects.

## Strategy

A match is collected exactly if fewer matches than are wanted come before it
(`LogView.collected_iff`): the list of the matches is sorted in the order of looking, so a place
in it is a number of matches.  In a log in order the matches are all indexes on one side of the
nearest, so this number is a distance from it, and the span follows by arithmetic.
-/

namespace Historian

/-- A selection reaches from the least to the greatest of some indexes; it is empty if there are
none. -/
def Span.Reaches : Option Span → Set Nat → Prop
  | none, indexes => indexes = ∅
  | some span, indexes =>
      IsLeast indexes span.start ∧ ∃ last, IsGreatest indexes last ∧ span.stop = last + 1

namespace Span

theorem Reaches.unique {first second : Option Span} {indexes : Set Nat}
    (hfirst : Reaches first indexes) (hsecond : Reaches second indexes) : first = second := by
  cases first with
  | none =>
      cases second with
      | none => rfl
      | some span =>
          obtain ⟨⟨hmem, -⟩, -⟩ := hsecond
          rw [show indexes = ∅ from hfirst] at hmem
          exact hmem.elim
  | some span =>
      obtain ⟨hleast, last, hgreatest, hstop⟩ := hfirst
      cases second with
      | none =>
          have hmem := hleast.1
          rw [show indexes = ∅ from hsecond] at hmem
          exact hmem.elim
      | some other =>
          obtain ⟨hleast', last', hgreatest', hstop'⟩ := hsecond
          -- Both spans begin at the least of the places and end behind the greatest.
          have hstart := hleast.unique hleast'
          have hlast := hgreatest.unique hgreatest'
          unfold stop at hstop hstop'
          obtain ⟨start, count⟩ := span
          obtain ⟨start', count'⟩ := other
          simp only at hstart hstop hstop'
          have hcount : count = count' := by omega
          rw [hstart, hcount]

theorem Reaches.of_bounds {start count last : Nat} {indexes : Set Nat}
    (hleast : IsLeast indexes start) (hgreatest : IsGreatest indexes last)
    (hlast : start + count = last + 1) : Reaches (some ⟨start, count⟩) indexes :=
  ⟨hleast, last, hgreatest, hlast⟩

theorem reaches_list (list : List Nat) :
    Reaches
      (match list.min?, list.max? with
      | some lowest, some highest => some ⟨lowest, highest - lowest + 1⟩
      | _, _ => none) {index | index ∈ list} := by
  cases hmin : list.min? with
  | none =>
      have hnil : list = [] := List.min?_eq_none_iff.mp hmin
      subst hnil
      exact Set.eq_empty_iff_forall_notMem.mpr fun index hindex => nomatch hindex
  | some lowest =>
      cases hmax : list.max? with
      | none =>
          have hnil : list = [] := List.max?_eq_none_iff.mp hmax
          rw [hnil] at hmin
          cases hmin
      | some highest =>
          obtain ⟨hlow, hlowest⟩ := List.min?_eq_some_iff.mp hmin
          obtain ⟨hhigh, hhighest⟩ := List.max?_eq_some_iff.mp hmax
          have hle := hlowest highest hhigh
          exact .of_bounds ⟨hlow, hlowest⟩ ⟨hhigh, hhighest⟩ (by omega)

end Span

namespace Selection

variable {view : LogView} {reference : Stamp} {count : Int} {index : Nat}

instance (count : Int) : DecidableRel (Earlier count) := fun first second => by
  unfold Earlier
  infer_instance

theorem Earlier.asymm {first second : Nat} (hearlier : Earlier count first second) :
    ¬ Earlier count second first := by
  by_cases hforward : 0 < count
  · simp only [Earlier, if_pos hforward] at hearlier ⊢
    exact Nat.lt_asymm hearlier
  · simp only [Earlier, if_neg hforward] at hearlier ⊢
    exact Nat.lt_asymm hearlier

/-- Of a sorted list, the members with few others before them are taken. -/
theorem mem_take_iff_countP {α : Type} {relation : α → α → Prop} [DecidableRel relation]
    (hasymm : ∀ first second, relation first second → ¬ relation second first) {list : List α}
    (hsorted : list.Pairwise relation) {size : Nat} {one : α} :
    one ∈ list.take size ↔ one ∈ list ∧ list.countP (fun other => relation other one) < size := by
  induction list generalizing size with
  | nil => simp
  | cons first rest ih =>
      obtain ⟨hfirst, hrest⟩ := List.pairwise_cons.mp hsorted
      cases size with
      | zero => simp
      | succ size =>
          rw [List.take_succ_cons, List.mem_cons, List.mem_cons, ih hrest]
          -- The list is sorted: whoever comes before a member stands in front of it.
          constructor
          · rintro (rfl | ⟨hmem, hfew⟩)
            · -- Nothing comes before the first member, itself included.
              have hnone : (one :: rest).countP (fun other => relation other one) = 0 := by
                rw [List.countP_eq_zero]
                intro other hother hbefore
                rcases List.mem_cons.mp hother with rfl | hmem
                · exact hasymm _ _ (of_decide_eq_true hbefore) (of_decide_eq_true hbefore)
                · exact hasymm _ _ (of_decide_eq_true hbefore) (hfirst other hmem)
              exact ⟨.inl rfl, by omega⟩
            · refine ⟨.inr hmem, ?_⟩
              rw [List.countP_cons]
              split <;> omega
          · rintro ⟨rfl | hmem, hfew⟩
            · exact .inl rfl
            · rw [List.countP_cons, if_pos (decide_eq_true (hfirst one hmem))] at hfew
              exact .inr ⟨hmem, Nat.lt_of_succ_lt_succ hfew⟩

end Selection

namespace LogView

/-- A record of a log on the wanted side of a time. -/
def IsMatch (view : LogView) (reference : Stamp) (count : Int) (index : Nat) : Prop :=
  index < view.count.toNat ∧ view.Matches reference count index

instance (view : LogView) (reference : Stamp) (count : Int) :
    DecidablePred (view.IsMatch reference count) := fun index =>
  have : Decidable (view.Matches reference count index) :=
    decidable_of_iff _ Selection.matchesTime_iff
  inferInstanceAs (Decidable (_ ∧ _))

/-- How many matches are met before an index. -/
def metBefore (view : LogView) (reference : Stamp) (count : Int) (index : Nat) : Nat :=
  Nat.count (fun other => view.IsMatch reference count other ∧ Selection.Earlier count other index)
    view.count.toNat

/-- A match that is among the first, as many as are wanted. -/
def Collected (view : LogView) (reference : Stamp) (count : Int) (index : Nat) : Prop :=
  view.IsMatch reference count index ∧ view.metBefore reference count index < count.natAbs

/-- The match next to a time: the lowest one after it for a positive count, the highest one before
it for a negative count. -/
def IsNearest (view : LogView) (reference : Stamp) (count : Int) (index : Nat) : Prop :=
  if 0 < count then IsLeast {other | view.IsMatch reference count other} index
  else IsGreatest {other | view.IsMatch reference count other} index

/-- Every record can be produced. -/
def Full (view : LogView) : Prop := ∀ index < view.count.toNat, (view.record? index).isSome

instance (view : LogView) : Decidable view.Full := inferInstanceAs (Decidable (∀ _ < _, _))

/-- Stamps never decrease with the index. -/
def Chronological (view : LogView) : Prop :=
  ∀ older newer first second, older ≤ newer → newer < view.count.toNat →
    view.record? older = some first → view.record? newer = some second →
    first.stamp ≤ second.stamp

/-- What a time selects of a log in order. -/
structure SelectsNearest (view : LogView) (reference : Stamp) (count : Int32) : Prop where
  /-- The selection is that of the position of the nearest match. -/
  position : ∀ nearest, view.IsNearest reference count.toInt nearest →
    view.resolve (.byTime reference count) =
      view.resolve (.byPosition (UInt32.ofNat (nearest + 1)) count)
  /-- As many records are selected as are wanted, or all matches if there are fewer. -/
  size : ∀ selection, view.resolve (.byTime reference count) = .ok selection →
    (selection.elim [] Span.indexes).length =
      min count.toInt.natAbs (Nat.count (view.IsMatch reference count.toInt) view.count.toNat)
  /-- Only matches are selected. -/
  matching : ∀ selection, view.resolve (.byTime reference count) = .ok selection →
    ∀ index ∈ selection.elim [] Span.indexes, view.IsMatch reference count.toInt index
  /-- No match is left out that is nearer than one that is selected. -/
  nearer : ∀ selection, view.resolve (.byTime reference count) = .ok selection →
    ∀ index ∈ selection.elim [] Span.indexes, ∀ other, view.IsMatch reference count.toInt other →
      other ∉ selection.elim [] Span.indexes → Selection.Earlier count.toInt index other

/-- What a time selects of any log. -/
structure SelectsTime (view : LogView) (reference : Stamp) (count : Int32) : Prop where
  /-- The selection reaches from the least to the greatest of the matches that are collected. -/
  reaches : ∃ selection, view.resolve (.byTime reference count) = .ok selection ∧
    Span.Reaches selection {index | view.Collected reference count.toInt index}
  /-- It is empty only if nothing matches. -/
  nothing : view.resolve (.byTime reference count) = .ok none ↔
    ∀ index, ¬ view.IsMatch reference count.toInt index
  /-- The walk that stops at the last match wanted finds this selection. -/
  walked : WordSpan.Denotes (view.byTime? reference count)
    (Selection.byTime view reference count.toInt)
  ordered : view.Full → view.Chronological → view.SelectsNearest reference count

variable {view : LogView} {reference : Stamp} {count : Int} {index : Nat}

/-! ## Every log -/

theorem mem_matches_iff :
    index ∈ (Selection.scan view.count.toNat (decide (0 < count))).filter
        (Selection.matchesTime view reference (decide (0 < count))) ↔
      view.IsMatch reference count index := by
  rw [List.mem_filter, Selection.mem_scan, Selection.matchesTime_iff, IsMatch]

/-- Counting matches in the order of looking or in that of the log makes no difference. -/
theorem countP_matches (index : Nat) :
    ((Selection.scan view.count.toNat (decide (0 < count))).filter
        (Selection.matchesTime view reference (decide (0 < count)))).countP
      (fun other => Selection.Earlier count other index) =
      view.metBefore reference count index := by
  have hrange : ∀ keep : Nat → Bool, (Selection.scan view.count.toNat (decide (0 < count))).countP
      keep = (List.range view.count.toNat).countP keep := by
    intro keep
    unfold Selection.scan
    split
    · rfl
    · exact List.countP_reverse
  rw [List.countP_filter, hrange, metBefore, Nat.count]
  refine List.countP_congr fun other hother => ?_
  rw [Bool.and_eq_true, decide_eq_true_iff, decide_eq_true_iff, Selection.matchesTime_iff, IsMatch,
    and_comm]
  simp [List.mem_range.mp hother]

/-- **The matches that are collected are those with few before them.** -/
theorem collected_iff :
    view.Collected reference count index ↔ index ∈ Selection.timeMatches view reference count := by
  have hsorted := (Selection.pairwise_scan view.count.toNat count).filter
    (Selection.matchesTime view reference (decide (0 < count)))
  rw [Selection.timeMatches,
    Selection.mem_take_iff_countP (fun _ _ => Selection.Earlier.asymm) hsorted, mem_matches_iff,
    countP_matches, Collected]

theorem reaches_byTime (view : LogView) (reference : Stamp) (count : Int) :
    Span.Reaches (Selection.byTime view reference count)
      {index | view.Collected reference count index} := by
  simp only [collected_iff]
  exact Span.reaches_list _

theorem resolve_byTime (view : LogView) (reference : Stamp) (count : Int32) :
    view.resolve (.byTime reference count) =
      .ok (Selection.byTime view reference count.toInt) := by
  by_cases hsome : view.count = 0
  · have hnone : Selection.byTime view reference count.toInt = none := by
      simp [Selection.byTime, Selection.timeMatches, Selection.scan, hsome]
    rw [hnone]
    refine resolve_of_empty hsome fun choice hsame => ?_
    cases hsame
  · simp only [resolve, if_neg hsome]

/-- Of the matches there are, the first is collected. -/
theorem byTime_eq_none_iff (hcount : count ≠ 0) :
    Selection.byTime view reference count = none ↔
      ∀ index, ¬ view.IsMatch reference count index := by
  have hreaches := reaches_byTime view reference count
  have hwanted : count.natAbs ≠ 0 := Int.natAbs_ne_zero.mpr hcount
  have hnil : (∀ index, ¬ view.Collected reference count index) ↔
      ∀ index, ¬ view.IsMatch reference count index := by
    simp only [collected_iff, ← mem_matches_iff, ← List.eq_nil_iff_forall_not_mem,
      Selection.timeMatches, List.take_eq_nil_iff, hwanted, false_or]
  rw [← hnil]
  constructor
  · intro hnone
    rw [hnone] at hreaches
    exact Set.eq_empty_iff_forall_notMem.mp hreaches
  · intro hnever
    cases hspan : Selection.byTime view reference count with
    | none => rfl
    | some span =>
        rw [hspan] at hreaches
        exact absurd hreaches.1.1 (hnever span.start)

/-! ## Logs in order -/

/-- Counting what lies between two bounds. -/
theorem count_between {holds : Nat → Prop} [DecidablePred holds] {start stop size : Nat}
    (hstop : stop ≤ size) (hholds : ∀ other, holds other ↔ start ≤ other ∧ other < stop) :
    Nat.count holds size = stop - start := by
  have hfilter : (Finset.range size).filter holds = Finset.Ico start stop := by
    ext other
    rw [Finset.mem_filter, Finset.mem_range, Finset.mem_Ico, hholds]
    omega
  rw [Nat.count_eq_card_filter_range, hfilter, Nat.card_Ico]

section

variable (hfull : view.Full) (hordered : view.Chronological)

include hfull hordered

/-- In a log in order, everything after a match going forward, and before it going back, matches. -/
theorem isMatch_of_earlier {first second : Nat} (hfirst : view.IsMatch reference count first)
    (hsecond : second < view.count.toNat) (hearlier : Selection.Earlier count first second) :
    view.IsMatch reference count second := by
  obtain ⟨hbound, record, hrecord, hside⟩ := hfirst
  obtain ⟨other, hother⟩ := Option.isSome_iff_exists.mp (hfull second hsecond)
  refine ⟨hsecond, other, hother, ?_⟩
  by_cases hforward : 0 < count
  · simp only [Selection.Earlier, LogRecord.OnSide, if_pos hforward] at hearlier hside ⊢
    exact Nat.le_trans hside
      (hordered first second record other (Nat.le_of_lt hearlier) hsecond hrecord hother)
  · simp only [Selection.Earlier, LogRecord.OnSide, if_neg hforward] at hearlier hside ⊢
    exact Nat.le_trans
      (hordered second first other record (Nat.le_of_lt hearlier) hbound hother hrecord) hside

/-! ### Forward -/

section

variable (hforward : 0 < count) {nearest : Nat}
  (hleast : IsLeast {other | view.IsMatch reference count other} nearest)

include hforward hleast

theorem isMatch_iff_forward :
    view.IsMatch reference count index ↔ nearest ≤ index ∧ index < view.count.toNat := by
  refine ⟨fun hmatch => ⟨hleast.2 hmatch, hmatch.1⟩, ?_⟩
  rintro ⟨hle, hbound⟩
  rcases Nat.eq_or_lt_of_le hle with rfl | hlt
  · exact hleast.1
  · refine isMatch_of_earlier hfull hordered hleast.1 hbound ?_
    rw [Selection.Earlier, if_pos hforward]
    exact hlt

theorem collected_iff_forward :
    view.Collected reference count index ↔
      (nearest ≤ index ∧ index < view.count.toNat) ∧ index - nearest < count.natAbs := by
  rw [Collected, isMatch_iff_forward hfull hordered hforward hleast]
  refine and_congr_right fun hinside => ?_
  rw [metBefore, count_between (Nat.le_of_lt hinside.2) fun other => ?_]
  rw [isMatch_iff_forward hfull hordered hforward hleast, Selection.Earlier, if_pos hforward]
  omega

theorem byTime_forward :
    Selection.byTime view reference count =
      some ⟨nearest, min count.toNat (view.count.toNat - nearest)⟩ := by
  have hbound : nearest < view.count.toNat := hleast.1.1
  have hcollected : ∀ {index}, index ∈ {index | view.Collected reference count index} ↔ _ :=
    collected_iff_forward hfull hordered hforward hleast
  obtain ⟨size, hsize⟩ : ∃ size, size + 1 = min count.toNat (view.count.toNat - nearest) :=
    ⟨min count.toNat (view.count.toNat - nearest) - 1, by omega⟩
  rw [← hsize]
  -- The last one collected lies `size` places from the nearest.
  have hleast : IsLeast {index | view.Collected reference count index} nearest :=
    ⟨hcollected.mpr (by omega), fun other hother => (hcollected.mp hother).1.1⟩
  have hgreatest : IsGreatest {index | view.Collected reference count index} (nearest + size) := by
    refine ⟨hcollected.mpr (by omega), fun other hother => ?_⟩
    have hinside := hcollected.mp hother
    omega
  exact (reaches_byTime view reference count).unique (.of_bounds hleast hgreatest rfl)

end

/-! ### Backward -/

section

variable (hbackward : count < 0) {nearest : Nat}
  (hgreatest : IsGreatest {other | view.IsMatch reference count other} nearest)

include hbackward hgreatest

theorem isMatch_iff_backward : view.IsMatch reference count index ↔ index ≤ nearest := by
  refine ⟨fun hmatch => hgreatest.2 hmatch, fun hle => ?_⟩
  rcases Nat.eq_or_lt_of_le hle with rfl | hlt
  · exact hgreatest.1
  · refine isMatch_of_earlier hfull hordered hgreatest.1 (Nat.lt_trans hlt hgreatest.1.1) ?_
    rw [Selection.Earlier, if_neg (Int.lt_asymm hbackward)]
    exact hlt

theorem collected_iff_backward :
    view.Collected reference count index ↔
      index ≤ nearest ∧ nearest - index < count.natAbs := by
  have hbound : nearest < view.count.toNat := hgreatest.1.1
  rw [Collected, isMatch_iff_backward hfull hordered hbackward hgreatest]
  refine and_congr_right fun hle => ?_
  have hmet : view.metBefore reference count index = nearest + 1 - (index + 1) := by
    refine count_between hbound fun other => ?_
    rw [isMatch_iff_backward hfull hordered hbackward hgreatest, Selection.Earlier,
      if_neg (Int.lt_asymm hbackward)]
    omega
  rw [hmet, Nat.add_sub_add_right]

theorem byTime_backward :
    Selection.byTime view reference count =
      some ⟨nearest + 1 - count.natAbs, nearest + 1 - (nearest + 1 - count.natAbs)⟩ := by
  have hcollected : ∀ {index}, index ∈ {index | view.Collected reference count index} ↔ _ :=
    collected_iff_backward hfull hordered hbackward hgreatest
  have hleast : IsLeast {index | view.Collected reference count index}
      (nearest + 1 - count.natAbs) := by
    refine ⟨hcollected.mpr (by omega), fun other hother => ?_⟩
    have hinside := hcollected.mp hother
    omega
  have hgreatest : IsGreatest {index | view.Collected reference count index} nearest :=
    ⟨hcollected.mpr (by omega), fun other hother => (hcollected.mp hother).1⟩
  exact (reaches_byTime view reference count).unique (.of_bounds hleast hgreatest (by omega))

end

/-! ### The nearest matches -/

/-- **The nearest match is a position** from which the same records are selected. -/
theorem resolve_byTime_nearest {count : Int32} (hcount : count.toInt ≠ 0)
    (hnearest : view.IsNearest reference count.toInt index) :
    view.resolve (.byTime reference count) =
      view.resolve (.byPosition (UInt32.ofNat (index + 1)) count) := by
  rw [resolve_byTime]
  by_cases hforward : 0 < count.toInt
  · rw [IsNearest, if_pos hforward] at hnearest
    obtain ⟨hnat, hposition⟩ := HasPosition.of_index hnearest.1.1
    rw [resolve_byPosition hposition, hnat, byTime_forward hfull hordered hforward hnearest,
      Selection.byPosition_forward hnearest.1.1 hforward]
  · have hbackward : count.toInt < 0 := by omega
    rw [IsNearest, if_neg hforward] at hnearest
    obtain ⟨hnat, hposition⟩ := HasPosition.of_index hnearest.1.1
    rw [resolve_byPosition hposition, hnat, byTime_backward hfull hordered hbackward hnearest,
      Selection.byPosition_backward (Nat.succ_pos index) hbackward]

/-- A span at one end of the matches, which lie side by side, holds the nearest of them. -/
theorem selectsNearest_of_interval {count : Int32} (hcount : count.toInt ≠ 0) {low high : Nat}
    {span : Span} (hhigh : high ≤ view.count.toNat)
    (hmatch : ∀ {index}, view.IsMatch reference count.toInt index ↔ low ≤ index ∧ index < high)
    (hresolve : view.resolve (.byTime reference count) = .ok (some span))
    (hsize : span.count = min count.toInt.natAbs (high - low))
    (hside : if 0 < count.toInt then span.start = low else span.start + span.count = high) :
    view.SelectsNearest reference count := by
  -- All four parts are about whatever is selected, and that is this span.
  have hspan : ∀ {selection}, view.resolve (.byTime reference count) = .ok selection →
      selection = some span := fun hselection =>
    Except.ok.inj (hselection.symm.trans hresolve)
  have hmem : ∀ {index}, index ∈ span.indexes ↔
      span.start ≤ index ∧ index < span.start + span.count := List.mem_range'_1
  have hall : Nat.count (view.IsMatch reference count.toInt) view.count.toNat = high - low :=
    count_between hhigh fun _ => hmatch
  constructor
  case position => exact fun nearest hnearest =>
    resolve_byTime_nearest hfull hordered hcount hnearest
  case size =>
    intro selection hselection
    rw [hspan hselection, hall, ← hsize]
    exact List.length_range'
  case matching =>
    intro selection hselection index hindex
    rw [hspan hselection] at hindex
    have hinside := hmem.mp hindex
    rw [hmatch]
    split at hside <;> omega
  case nearer =>
    -- A match left out lies beyond the far end of the span; the direction tells which end that is.
    intro selection hselection index hindex other hother hout
    rw [hspan hselection] at hindex hout
    have hinside := hmem.mp hindex
    have houtside := mt hmem.mpr hout
    have hinterval := hmatch.mp hother
    by_cases hforward : 0 < count.toInt
    · rw [if_pos hforward] at hside
      rw [Selection.Earlier, if_pos hforward]
      omega
    · rw [if_neg hforward] at hside
      rw [Selection.Earlier, if_neg hforward]
      omega

theorem selectsNearest_of_none {count : Int32} (hcount : count.toInt ≠ 0)
    (hnever : ∀ index, ¬ view.IsMatch reference count.toInt index) :
    view.SelectsNearest reference count := by
  have hnone : ∀ {selection}, view.resolve (.byTime reference count) = .ok selection →
      selection = none := by
    intro selection hselection
    rw [resolve_byTime, (byTime_eq_none_iff hcount).mpr hnever] at hselection
    exact (Except.ok.inj hselection).symm
  constructor
  case position => exact fun nearest hnearest =>
    resolve_byTime_nearest hfull hordered hcount hnearest
  case size =>
    intro selection hselection
    rw [hnone hselection, Nat.count_of_forall_not fun index _ => hnever index]
    exact (Nat.min_zero _).symm
  case matching =>
    intro selection hselection index hindex
    rw [hnone hselection] at hindex
    nomatch hindex
  case nearer =>
    intro selection hselection index hindex
    rw [hnone hselection] at hindex
    nomatch hindex

omit hfull hordered in
theorem exists_isNearest (hsome : ∃ index, view.IsMatch reference count index) :
    ∃ nearest, view.IsNearest reference count nearest := by
  unfold IsNearest
  split
  · exact ⟨_, Nat.sInf_mem hsome, fun _ hother => Nat.sInf_le hother⟩
  · have hbounded : BddAbove {other | view.IsMatch reference count other} :=
      ⟨view.count.toNat, fun other hother => Nat.le_of_lt hother.1⟩
    exact ⟨_, Nat.sSup_mem hsome hbounded, fun _ hother => le_csSup hbounded hother⟩

/-- **A time selects of a log in order the nearest matches.** -/
theorem selectsNearest {count : Int32} (hcount : count.toInt ≠ 0) :
    view.SelectsNearest reference count := by
  by_cases hsome : ∃ index, view.IsMatch reference count.toInt index
  · obtain ⟨nearest, hnearest⟩ := exists_isNearest hsome
    have hresolve := view.resolve_byTime reference count
    rcases Int.lt_or_gt_of_ne hcount with hbackward | hforward
    · -- Backward: the matches reach from the first record to the nearest, and the span ends there.
      rw [IsNearest, if_neg (Int.lt_asymm hbackward)] at hnearest
      have hmatch : ∀ {index}, view.IsMatch reference count.toInt index ↔
          0 ≤ index ∧ index < nearest + 1 := by
        intro index
        rw [isMatch_iff_backward hfull hordered hbackward hnearest]
        omega
      rw [byTime_backward hfull hordered hbackward hnearest] at hresolve
      refine selectsNearest_of_interval hfull hordered hcount hnearest.1.1 hmatch hresolve ?_ ?_
      · simp only
        omega
      · rw [if_neg (Int.lt_asymm hbackward)]
        simp only
        omega
    · -- Forward: they reach from the nearest to the end of the log, and the span begins there.
      rw [IsNearest, if_pos hforward] at hnearest
      rw [byTime_forward hfull hordered hforward hnearest] at hresolve
      refine selectsNearest_of_interval hfull hordered hcount (Nat.le_refl _)
        (isMatch_iff_forward hfull hordered hforward hnearest) hresolve ?_ ?_
      · simp only
        omega
      · rw [if_pos hforward]
  · exact selectsNearest_of_none hfull hordered hcount fun index hmatch => hsome ⟨index, hmatch⟩

end

/-! ## What a time selects -/

/-- **A time selects the span of the first matches**, as many as are wanted; of a log in order,
exactly the nearest. -/
theorem selectsTime (view : LogView) (reference : Stamp) (count : Int32) (hcount : count ≠ 0) :
    view.SelectsTime reference count := by
  have hwanted : count.toInt ≠ 0 := fun hzero => hcount (Int32.toInt_inj.mp hzero)
  have hresolve := view.resolve_byTime reference count
  constructor
  case reaches => exact ⟨_, hresolve, reaches_byTime view reference count.toInt⟩
  case nothing =>
    rw [hresolve, Except.ok.injEq]
    exact byTime_eq_none_iff hwanted
  case walked => exact denotes_byTime view reference count
  case ordered => exact fun hfull hordered => selectsNearest hfull hordered hwanted

/-- Of two records of the same minute the later is the nearest going back, and the least count
goes back from there to the oldest record. -/
theorem selectsTime_least :
    let record : UInt8 → LogRecord := fun minute =>
      ⟨⟨⟨125, 3, 14, 5⟩, ⟨10, minute, 0, 0⟩⟩, .null, FlagSet.empty⟩
    let view : LogView := ⟨4, 4, fun index => [record 1, record 3, record 3, record 7][index]?⟩
    (-2147483648 : Int32) ≠ 0 ∧ view.Full ∧ view.Chronological ∧
      view.IsNearest (record 3).stamp (-2147483648 : Int32).toInt 2 ∧
      view.resolve (.byTime (record 3).stamp (-2147483648)) = .ok (some ⟨0, 3⟩) := by
  intro record view
  have hfull : view.Full := by decide
  have hordered : view.Chronological := by
    intro older newer first second hle hlt hfirst hsecond
    have hstamps : ∀ newer < 4, ∀ older ≤ newer, ∀ first ∈ view.record? older,
        ∀ second ∈ view.record? newer, first.stamp ≤ second.stamp := by decide
    exact hstamps newer hlt older hle first hfirst second hsecond
  have hnearest : view.IsNearest (record 3).stamp (-2147483648 : Int32).toInt 2 := by
    have hback : ¬ 0 < (-2147483648 : Int32).toInt := by decide
    have hlast : ∀ other < 4,
        view.IsMatch (record 3).stamp (-2147483648 : Int32).toInt other → other ≤ 2 := by decide
    rw [LogView.IsNearest, if_neg hback]
    exact ⟨by decide, fun other hother => hlast other hother.1 hother⟩
  have hcount : (-2147483648 : Int32) ≠ 0 := by decide
  have hselects := (selectsTime view (record 3).stamp (-2147483648) hcount).ordered hfull hordered
  exact ⟨hcount, hfull, hordered, hnearest, (hselects.position 2 hnearest).trans (by decide)⟩

end LogView

end Historian
