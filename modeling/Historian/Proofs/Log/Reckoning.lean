import Historian.Proofs.Log.Limit

/-!
# Selections reckoned in words

Where a selection is defined, its indexes and counts are numbers without bound, and the matches
of a time are a list that is made as a whole.  A device reckons them in words of 32 bits and
walks over the log only until it has found as many matches as are wanted, with no more memory
than their number, the lowest and the highest.  `LogView.reckon` does so, and gives up where a
sum or a difference leaves the words.

`LogView.reckon_resolve` says that it never gives up, and that its words are the numbers of the
span that the range selects.

## Strategy

Positions are plain arithmetic below the size of the log.  The walk keeps the invariant
`Findings.Tell`: what it has found is what a list of matches says, that of the matches passed so
far.  It goes on as long as this list is shorter than what is wanted (`LogView.walk?_tell`), so
the number found stays a word and the list ends as the matches that the selection collects.
-/

namespace Historian

/-! ## Words -/

namespace Word

/-- The sum of two words, if it is a word. -/
def sum? (first second : UInt32) : Option UInt32 :=
  if first.toNat + second.toNat < UInt32.size then some (first + second) else none

/-- The difference of two words, if it is a word. -/
def difference? (first second : UInt32) : Option UInt32 :=
  if second ≤ first then some (first - second) else none

/-- The difference of two words, or zero. -/
def excess (first second : UInt32) : UInt32 :=
  if second ≤ first then first - second else 0

/-- How many items a count asks for, in either direction. -/
def wanted (count : Int32) : UInt32 := UInt32.ofNat count.toInt.natAbs

variable {first second : UInt32}

theorem exists_sum? (hsmall : first.toNat + second.toNat < UInt32.size) :
    ∃ sum, sum? first second = some sum ∧ sum.toNat = first.toNat + second.toNat := by
  refine ⟨first + second, if_pos hsmall, ?_⟩
  rw [UInt32.toNat_add]
  exact Nat.mod_eq_of_lt hsmall

theorem exists_difference? (hle : second.toNat ≤ first.toNat) :
    ∃ difference, difference? first second = some difference ∧
      difference.toNat = first.toNat - second.toNat := by
  have hword : second ≤ first := UInt32.le_iff_toNat_le.mpr hle
  exact ⟨first - second, if_pos hword, UInt32.toNat_sub_of_le _ _ hword⟩

theorem toNat_excess (first second : UInt32) :
    (excess first second).toNat = first.toNat - second.toNat := by
  unfold excess
  split
  · rename_i hle
    exact UInt32.toNat_sub_of_le _ _ hle
  · rename_i hlt
    rw [UInt32.not_le, UInt32.lt_iff_toNat_lt] at hlt
    exact (Nat.sub_eq_zero_of_le (Nat.le_of_lt hlt)).symm

/-- The least count, which has no opposite, is no exception. -/
theorem toNat_wanted (count : Int32) : (wanted count).toNat = count.toInt.natAbs := by
  have hlow := count.le_toInt
  have hhigh := count.toInt_lt
  have hsmall : count.toInt.natAbs < 4294967296 := by omega
  exact UInt32.toNat_ofNat_of_lt' hsmall

end Word

/-- A span in words. -/
structure WordSpan where
  start : UInt32
  count : UInt32
  deriving DecidableEq, Repr

namespace WordSpan

/-- The span that the words stand for. -/
def toSpan (span : WordSpan) : Span := ⟨span.start.toNat, span.count.toNat⟩

/-- No check failed, and the result is a selection in words. -/
def Denotes (reckoned : Option (Option WordSpan)) (selection : Option Span) : Prop :=
  ∃ found, reckoned = some found ∧ found.map toSpan = selection

/-! ## Positions -/

/-- The words of a count from a position on. -/
def forward? (reference size : UInt32) (count : Int32) : Option WordSpan := do
  let start ← Word.difference? reference 1
  let left ← Word.difference? size start
  return ⟨start, min (Word.wanted count) left⟩

/-- The words of a count up to a position. -/
def backward? (reference : UInt32) (count : Int32) : Option WordSpan := do
  let start := Word.excess reference (Word.wanted count)
  let back ← Word.difference? reference start
  return ⟨start, back⟩

/-- The selection of a position. -/
def byPosition? (reference size : UInt32) (count : Int32) : Option (Option WordSpan) := do
  let span ← if 0 < count.toInt then forward? reference size count else backward? reference count
  return if 0 < span.count then some span else none

variable {reference size : UInt32} {count : Int32}

theorem exists_forward? (hpos : 0 < reference.toNat) (hinside : reference.toNat ≤ size.toNat)
    (hcount : 0 < count.toInt) :
    ∃ span, forward? reference size count = some span ∧
      span.toSpan = ⟨reference.toNat - 1,
        min count.toInt.toNat (size.toNat - (reference.toNat - 1))⟩ := by
  have hone : (1 : UInt32).toNat ≤ reference.toNat := hpos
  obtain ⟨start, hstart, hstartNat⟩ := Word.exists_difference? hone
  have hone' : (1 : UInt32).toNat = 1 := rfl
  rw [hone'] at hstartNat
  have hstartLe : start.toNat ≤ size.toNat := by omega
  obtain ⟨left, hleft, hleftNat⟩ := Word.exists_difference? hstartLe
  refine ⟨⟨start, min (Word.wanted count) left⟩, ?_, ?_⟩
  · rw [forward?, hstart, Option.bind_eq_bind, Option.bind_some, hleft]
    rfl
  · have hwanted : count.toInt.natAbs = count.toInt.toNat := by omega
    simp only [toSpan, UInt32.toNat_min, Word.toNat_wanted, hleftNat, hstartNat, hwanted]

theorem exists_backward? (reference : UInt32) (count : Int32) :
    ∃ span, backward? reference count = some span ∧
      span.toSpan = ⟨reference.toNat - count.toInt.natAbs,
        reference.toNat - (reference.toNat - count.toInt.natAbs)⟩ := by
  have hstart := Word.toNat_excess reference (Word.wanted count)
  rw [Word.toNat_wanted] at hstart
  have hle : (Word.excess reference (Word.wanted count)).toNat ≤ reference.toNat := by omega
  obtain ⟨back, hback, hbackNat⟩ := Word.exists_difference? hle
  refine ⟨⟨Word.excess reference (Word.wanted count), back⟩, ?_, ?_⟩
  · rw [backward?, hback]
    rfl
  · simp only [toSpan, hbackNat, hstart]

/-- **In the log, a position is reckoned without leaving the words.** -/
theorem denotes_byPosition (hpos : 0 < reference.toNat) (hinside : reference.toNat ≤ size.toNat)
    (count : Int32) :
    Denotes (byPosition? reference size count)
      (Selection.byPosition reference.toNat size.toNat count.toInt) := by
  have hsome : ∀ span : WordSpan, 0 < span.count ↔ 0 < span.toSpan.count := fun span =>
    UInt32.lt_iff_toNat_lt
  by_cases hcount : 0 < count.toInt
  · obtain ⟨span, hspan, hnumbers⟩ := exists_forward? hpos hinside hcount
    refine ⟨if 0 < span.count then some span else none, ?_, ?_⟩
    · rw [byPosition?, if_pos hcount, hspan]
      rfl
    · simp only [Selection.byPosition, if_pos hcount, apply_ite (Option.map toSpan), hsome,
        Option.map_some, Option.map_none, hnumbers]
  · obtain ⟨span, hspan, hnumbers⟩ := exists_backward? reference count
    refine ⟨if 0 < span.count then some span else none, ?_, ?_⟩
    · rw [byPosition?, if_neg hcount, hspan]
      rfl
    · simp only [Selection.byPosition, if_neg hcount, apply_ite (Option.map toSpan), hsome,
        Option.map_some, Option.map_none, hnumbers]

end WordSpan

/-! ## Times -/

/-- What a walk over a log remembers of the matches it has passed. -/
structure Findings where
  found : UInt32
  lowest : UInt32
  highest : UInt32

namespace Findings

/-- Nothing has been found. -/
def nothing : Findings := ⟨0, 4294967295, 0⟩

/-- One more match, at an index. -/
def add? (findings : Findings) (index : UInt32) : Option Findings := do
  let found ← Word.sum? findings.found 1
  return ⟨found, min findings.lowest index, max findings.highest index⟩

/-- The span of what has been found. -/
def span? (findings : Findings) : Option (Option WordSpan) :=
  if 0 < findings.found then do
    let reach ← Word.difference? findings.highest findings.lowest
    let count ← Word.sum? reach 1
    return some ⟨findings.lowest, count⟩
  else
    some none

/-- What has been found is what a list of indexes says. -/
structure Tell (findings : Findings) (collected : List Nat) : Prop where
  found : findings.found.toNat = collected.length
  lowest : findings.lowest.toNat = collected.foldl min 4294967295
  highest : findings.highest.toNat = collected.foldl max 0

theorem tell_nothing : nothing.Tell [] := ⟨rfl, rfl, rfl⟩

theorem Tell.add {findings : Findings} {collected : List Nat} (htell : findings.Tell collected)
    (hsmall : collected.length + 1 < UInt32.size) (index : UInt32) :
    ∃ next, findings.add? index = some next ∧ next.Tell (collected ++ [index.toNat]) := by
  have hone : findings.found.toNat + (1 : UInt32).toNat < UInt32.size := by
    rw [htell.found]
    exact hsmall
  obtain ⟨found, hfound, hfoundNat⟩ := Word.exists_sum? hone
  refine ⟨⟨found, min findings.lowest index, max findings.highest index⟩, ?_, ?_, ?_, ?_⟩
  · rw [add?, hfound]
    rfl
  · rw [hfoundNat, htell.found, List.length_append]
    rfl
  · rw [List.foldl_append, ← htell.lowest]
    exact UInt32.toNat_min _ _
  · rw [List.foldl_append, ← htell.highest]
    exact UInt32.toNat_max _ _

section

variable {findings : Findings} {collected : List Nat} (htell : findings.Tell collected)
  (hwords : ∀ index ∈ collected, index + 1 < UInt32.size)

include htell

theorem Tell.goes_on_iff (count : Int32) :
    findings.found < Word.wanted count ↔ collected.length < count.toInt.natAbs := by
  rw [UInt32.lt_iff_toNat_lt, htell.found, Word.toNat_wanted]

theorem Tell.max?_eq (hsome : collected ≠ []) : collected.max? = some findings.highest.toNat := by
  obtain ⟨first, rest, rfl⟩ := List.exists_cons_of_ne_nil hsome
  rw [List.max?_cons', htell.highest, List.foldl_cons, Nat.zero_max]

include hwords

theorem Tell.min?_eq (hsome : collected ≠ []) : collected.min? = some findings.lowest.toNat := by
  obtain ⟨first, rest, rfl⟩ := List.exists_cons_of_ne_nil hsome
  have hfirst : first ≤ 4294967295 := Nat.le_of_lt_succ (Nat.lt_of_succ_lt (hwords first (by simp)))
  rw [List.min?_cons', htell.lowest, List.foldl_cons, Nat.min_eq_right hfirst]

/-- The span reaches from the lowest of them to the highest. -/
theorem Tell.denotes :
    WordSpan.Denotes findings.span?
      (match collected.min?, collected.max? with
      | some lowest, some highest => some ⟨lowest, highest - lowest + 1⟩
      | _, _ => none) := by
  -- Without a match the findings still hold what they began with, and no span is read off them.
  by_cases hsome : collected = []
  · subst hsome
    have hnone : ¬ 0 < findings.found := by
      rw [UInt32.lt_iff_toNat_lt, htell.found]
      exact Nat.lt_irrefl 0
    exact ⟨none, if_neg hnone, rfl⟩
  · have hmin := htell.min?_eq hwords hsome
    have hmax := htell.max?_eq hsome
    have hpos : 0 < findings.found := by
      rw [UInt32.lt_iff_toNat_lt, htell.found]
      exact List.length_pos_iff.mpr hsome
    -- From lowest to highest there are as many places as their distance and one more; both ends are
    -- places of the log, so this is still a word.
    have hle : findings.lowest.toNat ≤ findings.highest.toNat :=
      (List.max?_eq_some_iff.mp hmax).2 _ (List.min?_mem hmin)
    have hhighest := hwords _ (List.max?_mem hmax)
    obtain ⟨reach, hreach, hreachNat⟩ := Word.exists_difference? hle
    have hone : (1 : UInt32).toNat = 1 := rfl
    have hsmall : reach.toNat + (1 : UInt32).toNat < UInt32.size := by omega
    obtain ⟨count, hcount, hcountNat⟩ := Word.exists_sum? hsmall
    refine ⟨some ⟨findings.lowest, count⟩, ?_, ?_⟩
    · rw [span?, if_pos hpos, hreach, Option.bind_eq_bind, Option.bind_some, hcount]
      rfl
    · simp only [hmin, hmax, Option.map_some, WordSpan.toSpan, hcountNat, hreachNat, hone]

end

end Findings

namespace LogView

/-- Walks over indexes until as many matches are found as are wanted. -/
def walk? (view : LogView) (reference : Stamp) (count : Int32) :
    Findings → List UInt32 → Option Findings
  | findings, [] => some findings
  | findings, index :: rest =>
      match view.record? index.toNat with
      | none => view.walk? reference count findings rest
      | some record => do
          let next ←
            if record.OnSide reference count.toInt then findings.add? index else some findings
          if next.found < Word.wanted count then view.walk? reference count next rest
          else some next

/-- The indexes of a log in the order in which they are looked at. -/
def indexes (view : LogView) (count : Int32) : List UInt32 :=
  (Selection.scan view.count.toNat (decide (0 < count.toInt))).map UInt32.ofNat

/-- The selection of a time. -/
def byTime? (view : LogView) (reference : Stamp) (count : Int32) : Option (Option WordSpan) :=
  if count.toInt = 0 then some none
  else do
    let findings ← view.walk? reference count .nothing (view.indexes count)
    findings.span?

/-- The selection of a sequence number. -/
def bySequence? (view : LogView) (reference : UInt32) (count : Int32) :
    Option (Option WordSpan) :=
  if reference = 0 ∨ count.toInt = 0 then some none
  else do
    let older ← Word.difference? view.count 1
    let offset := Sequence.distance (Sequence.before view.total older) reference
    if view.count ≤ offset then some none
    else do
      let position ← Word.sum? offset 1
      WordSpan.byPosition? position view.count count

/-- The selection of a range, reckoned in words; nothing if a sum or a difference is no word. -/
def reckon (view : LogView) (range : Range) : Option (Except Refusal (Option WordSpan)) :=
  match range with
  | .unsupported _ => some (.error .invalidParameterDataType)
  | range =>
      if view.count = 0 then some (.ok none)
      else
        match range with
        | .byPosition reference count =>
            if reference = 0 ∨ view.count < reference then some (.error .invalidArrayIndex)
            else (WordSpan.byPosition? reference view.count count).map .ok
        | .bySequence reference count => (view.bySequence? reference count).map .ok
        | .byTime reference count => (view.byTime? reference count).map .ok
        | .all => some (.ok (some ⟨0, view.count⟩))
        | .unsupported _ => some (.error .invalidParameterDataType)

variable {view : LogView}

/-- **A walk collects the first matches, as many as are wanted**, and counts them in words. -/
theorem walk?_tell (view : LogView) (reference : Stamp) {count : Int32} {findings : Findings}
    {collected : List Nat} (htell : findings.Tell collected)
    (hgoing : collected.length < count.toInt.natAbs) (indexes : List UInt32) :
    ∃ last, view.walk? reference count findings indexes = some last ∧
      last.Tell (collected ++
        ((indexes.map UInt32.toNat).filter
          (Selection.matchesTime view reference (decide (0 < count.toInt)))).take
            (count.toInt.natAbs - collected.length)) := by
  have hsmall : count.toInt.natAbs < UInt32.size := by
    rw [← Word.toNat_wanted]
    exact (Word.wanted count).toNat_lt_size
  -- Induction on the places still ahead, for any findings that are short of the count: a walk that
  -- goes on is again such a walk, and one that has enough stops.
  induction indexes generalizing findings collected with
  | nil => exact ⟨findings, rfl, by simpa using htell⟩
  | cons index rest ih =>
      cases hrecord : view.record? index.toNat with
      | none =>
          -- No record at this place: it matches nothing, and the findings stay.
          have hskip : ¬ Selection.matchesTime view reference (decide (0 < count.toInt))
              index.toNat = true := by
            simp [Selection.matchesTime, hrecord]
          rw [walk?, hrecord, List.map_cons, List.filter_cons_of_neg hskip]
          exact ih htell hgoing
      | some record =>
          by_cases hside : record.OnSide reference count.toInt
          · -- A match is added, so that one less is left to take.
            have hmatch : Selection.matchesTime view reference (decide (0 < count.toInt))
                index.toNat = true :=
              Selection.matchesTime_iff.mpr ⟨record, hrecord, hside⟩
            obtain ⟨next, hnext, htold⟩ := htell.add (by omega) index
            have hleft : count.toInt.natAbs - collected.length =
                count.toInt.natAbs - (collected ++ [index.toNat]).length + 1 := by
              rw [List.length_append, List.length_singleton]
              omega
            rw [walk?, hrecord]
            simp only [if_pos hside, hnext, Option.bind_eq_bind, Option.bind_some]
            rw [List.map_cons, List.filter_cons_of_pos hmatch, hleft, List.take_succ_cons,
              List.append_cons]
            by_cases hmore : (collected ++ [index.toNat]).length < count.toInt.natAbs
            · rw [if_pos ((htold.goes_on_iff count).mpr hmore)]
              exact ih htold hmore
            · -- This was the last one wanted.
              rw [if_neg (mt (htold.goes_on_iff count).mp hmore)]
              rw [Nat.sub_eq_zero_of_le (Nat.le_of_not_lt hmore), List.take_zero, List.append_nil]
              exact ⟨next, rfl, htold⟩
          · -- A record on the other side: it is passed over, and the walk is as short of the count
            -- as it was.
            have hskip : ¬ Selection.matchesTime view reference (decide (0 < count.toInt))
                index.toNat = true := fun hmatch =>
              hside ((Selection.matchesTime_iff.mp hmatch).onSide hrecord)
            rw [walk?, hrecord]
            simp only [if_neg hside, Option.bind_eq_bind, Option.bind_some]
            rw [List.map_cons, List.filter_cons_of_neg hskip, if_pos ((htell.goes_on_iff count).mpr hgoing)]
            exact ih htell hgoing

theorem toNat_indexes (view : LogView) (count : Int32) :
    (view.indexes count).map UInt32.toNat =
      Selection.scan view.count.toNat (decide (0 < count.toInt)) := by
  rw [indexes, List.map_map]
  refine (List.map_congr_left fun index hindex => ?_).trans (List.map_id _)
  exact UInt32.toNat_ofNat_of_lt'
    (Nat.lt_trans (Selection.mem_scan.mp hindex) view.count.toNat_lt_size)

theorem denotes_byTime (view : LogView) (reference : Stamp) (count : Int32) :
    WordSpan.Denotes (view.byTime? reference count)
      (Selection.byTime view reference count.toInt) := by
  by_cases hcount : count.toInt = 0
  · refine ⟨none, if_pos hcount, ?_⟩
    simp [Selection.byTime, Selection.timeMatches, hcount]
  · obtain ⟨last, hwalk, htell⟩ := walk?_tell view reference
      Findings.tell_nothing (Int.natAbs_pos.mpr hcount) (view.indexes count)
    rw [toNat_indexes, List.nil_append, List.length_nil, Nat.sub_zero] at htell
    have hwords : ∀ index ∈ Selection.timeMatches view reference count.toInt,
        index + 1 < UInt32.size := fun index hindex =>
      Nat.lt_of_le_of_lt (Selection.lt_of_mem_timeMatches hindex) view.count.toNat_lt_size
    obtain ⟨found, hfound, hspan⟩ := htell.denotes hwords
    refine ⟨found, ?_, hspan⟩
    rw [byTime?, if_neg hcount, hwalk]
    exact hfound

theorem denotes_bySequence (hsome : view.count ≠ 0) (reference : UInt32) (count : Int32) :
    WordSpan.Denotes (view.bySequence? reference count)
      (Selection.bySequence view reference count.toInt) := by
  -- The oldest number is reckoned back from the newest by one less than the count, which is
  -- possible since the log is not empty.
  have hone : (1 : UInt32).toNat ≤ view.count.toNat := count_pos hsome
  have holder : Word.difference? view.count 1 = some (view.count - 1) :=
    if_pos (UInt32.le_iff_toNat_le.mpr hone)
  have hfirst : Sequence.before view.total (view.count - 1) = view.firstLive := rfl
  simp only [bySequence?, Selection.bySequence, holder, Option.bind_eq_bind, Option.bind_some,
    hfirst]
  split
  · exact ⟨none, rfl, rfl⟩
  · -- A number at least as far from the oldest as the log is long is the number of no live record.
    by_cases hdead : view.count ≤ Sequence.distance view.firstLive reference
    · rw [if_pos hdead, if_pos (UInt32.le_iff_toNat_le.mp hdead)]
      exact ⟨none, rfl, rfl⟩
    · have hlive := UInt32.lt_iff_toNat_lt.mp (UInt32.not_le.mp hdead)
      have hbound := view.count.toNat_lt_size
      -- Of a live record the place is below the count, and positions are counted from one.
      have honeNat : (1 : UInt32).toNat = 1 := rfl
      have hsmall : (Sequence.distance view.firstLive reference).toNat + (1 : UInt32).toNat <
          UInt32.size := by omega
      obtain ⟨position, hposition, hpositionNat⟩ := Word.exists_sum? hsmall
      rw [if_neg hdead, if_neg (Nat.not_le_of_lt hlive), hposition, Option.bind_some]
      rw [honeNat] at hpositionNat
      rw [← hpositionNat]
      exact WordSpan.denotes_byPosition (by omega) (by omega) count

/-- **Reckoned in words, a range selects what it selects**: no sum or difference leaves the
words, and they are the numbers of the span. -/
theorem reckon_resolve (view : LogView) (range : Range) :
    ∃ result, view.reckon range = some result ∧
      result.map (Option.map WordSpan.toSpan) = view.resolve range := by
  -- All that is selected is passed on unrefused, so only the selections are left to compare.
  have hdenoted : ∀ {reckoned selection}, WordSpan.Denotes reckoned selection →
      ∃ result : Except Refusal (Option WordSpan), reckoned.map .ok = some result ∧
        result.map (Option.map WordSpan.toSpan) = .ok selection := by
    rintro _ _ ⟨found, rfl, rfl⟩
    exact ⟨.ok found, rfl, rfl⟩
  -- An empty log is settled before the range is looked at, unless the range is of a kind that is
  -- not served.
  by_cases hsome : view.count = 0
  · cases range with
    | unsupported choice => exact ⟨_, rfl, rfl⟩
    | _ =>
        simp only [reckon, resolve, if_pos hsome]
        exact ⟨_, rfl, rfl⟩
  · cases range with
    | byPosition reference count =>
        simp only [reckon, resolve, if_neg hsome]
        split
        · exact ⟨_, rfl, rfl⟩
        · rename_i hinside
          obtain ⟨hpos, hle⟩ := not_or.mp hinside
          rw [UInt32.not_lt, UInt32.le_iff_toNat_le] at hle
          refine hdenoted (WordSpan.denotes_byPosition (Nat.pos_of_ne_zero fun hzero => ?_) hle count)
          exact hpos (UInt32.toNat_inj.mp hzero)
    | bySequence reference count =>
        simp only [reckon, resolve, if_neg hsome]
        exact hdenoted (denotes_bySequence hsome reference count)
    | byTime reference count =>
        simp only [reckon, resolve, if_neg hsome]
        exact hdenoted (denotes_byTime view reference count)
    | all =>
        simp only [reckon, resolve, if_neg hsome]
        exact ⟨_, rfl, rfl⟩
    | unsupported choice => exact ⟨_, rfl, rfl⟩

end LogView

end Historian
