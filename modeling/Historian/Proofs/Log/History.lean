import Historian.Log.Ring
import Historian.Proofs.Log.Selection
import Historian.Proofs.Log.Sequence
import Mathlib.Tactic.ByContra

/-!
# A buffer is the end of its history

The history of a buffer is the list of the records that were ever pushed, with the
number of those that were there at the last clearing.  Nothing is forgotten in it
and nothing wraps.  The buffer holds the end of that list, and its count is the
sequence number of the last place (`Ring.Tracks`); pushing and clearing keep it so
(`Ring.tracks_act`), hence every run does (`Ring.tracks_run`).

What readers of the buffer see follows: `Ring.refines_run` says which records are
live, how they are numbered, and that a number finds its record again however often
the numbers have started over.
-/

namespace Historian

/-! ## Histories -/

/-- What is done to a buffer. -/
inductive Act where
  | push (record : LogRecord)
  | clear

/-- The records ever pushed, oldest first. -/
structure History where
  pushed : List LogRecord
  /-- How many of them were pushed before the last clearing. -/
  cleared : Nat

namespace History

/-- Nothing has been done yet. -/
def empty : History := ⟨[], 0⟩

/-- The history after one more act. -/
def extend (history : History) : Act → History
  | .push record => { history with pushed := history.pushed ++ [record] }
  | .clear => { history with cleared := history.pushed.length }

@[simp] theorem pushed_push (history : History) (record : LogRecord) :
    (history.extend (.push record)).pushed = history.pushed ++ [record] := rfl

@[simp] theorem cleared_push (history : History) (record : LogRecord) :
    (history.extend (.push record)).cleared = history.cleared := rfl

@[simp] theorem pushed_clear (history : History) :
    (history.extend .clear).pushed = history.pushed := rfl

@[simp] theorem cleared_clear (history : History) :
    (history.extend .clear).cleared = history.pushed.length := rfl

/-- The history of a run. -/
def of (acts : List Act) : History := acts.foldl extend empty

/-- What was pushed stays pushed. -/
theorem pushed_prefix_foldl (history : History) (acts : List Act) :
    history.pushed <+: (acts.foldl extend history).pushed := by
  induction acts generalizing history with
  | nil => exact List.prefix_rfl
  | cons done rest ih =>
      refine List.IsPrefix.trans ?_ (ih (history.extend done))
      cases done with
      | push record => exact List.prefix_append _ _
      | clear => exact List.prefix_rfl

theorem foldl_push (history : History) (records : List LogRecord) :
    (records.map Act.push).foldl extend history =
      ⟨history.pushed ++ records, history.cleared⟩ := by
  induction records generalizing history with
  | nil =>
      rw [List.append_nil]
      rfl
  | cons record rest ih =>
      rw [List.map_cons, List.foldl_cons, ih, pushed_push, cleared_push, List.append_assoc]
      rfl

theorem pushed_prefix_of_append (done acts : List Act) :
    (of done).pushed <+: (of (done ++ acts)).pushed := by
  rw [of, of, List.foldl_append]
  exact pushed_prefix_foldl _ acts

variable {history : History} {capacity : Nat}

/-- The number of records that a buffer of some capacity still holds. -/
def live (history : History) (capacity : Nat) : Nat :=
  min capacity (history.pushed.length - history.cleared)

/-- The place of the first of them. -/
def first (history : History) (capacity : Nat) : Nat :=
  history.pushed.length - history.live capacity

theorem first_add_live (history : History) (capacity : Nat) :
    history.first capacity + history.live capacity = history.pushed.length := by
  unfold first live
  omega

theorem first_le (history : History) (capacity : Nat) :
    history.first capacity ≤ history.pushed.length :=
  Nat.sub_le _ _

/-- Pushing into a full buffer moves its first place on. -/
theorem first_push_of_full (record : LogRecord) (hfull : history.live capacity = capacity) :
    (history.extend (.push record)).first capacity = history.first capacity + 1 := by
  unfold first live at *
  simp only [pushed_push, cleared_push, List.length_append, List.length_singleton]
  omega

/-- Pushing into any other keeps it. -/
theorem first_push_of_not_full (record : LogRecord)
    (hcleared : history.cleared ≤ history.pushed.length)
    (hroom : history.live capacity ≠ capacity) :
    (history.extend (.push record)).first capacity = history.first capacity := by
  unfold first live at *
  simp only [pushed_push, cleared_push, List.length_append, List.length_singleton]
  omega

/-- The number of a place has been given again, to a newer record that is live. -/
def Reissued (history : History) (capacity place : Nat) : Prop :=
  ∃ newer, place < newer ∧ history.first capacity ≤ newer ∧ newer < history.pushed.length ∧
    Sequence.number newer = Sequence.number place

/-- This takes as many newer records as there are numbers. -/
theorem not_reissued_of_recent {place : Nat}
    (hrecent : history.pushed.length ≤ place + Sequence.cycle) :
    ¬ history.Reissued capacity place := by
  rintro ⟨newer, hnewer, -, hlast, heq⟩
  have := Sequence.number_inj (Nat.le_of_lt hnewer) (by omega) heq.symm
  omega

theorem first_clear : (history.extend .clear).first capacity = history.pushed.length := by
  simp [first, live]

end History

namespace Ring

/-! ## Runs -/

/-- A buffer after an act. -/
def act (ring : Ring) : Act → Ring
  | .push record => (ring.push record).1
  | .clear => ring.clear

/-- A buffer after a run. -/
def run (ring : Ring) (acts : List Act) : Ring := acts.foldl act ring

/-- The buffer holds the end of the history, and counts all of it. -/
structure Tracks (capacity : Nat) (ring : Ring) (history : History) : Prop where
  capacity_eq : ring.capacity = capacity
  cleared_le : history.cleared ≤ history.pushed.length
  records : ring.records = history.pushed.drop (history.first capacity)
  total : ring.total =
    if history.pushed = [] then 0 else Sequence.number (history.pushed.length - 1)

namespace Tracks

variable {capacity : Nat} {ring : Ring} {history : History}

theorem length_records (htracks : Tracks capacity ring history) :
    ring.records.length = history.live capacity := by
  have hplaces := history.first_add_live capacity
  rw [htracks.records, List.length_drop]
  omega

theorem isFull_iff (htracks : Tracks capacity ring history) :
    ring.isFull = true ↔ history.live capacity = capacity := by
  rw [isFull, decide_eq_true_iff, htracks.length_records, htracks.capacity_eq]

theorem next_total (htracks : Tracks capacity ring history) :
    Sequence.next ring.total = Sequence.number history.pushed.length := by
  rw [htracks.total]
  split
  · rename_i hnil
    rw [hnil, Sequence.next_zero, List.length_nil]
  · rename_i hsome
    have hpos := List.length_pos_iff.mpr hsome
    rw [Sequence.next_number, Nat.sub_add_cancel hpos]

/-- Pushing keeps the buffer at the end of its history.  A full buffer moves on by one
place, any other keeps its first. -/
theorem push (htracks : Tracks capacity ring history) (hcapacity : 0 < capacity)
    (record : LogRecord) :
    Tracks capacity (ring.push record).1 (history.extend (.push record)) := by
  have htotal : Sequence.next ring.total =
      if history.pushed ++ [record] = [] then 0
      else Sequence.number ((history.pushed ++ [record]).length - 1) := by
    rw [if_neg (List.append_ne_nil_of_right_ne_nil _ (List.cons_ne_nil _ _)), htracks.next_total,
      List.length_append, List.length_singleton, Nat.add_sub_cancel]
  have hkept : history.cleared ≤ (history.pushed ++ [record]).length := by
    rw [List.length_append]
    exact Nat.le_add_right_of_le htracks.cleared_le
  -- The history forgets nothing: if the buffer gives up a record, only the first place moves.
  by_cases hfull : ring.isFull
  · have hlive := htracks.isFull_iff.mp hfull
    have hplaces := history.first_add_live capacity
    simp only [Ring.push, if_pos hfull]
    refine ⟨htracks.capacity_eq, hkept, ?_, htotal⟩
    rw [History.first_push_of_full record hlive, History.pushed_push,
      List.drop_append_of_le_length (by omega), htracks.records, List.drop_drop]
  · have hlive := mt htracks.isFull_iff.mpr hfull
    simp only [Ring.push, if_neg hfull]
    refine ⟨htracks.capacity_eq, hkept, ?_, htotal⟩
    rw [History.first_push_of_not_full record htracks.cleared_le hlive, History.pushed_push,
      List.drop_append_of_le_length (history.first_le capacity), htracks.records]

theorem clear (htracks : Tracks capacity ring history) :
    Tracks capacity ring.clear (history.extend .clear) := by
  refine ⟨htracks.capacity_eq, Nat.le_refl _, ?_, htracks.total⟩
  rw [History.first_clear]
  exact List.drop_length.symm

end Tracks

/-! ## What a run keeps -/

theorem tracks_ofCapacity (capacity : Nat) :
    Tracks (max capacity 1) (ofCapacity capacity) History.empty :=
  ⟨rfl, Nat.le_refl _, List.drop_nil.symm, rfl⟩

theorem tracks_act {capacity : Nat} {ring : Ring} {history : History}
    (htracks : Tracks capacity ring history) (hcapacity : 0 < capacity) (done : Act) :
    Tracks capacity (ring.act done) (history.extend done) := by
  cases done with
  | push record => exact htracks.push hcapacity record
  | clear => exact htracks.clear

/-- Every run keeps a buffer at the end of its history, from wherever it starts. -/
theorem tracks_foldl {capacity : Nat} {ring : Ring} {history : History}
    (htracks : Tracks capacity ring history) (hcapacity : 0 < capacity) (acts : List Act) :
    Tracks capacity (ring.run acts) (acts.foldl History.extend history) := by
  induction acts generalizing ring history with
  | nil => exact htracks
  | cons done rest ih => exact ih (tracks_act htracks hcapacity done)

/-- A buffer that is given no room has room for one record. -/
theorem raised_lt_cycle {capacity : Nat} (hcapacity : capacity < Sequence.cycle) :
    max capacity 1 < Sequence.cycle :=
  Nat.max_lt.mpr ⟨hcapacity, by decide⟩

theorem tracks_run (capacity : Nat) (acts : List Act) :
    Tracks (max capacity 1) ((ofCapacity capacity).run acts) (History.of acts) :=
  tracks_foldl (tracks_ofCapacity capacity) (Nat.le_max_right _ _) acts

/-! ## What readers see -/

/-- A buffer and its view count the oldest record alike. -/
theorem firstLive_view {ring : Ring} (hsome : ring.records ≠ [])
    (hsmall : ring.records.length < Sequence.cycle) : ring.view.firstLive = ring.firstSequence := by
  have hpos := List.length_pos_iff.mpr hsome
  have hcount : ring.view.count.toNat = ring.records.length := Sequence.toNat_ofNat hsmall
  have hone : (1 : UInt32) ≤ ring.view.count := by
    rw [UInt32.le_iff_toNat_le, hcount]
    exact hpos
  have hback : ring.view.count - 1 = UInt32.ofNat (ring.records.length - 1) := by
    apply UInt32.toNat_inj.mp
    rw [UInt32.toNat_sub_of_le _ _ hone, hcount, Sequence.toNat_ofNat (by omega)]
    rfl
  rw [firstSequence, if_neg hsome, LogView.firstLive, hback]
  rfl

namespace Tracks

variable {capacity : Nat} {ring : Ring} {history : History}

theorem live_lt_cycle (history : History) (hcapacity : capacity < Sequence.cycle) :
    history.live capacity < Sequence.cycle :=
  Nat.lt_of_le_of_lt (Nat.min_le_left _ _) hcapacity

/-- The record at an index is the one at the place as far from the first. -/
theorem record? (htracks : Tracks capacity ring history) (index : Nat) :
    ring.view.record? index = history.pushed[history.first capacity + index]? := by
  simp only [view, htracks.records, List.getElem?_drop]

theorem toNat_count (htracks : Tracks capacity ring history)
    (hcapacity : capacity < Sequence.cycle) : ring.view.count.toNat = history.live capacity := by
  rw [view, htracks.length_records]
  exact Sequence.toNat_ofNat (live_lt_cycle history hcapacity)

/-- The oldest record is numbered by its place. -/
theorem firstSequence_eq (htracks : Tracks capacity ring history)
    (hcapacity : capacity < Sequence.cycle) (hlive : 0 < history.live capacity) :
    ring.firstSequence = Sequence.number (history.first capacity) := by
  have hplaces := history.first_add_live capacity
  have hsmall := live_lt_cycle history hcapacity
  have hsome : ring.records ≠ [] := by
    rw [← List.length_pos_iff, htracks.length_records]
    exact hlive
  have hpushed : history.pushed ≠ [] := by
    rw [← List.length_pos_iff]
    omega
  have hback : (UInt32.ofNat (history.live capacity - 1)).toNat = history.live capacity - 1 :=
    Sequence.toNat_ofNat (by omega)
  calc ring.firstSequence
      = Sequence.before ring.total (UInt32.ofNat (history.live capacity - 1)) := by
        rw [firstSequence, if_neg hsome, htracks.length_records]
    _ = Sequence.number (history.pushed.length - 1 - (history.live capacity - 1)) := by
        rw [htracks.total, if_neg hpushed, Sequence.before_number (by omega), hback]
    _ = Sequence.number (history.first capacity) := by
        congr 1
        omega

/-- A reader of the view finds the same number. -/
theorem firstLive_eq (htracks : Tracks capacity ring history)
    (hcapacity : capacity < Sequence.cycle) (hlive : 0 < history.live capacity) :
    ring.view.firstLive = Sequence.number (history.first capacity) := by
  have hlength := htracks.length_records
  have hsmall : ring.records.length < Sequence.cycle :=
    hlength ▸ live_lt_cycle history hcapacity
  have hsome : ring.records ≠ [] := by
    rw [← List.length_pos_iff, hlength]
    exact hlive
  rw [firstLive_view hsome hsmall, htracks.firstSequence_eq hcapacity hlive]

theorem sequenceAt_eq (htracks : Tracks capacity ring history)
    (hcapacity : capacity < Sequence.cycle) {index : Nat}
    (hindex : index < history.live capacity) :
    ring.view.sequenceAt index = Sequence.number (history.first capacity + index) := by
  have hsmall := live_lt_cycle history hcapacity
  rw [LogView.sequenceAt, htracks.firstLive_eq hcapacity (by omega), Sequence.after_number,
    Sequence.toNat_ofNat (by omega)]

/-- The number of a live record finds it, and as many after it as are wanted. -/
theorem resolve_live (htracks : Tracks capacity ring history)
    (hcapacity : capacity < Sequence.cycle) {index : Nat} (hindex : index < history.live capacity)
    {count : Int32} (hcount : 0 < count.toInt) :
    ring.view.resolve (.bySequence (Sequence.number (history.first capacity + index)) count) =
      .ok (some ⟨index, min count.toInt.toNat (history.live capacity - index)⟩) := by
  have hsmall := live_lt_cycle history hcapacity
  rw [← htracks.toNat_count hcapacity]
  refine LogView.resolve_bySequence_live (Sequence.number_ne_zero _) hcount ?_ ?_
  · rw [htracks.firstLive_eq hcapacity (by omega),
      Sequence.toNat_distance_number (Nat.le_add_right _ _) (by omega), Nat.add_sub_cancel_left]
  · rwa [htracks.toNat_count hcapacity]

/-- The number of a record that is gone finds nothing, unless it has been given
again. -/
theorem resolve_dead (htracks : Tracks capacity ring history)
    (hcapacity : capacity < Sequence.cycle) {place : Nat} (hplace : place < history.first capacity)
    (honce : ¬ history.Reissued capacity place) (count : Int32) :
    ring.view.resolve (.bySequence (Sequence.number place) count) = .ok none := by
  have hcount := htracks.toNat_count hcapacity
  have hplaces := history.first_add_live capacity
  apply LogView.resolve_bySequence_dead
  rcases Nat.eq_zero_or_pos (history.live capacity) with hempty | hlive
  · rw [hcount, hempty]
    exact Nat.zero_le _
  · rw [htracks.firstLive_eq hcapacity hlive, hcount]
    -- At a distance within the buffer there would be a newer record of the same number.
    by_contra hnear
    exact honce ⟨_, by omega, Nat.le_add_right _ _, by omega,
      Sequence.number_add_distance (history.first capacity) place⟩

end Tracks

/-- What a buffer shows of its history. -/
structure Refines (capacity : Nat) (ring : Ring) (history : History) : Prop where
  /-- The live records are the last ones pushed. -/
  records : ring.records = history.pushed.drop (history.first capacity)
  length_records : ring.records.length = history.live capacity
  /-- A full buffer gives up its oldest record for a new one. -/
  evicts : history.live capacity = capacity → ∀ record, ∃ oldest,
    ring.records.head? = some oldest ∧ (ring.push record).2 = some oldest
  keeps : history.live capacity ≠ capacity → ∀ record, (ring.push record).2 = none
  total : ring.total.toNat =
    if history.pushed.length = 0 then 0 else (history.pushed.length - 1) % Sequence.cycle + 1
  /-- A live record is numbered by its place, 0 being the first ever pushed. -/
  numbered : ∀ index < history.live capacity,
    (Sequence.after ring.firstSequence (UInt32.ofNat index)).toNat =
      (history.first capacity + index) % Sequence.cycle + 1
  /-- No two live records have one number. -/
  distinct : ∀ index < history.live capacity, ∀ other < history.live capacity,
    Sequence.after ring.firstSequence (UInt32.ofNat index) =
      Sequence.after ring.firstSequence (UInt32.ofNat other) → index = other
  firstSequence_eq_zero : ring.firstSequence = 0 ↔ ring.records = []
  /-- The number of a live record finds this record. -/
  found : ∀ index < history.live capacity, ∃ record,
    history.pushed[history.first capacity + index]? = some record ∧
      ring.view.resolve (.bySequence
        (UInt32.ofNat ((history.first capacity + index) % Sequence.cycle + 1)) 1) =
          .ok (some ⟨index, 1⟩) ∧
      ring.view.record? index = some record

namespace Tracks

variable {capacity : Nat} {ring : Ring} {history : History}

theorem evicts (htracks : Tracks capacity ring history) (hcapacity : 0 < capacity)
    (hfull : history.live capacity = capacity) (record : LogRecord) :
    ∃ oldest, ring.records.head? = some oldest ∧ (ring.push record).2 = some oldest := by
  have hsome : ring.records ≠ [] := by
    rw [← List.length_pos_iff, htracks.length_records, hfull]
    exact hcapacity
  obtain ⟨oldest, hhead⟩ := Option.isSome_iff_exists.mp (List.isSome_head?.mpr hsome)
  refine ⟨oldest, hhead, ?_⟩
  rw [Ring.push, if_pos (htracks.isFull_iff.mpr hfull)]
  exact hhead

theorem after_firstSequence (htracks : Tracks capacity ring history)
    (hcapacity : capacity < Sequence.cycle) {index : Nat}
    (hindex : index < history.live capacity) :
    Sequence.after ring.firstSequence (UInt32.ofNat index) =
      Sequence.number (history.first capacity + index) := by
  have hsmall := live_lt_cycle history hcapacity
  rw [htracks.firstSequence_eq hcapacity (by omega), Sequence.after_number,
    Sequence.toNat_ofNat (by omega)]

theorem firstSequence_eq_zero (htracks : Tracks capacity ring history)
    (hcapacity : capacity < Sequence.cycle) : ring.firstSequence = 0 ↔ ring.records = [] := by
  constructor
  · intro hzero
    rcases Nat.eq_zero_or_pos (history.live capacity) with hempty | hlive
    · exact List.eq_nil_of_length_eq_zero (htracks.length_records.trans hempty)
    · rw [htracks.firstSequence_eq hcapacity hlive] at hzero
      exact absurd hzero (Sequence.number_ne_zero _)
  · intro hnil
    rw [firstSequence, if_pos hnil]

theorem refines (htracks : Tracks capacity ring history) (hpos : 0 < capacity)
    (hcapacity : capacity < Sequence.cycle) : Refines capacity ring history where
  records := htracks.records
  length_records := htracks.length_records
  evicts hfull record := htracks.evicts hpos hfull record
  keeps hroom record := by
    rw [Ring.push, if_neg (mt htracks.isFull_iff.mp hroom)]
  total := by
    rw [htracks.total]
    by_cases hnil : history.pushed = []
    · simp [hnil]
    · rw [if_neg hnil, if_neg (mt List.eq_nil_of_length_eq_zero hnil), Sequence.toNat_number]
  numbered index hindex := by
    rw [htracks.after_firstSequence hcapacity hindex, Sequence.toNat_number]
  distinct index hindex other hother heq := by
    have hsmall := live_lt_cycle history hcapacity
    rw [htracks.after_firstSequence hcapacity hindex,
      htracks.after_firstSequence hcapacity hother] at heq
    -- Two places of the log are less than a cycle apart, and numbers that close differ.
    rcases Nat.le_total index other with hle | hle
    · have := Sequence.number_inj (Nat.add_le_add_left hle _) (by omega) heq
      omega
    · have := Sequence.number_inj (Nat.add_le_add_left hle _) (by omega) heq.symm
      omega
  firstSequence_eq_zero := htracks.firstSequence_eq_zero hcapacity
  found index hindex := by
    have hplaces := history.first_add_live capacity
    have hplace : history.first capacity + index < history.pushed.length := by omega
    -- Its own number leads back to the record, as the one that is selected and as the one at its
    -- place.
    refine ⟨_, List.getElem?_eq_getElem hplace, ?_, ?_⟩
    · have hone : min (1 : Int32).toInt.toNat (history.live capacity - index) = 1 := by
        change min 1 _ = 1
        omega
      rw [← Sequence.number, htracks.resolve_live hcapacity hindex (by decide), hone]
    · rw [htracks.record?, List.getElem?_eq_getElem hplace]

end Tracks

/-- **After every run a buffer shows the history of the run**: its last records, in
order, numbered by their places around the cycle. -/
theorem refines_run {capacity : Nat} (hcapacity : capacity < Sequence.cycle) (acts : List Act) :
    Refines (max capacity 1) ((ofCapacity capacity).run acts) (History.of acts) :=
  (tracks_run capacity acts).refines (Nat.le_max_right _ _) (raised_lt_cycle hcapacity)

/-- The run in which a buffer for two records is cleared after one and takes three
more. -/
theorem refines_run_cleared :
    let record : LogRecord := ⟨⟨⟨125, 3, 14, 5⟩, ⟨10, 3, 0, 0⟩⟩, .null, FlagSet.empty⟩
    let acts : List Act := [.push record, .clear, .push record, .push record, .push record]
    Refines 2 ((ofCapacity 2).run acts) (History.of acts) ∧
      (History.of acts).live 2 = 2 ∧ ((ofCapacity 2).run acts).firstSequence = 3 := by
  intro record acts
  have hsmall : 2 < Sequence.cycle := by decide
  exact ⟨refines_run hsmall acts, rfl, by decide +kernel⟩

end Ring

end Historian
