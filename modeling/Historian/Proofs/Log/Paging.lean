import Historian.Proofs.Log.Answer
import Historian.Proofs.Log.History

/-!
# Reading a log page by page

A reader asks for the whole log and then, as long as it is told that there is more,
for what follows the last record it has, by sequence number.  Between two requests
the log may be pushed into and cleared at will.

`Paging.read_follows`: no request fails, and the pages joined together are a
contiguous run of the append history (`Paging.Follows`).  A page is empty only if the
record asked for is gone.  A log that is left alone is read to its end, every record
once, in at most as many requests as it has records.

Sequence numbers are given again after 2³² − 1 records.  Hence a reader must ask
before the number that it asks for is given to a newer record (`Paging.Prompt`); if it
does not, it is given that one (`Paging.not_follows_late`).

## Strategy

The place of the record asked for is carried along, which the reader itself does
not know.  One request is settled for a record that is live (`Paging.fetch_live`) and
for one that is gone (`Paging.fetch_dead`); both say what is asked next.  A reading is
then an induction over its requests.
-/

namespace Historian.Paging

/-! ## The reader -/

/-- What may differ from one request of a reading to another. -/
structure Round where
  /-- What is done to the log since the request before. -/
  acts : List Act
  /-- The number of records asked for; the first request asks for all. -/
  count : Int32
  invoke : UInt8
  /-- The buffer that the answer is written over. -/
  out : Octets

/-- A request that was made: the history of the log at that time, and the answer
unless the request failed. -/
structure Turn where
  history : History
  answer : Option RangeAck

/-- The records received in a turn. -/
def Turn.items (turn : Turn) : List LogRecord := turn.answer.elim [] RangeAck.items

/-- What a reader asks for after an answer, if anything. -/
def next (ack : RangeAck) (count : Int32) : Option Range :=
  if ack.flags.has 2 then
    some (.bySequence (Sequence.after (ack.firstSequence.getD 0) ack.count) count)
  else none

section

variable (others : Repository) (object : ObjectId) (capacity : Nat)

/-- The logs of the device, among them the one that is read. -/
def serving (ring : Ring) : Repository := fun number =>
  if number = object.number then some ring.view else others number

/-- The answer that a reader decodes. -/
def fetch (ring : Ring) (range : Range) (round : Round) : Option RangeAck :=
  match Page.answer (serving others object ring)
      ⟨object, .logBuffer, none, range, round.invoke⟩ round.out with
  | (.error _, _) => none
  | (.ok page, after) =>
      match RangeAck.decode (after.take page.length) with
      | .error _ => none
      | .ok (ack, _) => some ack

/-- The turns of a reading that goes on with `ask` after the log has been through
`done`.  It ends with a failure, with an answer that nothing follows, or with the
rounds. -/
def readFrom (ask : Int32 → Option Range) (done : List Act) : List Round → List Turn
  | [] => []
  | round :: rest =>
      match ask round.count with
      | none => []
      | some range =>
          let now := done ++ round.acts
          match fetch others object ((Ring.ofCapacity capacity).run now) range round with
          | none => [⟨History.of now, none⟩]
          | some ack => ⟨History.of now, some ack⟩ :: readFrom (next ack) now rest

/-- The turns of a reading. -/
def read (done : List Act) (rounds : List Round) : List Turn :=
  readFrom others object capacity (fun _ => some .all) done rounds

end

/-! ## What a reading should give -/

/-- The records of an answer are those of the history from a place on. -/
def Holds (history : History) (place : Nat) (ack : RangeAck) : Prop :=
  ack.count.toNat = ack.items.length ∧
    ack.items = ((history.pushed.drop place).take ack.items.length).map LogRecord.received

/-- Every turn goes on where the one before ended, the first at `place`.  It gives
nothing only if the record at that place is gone. -/
inductive Continues (capacity : Nat) : Nat → List Turn → Prop where
  | nil {place : Nat} : Continues capacity place []
  | cons {place : Nat} {turn : Turn} {ack : RangeAck} {rest : List Turn}
      (answered : turn.answer = some ack) (holds : Holds turn.history place ack)
      (gone : ack.items = [] → place < turn.history.first capacity)
      (more : Continues capacity (place + ack.items.length) rest) :
      Continues capacity place (turn :: rest)

/-- The first turn begins with the oldest live record, if there is one, and the
others go on from there. -/
inductive Follows (capacity : Nat) : List Turn → Prop where
  | nil : Follows capacity []
  | cons {turn : Turn} {ack : RangeAck} {rest : List Turn} (answered : turn.answer = some ack)
      (holds : Holds turn.history (turn.history.first capacity) ack)
      (empty : ack.items = [] → turn.history.live capacity = 0)
      (more : Continues capacity (turn.history.first capacity + ack.items.length) rest) :
      Follows capacity (turn :: rest)

/-- Each request is made before the number of the record that it asks for, the first
at `place`, is given again. -/
def Timely (capacity : Nat) : Nat → List Turn → Prop
  | _, [] => True
  | place, turn :: rest =>
      ¬ turn.history.Reissued capacity place ∧ Timely capacity (place + turn.items.length) rest

/-- Each request but the first, which asks for no number, is timely. -/
def Prompt (capacity : Nat) : List Turn → Prop
  | [] => True
  | turn :: rest => Timely capacity (turn.history.first capacity + turn.items.length) rest

/-! ## One request -/

theorem has_of (first last more : Bool) : (ResultFlags.of first last more).has 2 = more :=
  (ResultFlags.has_of first last more).2.2

theorem fetch_eq {others : Repository} {object : ObjectId} {ring : Ring} {range : Range}
    {round : Round} {page : Page} {after : Octets} {ack : RangeAck}
    (hanswer : Page.answer (serving others object ring)
      ⟨object, .logBuffer, none, range, round.invoke⟩ round.out = (.ok page, after))
    (hdecode : RangeAck.decode (after.take page.length) = .ok (ack, [])) :
    fetch others object ring range round = some ack := by
  simp only [fetch, hanswer, hdecode]

theorem locate_serving {others : Repository} {object : ObjectId} {ring : Ring} {range : Range}
    {invoke : UInt8} {span : Option Span} (hobject : object.type = .trendLog)
    (hresolve : ring.view.resolve range = .ok span) :
    Page.locate (serving others object ring) ⟨object, .logBuffer, none, range, invoke⟩ =
      .ok (ring.view, span) :=
  (Page.locate_eq_ok_iff _ _ _ _).mpr ⟨hobject, if_pos rfl, rfl, rfl, hresolve⟩

/-- The request after the one whose answer ended before `place`. -/
def askFrom (history : History) (place : Nat) (count : Int32) : Option Range :=
  if place < history.pushed.length then some (.bySequence (Sequence.number place) count)
  else none

section

variable (others : Repository) {object : ObjectId} {capacity : Nat} {ring : Ring}
  {history : History} {round : Round}

/-- A request for live records gets the first of them, and the next asks for what
follows. -/
theorem fetch_live (htracks : Ring.Tracks capacity ring history)
    (hcapacity : capacity < Sequence.cycle) (hobject : object.type = .trendLog)
    (hroom : 47 ≤ round.out.length) {place size : Nat} {range : Range}
    (hplace : history.first capacity ≤ place) (hsize : 0 < size)
    (hstop : place + size ≤ history.pushed.length)
    (hresolve : ring.view.resolve range =
      .ok (some ⟨place - history.first capacity, size⟩)) :
    ∃ ack, fetch others object ring range round = some ack ∧ Holds history place ack ∧
      0 < ack.items.length ∧ place + ack.items.length ≤ history.pushed.length ∧
      next ack = askFrom history (place + ack.items.length) := by
  have hlength := htracks.length_records
  have hplaces := history.first_add_live capacity
  have hlive := Ring.Tracks.live_lt_cycle history hcapacity
  have hsmall : ring.records.length < 4294967296 := by
    unfold Sequence.cycle at hlive
    omega
  have hspan : (⟨place - history.first capacity, size⟩ : Span).stop ≤ ring.records.length := by
    unfold Span.stop
    simp only
    omega
  have hroom' : 44 ≤ round.out.length := by omega
  -- How many records there are on the page depends on the buffer of the round.
  obtain ⟨taken, page, after, hpos, hle, -, hanswer, hdecode⟩ :=
    Page.answer_span (locate_serving hobject hresolve) hsmall hspan hsize hroom'
  simp only at hle hdecode
  refine ⟨_, fetch_eq hanswer hdecode, ?_⟩
  -- Places of the buffer are places of the history, less the first live one.
  have hrecords : ring.records.drop (place - history.first capacity) =
      history.pushed.drop place := by
    rw [htracks.records, List.drop_drop, Nat.add_sub_cancel' hplace]
  have hitems : (ring.sent object (place - history.first capacity) taken).items.length =
      taken := by
    rw [Ring.sent, List.length_map, hrecords, List.length_take, List.length_drop]
    omega
  have hcount : (UInt32.ofNat taken).toNat = taken := Sequence.toNat_ofNat (by omega)
  rw [hitems]
  refine ⟨⟨hcount.trans hitems.symm, ?_⟩, hpos, by omega, ?_⟩
  · rw [hitems, Ring.sent, hrecords]
  · funext count
    -- There is more after the page exactly if the history goes on behind it.
    have hmore : ring.records.length ≤ place - history.first capacity + taken ↔
        ¬ place + taken < history.pushed.length := by
      rw [hlength]
      omega
    simp only [next, Ring.sent, has_of, hmore, decide_not, Bool.not_not, decide_eq_true_eq,
      askFrom, Option.getD_some]
    rw [htracks.sequenceAt_eq hcapacity (by omega), Sequence.after_number, hcount,
      Nat.add_sub_cancel' hplace]

/-- A request that selects nothing gets nothing, and nothing is asked after it. -/
theorem fetch_dead (hobject : object.type = .trendLog) (hroom : 47 ≤ round.out.length)
    {range : Range} (hresolve : ring.view.resolve range = .ok none) :
    ∃ ack, fetch others object ring range round = some ack ∧ ack.items = [] ∧
      ack.count = 0 ∧ next ack = fun _ => none := by
  have hroom' : 22 ≤ round.out.length := by omega
  obtain ⟨page, after, hanswer, hdecode⟩ :=
    Page.answer_nothing (locate_serving hobject hresolve) hroom'
  refine ⟨_, fetch_eq hanswer hdecode, rfl, rfl, ?_⟩
  funext count
  simp only [next, RangeAck.nothing, has_of, Bool.false_eq_true, if_false]

/-- The first request gets the oldest live records, and the next asks for what
follows. -/
theorem fetch_all (htracks : Ring.Tracks capacity ring history)
    (hcapacity : capacity < Sequence.cycle) (hobject : object.type = .trendLog)
    (hroom : 47 ≤ round.out.length) :
    ∃ ack, fetch others object ring .all round = some ack ∧
      Holds history (history.first capacity) ack ∧
      (ack.items = [] → history.live capacity = 0) ∧
      history.first capacity + ack.items.length ≤ history.pushed.length ∧
      next ack = askFrom history (history.first capacity + ack.items.length) := by
  have hplaces := history.first_add_live capacity
  have hcount := htracks.toNat_count hcapacity
  rcases Nat.eq_zero_or_pos (history.live capacity) with hempty | hlive
  · -- No record is live, and the reading is over with an empty page.
    have hnone : ring.view.count = 0 := UInt32.toNat_inj.mp (hcount.trans hempty)
    obtain ⟨ack, hfetch, hnil, hzero, hnext⟩ := fetch_dead others hobject hroom
      (LogView.resolve_of_empty hnone nofun : ring.view.resolve .all = .ok none)
    have hholds : Holds history (history.first capacity) ack := by
      rw [Holds, hzero, hnil]
      exact ⟨rfl, rfl⟩
    refine ⟨ack, hfetch, hholds, fun _ => hempty, ?_, ?_⟩
    · rw [hnil]
      exact history.first_le capacity
    · funext count
      rw [hnext, hnil, askFrom, if_neg (by simp only [List.length_nil]; omega)]
  · -- All live records are selected, so this is a request for live ones.
    have hsome : ring.view.count ≠ 0 := by
      intro hzero
      rw [hzero] at hcount
      exact absurd hcount (Nat.ne_of_lt hlive)
    have hresolve := LogView.resolve_all hsome
    rw [hcount, ← Nat.sub_self (history.first capacity)] at hresolve
    obtain ⟨ack, hfetch, hholds, hpos, hle, hnext⟩ := fetch_live others htracks hcapacity hobject
      hroom (Nat.le_refl _) hlive (Nat.le_of_eq hplaces) hresolve
    exact ⟨ack, hfetch, hholds, fun hnil => absurd hpos (by simp [hnil]), hle, hnext⟩

end

/-! ## A reading of a changing log -/

section

variable {others : Repository} {object : ObjectId} {capacity : Nat}

theorem readFrom_none (done : List Act) (rounds : List Round) :
    readFrom others object capacity (fun _ => none) done rounds = [] := by
  cases rounds <;> rfl

theorem length_le_of_append (done acts : List Act) :
    (History.of done).pushed.length ≤ (History.of (done ++ acts)).pushed.length :=
  (History.pushed_prefix_of_append done acts).length_le

/-- The number of a record that is live finds it in whatever the buffer has become. -/
theorem resolve_from {ring : Ring} {history : History}
    (htracks : Ring.Tracks capacity ring history) (hcapacity : capacity < Sequence.cycle)
    {place : Nat} (hlive : history.first capacity ≤ place)
    (hplace : place < history.pushed.length) {count : Int32} (hcount : 0 < count.toInt) :
    ring.view.resolve (.bySequence (Sequence.number place) count) =
      .ok (some ⟨place - history.first capacity,
        min count.toInt.toNat (history.pushed.length - place)⟩) := by
  have hplaces := history.first_add_live capacity
  have hindex : place - history.first capacity < history.live capacity := by omega
  have hresolve := htracks.resolve_live hcapacity hindex hcount
  have hrest : history.live capacity - (place - history.first capacity) =
      history.pushed.length - place := by omega
  rwa [Nat.add_sub_cancel' hlive, hrest] at hresolve

/-- The turns after the first go on from where it ended. -/
theorem continues_readFrom (hcapacity : max capacity 1 < Sequence.cycle)
    (hobject : object.type = .trendLog) {rounds : List Round}
    (hrounds : ∀ round ∈ rounds, 0 < round.count.toInt ∧ 47 ≤ round.out.length)
    {done : List Act} {place : Nat}
    (htimely : Timely (max capacity 1) place
      (readFrom others object capacity (askFrom (History.of done) place) done rounds)) :
    Continues (max capacity 1) place
      (readFrom others object capacity (askFrom (History.of done) place) done rounds) := by
  -- Induction on the rounds, over all places and histories: `place` is where the pages so far have
  -- ended.
  induction rounds generalizing done place with
  | nil => exact .nil
  | cons round rest ih =>
      obtain ⟨⟨hcount, hroom⟩, hrest⟩ := List.forall_mem_cons.mp hrounds
      by_cases hmore : place < (History.of done).pushed.length
      · have hplace := Nat.lt_of_lt_of_le hmore (length_le_of_append done round.acts)
        have htracks := Ring.tracks_run capacity (done ++ round.acts)
        simp only [readFrom, askFrom, if_pos hmore] at htimely ⊢
        -- In the meantime the record asked for may have been pushed out or cleared away.
        by_cases hlive : (History.of (done ++ round.acts)).first (max capacity 1) ≤ place
        · have hresolve := resolve_from htracks hcapacity hlive hplace hcount
          obtain ⟨ack, hfetch, hholds, hsome, -, hnext⟩ :=
            fetch_live others htracks hcapacity hobject hroom hlive (by omega) (by omega) hresolve
          simp only [hfetch, hnext] at htimely ⊢
          exact .cons rfl hholds (fun hnil => absurd hsome (by simp [hnil]))
            (ih hrest htimely.2)
        · -- The record is gone.  The request is timely, so no newer one bears its number, and the
          -- page is empty.
          have honce : ¬ (History.of (done ++ round.acts)).Reissued (max capacity 1) place := by
            split at htimely <;> exact htimely.1
          have hgone := Nat.lt_of_not_le hlive
          obtain ⟨ack, hfetch, hnil, hzero, hnext⟩ :=
            fetch_dead others hobject hroom (htracks.resolve_dead hcapacity hgone honce round.count)
          simp only [hfetch, hnext, readFrom_none]
          refine .cons rfl ⟨?_, ?_⟩ (fun _ => hgone) .nil
          · rw [hzero, hnil]
            rfl
          · rw [hnil]
            rfl
      · simp only [readFrom, askFrom, if_neg hmore]
        exact .nil

/-- **A reading that is prompt follows the history.** -/
theorem follows_read (hcapacity : max capacity 1 < Sequence.cycle)
    (hobject : object.type = .trendLog) {rounds : List Round}
    (hrounds : ∀ round ∈ rounds, 0 < round.count.toInt ∧ 47 ≤ round.out.length)
    (done : List Act)
    (hprompt : Prompt (max capacity 1) (read others object capacity done rounds)) :
    Follows (max capacity 1) (read others object capacity done rounds) := by
  cases rounds with
  | nil => exact .nil
  | cons round rest =>
      obtain ⟨⟨-, hroom⟩, hrest⟩ := List.forall_mem_cons.mp hrounds
      have htracks := Ring.tracks_run capacity (done ++ round.acts)
      obtain ⟨ack, hfetch, hholds, hempty, -, hnext⟩ :=
        fetch_all others htracks hcapacity hobject hroom
      simp only [read, readFrom, hfetch, hnext] at hprompt ⊢
      exact .cons rfl hholds hempty (continues_readFrom hcapacity hobject hrest hprompt)

/-! ## The pages joined together -/

/-- The records received in a reading. -/
def received (turns : List Turn) : List LogRecord := turns.flatMap Turn.items

/-- Every turn is made while the log is what it will be, or less. -/
theorem prefix_of_mem_readFrom {ask : Int32 → Option Range} {done : List Act}
    {rounds : List Round} :
    ∀ turn ∈ readFrom others object capacity ask done rounds,
      turn.history.pushed <+: (History.of (done ++ rounds.flatMap Round.acts)).pushed := by
  induction rounds generalizing ask done with
  | nil => exact fun _ hmem => absurd hmem List.not_mem_nil
  | cons round rest ih =>
      intro turn hmem
      have hnow := History.pushed_prefix_of_append (done ++ round.acts) (rest.flatMap Round.acts)
      rw [List.flatMap_cons, ← List.append_assoc]
      rw [readFrom] at hmem
      split at hmem
      · exact absurd hmem List.not_mem_nil
      · simp only at hmem
        split at hmem
        · rw [List.mem_singleton.mp hmem]
          exact hnow
        · rcases List.mem_cons.mp hmem with rfl | hlater
          · exact hnow
          · exact ih turn hlater

/-- What an answer holds is still in the history later on. -/
theorem Holds.of_kept {history : History} {place : Nat} {ack : RangeAck}
    {pushed : List LogRecord} (hholds : Holds history place ack)
    (hkept : history.pushed <+: pushed) :
    ack.items = ((pushed.drop place).take ack.items.length).map LogRecord.received := by
  obtain ⟨added, rfl⟩ := hkept
  -- Only a page with records must begin within the history: an empty one says nothing of
  -- the records that are pushed later.
  have hlength := congrArg List.length hholds.2
  rw [List.length_map, List.length_take, List.length_drop] at hlength
  rcases Nat.eq_zero_or_pos ack.items.length with hnone | hsome
  · rw [List.eq_nil_of_length_eq_zero hnone]
    rfl
  · rw [List.drop_append_of_le_length (by omega),
      List.take_append_of_le_length (by rw [List.length_drop]; omega)]
    exact hholds.2

theorem received_cons {turn : Turn} {ack : RangeAck} (hanswered : turn.answer = some ack)
    (rest : List Turn) : received (turn :: rest) = ack.items ++ received rest := by
  rw [received, List.flatMap_cons, Turn.items, hanswered]
  rfl

/-- A turn in front of a contiguous run. -/
theorem received_cons_eq {place : Nat} {turn : Turn} {ack : RangeAck} {rest : List Turn}
    {pushed : List LogRecord} (hanswered : turn.answer = some ack)
    (hholds : Holds turn.history place ack) (hkept : turn.history.pushed <+: pushed)
    (hrest : received rest = ((pushed.drop (place + ack.items.length)).take
      (received rest).length).map LogRecord.received) :
    received (turn :: rest) =
      ((pushed.drop place).take (received (turn :: rest)).length).map LogRecord.received := by
  have hlength : (received (turn :: rest)).length = ack.items.length + (received rest).length := by
    rw [received_cons hanswered, List.length_append]
  calc received (turn :: rest)
      = ack.items ++ received rest := received_cons hanswered rest
    _ = ((pushed.drop place).take ack.items.length).map LogRecord.received ++
          ((pushed.drop (place + ack.items.length)).take
            (received rest).length).map LogRecord.received := by
        rw [← hholds.of_kept hkept, ← hrest]
    _ = ((pushed.drop place).take (received (turn :: rest)).length).map LogRecord.received := by
        rw [hlength, List.take_add, List.map_append, List.drop_drop]

theorem Continues.received_eq {place : Nat} {turns : List Turn} {pushed : List LogRecord}
    (hcontinues : Continues capacity place turns)
    (hkept : ∀ turn ∈ turns, turn.history.pushed <+: pushed) :
    received turns =
      ((pushed.drop place).take (received turns).length).map LogRecord.received := by
  induction hcontinues with
  | nil => rfl
  | cons hanswered hholds hgone hmore ih =>
      obtain ⟨hfirst, hrest⟩ := List.forall_mem_cons.mp hkept
      exact received_cons_eq hanswered hholds hfirst (ih hrest)

/-- The records of a reading that follows the history are a contiguous run of it. -/
theorem Follows.received_eq {turns : List Turn} {pushed : List LogRecord}
    (hfollows : Follows capacity turns)
    (hkept : ∀ turn ∈ turns, turn.history.pushed <+: pushed) :
    ∃ start, received turns =
      ((pushed.drop start).take (received turns).length).map LogRecord.received := by
  cases hfollows with
  | nil => exact ⟨0, rfl⟩
  | cons hanswered hholds hempty hmore =>
      obtain ⟨hfirst, hrest⟩ := List.forall_mem_cons.mp hkept
      exact ⟨_, received_cons_eq hanswered hholds hfirst (hmore.received_eq hrest)⟩

/-! ## A reading of a log that is left alone -/

/-- A reading that has come to its end: it has received all records of the history from
a place on, in at most as many turns, and was told that there are no more. -/
structure Complete (history : History) (place : Nat) (turns : List Turn) : Prop where
  received : received turns = (history.pushed.drop place).map LogRecord.received
  length_le : turns.length ≤ max (history.pushed.length - place) 1
  ended : ∃ ack, turns.getLast?.bind Turn.answer = some ack ∧ ack.flags.has 2 = false

theorem has_more_eq_false {ack : RangeAck} (hnext : next ack = fun _ => none) :
    ack.flags.has 2 = false := by
  have hnone := congrFun hnext 0
  unfold next at hnone
  split at hnone
  · cases hnone
  · rename_i hmore
    exact Bool.eq_false_iff.mpr hmore

/-- A turn that leaves nothing behind completes a reading. -/
theorem complete_last {history : History} {place : Nat} {ack : RangeAck}
    (hholds : Holds history place ack) (hstop : place + ack.items.length = history.pushed.length)
    (hnext : next ack = fun _ => none) : Complete history place [⟨history, some ack⟩] where
  received := by
    rw [received_cons rfl]
    change ack.items ++ [] = _
    rw [List.append_nil, hholds.2, List.take_of_length_le]
    rw [List.length_drop]
    omega
  length_le := Nat.le_max_right _ _
  ended := ⟨ack, rfl, has_more_eq_false hnext⟩

theorem complete_cons {history : History} {place : Nat} {ack : RangeAck} {rest : List Turn}
    (hholds : Holds history place ack) (hsome : 0 < ack.items.length)
    (hstop : place + ack.items.length < history.pushed.length)
    (hrest : Complete history (place + ack.items.length) rest) :
    Complete history place (⟨history, some ack⟩ :: rest) where
  received := by
    calc Paging.received (⟨history, some ack⟩ :: rest)
        = ack.items ++ Paging.received rest := received_cons rfl rest
      _ = ((history.pushed.drop place).take ack.items.length).map LogRecord.received ++
            (history.pushed.drop (place + ack.items.length)).map LogRecord.received := by
          rw [← hholds.2, hrest.received]
      _ = (history.pushed.drop place).map LogRecord.received := by
          rw [← List.map_append, ← List.drop_drop, List.take_append_drop]
  length_le := by
    have hle := hrest.length_le
    rw [List.length_cons]
    omega
  ended := by
    obtain ⟨last, hlast, hended⟩ := hrest.ended
    refine ⟨last, ?_, hended⟩
    cases rest with
    | nil => cases hlast
    | cons turn rest => exact hlast

theorem askFrom_end {history : History} {place : Nat} (hend : history.pushed.length ≤ place) :
    askFrom history place = fun _ => none := by
  funext count
  rw [askFrom, if_neg (Nat.not_lt_of_le hend)]

/-- A log that is left alone is read on to its end, each turn giving at least one
record. -/
theorem complete_readFrom (hcapacity : max capacity 1 < Sequence.cycle)
    (hobject : object.type = .trendLog) {rounds : List Round}
    (hrounds : ∀ round ∈ rounds, 0 < round.count.toInt ∧ 47 ≤ round.out.length)
    (hquiet : ∀ round ∈ rounds, round.acts = []) {done : List Act} {place : Nat}
    (hlive : (History.of done).first (max capacity 1) ≤ place)
    (hplace : place < (History.of done).pushed.length)
    (hlong : (History.of done).pushed.length - place ≤ rounds.length) :
    Complete (History.of done) place
      (readFrom others object capacity (askFrom (History.of done) place) done rounds) := by
  induction rounds generalizing place with
  | nil =>
      rw [List.length_nil] at hlong
      omega
  | cons round rest ih =>
      obtain ⟨⟨hcount, hroom⟩, hrest⟩ := List.forall_mem_cons.mp hrounds
      obtain ⟨hacts, hstill⟩ := List.forall_mem_cons.mp hquiet
      -- Nothing is done to the log, so its history stays that of `done`.
      have htracks := Ring.tracks_run capacity done
      obtain ⟨ack, hfetch, hholds, hsome, hle, hnext⟩ :=
        fetch_live others htracks hcapacity hobject hroom hlive (by omega) (by omega)
          (resolve_from htracks hcapacity hlive hplace hcount)
      have hask : askFrom (History.of done) place round.count =
          some (.bySequence (Sequence.number place) round.count) := if_pos hplace
      simp only [readFrom, hask, hacts, List.append_nil, hfetch, hnext]
      rcases Nat.lt_or_ge (place + ack.items.length) (History.of done).pushed.length
        with hmore | hend
      · refine complete_cons hholds hsome hmore (ih hrest hstill (by omega) hmore ?_)
        rw [List.length_cons] at hlong
        omega
      · rw [askFrom_end hend, readFrom_none]
        exact complete_last hholds (by omega) (hnext.trans (askFrom_end hend))

theorem complete_read (hcapacity : max capacity 1 < Sequence.cycle)
    (hobject : object.type = .trendLog) {rounds : List Round}
    (hrounds : ∀ round ∈ rounds, 0 < round.count.toInt ∧ 47 ≤ round.out.length)
    (hquiet : ∀ round ∈ rounds, round.acts = []) {done : List Act}
    (hlong : max ((History.of done).live (max capacity 1)) 1 ≤ rounds.length) :
    Complete (History.of done) ((History.of done).first (max capacity 1))
      (read others object capacity done rounds) := by
  have hplaces := (History.of done).first_add_live (max capacity 1)
  cases rounds with
  | nil =>
      rw [List.length_nil] at hlong
      omega
  | cons round rest =>
      obtain ⟨⟨-, hroom⟩, hrest⟩ := List.forall_mem_cons.mp hrounds
      obtain ⟨hacts, hstill⟩ := List.forall_mem_cons.mp hquiet
      have htracks := Ring.tracks_run capacity done
      obtain ⟨ack, hfetch, hholds, hempty, hle, hnext⟩ :=
        fetch_all others htracks hcapacity hobject hroom
      simp only [read, readFrom, hacts, List.append_nil, hfetch, hnext]
      rcases Nat.lt_or_ge ((History.of done).first (max capacity 1) + ack.items.length)
        (History.of done).pushed.length with hmore | hend
      · -- If the history goes on behind the first page, this page was not empty.
        have hsome : 0 < ack.items.length := by
          refine List.length_pos_iff.mpr fun hnil => ?_
          have hzero := hempty hnil
          rw [hnil, List.length_nil] at hmore
          omega
        refine complete_cons hholds hsome hmore
          (complete_readFrom hcapacity hobject hrest hstill (by omega) hmore ?_)
        rw [List.length_cons] at hlong
        omega
      · rw [askFrom_end hend, readFrom_none]
        exact complete_last hholds (by omega) (hnext.trans (askFrom_end hend))

end

/-! ## Every reading -/

/-- **Paging loses and repeats nothing.**  A reading that is prompt follows the history,
without a failure, and its records are a contiguous run of all that is ever pushed.  A
log that is left alone is read completely, oldest record first, in at most as many
requests as it has records, or one. -/
theorem read_follows {capacity : Nat} (hcapacity : capacity < Sequence.cycle)
    (others : Repository) {object : ObjectId} (hobject : object.type = .trendLog)
    (done : List Act) {rounds : List Round}
    (hrounds : ∀ round ∈ rounds, 0 < round.count.toInt ∧ 47 ≤ round.out.length) :
    let turns := read others object capacity done rounds
    let ring := (Ring.ofCapacity capacity).run done
    (Prompt (max capacity 1) turns →
      Follows (max capacity 1) turns ∧
        ∃ start, received turns =
          (((History.of (done ++ rounds.flatMap Round.acts)).pushed.drop start).take
            (received turns).length).map LogRecord.received) ∧
    ((∀ round ∈ rounds, round.acts = []) → max ring.records.length 1 ≤ rounds.length →
      turns.length ≤ max ring.records.length 1 ∧
        received turns = ring.records.map LogRecord.received ∧
        ∃ ack, turns.getLast?.bind Turn.answer = some ack ∧ ack.flags.has 2 = false) := by
  have hraised := Ring.raised_lt_cycle hcapacity
  have htracks := Ring.tracks_run capacity done
  have hplaces := (History.of done).first_add_live (max capacity 1)
  intro turns ring
  refine ⟨fun hprompt => ?_, fun hquiet hlong => ?_⟩
  · have hfollows := follows_read hraised hobject hrounds done hprompt
    exact ⟨hfollows, hfollows.received_eq prefix_of_mem_readFrom⟩
  · rw [htracks.length_records] at hlong ⊢
    have hcomplete : Complete _ _ turns := complete_read hraised hobject hrounds hquiet hlong
    refine ⟨Nat.le_trans hcomplete.length_le (by omega), ?_, hcomplete.ended⟩
    rw [htracks.records]
    exact hcomplete.received

/-! A log that has never started its numbers over is always read promptly. -/

theorem timely_of_young {capacity : Nat} {turns : List Turn} {place : Nat}
    (hyoung : ∀ turn ∈ turns, turn.history.pushed.length ≤ Sequence.cycle) :
    Timely capacity place turns := by
  induction turns generalizing place with
  | nil => exact True.intro
  | cons turn rest ih =>
      obtain ⟨hturn, hrest⟩ := List.forall_mem_cons.mp hyoung
      exact ⟨History.not_reissued_of_recent (Nat.le_add_left_of_le hturn), ih hrest⟩

theorem prompt_of_young {others : Repository} {object : ObjectId} {capacity : Nat}
    {done : List Act} {rounds : List Round} (cap : Nat)
    (hyoung : (History.of (done ++ rounds.flatMap Round.acts)).pushed.length ≤ Sequence.cycle) :
    Prompt cap (read others object capacity done rounds) := by
  have hturns : ∀ turn ∈ read others object capacity done rounds,
      turn.history.pushed.length ≤ Sequence.cycle := fun turn hmem =>
    Nat.le_trans (prefix_of_mem_readFrom turn hmem).length_le hyoung
  cases hread : read others object capacity done rounds with
  | nil => exact True.intro
  | cons turn rest =>
      rw [hread] at hturns
      exact timely_of_young (List.forall_mem_cons.mp hturns).2

/-- Three records read in requests for one record each: of a log that is left alone, and of one
that takes a new record in the place of the oldest before the second and the third request, and is
cleared before the fourth, which then gets nothing. -/
theorem read_follows_three :
    let record (number : UInt32) : LogRecord :=
      ⟨⟨⟨125, 3, 14, 5⟩, ⟨10, 3, 0, 0⟩⟩, .unsigned number, FlagSet.empty⟩
    let done : List Act := [.push (record 1), .push (record 2), .push (record 3)]
    let round (acts : List Act) : Round := ⟨acts, 1, 1, List.replicate 47 0⟩
    let quiet := [[], [], []].map round
    let busy := [[], [.push (record 4)], [.push (record 5)], [.clear, .push (record 6)]].map round
    let turns := read (fun _ => none) (ObjectId.of .trendLog 1) 3 done quiet
    let changing := read (fun _ => none) (ObjectId.of .trendLog 1) 3 done busy
    (Follows 3 turns ∧ turns.length ≤ 3 ∧ received turns = [record 1, record 2, record 3]) ∧
      Follows 3 changing ∧
      changing.map Turn.items = [[record 1], [record 2], [record 3], []] ∧
      ∃ start, received changing =
        (([record 1, record 2, record 3, record 4, record 5, record 6].drop start).take
          3).map LogRecord.received := by
  intro record done round quiet busy turns changing
  have hsmall : 3 < Sequence.cycle := by decide
  have hobject : (ObjectId.of .trendLog 1).type = .trendLog := rfl
  have hrounds : ∀ acts, 0 < (round acts).count.toInt ∧ 47 ≤ (round acts).out.length := by
    have hone : 0 < (1 : Int32).toInt := by decide
    exact fun acts => ⟨hone, Nat.le_refl 47⟩
  have hasks : ∀ r ∈ quiet, 0 < r.count.toInt ∧ 47 ≤ r.out.length :=
    List.forall_mem_map.mpr fun acts _ => hrounds acts
  have hchanges : ∀ r ∈ busy, 0 < r.count.toInt ∧ 47 ≤ r.out.length :=
    List.forall_mem_map.mpr fun acts _ => hrounds acts
  have hquiet : ∀ r ∈ quiet, r.acts = [] :=
    List.forall_mem_map.mpr fun acts hacts => by simpa using hacts
  refine ⟨?_, ?_⟩
  · -- The log that is left alone is read to its end.
    have hyoung : (History.of (done ++ quiet.flatMap Round.acts)).pushed.length ≤
        Sequence.cycle := Nat.le_of_lt hsmall
    obtain ⟨hfollows, hcomplete⟩ := read_follows hsmall (fun _ => none) hobject done hasks
    obtain ⟨hlength, hreceived, -⟩ := hcomplete hquiet (by decide)
    exact ⟨(hfollows (prompt_of_young 3 hyoung)).1, hlength, hreceived⟩
  · -- Six records were ever pushed, so no number was given again and the reading was prompt.
    have hyoung : (History.of (done ++ busy.flatMap Round.acts)).pushed.length ≤
        Sequence.cycle := by decide
    have hitems : changing.map Turn.items = [[record 1], [record 2], [record 3], []] := by
      decide +kernel
    have hreceived : received changing = [record 1, record 2, record 3] := by
      rw [received, List.flatMap_def, hitems]
      rfl
    obtain ⟨hfollows, -⟩ := read_follows hsmall (fun _ => none) hobject done hchanges
    obtain ⟨hgoes, start, hrun⟩ := hfollows (prompt_of_young 3 hyoung)
    refine ⟨hgoes, hitems, start, ?_⟩
    rw [hreceived] at hrun ⊢
    exact hrun

/-! ## A reading that comes too late -/

/-- A number that is given again finds the newer record. -/
theorem fetch_again (others : Repository) {object : ObjectId} {capacity : Nat} {ring : Ring}
    {history : History} {round : Round} (htracks : Ring.Tracks capacity ring history)
    (hcapacity : capacity < Sequence.cycle) (hobject : object.type = .trendLog)
    (hcount : 0 < round.count.toInt) (hroom : 47 ≤ round.out.length) {place newer : Nat}
    (hlive : history.first capacity ≤ newer) (hnewer : newer < history.pushed.length)
    (hsame : Sequence.number newer = Sequence.number place) :
    ∃ ack, fetch others object ring (.bySequence (Sequence.number place) round.count) round =
        some ack ∧
      Holds history newer ack ∧ 0 < ack.items.length := by
  have hresolve := resolve_from htracks hcapacity hlive hnewer hcount
  rw [hsame] at hresolve
  obtain ⟨ack, hfetch, hholds, hsome, -, -⟩ :=
    fetch_live others htracks hcapacity hobject hroom hlive (by omega) (by omega) hresolve
  exact ⟨ack, hfetch, hholds, hsome⟩

theorem Holds.head {history : History} {place : Nat} {ack : RangeAck}
    (hholds : Holds history place ack) (hsome : 0 < ack.items.length) :
    ack.items.head? = history.pushed[place]?.map LogRecord.received := by
  rw [hholds.2, List.head?_map, List.head?_take, if_neg (Nat.ne_of_gt hsome), List.head?_drop]

/-- A record that is read in time, and one that is not. -/
def early : LogRecord := ⟨⟨⟨125, 3, 14, 5⟩, ⟨10, 3, 0, 0⟩⟩, .unsigned 1, FlagSet.empty⟩
def late : LogRecord := ⟨⟨⟨125, 3, 14, 5⟩, ⟨10, 3, 0, 0⟩⟩, .unsigned 2, FlagSet.empty⟩

/-- A reading in two requests of a log that is pushed into between them. -/
def lateRounds (more : List LogRecord) : List Round :=
  [⟨[.push early, .push early, .push early], 1, 0, List.replicate 47 0⟩,
    ⟨more.map .push, 1, 0, List.replicate 47 0⟩]

/-- The first request, for three records, gets one. -/
theorem fetch_early :
    ∃ ack, fetch (fun _ => none) (ObjectId.of .trendLog 1)
        ((Ring.ofCapacity 3).run [.push early, .push early, .push early]) .all
        ⟨[.push early, .push early, .push early], 1, 0, List.replicate 47 0⟩ = some ack ∧
      ack.items.length = 1 ∧ next ack = askFrom ⟨[early, early, early], 0⟩ 1 := by
  have hone : (fetch (fun _ => none) (ObjectId.of .trendLog 1)
      ((Ring.ofCapacity 3).run [.push early, .push early, .push early]) .all
      ⟨[.push early, .push early, .push early], 1, 0, List.replicate 47 0⟩).map
      (fun ack => ack.items.length) = some 1 := by decide +kernel
  have hhistory : History.of [.push early, .push early, .push early] =
      ⟨[early, early, early], 0⟩ := rfl
  have htracks := Ring.tracks_run 3 [.push early, .push early, .push early]
  rw [hhistory] at htracks
  have hroom : 47 ≤ (⟨[.push early, .push early, .push early], 1, 0,
    List.replicate 47 0⟩ : Round).out.length := Nat.le_refl 47
  obtain ⟨ack, hfetch, -, -, -, hnext⟩ := fetch_all (fun _ => none) htracks (by decide)
    (rfl : (ObjectId.of .trendLog 1).type = .trendLog) hroom
  rw [hfetch] at hone
  have hlength : ack.items.length = 1 := Option.some.inj hone
  have hplace : (⟨[early, early, early], 0⟩ : History).first (max 3 1) + 1 = 1 := rfl
  rw [hlength, hplace] at hnext
  exact ⟨ack, hfetch, hlength, hnext⟩

/-- The second request asks for an early record.  Once around the cycle it gets what is
at the end of the log. -/
theorem read_late {more : List LogRecord} (hlength : more.length + 1 = Sequence.cycle) :
    ∃ first second,
      read (fun _ => none) (ObjectId.of .trendLog 1) 3 [] (lateRounds more) =
        [⟨⟨[early, early, early], 0⟩, some first⟩,
          ⟨⟨[early, early, early] ++ more, 0⟩, some second⟩] ∧
      first.items.length = 1 ∧
      Holds ⟨[early, early, early] ++ more, 0⟩ (1 + Sequence.cycle) second ∧
      0 < second.items.length := by
  obtain ⟨first, hfirst, hone, hnext⟩ := fetch_early
  have hsmall : max 3 1 < Sequence.cycle := by decide
  have hbefore : History.of [.push early, .push early, .push early] =
      ⟨[early, early, early], 0⟩ := rfl
  have hafter : History.of ([.push early, .push early, .push early] ++ more.map .push) =
      ⟨[early, early, early] ++ more, 0⟩ := by
    rw [History.of, List.foldl_append, History.foldl_push]
    rfl
  have htracks := Ring.tracks_run 3 ([.push early, .push early, .push early] ++ more.map .push)
  rw [hafter] at htracks
  -- The history is two records longer than the cycle: the place one cycle after place 1 is its
  -- last.
  have hpushed : ([early, early, early] ++ more).length = Sequence.cycle + 2 := by
    rw [List.length_append, ← hlength]
    simp only [List.length_cons, List.length_nil]
    omega
  have hasked : askFrom ⟨[early, early, early], 0⟩ 1 1 =
      some (.bySequence (Sequence.number 1) 1) := rfl
  have hroom : 47 ≤ (⟨more.map .push, 1, 0, List.replicate 47 0⟩ : Round).out.length :=
    Nat.le_refl 47
  have hcount : 0 < (⟨more.map .push, 1, 0, List.replicate 47 0⟩ : Round).count.toInt :=
    of_decide_eq_true rfl
  have hlive : (⟨[early, early, early] ++ more, 0⟩ : History).first (max 3 1) ≤
      1 + Sequence.cycle := by
    simp only [History.first, History.live, hpushed]
    omega
  have hplace : 1 + Sequence.cycle <
      (⟨[early, early, early] ++ more, 0⟩ : History).pushed.length := by
    simp only [hpushed]
    omega
  obtain ⟨second, hsecond, hholds, hsome⟩ := fetch_again (fun _ => none) htracks
    hsmall (rfl : (ObjectId.of .trendLog 1).type = .trendLog) hcount hroom hlive hplace
    (Sequence.number_add_cycle 1)
  refine ⟨first, second, ?_, hone, hholds, hsome⟩
  simp only [read, lateRounds, readFrom, List.nil_append, hfirst, hnext, hasked, hsecond,
    hbefore, hafter]

/-- So the reading does not go on where its first page ended. -/
theorem not_follows_of_wrapped {more : List LogRecord}
    (hlength : more.length + 1 = Sequence.cycle) (hlast : more.getLast? = some late) :
    ¬ Follows 3 (read (fun _ => none) (ObjectId.of .trendLog 1) 3 [] (lateRounds more)) := by
  obtain ⟨first, second, hread, hone, hholds, hsome⟩ := read_late hlength
  have hnewest : ([early, early, early] ++ more)[1 + Sequence.cycle]? = some late := by
    have hend : ([early, early, early] ++ more).getLast? = some late := by
      rw [List.getLast?_append, hlast]
      rfl
    have hpushed : ([early, early, early] ++ more).length - 1 = 1 + Sequence.cycle := by
      rw [List.length_append, ← hlength]
      simp only [List.length_cons, List.length_nil]
      omega
    rwa [List.getLast?_eq_getElem?, hpushed] at hend
  -- Were it to go on at place 1, the second page would begin with an early record.
  intro hfollows
  rw [hread] at hfollows
  cases hfollows with
  | cons hanswered _ _ hmore =>
      obtain rfl := Option.some.inj hanswered
      have hstart : (⟨[early, early, early], 0⟩ : History).first 3 + first.items.length = 1 := by
        rw [hone]
        rfl
      simp only [hstart] at hmore
      cases hmore with
      | cons hanswered hheld _ _ =>
          obtain rfl := Option.some.inj hanswered
          have hearly := hheld.head hsome
          have hlate := hholds.head hsome
          simp only [hnewest] at hlate
          rw [hlate] at hearly
          exact absurd (Option.some.inj hearly) (by decide)

/-- **A reading that comes too late repeats and loses records.**  Fewer than 2³² − 1
records are pushed between its two requests, and yet the second is given a record that
was not appended after the first one received. -/
theorem not_follows_late :
    (∀ round ∈ lateRounds (List.replicate (Sequence.cycle - 1) late),
      0 < round.count.toInt ∧ 47 ≤ round.out.length ∧ round.acts.length < Sequence.cycle) ∧
    ¬ Follows 3 (read (fun _ => none) (ObjectId.of .trendLog 1) 3 []
      (lateRounds (List.replicate (Sequence.cycle - 1) late))) := by
  have hsome : 0 < Sequence.cycle - 1 := by decide
  constructor
  · have hone : 0 < (1 : Int32).toInt := by decide
    have hthree : 3 < Sequence.cycle := by decide
    have hfew : Sequence.cycle - 1 < Sequence.cycle := by omega
    simp only [lateRounds, List.forall_mem_cons, List.length_map, List.length_replicate]
    exact ⟨⟨hone, Nat.le_refl 47, hthree⟩, ⟨hone, Nat.le_refl 47, hfew⟩,
      fun _ hmem => absurd hmem List.not_mem_nil⟩
  · apply not_follows_of_wrapped
    · rw [List.length_replicate]
      omega
    · rw [List.getLast?_replicate, if_neg (Nat.ne_of_gt hsome)]

end Historian.Paging
