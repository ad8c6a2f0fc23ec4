import Historian.Proofs.Log.Limit
import Mathlib.Data.List.Infix
import Mathlib.Order.Bounds.Basic

/-!
# A page holds as much as fits

Room for all but the records is set aside before any record is written, for as many records as
the span has; what is left is filled from the start of the span until a record does not fit.
`Page.truncates` says what comes of this at every size of the buffer: the page holds the greatest
number of records for which there is room, its flags say whether that was all, and the rest of
the answer fits behind them.  There is no page only if not even the first record fits.

## Strategy

More records take more octets (`Page.weight_mono`), so the numbers of records that fit are those
up to the greatest, and this is the one at which filling stops (`Page.isGreatest_fitting`).  More
room lets more of them fit, and of the same records the first ones make a shorter answer.
-/

namespace Historian

namespace Page

/-! ## What fits -/

/-- The length of the head of an answer, with the count of a whole span. -/
def headLength (request : RangeRequest) (span : Span) : Nat :=
  (headFor request FlagSet.empty (UInt32.ofNat span.count)).encode.octets.length

/-- The octets that the first `size` records of a span take. -/
def weight (view : LogView) (span : Span) (size : Nat) : Nat :=
  (((recordsIn view span).take size).flatMap fun entry => entry.2.encode.octets).length

/-- A span has `size` records, and together with the rest of the answer they do not take more
than `room` octets. -/
structure Fits (request : RangeRequest) (view : LogView) (span : Span) (room size : Nat) : Prop where
  available : size ≤ (recordsIn view span).length
  enough : headLength request span + 7 + weight view span size ≤ room

instance (request : RangeRequest) (view : LogView) (span : Span) (room size : Nat) :
    Decidable (Fits request view span room size) :=
  decidable_of_iff (_ ∧ _) ⟨fun hboth => ⟨hboth.1, hboth.2⟩, fun hfits => ⟨hfits.1, hfits.2⟩⟩

/-- There is no room for the rest of the answer, or none for the first record besides. -/
def Cramped (request : RangeRequest) (view : LogView) (span : Span) (room : Nat) : Prop :=
  room < headLength request span + 7 ∨
    1 ≤ (recordsIn view span).length ∧ room < headLength request span + 7 + weight view span 1

instance (request : RangeRequest) (view : LogView) (span : Span) (room : Nat) :
    Decidable (Cramped request view span room) :=
  inferInstanceAs (Decidable (_ ∨ _))

/-- A page over `out` that holds all the records of a span that fit, and says so. -/
structure Filled (request : RangeRequest) (view : LogView) (span : Span) (out : Octets)
    (page : Page) (after : Octets) : Prop where
  greatest : IsGreatest {size | Fits request view span out.length size} page.count.toNat
  first : page.flags.has 0 = true ↔
    ∃ record, ((recordsIn view span).take page.count.toNat).head? = some (0, record)
  last : page.flags.has 1 = true ↔
    view.count.toNat ≤ span.stop ∧ page.count.toNat = (recordsIn view span).length
  more : page.flags.has 2 = true ↔ page.flags.has 1 = false
  /-- Head, items and sequence number are written in full, and nothing behind them. -/
  written : after =
    (ackOf request view page.flags ((recordsIn view span).take page.count.toNat)).encode.octets ++
      out.drop page.length
  length : page.length =
    (ackOf request view page.flags
      ((recordsIn view span).take page.count.toNat)).encode.octets.length
  fits : page.length ≤ out.length

/-- What is answered where a span is selected. -/
structure Truncated (request : RangeRequest) (view : LogView) (span : Span) (out : Octets)
    (answered : Except PageFailure Page × Octets) : Prop where
  fails_iff : answered.1 = .error (.unwritten .bufferTooSmall) ↔
    Cramped request view span out.length
  filled : ¬ Cramped request view span out.length →
    ∃ page after, answered = (.ok page, after) ∧ Filled request view span out page after

/-- What is answered where nothing is selected. -/
structure Bare (out : Octets) (result : Except PageFailure Page) : Prop where
  succeeds_iff : result = .ok ⟨0, 0, ResultFlags.of true true false, 14⟩ ↔ 14 ≤ out.length
  fails_iff : result = .error (.unwritten .bufferTooSmall) ↔ out.length < 14

/-- Where the shorter of two buffers has a page, the longer one has a page with these records
and perhaps more behind them. -/
def Grows (repository : Repository) (request : RangeRequest) (smaller larger : Octets) : Prop :=
  ∀ page after, answer repository request smaller = (.ok page, after) →
    ∃ longer wider, answer repository request larger = (.ok longer, wider) ∧
      page.count ≤ longer.count ∧
      ∃ ack more, RangeAck.decode (after.take page.length) = .ok (ack, []) ∧
        RangeAck.decode (wider.take longer.length) = .ok (more, []) ∧ ack.items <+: more.items

/-- How much of a selection is answered. -/
structure Truncates (repository : Repository) (request : RangeRequest) (view : LogView)
    (selection : Option Span) : Prop where
  truncated : ∀ span, selection = some span → ∀ out,
    Truncated request view span out (answer repository request out)
  bare : selection = none → ∀ out, Bare out (answer repository request out).1
  grows : ∀ smaller larger, smaller.length ≤ larger.length →
    Grows repository request smaller larger

/-! ## Filling -/

theorem itemOctets_eq (records : List LogRecord) :
    RangeAck.itemOctets records = records.flatMap fun record => record.encode.octets := by
  induction records with
  | nil => rfl
  | cons record rest ih => rw [RangeAck.itemOctets_cons, ih, List.flatMap_cons]

theorem length_itemOctets_take_mono (records : List LogRecord) {smaller larger : Nat}
    (hle : smaller ≤ larger) :
    (RangeAck.itemOctets (records.take smaller)).length ≤
      (RangeAck.itemOctets (records.take larger)).length := by
  have hfront : records.take smaller <+: records.take larger := List.take_prefix_take_left hle
  rw [itemOctets_eq, itemOctets_eq]
  exact (hfront.flatMap _).length_le

/-- **Filling stops at the greatest number of records that fit.** -/
theorem isGreatest_fitting (room : Nat) (records : List LogRecord) :
    IsGreatest {size | size ≤ records.length ∧
      (RangeAck.itemOctets (records.take size)).length ≤ room} (fitting room records) := by
  refine ⟨⟨fitting_le room records, length_items_fitting_le room records⟩, ?_⟩
  rintro size ⟨havailable, henough⟩
  by_contra hmore
  have hover : room < (RangeAck.itemOctets (records.take (fitting room records + 1))).length :=
    lt_length_items_fitting (Nat.lt_of_lt_of_le (Nat.lt_of_not_le hmore) havailable)
  exact Nat.not_lt_of_le henough
    (Nat.lt_of_lt_of_le hover (length_itemOctets_take_mono records (Nat.lt_of_not_le hmore)))

theorem weight_eq (view : LogView) (span : Span) (size : Nat) :
    weight view span size =
      (RangeAck.itemOctets (((recordsIn view span).map Prod.snd).take size)).length := by
  rw [itemOctets_eq, ← List.map_take, List.flatMap_map]
  rfl

section

variable {request : RangeRequest} {view : LogView} {span : Span} {room : Nat}

/-- More records take more octets. -/
theorem weight_mono {smaller larger : Nat} (hle : smaller ≤ larger) :
    weight view span smaller ≤ weight view span larger := by
  rw [weight_eq, weight_eq]
  exact length_itemOctets_take_mono _ hle

theorem Fits.of_le {size fewer : Nat} (hfits : Fits request view span room size)
    (hle : fewer ≤ size) : Fits request view span room fewer :=
  ⟨Nat.le_trans hle hfits.available,
    Nat.le_trans (Nat.add_le_add_left (weight_mono hle) _) hfits.enough⟩

/-- What fits, fits into more room. -/
theorem Fits.of_room {size wider : Nat} (hfits : Fits request view span room size)
    (hle : room ≤ wider) : Fits request view span wider size :=
  ⟨hfits.available, Nat.le_trans hfits.enough hle⟩

theorem Cramped.of_room {wider : Nat} (hcramped : Cramped request view span wider)
    (hle : room ≤ wider) : Cramped request view span room := by
  rcases hcramped with hhead | ⟨hsome, hrecord⟩
  · exact .inl (Nat.lt_of_le_of_lt hle hhead)
  · exact .inr ⟨hsome, Nat.lt_of_le_of_lt hle hrecord⟩

/-- The records of a page are as many as fit. -/
theorem isGreatest_taken (hroom : reserved request span ≤ room) :
    IsGreatest {size | Fits request view span room size}
      (taken request view span room).length := by
  have hfits : {size | Fits request view span room size} =
      {size | size ≤ ((recordsIn view span).map Prod.snd).length ∧
        (RangeAck.itemOctets (((recordsIn view span).map Prod.snd).take size)).length ≤
          room - reserved request span} := by
    ext size
    -- What is set aside is the head and the 7 octets behind it; the rest is there to be filled.
    have hhead : headLength request span + 7 = reserved request span := rfl
    rw [Set.mem_ofPred_eq, Set.mem_ofPred_eq, List.length_map, ← weight_eq]
    refine ⟨fun hfits => ⟨hfits.available, ?_⟩, fun hfits => ⟨hfits.1, ?_⟩⟩
    · have henough := hfits.enough
      omega
    · omega
  rw [hfits, length_taken]
  exact isGreatest_fitting _ _

/-- Room is short exactly where there is no page. -/
theorem cramped_iff :
    Cramped request view span room ↔ room < reserved request span ∨
      taken request view span room = [] ∧ recordsIn view span ≠ [] := by
  have hhead : headLength request span + 7 = reserved request span := rfl
  by_cases hroom : room < reserved request span
  · exact iff_of_true (.inl hroom) (.inl hroom)
  · have hgreatest : IsGreatest {size | Fits request view span room size} _ :=
      isGreatest_taken (Nat.le_of_not_lt hroom)
    rw [Cramped, hhead, or_iff_right hroom, or_iff_right hroom, ← List.length_pos_iff, and_comm]
    refine and_congr_left fun hsome => ?_
    -- Of a span with records a page holds none exactly if not one fits.
    rw [← List.length_eq_zero_iff]
    constructor
    · intro hover
      by_contra hpos
      have hone := hgreatest.1.of_le (Nat.pos_of_ne_zero hpos)
      exact Nat.not_lt_of_le hone.enough hover
    · intro hnone
      by_contra henough
      have hone := hgreatest.2 ⟨hsome, Nat.le_of_not_lt henough⟩
      omega

/-! ## The page of a span -/

theorem has_flagsOf (view : LogView) (span : Span) (entries : List (Nat × LogRecord)) :
    (flagsOf view span entries).has 0 = decide (entries.head?.map Prod.fst = some 0) ∧
      (flagsOf view span entries).has 1 = completes view span entries ∧
      (flagsOf view span entries).has 2 = !completes view span entries :=
  ResultFlags.has_of _ _ _

theorem completes_iff {entries : List (Nat × LogRecord)}
    (hle : entries.length ≤ (recordsIn view span).length) :
    completes view span entries = true ↔
      view.count.toNat ≤ span.stop ∧ entries.length = (recordsIn view span).length := by
  rw [completes, Bool.and_eq_true, Bool.not_eq_true', decide_eq_false_iff_not,
    decide_eq_true_iff]
  omega

theorem head_fst_eq_zero_iff {entries : List (Nat × LogRecord)} :
    entries.head?.map Prod.fst = some 0 ↔ ∃ record, entries.head? = some (0, record) := by
  simp [Option.map_eq_some_iff]

/-- The page that is sent holds what fits. -/
theorem filled_of_sending {out after : Octets} {page : Page} (hsmall : span.count < 4294967296)
    (hroom : reserved request span ≤ out.length)
    (hsent : sending (ackOf request view
      (flagsOf view span (taken request view span out.length))
      (taken request view span out.length)) out = (.ok page, after)) :
    Filled request view span out page after := by
  have hfit := length_ackOf_taken_le request view
    (flagsOf view span (taken request view span out.length)) hsmall hroom
  rw [sending, Prod.mk.injEq, Except.ok.injEq] at hsent
  obtain ⟨hpage, hafter⟩ := hsent
  have hcount : page.count.toNat = (taken request view span out.length).length := by
    rw [← hpage]
    exact UInt32.toNat_ofNat_of_lt'
      (Nat.lt_of_le_of_lt (length_taken_le request view span out.length) hsmall)
  have hflags : page.flags = flagsOf view span (taken request view span out.length) := by
    rw [← hpage, ofAck, ackOf]
  have hlength : page.length = (ackOf request view
      (flagsOf view span (taken request view span out.length))
      (taken request view span out.length)).encode.octets.length := by
    rw [← hpage, ofAck]
  -- The number of records taken is the greatest that fits; what is said of the flags follows from
  -- that.
  have hgreatest : IsGreatest {size | Fits request view span out.length size} _ :=
    isGreatest_taken hroom
  obtain ⟨hfirst, hlast, hmore⟩ := has_flagsOf view span (taken request view span out.length)
  rw [← hflags] at hfirst hlast hmore
  exact {
    greatest := by rwa [hcount]
    first := by
      rw [hcount, take_length_taken, ← head_fst_eq_zero_iff]
      exact (Bool.eq_iff_iff.mp hfirst).trans decide_eq_true_iff
    last := by
      rw [hcount, ← completes_iff hgreatest.1.available]
      exact Bool.eq_iff_iff.mp hlast
    more := by
      rw [← Bool.not_eq_true']
      exact Bool.eq_iff_iff.mp (hmore.trans (congrArg not hlast.symm))
    written := by rw [hcount, take_length_taken, hflags, hlength, hafter]
    length := by rw [hcount, take_length_taken, hflags, hlength]
    fits := hlength.trans_le hfit }

/-- Where a span is selected, the page holds what fits. -/
theorem truncated_ofSpan (request : RangeRequest) (view : LogView) (out : Octets)
    (hsmall : span.count < 4294967296) :
    Truncated request view span out (ofSpan request view span out) := by
  rw [ofSpan_eq request view out hsmall]
  by_cases hcramped : Cramped request view span out.length
  · refine ⟨iff_of_true ?_ hcramped, fun hroom => absurd hcramped hroom⟩
    split
    · rfl
    · rename_i hroom
      rw [if_pos ((cramped_iff.mp hcramped).resolve_left hroom)]
  · obtain ⟨hroom, hsome⟩ := not_or.mp (mt cramped_iff.mpr hcramped)
    rw [if_neg hroom, if_neg hsome]
    exact ⟨iff_of_false nofun hcramped,
      fun _ => ⟨_, _, rfl, filled_of_sending hsmall (Nat.le_of_not_lt hroom) rfl⟩⟩

end

/-! ## Nothing selected -/

theorem write_of_lt {request : RangeRequest} {flags : ResultFlags} {count : UInt32}
    {items : Octets} {firstSequence : UInt32} {out : Octets}
    (hover : out.length < (assemble request flags count items firstSequence).octets.length) :
    (write request flags count items firstSequence out).1 =
      .error (.unwritten .bufferTooSmall) := by
  have hfailed : ((Writer.ofBuffer out).emit _).2 = _ :=
    Writer.emit_eq_error (plain_assemble request flags count items firstSequence) hover
  rcases hemit : (Writer.ofBuffer out).emit
    (assemble request flags count items firstSequence) with ⟨writer, result⟩
  rw [hemit] at hfailed
  rw [write, hemit]
  cases hfailed
  rfl

/-- Where nothing is selected, the size of the buffer decides. -/
theorem bare_of_none {repository : Repository} {request : RangeRequest} {view : LogView}
    (hlocate : locate repository request = .ok (view, none)) (out : Octets) :
    Bare out (answer repository request out).1 := by
  obtain ⟨-, -, hproperty, hindex, -⟩ := (locate_eq_ok_iff _ _ _ _).mp hlocate
  have hlength := length_ackOf_nil hproperty hindex view (ResultFlags.of true true false)
  rw [answer_of_none hlocate]
  -- The bare answer takes fourteen octets, neither more nor fewer.
  by_cases hroom : 14 ≤ out.length
  · have hsent := write_eq request view (ResultFlags.of true true false) []
      (hlength.trans_le hroom)
    have hpage : (write request (ResultFlags.of true true false) 0 [] 0 out).1 =
        .ok ⟨0, 0, ResultFlags.of true true false, 14⟩ := by
      rw [← hlength]
      exact congrArg Prod.fst hsent
    rw [hpage]
    exact ⟨iff_of_true rfl hroom, iff_of_false nofun (Nat.not_lt_of_le hroom)⟩
  · have hover := Nat.lt_of_not_le hroom
    have hlong := hover
    rw [← hlength, ← octets_assemble] at hlong
    have hfailed : (write request (ResultFlags.of true true false) 0 [] 0 out).1 = _ :=
      write_of_lt hlong
    rw [hfailed]
    exact ⟨iff_of_false nofun hroom, iff_of_true rfl hover⟩

/-! ## More room -/

/-- A page that counts more records gives its reader more of the same. -/
theorem exists_prefix_of_count_le {repository : Repository} {request : RangeRequest}
    {smaller larger after wider : Octets} {page longer : Page}
    (hpage : answer repository request smaller = (.ok page, after))
    (hlonger : answer repository request larger = (.ok longer, wider))
    (hcount : page.count ≤ longer.count) :
    ∃ ack more, RangeAck.decode (after.take page.length) = .ok (ack, []) ∧
      RangeAck.decode (wider.take longer.length) = .ok (more, []) ∧ ack.items <+: more.items := by
  obtain ⟨view, span, entries, ack, hlocate, hentries, hlength, hdecode, hitems⟩ :=
    exists_read_of_answer hpage
  obtain ⟨other, selection, others, more, hsame, hothers, hmore, hread, hrest⟩ :=
    exists_read_of_answer hlonger
  rw [hlocate] at hsame
  cases hsame
  have hfront : entries <+: others := by
    refine List.prefix_of_prefix_length_le hentries hothers ?_
    rw [hlength, hmore]
    exact UInt32.le_iff_toNat_le.mp hcount
  refine ⟨ack, more, hdecode, hread, ?_⟩
  rw [hitems, hrest]
  exact hfront.map _

section

variable {repository : Repository} {request : RangeRequest} {view : LogView}
  {smaller larger : Octets}

theorem grows_of_none (hlocate : locate repository request = .ok (view, none))
    (hle : smaller.length ≤ larger.length) : Grows repository request smaller larger := by
  intro page after hpage
  have hroom : 14 ≤ smaller.length := by
    by_contra hover
    have hfailed := (bare_of_none hlocate smaller).fails_iff.mpr (Nat.lt_of_not_le hover)
    rw [hpage] at hfailed
    cases hfailed
  have hbare := (bare_of_none hlocate smaller).succeeds_iff.mpr hroom
  have hwide := (bare_of_none hlocate larger).succeeds_iff.mpr (Nat.le_trans hroom hle)
  rcases hlonger : answer repository request larger with ⟨result, wider⟩
  rw [hlonger] at hwide
  rw [hpage] at hbare
  cases hbare
  cases hwide
  exact ⟨_, wider, rfl, UInt32.le_refl _,
    exists_prefix_of_count_le hpage hlonger (UInt32.le_refl _)⟩

theorem grows_of_some {span : Span} (hlocate : locate repository request = .ok (view, some span))
    (hsmall : span.count < 4294967296) (hle : smaller.length ≤ larger.length) :
    Grows repository request smaller larger := by
  intro page after hpage
  have hshort := truncated_ofSpan request view smaller hsmall
  have hlong := truncated_ofSpan request view larger hsmall
  rw [← answer_of_some hlocate] at hshort hlong
  have hroom : ¬ Cramped request view span smaller.length := by
    intro hcramped
    have hfailed := hshort.fails_iff.mpr hcramped
    rw [hpage] at hfailed
    cases hfailed
  obtain ⟨_, _, hsame, hfilled⟩ := hshort.filled hroom
  obtain ⟨longer, wider, hlonger, hmore⟩ := hlong.filled fun hcramped => hroom (hcramped.of_room hle)
  rw [hpage] at hsame
  cases hsame
  -- What fits into the shorter buffer is among what fits into the longer one.
  have hcount : page.count ≤ longer.count := by
    rw [UInt32.le_iff_toNat_le]
    exact hfilled.greatest.mono hmore.greatest fun _ hfits => hfits.of_room hle
  exact ⟨longer, wider, hlonger, hcount, exists_prefix_of_count_le hpage hlonger hcount⟩

end

/-! ## Every size -/

/-- **A page holds as much as fits, and says so**, at every size of the buffer. -/
theorem truncates {repository : Repository} {request : RangeRequest} {view : LogView}
    {selection : Option Span} (htype : request.object.type = .trendLog)
    (hview : repository request.object.number = some view)
    (hproperty : request.property = .logBuffer) (hindex : request.index = none)
    (hresolve : view.resolve request.range = .ok selection) :
    Truncates repository request view selection := by
  have hlocate : locate repository request = .ok (view, selection) :=
    (locate_eq_ok_iff _ _ _ _).mpr ⟨htype, hview, hproperty, hindex, hresolve⟩
  -- Where nothing is selected there is no question of how much fits, and where something is, no
  -- bare answer.
  cases selection with
  | none =>
      exact {
        truncated := nofun
        bare := fun _ => bare_of_none hlocate
        grows := fun _ _ => grows_of_none hlocate }
  | some span =>
      have hsmall := LogView.count_lt_of_resolve hresolve
      refine {
        truncated := ?_
        bare := nofun
        grows := fun _ _ => grows_of_some hlocate hsmall }
      intro other hother out
      cases hother
      rw [answer_of_some hlocate]
      exact truncated_ofSpan request view out hsmall

/-- Of three records the second is missing.  In 47 octets there is room for one of the others. -/
theorem truncates_missing :
    let record : LogRecord := ⟨⟨⟨125, 3, 14, 5⟩, ⟨10, 3, 0, 0⟩⟩, .unsigned 3, FlagSet.empty⟩
    let view : LogView := ⟨3, 3, fun index => [some record, none, some record][index]?.join⟩
    let repository : Repository := fun _ => some view
    let request : RangeRequest := ⟨ObjectId.of .trendLog 1, .logBuffer, none, .all, 1⟩
    request.object.type = .trendLog ∧ view.resolve request.range = .ok (some ⟨0, 3⟩) ∧
      ∃ page after, answer repository request (List.replicate 47 0) = (.ok page, after) ∧
        page.count.toNat = 1 ∧ page.flags.has 0 = true ∧ page.flags.has 2 = true := by
  intro record view repository request
  have htype : request.object.type = .trendLog := by decide
  have hresolve : view.resolve request.range = .ok (some ⟨0, 3⟩) := by decide
  have htruncates : Truncates repository request view (some ⟨0, 3⟩) :=
    truncates htype rfl rfl rfl hresolve
  obtain ⟨page, after, hpage, hfilled⟩ :=
    (htruncates.truncated _ rfl (List.replicate 47 0)).filled (by decide +kernel)
  have hone : Fits request view ⟨0, 3⟩ 47 1 := by decide +kernel
  have htwo : ¬ Fits request view ⟨0, 3⟩ 47 2 := by decide +kernel
  -- One record fits and two do not; the greatest number that fits is therefore one.
  have hcount : page.count.toNat = 1 := by
    refine Nat.le_antisymm ?_ (hfilled.greatest.2 hone)
    by_contra hmore
    exact htwo (hfilled.greatest.1.of_le (Nat.lt_of_not_le hmore))
  refine ⟨htype, hresolve, page, after, hpage, hcount, hfilled.first.mpr ⟨record, ?_⟩,
    hfilled.more.mpr ?_⟩
  · rw [hcount]
    rfl
  · rw [← Bool.not_eq_true, hfilled.last, hcount]
    exact fun hall => absurd hall.2 (by decide)

end Page

end Historian
