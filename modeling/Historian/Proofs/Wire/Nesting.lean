import Historian.Proofs.Wire.Request

/-!
# Ranges of another kind

A range of a kind that is not served is skipped up to the tag that closes it.  What may stand in
between is said by a grammar of tagged values (`Tag.Values`): primitive values with their content,
and values between an opening and a closing tag, nested as deep as one likes.

Skipping only counts how many tags are open.  So it takes exactly what is balanced in this sense
(`Tag.Balanced`), which is more than what is properly nested (`Tag.Nested`): the number of a
closing tag is looked at only where nothing else is open.

## Strategy

The loop is taken apart into turns (`Range.Turn`), each of which reads one value or one tag.  Its
counter is an integer there, so that it could become negative; the first thing to show is that it
does not (`Range.Turns.bounds`).  Every turn takes an octet, so the loop comes to a turn that is
its last (`Range.exists_turns`), and the steps that it is given are enough
(`Range.Turns.skipRest`).

Values keep the counter (`Range.Turns.of_values`).  For the converse one must say what turns mean
that end with fewer tags open than they began with: balanced values, cut by one closing tag for
each tag that was open (`Range.Closes`).
-/

namespace Historian

open Decoder Encoding

/-! ## The grammar -/

namespace Tag

/-- How many octets of content stand behind a tag.  An application Boolean keeps its value in the
tag, and tags that open or close have no content of their own. -/
def contentLength? : Tag → Option Nat
  | application .boolean _ => some 0
  | application _ length => some length.toNat
  | context _ length => some length.toNat
  | opening _ => none
  | closing _ => none

/-- `input` begins with tagged values, behind which `rest` follows.  `pairs` says which numbers the
tags may have that open and close a value. -/
inductive Values (pairs : UInt8 → UInt8 → Prop) : (input rest : Octets) → Prop where
  | done {rest : Octets} : Values pairs rest rest
  | primitive {input content more rest : Octets} {tag : Tag}
      (read : decode input = .ok (tag, content ++ more))
      (whole : tag.contentLength? = some content.length)
      (others : Values pairs more rest) : Values pairs input rest
  | constructed {input inner close more rest : Octets} {first last : UInt8}
      (opens : decode input = .ok (opening first, inner))
      (held : Values pairs inner close)
      (closes : decode close = .ok (closing last, more))
      (pair : pairs first last)
      (others : Values pairs more rest) : Values pairs input rest

section

variable {input rest others : Octets} {tag : Tag} {number : UInt8} {count : Nat}

/-- A tag that opens a value has no content. -/
theorem not_content_of_opening (hopens : decode input = .ok (opening number, rest))
    (hread : decode input = .ok (tag, others)) : tag.contentLength? ≠ some count := by
  cases hopens.symm.trans hread
  nofun

/-- Nor has a tag that closes one. -/
theorem not_content_of_closing (hcloses : decode input = .ok (closing number, rest))
    (hread : decode input = .ok (tag, others)) : tag.contentLength? ≠ some count := by
  cases hcloses.symm.trans hread
  nofun

end

/-- Every tag that opens a value is matched by one of the same number. -/
abbrev Nested : (input rest : Octets) → Prop := Values Eq

/-- Every tag that opens a value is matched by one that closes it. -/
abbrev Balanced : (input rest : Octets) → Prop := Values fun _ _ => True

theorem Nested.balanced {input rest : Octets} (hnested : Nested input rest) :
    Balanced input rest := by
  induction hnested with
  | done => exact .done
  | primitive read whole _ ih => exact .primitive read whole ih
  | constructed opens _ closes _ _ hheld hothers =>
      exact .constructed opens hheld closes trivial hothers

end Tag

namespace Range

open Tag (Balanced Nested Values)

/-! ## Turns of the loop -/

/-- One turn of the loop that goes on, with `nested` tags open before it and `next` after it. -/
inductive Turn : (nested : Int) → (input : Octets) → (next : Int) → (rest : Octets) → Prop where
  | opening {nested : Int} {input rest : Octets} {found : UInt8}
      (read : Tag.decode input = .ok (.opening found, rest)) :
      Turn nested input (nested + 1) rest
  | closing {nested : Int} {input rest : Octets} {found : UInt8}
      (inside : nested ≠ 0) (read : Tag.decode input = .ok (.closing found, rest)) :
      Turn nested input (nested - 1) rest
  | value {nested : Int} {input content rest : Octets} {tag : Tag}
      (read : Tag.decode input = .ok (tag, content ++ rest))
      (whole : tag.contentLength? = some content.length) :
      Turn nested input nested rest

/-- What a turn makes of the input from which the loop does not go on. -/
def lastTurn (number : UInt8) : Decoder Unit := do
  match ← Tag.decode with
  | .closing found => Decoder.require (found = number) .invalidTag
  | _ => Decoder.fail .unexpectedEof

variable {number : UInt8} {nested next last : Int} {input middle rest : Octets}

theorem skipEnclosed_of_value {tag : Tag} {content : Octets}
    (hread : Tag.decode input = .ok (tag, content ++ rest))
    (hwhole : tag.contentLength? = some content.length) (number : UInt8) (fuel depth : Nat) :
    skipEnclosed number (fuel + 1) depth input = skipEnclosed number fuel depth rest := by
  have htake : ∀ {length : UInt32}, some length.toNat = some content.length →
      Decoder.take length.toNat (content ++ rest) = .ok (content, rest) := by
    intro length hlength
    rw [Option.some.inj hlength]
    exact Reads.take content rest
  rw [skipEnclosed, bind_of_ok hread]
  cases tag with
  | opening found => cases hwhole
  | closing found => cases hwhole
  | context found length => exact bind_of_ok (htake hwhole)
  | application tag length =>
      cases tag with
      | boolean =>
          obtain rfl := List.length_eq_zero_iff.mp (Option.some.inj hwhole).symm
          rfl
      | _ => exact bind_of_ok (htake hwhole)

namespace Turn

/-- A turn of the loop is one step of skipping. -/
theorem skipEnclosed (hturn : Turn nested input next rest) (hnested : 0 ≤ nested)
    (number : UInt8) (fuel : Nat) :
    Range.skipEnclosed number (fuel + 1) nested.toNat input =
      Range.skipEnclosed number fuel next.toNat rest := by
  cases hturn with
  | opening read =>
      rw [Range.skipEnclosed, bind_of_ok read, Int.toNat_add hnested (by decide)]
      rfl
  | closing inside read =>
      obtain ⟨outer, rfl⟩ : ∃ outer : Nat, nested = outer + 1 := ⟨(nested - 1).toNat, by omega⟩
      rw [Range.skipEnclosed, bind_of_ok read, Int.add_sub_cancel]
      rfl
  | value read whole => exact skipEnclosed_of_value read whole number fuel _

/-- **The counter does not become negative, and every turn takes an octet.** -/
theorem bounds (hturn : Turn nested input next rest) (hnested : 0 ≤ nested) :
    0 ≤ next ∧ rest.length < input.length := by
  cases hturn with
  | opening read =>
      have hspent : rest.length + 1 ≤ input.length := Tag.spends_decode _ _ _ read
      omega
  | closing inside read =>
      have hspent : rest.length + 1 ≤ input.length := Tag.spends_decode _ _ _ read
      omega
  | value read whole =>
      have hspent : (_ ++ rest).length + 1 ≤ input.length := Tag.spends_decode _ _ _ read
      rw [List.length_append] at hspent
      omega

end Turn

/-- Where the loop does not go on, its last turn decides. -/
theorem skipEnclosed_of_last (hlast : ∀ next rest, ¬ Turn nested input next rest)
    (number : UInt8) (fuel : Nat) :
    skipEnclosed number (fuel + 1) nested.toNat input = lastTurn number input := by
  rw [skipEnclosed, lastTurn]
  cases hread : Tag.decode input with
  | error error => rw [bind_of_error hread, bind_of_error hread]
  | ok result =>
      obtain ⟨tag, rest⟩ := result
      rw [bind_of_ok hread, bind_of_ok hread]
      -- A content that is all there would be passed over.
      have hshort : ∀ {count : Nat}, tag.contentLength? = some count →
          Decoder.take count rest = .error .unexpectedEof := by
        intro count hcount
        refine if_neg fun henough => ?_
        have hlength : (rest.take count).length = count := List.length_take_of_le henough
        refine hlast nested (rest.drop count) (.value ?_ (by rw [hlength, hcount]))
        rw [hread, List.take_append_drop]
      cases tag with
      | opening found => exact absurd (.opening hread) (hlast _ _)
      | closing found =>
          have hnone : nested = 0 := by
            by_contra hinside
            exact hlast _ _ (.closing hinside hread)
          rw [hnone]
          rfl
      | context found length => exact bind_of_error (hshort rfl)
      | application tag length =>
          cases tag with
          | boolean => cases hshort rfl
          | _ => exact bind_of_error (hshort rfl)

/-! ## Runs of the loop -/

/-- The loop comes from one place to another in `count` turns. -/
inductive Turns : (count : Nat) → (nested : Int) → (input : Octets) → (last : Int) →
    (rest : Octets) → Prop where
  | none {nested : Int} {input : Octets} : Turns 0 nested input nested input
  | more {count : Nat} {nested next last : Int} {input middle rest : Octets}
      (turn : Turn nested input next middle) (others : Turns count next middle last rest) :
      Turns (count + 1) nested input last rest

namespace Turns

variable {count others : Nat}

theorem append (hturns : Turns count nested input next middle)
    (hothers : Turns others next middle last rest) :
    Turns (count + others) nested input last rest := by
  induction hturns with
  | none => rwa [Nat.zero_add]
  | more turn _ ih =>
      rw [Nat.add_right_comm]
      exact .more turn (ih hothers)

/-- **The counter never becomes negative, and there are no more turns than octets.** -/
theorem bounds (hturns : Turns count nested input last rest) (hnested : 0 ≤ nested) :
    0 ≤ last ∧ count + rest.length ≤ input.length := by
  induction hturns with
  | none => exact ⟨hnested, Nat.le_of_eq (Nat.zero_add _)⟩
  | more turn _ ih =>
      obtain ⟨hnext, hshorter⟩ := turn.bounds hnested
      obtain ⟨hlast, hcount⟩ := ih hnext
      exact ⟨hlast, by omega⟩

theorem skipEnclosed (hturns : Turns count nested input last rest) (hnested : 0 ≤ nested)
    (number : UInt8) (fuel : Nat) :
    Range.skipEnclosed number (fuel + count) nested.toNat input =
      Range.skipEnclosed number fuel last.toNat rest := by
  induction hturns with
  | none => rfl
  | more turn _ ih =>
      rw [← Nat.add_assoc, turn.skipEnclosed hnested, ih (turn.bounds hnested).1]

/-- Skipping has steps enough for every turn, and decides at the last one. -/
theorem skipRest (hturns : Turns count 0 input last rest)
    (hlast : ∀ next more, ¬ Turn last rest next more) (number : UInt8) :
    Range.skipRest number input = lastTurn number rest := by
  have hcount := (hturns.bounds (Int.le_refl 0)).2
  obtain ⟨fuel, hfuel⟩ : ∃ fuel, input.length = fuel + count := ⟨input.length - count, by omega⟩
  rw [Range.skipRest, hfuel]
  have hskip := hturns.skipEnclosed (Int.le_refl 0) number fuel
  rw [Int.toNat_zero] at hskip
  rw [hskip]
  cases fuel with
  | succ fuel => exact skipEnclosed_of_last hlast number fuel
  | zero =>
      -- All octets were taken one by one, and none is left for the last turn.
      obtain rfl : rest = [] := List.length_eq_zero_iff.mp (by omega)
      rfl

end Turns

/-- **The loop ends.** -/
theorem exists_turns (input : Octets) (hnested : 0 ≤ nested) :
    ∃ count last rest, Turns count nested input last rest ∧
      ∀ next more, ¬ Turn last rest next more := by
  induction hlength : input.length using Nat.strongRecOn generalizing input nested with
  | ind length ih =>
      by_cases hturn : ∃ next rest, Turn nested input next rest
      · obtain ⟨next, middle, hturn⟩ := hturn
        obtain ⟨hnext, hshorter⟩ := hturn.bounds hnested
        obtain ⟨count, last, rest, hturns, hlast⟩ :=
          ih middle.length (hlength ▸ hshorter) middle hnext rfl
        exact ⟨count + 1, last, rest, .more hturn hturns, hlast⟩
      · exact ⟨0, nested, input, .none, fun next rest hnext => hturn ⟨next, rest, hnext⟩⟩

/-! ## Turns and values -/

/-- Values leave as many tags open as there were. -/
theorem Turns.of_values {pairs : UInt8 → UInt8 → Prop}
    (hvalues : Values pairs input rest) (hnested : 0 ≤ nested) :
    ∃ count, Turns count nested input nested rest := by
  induction hvalues generalizing nested with
  | done => exact ⟨0, .none⟩
  | primitive read whole _ ih =>
      obtain ⟨count, hturns⟩ := ih hnested
      exact ⟨count + 1, .more (.value read whole) hturns⟩
  | constructed opens _ closes _ _ hheld hothers =>
      have hinner : 0 ≤ nested + 1 := by omega
      obtain ⟨inside, hinside⟩ := hheld hinner
      obtain ⟨behind, hbehind⟩ := hothers hnested
      have hclose : Turn (nested + 1) _ (nested + 1 - 1) _ := .closing (by omega) closes
      rw [Int.add_sub_cancel] at hclose
      exact ⟨_, .more (.opening opens) (hinside.append (.more hclose hbehind))⟩

/-- Balanced values, then for each of the open tags one that closes and balanced values again. -/
def Closes : (nested : Nat) → (input rest : Octets) → Prop
  | 0, input, rest => Balanced input rest
  | outer + 1, input, rest => ∃ close found more,
      Balanced input close ∧ Tag.decode close = .ok (.closing found, more) ∧ Closes outer more rest

/-- A value in front makes no difference. -/
theorem Closes.cons {depth : Nat}
    (hvalue : ∀ close, Balanced middle close → Balanced input close)
    (hcloses : Closes depth middle rest) : Closes depth input rest := by
  cases depth with
  | zero => exact hvalue rest hcloses
  | succ outer =>
      obtain ⟨close, found, more, hvalues, hread, hmore⟩ := hcloses
      exact ⟨close, found, more, hvalue close hvalues, hread, hmore⟩

/-- Turns that end with no tag open have read what closes the open ones. -/
theorem Turns.closes {count depth : Nat} (hturns : Turns count nested input last rest)
    (hnested : nested = depth) (hnone : last = 0) : Closes depth input rest := by
  induction hturns generalizing depth with
  | none =>
      obtain rfl : depth = 0 := by omega
      exact .done
  | more turn _ ih =>
      subst hnested
      cases turn with
      | opening read =>
          -- The tag is closed first of all that are open.
          obtain ⟨close, found, more, hheld, hread, hmore⟩ :=
            ih (Int.natCast_succ depth).symm hnone
          exact hmore.cons fun _ => .constructed read hheld hread trivial
      | closing inside read =>
          obtain ⟨outer, rfl⟩ : ∃ outer, depth = outer + 1 := ⟨depth - 1, by omega⟩
          exact ⟨_, _, _, .done, read, ih (by omega) hnone⟩
      | value read whole => exact (ih rfl hnone).cons fun _ => .primitive read whole

/-- The last turn ends well only at a closing tag, with no other tag open. -/
theorem of_lastTurn_eq_ok {more : Octets} (hlast : ∀ next more, ¬ Turn nested rest next more)
    (hread : lastTurn number rest = .ok ((), more)) :
    nested = 0 ∧ Tag.decode rest = .ok (.closing number, more) := by
  obtain ⟨tag, behind, htag, hread⟩ := exists_of_bind_eq_ok hread
  cases tag with
  | closing found =>
      obtain ⟨hnumber, hsame⟩ := of_require_eq_ok hread
      cases hsame
      cases of_decide_eq_true hnumber
      refine ⟨?_, htag⟩
      by_contra hinside
      exact hlast _ _ (.closing hinside htag)
  | _ => cases hread

/-- **Skipping takes what is balanced, and the closing tag behind it.** -/
theorem skipRest_eq_ok_iff :
    skipRest number input = .ok ((), rest) ↔
      ∃ close, Balanced input close ∧ Tag.decode close = .ok (.closing number, rest) := by
  constructor
  · intro hskip
    obtain ⟨count, last, close, hturns, hlast⟩ := exists_turns input (Int.le_refl 0)
    rw [hturns.skipRest hlast] at hskip
    obtain ⟨rfl, hread⟩ := of_lastTurn_eq_ok hlast hskip
    exact ⟨close, hturns.closes Int.natCast_zero.symm rfl, hread⟩
  · rintro ⟨close, hbalanced, hread⟩
    obtain ⟨count, hturns⟩ := Turns.of_values hbalanced (Int.le_refl 0)
    have hlast : ∀ next more, ¬ Turn 0 close next more := by
      intro next more hturn
      cases hturn with
      | opening read => cases hread.symm.trans read
      | closing inside _ => exact inside rfl
      | value read whole => exact Tag.not_content_of_closing hread read whole
    rw [hturns.skipRest hlast, lastTurn, bind_of_ok hread]
    exact require_of_true (decide_eq_true rfl)

/-! ## Ranges -/

/-- Behind the opening tag of another kind of range, the range is what skipping takes. -/
theorem decode_of_other {choice : UInt8} {behind : Octets}
    (hopened : Tag.decode input = .ok (.opening choice, behind))
    (hother : choice ∉ [positionChoice, sequenceChoice, timeChoice]) :
    decode input = (skipRest choice behind).map fun result => (unsupported choice, result.2) := by
  have hsome : input.isEmpty = false :=
    List.isEmpty_eq_false_iff.mpr (Tag.Ahead.ne_nil ⟨behind, hopened⟩)
  simp only [List.mem_cons, List.not_mem_nil, or_false, not_or] at hother
  obtain ⟨hposition, hsequence, htime⟩ := hother
  rw [decode, bind_of_ok (atEnd_apply input), hsome]
  simp only [Bool.false_eq_true, if_false]
  rw [bind_of_ok hopened]
  simp only [decodeChoice, if_neg hposition, if_neg hsequence, if_neg htime]
  cases hskip : skipRest choice behind with
  | error error => exact bind_of_error hskip
  | ok result => exact bind_of_ok hskip

/-- **A range of another kind is read if it is balanced.**  Behind its opening tag must stand
balanced values and the closing tag of the same number, and it ends there; so it is read in
particular if they are properly nested, and whatever else follows is an error.  The loop ends on
every input, after no more turns than there are octets; its counter never becomes negative; and
its last turn decides. -/
theorem unsupported_iff_balanced {input behind : Octets} {choice : UInt8}
    (hopened : Tag.decode input = .ok (.opening choice, behind))
    (hother : choice ∉ [positionChoice, sequenceChoice, timeChoice]) :
    (∀ rest, decode input = .ok (unsupported choice, rest) ↔
        ∃ close, Balanced behind close ∧ Tag.decode close = .ok (.closing choice, rest)) ∧
      (∀ close rest, Nested behind close → Tag.decode close = .ok (.closing choice, rest) →
        decode input = .ok (unsupported choice, rest)) ∧
      ((∀ rest, decode input ≠ .ok (unsupported choice, rest)) →
        ∃ error, decode input = .error error) ∧
      (∀ count nested rest, Turns count 0 behind nested rest →
        0 ≤ nested ∧ count + rest.length ≤ behind.length) ∧
      ∃ count nested close, Turns count 0 behind nested close ∧
        (∀ next more, ¬ Turn nested close next more) ∧
        decode input =
          (lastTurn choice close).map fun result => (unsupported choice, result.2) := by
  have hdecode := decode_of_other hopened hother
  have hbalanced : ∀ rest, decode input = .ok (unsupported choice, rest) ↔
      ∃ close, Balanced behind close ∧ Tag.decode close = .ok (.closing choice, rest) := by
    intro rest
    rw [← skipRest_eq_ok_iff, hdecode]
    cases skipRest choice behind with
    | error error => simp [Except.map]
    | ok result => simp [Except.map, Prod.ext_iff]
  refine ⟨hbalanced, fun close rest hnested hclose => ?_, fun hnone => ?_,
    fun count nested rest hturns => hturns.bounds (Int.le_refl 0), ?_⟩
  · exact (hbalanced rest).mpr ⟨close, hnested.balanced, hclose⟩
  · rw [hdecode] at hnone ⊢
    cases hskip : skipRest choice behind with
    | error error => exact ⟨error, rfl⟩
    | ok result =>
        rw [hskip] at hnone
        exact absurd rfl (hnone result.2)
  · -- Whatever stands there, the loop makes turns until one is the last.
    obtain ⟨count, nested, close, hturns, hlast⟩ := exists_turns behind (Int.le_refl 0)
    exact ⟨count, nested, close, hturns, hlast, by rw [hdecode, hturns.skipRest hlast]⟩

/-- A range with a number of its own octet, two levels deep, that holds a Boolean and three octets
of which the last looks like a closing tag. -/
theorem unsupported_iff_balanced_deep :
    let behind : Octets := [0x2E, 0x11, 0x3E, 0x63, 1, 2, 0x4F, 0x3F, 0x2F, 0xFF, 20, 0xAA]
    let input : Octets := 0xFE :: 20 :: behind
    Tag.decode input = .ok (.opening 20, behind) ∧
      (20 : UInt8) ∉ [positionChoice, sequenceChoice, timeChoice] ∧
      Nested behind [0xFF, 20, 0xAA] ∧
      decode input = .ok (unsupported 20, [0xAA]) := by
  intro behind input
  have hopened : Tag.decode input = .ok (.opening 20, behind) := by decide
  have hother : (20 : UInt8) ∉ [positionChoice, sequenceChoice, timeChoice] := by decide
  have hoctets : Tag.decode [0x63, 1, 2, 0x4F, 0x3F, 0x2F, 0xFF, 20, 0xAA] =
      .ok (.application .octetString 3, [1, 2, 0x4F] ++ [0x3F, 0x2F, 0xFF, 20, 0xAA]) := by decide
  have hboolean : Tag.decode [0x11, 0x3E, 0x63, 1, 2, 0x4F, 0x3F, 0x2F, 0xFF, 20, 0xAA] =
      .ok (.application .boolean 1,
        [] ++ [0x3E, 0x63, 1, 2, 0x4F, 0x3F, 0x2F, 0xFF, 20, 0xAA]) := by decide
  have hinner : Nested [0x3E, 0x63, 1, 2, 0x4F, 0x3F, 0x2F, 0xFF, 20, 0xAA]
      [0x2F, 0xFF, 20, 0xAA] :=
    .constructed rfl (.primitive hoctets rfl .done) rfl rfl .done
  have hnested : Nested behind [0xFF, 20, 0xAA] :=
    .constructed rfl (.primitive hboolean rfl hinner) rfl rfl .done
  obtain ⟨-, hread, -⟩ := unsupported_iff_balanced hopened hother
  exact ⟨hopened, hother, hnested, hread _ _ hnested (by decide)⟩

/-- A tag that opens a value may be matched by one of another number. -/
theorem not_nested_of_unsupported :
    let behind : Octets := [0x1E, 0x2F, 0x4F]
    let input : Octets := 0x4E :: behind
    Tag.decode input = .ok (.opening 4, behind) ∧ decode input = .ok (unsupported 4, []) ∧
      ¬ ∃ close, Nested behind close ∧ Tag.decode close = .ok (.closing 4, []) := by
  intro behind input
  have hopens : Tag.decode behind = .ok (.opening 1, [0x2F, 0x4F]) := by decide
  have hcloses : Tag.decode [0x2F, 0x4F] = .ok (.closing 2, [0x4F]) := by decide
  refine ⟨by decide, by decide, ?_⟩
  rintro ⟨close, hnested, hclose⟩
  cases hnested with
  | done => cases hopens.symm.trans hclose
  | primitive read whole _ => exact Tag.not_content_of_opening hopens read whole
  | constructed opens held closes pair _ =>
      cases hopens.symm.trans opens
      cases held with
      | done =>
          cases hcloses.symm.trans closes
          cases pair
      | primitive read whole _ => exact Tag.not_content_of_closing hcloses read whole
      | constructed opens _ _ _ _ => cases hcloses.symm.trans opens

end Range

end Historian
