import Historian.Link.Transport
import Historian.Proofs.Wire.Reader
import Historian.Proofs.Wire.Writer

/-!
# Messages over an IP network arrive unchanged

A datagram is told by its first four octets and, where a message is relayed, by the six that name
its origin.  `Frame.Carries` says what a datagram carries and `Frame.Malformed` what is wrong with
one that carries nothing; of any datagram exactly one is the case (`Frame.ofDatagram_eq_ok_iff`,
`Frame.ofDatagram_eq_error_iff`).

The length in the header counts the header, so it can be too small as well as too large.  All
combinations are settled in one place, `Frame.ofDatagram_mark`, by the three conditions on a header
that is there as a whole.
-/

namespace Historian

open Decoder Encoding

namespace Frame

/-! ## What a datagram carries -/

/-- The octets of a frame. -/
def octets (function : UInt8) (body : Octets) : Octets :=
  mark :: function :: (Octets.ofWord16 (UInt16.ofNat (4 + body.length)) ++ body)

/-- `datagram` begins with a frame. -/
def Begins (datagram : Octets) (function : UInt8) (body : Octets) : Prop :=
  4 + body.length < 65536 ∧ octets function body <+: datagram

/-- What is read from a datagram. -/
inductive Carries (datagram : Octets) : Frame → Prop where
  | message {function : UInt8} {body : Octets} (begins : Begins datagram function body)
      (kind : function = 0x0A ∨ function = 0x0B ∨ function = 0x09) :
      Carries datagram (.message body)
  | relayed {a b c d : UInt8} {udp : UInt16} {body : Octets}
      (begins : Begins datagram 0x04 ([a, b, c, d] ++ Octets.ofWord16 udp ++ body)) :
      Carries datagram (.relayed ⟨.v4 a b c d, udp⟩ body)
  | other {function : UInt8} {body : Octets} (begins : Begins datagram function body)
      (kind : function ≠ 0x0A ∧ function ≠ 0x0B ∧ function ≠ 0x09 ∧ function ≠ 0x04) :
      Carries datagram (.other function)

/-- The length that the third and the fourth octet state. -/
def statedLength (datagram : Octets) : Nat :=
  (datagram.getD 2 0).toNat * 256 + (datagram.getD 3 0).toNat

/-- What can be wrong with a datagram: a header that is cut short, another first octet, a length
less than that of the header or beyond the datagram, a relayed message without its whole
origin. -/
inductive Malformed (datagram : Octets) : Prop where
  | header (cut : datagram.length < 4)
  | mark (other : datagram[0]? ≠ some 0x81)
  | length (less : statedLength datagram < 4)
  | body (cut : datagram.length < statedLength datagram)
  | origin (relayed : datagram[1]? = some 0x04) (cut : statedLength datagram < 10)

/-! ## Reading -/

variable {datagram body : Octets} {function : UInt8} {frame : Frame}

theorem ofDatagram_of_ne_mark {first : UInt8} (hmark : first ≠ mark) (rest : Octets) :
    ofDatagram (first :: rest) = .error .invalidValue := by
  rw [ofDatagram, decodeBody, octet_bind_cons, decide_eq_false hmark]
  rfl

/-- Behind a header that is there as a whole the stated length decides. -/
theorem ofDatagram_mark (function : UInt8) {high low : UInt8} {length : Nat}
    (hlength : (Octets.word16 high low).toNat = length) (rest : Octets) :
    ofDatagram (mark :: function :: high :: low :: rest) =
      if length < 4 then .error .invalidLength
      else if rest.length < length - 4 then .error .unexpectedEof
      else ofBody function (rest.take (length - 4)) := by
  subst hlength
  have hdecode : decodeBody (mark :: function :: high :: low :: rest) =
      (require (4 ≤ (Octets.word16 high low).toNat) .invalidLength >>= fun _ =>
        take ((Octets.word16 high low).toNat - 4) >>= fun body => pure (function, body)) rest := rfl
  rw [ofDatagram, hdecode]
  by_cases hless : (Octets.word16 high low).toNat < 4
  · rw [if_pos hless, decide_eq_false (Nat.not_le.mpr hless)]
    rfl
  rw [if_neg hless, bind_of_ok (require_of_true (decide_eq_true (Nat.le_of_not_lt hless)))]
  by_cases hcut : rest.length < (Octets.word16 high low).toNat - 4
  · have hshort : take ((Octets.word16 high low).toNat - 4) rest = .error .unexpectedEof :=
      if_neg (Nat.not_le.mpr hcut)
    rw [if_pos hcut, bind_of_error hshort]
  · rw [if_neg hcut, bind_of_ok (if_pos (Nat.le_of_not_lt hcut))]
    rfl

/-- The header of a frame, with the length that it states. -/
theorem octets_append_eq (function : UInt8) {body : Octets} (hsize : 4 + body.length < 65536)
    (rest : Octets) :
    ∃ high low, octets function body ++ rest = mark :: function :: high :: low :: (body ++ rest) ∧
      (Octets.word16 high low).toNat = 4 + body.length := by
  refine ⟨_, _, rfl, ?_⟩
  rw [Octets.word16_ofWord16]
  exact UInt16.toNat_ofNat_of_lt' hsize

theorem ofDatagram_of_begins (hbegins : Begins datagram function body) :
    ofDatagram datagram = ofBody function body := by
  obtain ⟨hsize, rest, rfl⟩ := hbegins
  obtain ⟨high, low, hoctets, hlength⟩ := octets_append_eq function hsize rest
  rw [hoctets, ofDatagram_mark function hlength, if_neg (by omega), if_neg (by simp),
    Nat.add_sub_cancel_left, List.take_left]

/-- A frame that is read is one that the datagram begins with. -/
theorem exists_begins_of_ok (hframe : ofDatagram datagram = .ok frame) :
    ∃ function body, Begins datagram function body ∧ ofBody function body = .ok frame := by
  rcases datagram with _ | ⟨first, tail⟩
  · cases hframe
  by_cases hmark : first = mark
  · subst hmark
    -- Fewer than four octets are no head of a frame.
    rcases tail with _ | ⟨function, _ | ⟨high, _ | ⟨low, rest⟩⟩⟩
    iterate 3 cases hframe
    rw [ofDatagram_mark function rfl] at hframe
    split at hframe
    · cases hframe
    split at hframe
    · cases hframe
    · rename_i hless hcut
      -- The stated length counts the head, and at least that many octets are there: the body is the
      -- rest of them, and what is behind it is not looked at.
      have hbound := (Octets.word16 high low).toNat_lt
      have hbody : (rest.take ((Octets.word16 high low).toNat - 4)).length =
          (Octets.word16 high low).toNat - 4 := List.length_take_of_le (Nat.le_of_not_lt hcut)
      have hsize : 4 + (rest.take ((Octets.word16 high low).toNat - 4)).length =
          (Octets.word16 high low).toNat := by omega
      refine ⟨function, _, ⟨by rw [hsize]; exact hbound, ?_⟩, hframe⟩
      rw [octets, hsize, UInt16.ofNat_toNat, Octets.ofWord16_word16]
      exact ⟨rest.drop ((Octets.word16 high low).toNat - 4), by simp⟩
  · rw [ofDatagram_of_ne_mark hmark] at hframe
    cases hframe

/-! ### Bodies -/

theorem ofBody_message (hkind : function = 0x0A ∨ function = 0x0B ∨ function = 0x09)
    (body : Octets) : ofBody function body = .ok (.message body) :=
  if_pos hkind

theorem ofBody_relayed (body : Octets) :
    ofBody 0x04 body = (decodeOrigin body).map fun result => relayed result.1 result.2 := rfl

theorem ofBody_other
    (hkind : function ≠ 0x0A ∧ function ≠ 0x0B ∧ function ≠ 0x09 ∧ function ≠ 0x04)
    (body : Octets) : ofBody function body = .ok (.other function) :=
  (if_neg (not_or.mpr ⟨hkind.1, not_or.mpr ⟨hkind.2.1, hkind.2.2.1⟩⟩)).trans
    (if_neg hkind.2.2.2)

theorem function_cases (function : UInt8) :
    (function = 0x0A ∨ function = 0x0B ∨ function = 0x09) ∨ function = 0x04 ∨
      (function ≠ 0x0A ∧ function ≠ 0x0B ∧ function ≠ 0x09 ∧ function ≠ 0x04) := by
  by_cases hkind : function = 0x0A ∨ function = 0x0B ∨ function = 0x09
  · exact .inl hkind
  · obtain ⟨hunicast, hothers⟩ := not_or.mp hkind
    obtain ⟨hbroadcast, hspread⟩ := not_or.mp hothers
    by_cases hrelayed : function = 0x04
    · exact .inr (.inl hrelayed)
    · exact .inr (.inr ⟨hunicast, hbroadcast, hspread, hrelayed⟩)

theorem reads_decodeOrigin (a b c d : UInt8) (udp : UInt16) :
    Reads decodeOrigin ([a, b, c, d] ++ Octets.ofWord16 udp) ⟨.v4 a b c d, udp⟩ :=
  (Reads.take [a, b, c, d]).bind ((Reads.word16 udp).bind_pure rfl)

/-- The origin takes six octets, and any six are one. -/
theorem decodeOrigin_cases (body : Octets) :
    (body.length < 6 ∧ ∃ error, decodeOrigin body = .error error) ∨
      ∃ a b c d udp message, body = [a, b, c, d] ++ Octets.ofWord16 udp ++ message ∧
        decodeOrigin body = .ok (⟨.v4 a b c d, udp⟩, message) := by
  rcases body with _ | ⟨a, _ | ⟨b, _ | ⟨c, _ | ⟨d, _ | ⟨high, _ | ⟨low, message⟩⟩⟩⟩⟩⟩
  iterate 6 exact .inl ⟨by simp, _, rfl⟩
  refine .inr ⟨a, b, c, d, Octets.word16 high low, message, ?_, rfl⟩
  rw [Octets.ofWord16_word16]
  rfl

/-! ### All datagrams -/

/-- What the header of a datagram says that begins with a frame. -/
theorem Begins.header (hbegins : Begins datagram function body) :
    datagram[0]? = some 0x81 ∧ datagram[1]? = some function ∧
      statedLength datagram = 4 + body.length ∧ 4 + body.length ≤ datagram.length := by
  obtain ⟨hsize, rest, rfl⟩ := hbegins
  obtain ⟨high, low, hoctets, hlength⟩ := octets_append_eq function hsize rest
  rw [Octets.toNat_word16] at hlength
  rw [hoctets]
  refine ⟨rfl, rfl, hlength, ?_⟩
  simp only [List.length_cons, List.length_append]
  omega

/-- **A frame is read exactly from what carries it.** -/
theorem ofDatagram_eq_ok_iff : ofDatagram datagram = .ok frame ↔ Carries datagram frame := by
  constructor
  · intro hframe
    obtain ⟨function, body, hbegins, hbody⟩ := exists_begins_of_ok hframe
    -- The function decides what the body is.  One that is not known is read as well, with any body.
    rcases function_cases function with hkind | rfl | hkind
    · rw [ofBody_message hkind] at hbody
      cases hbody
      exact .message hbegins hkind
    · rw [ofBody_relayed] at hbody
      rcases decodeOrigin_cases body with
        ⟨-, error, horigin⟩ | ⟨a, b, c, d, udp, message, rfl, horigin⟩
      · rw [horigin] at hbody
        cases hbody
      · rw [horigin] at hbody
        cases hbody
        exact .relayed hbegins
    · rw [ofBody_other hkind] at hbody
      cases hbody
      exact .other hbegins hkind
  · intro hcarries
    cases hcarries with
    | message hbegins hkind => rw [ofDatagram_of_begins hbegins, ofBody_message hkind]
    | relayed hbegins =>
        rw [ofDatagram_of_begins hbegins, ofBody_relayed, reads_decodeOrigin]
        rfl
    | other hbegins hkind => rw [ofDatagram_of_begins hbegins, ofBody_other hkind]

theorem not_malformed_of_ok (hframe : ofDatagram datagram = .ok frame) : ¬ Malformed datagram := by
  obtain ⟨function, body, hbegins, hbody⟩ := exists_begins_of_ok hframe
  obtain ⟨hmark, hfunction, hstated, hwhole⟩ := hbegins.header
  intro hmalformed
  cases hmalformed with
  | header hcut => omega
  | mark hother => exact hother hmark
  | length hless => omega
  | body hcut => omega
  | origin hrelayed hcut =>
      obtain rfl : function = 0x04 := Option.some.inj (hfunction.symm.trans hrelayed)
      rw [ofBody_relayed] at hbody
      rcases decodeOrigin_cases body with ⟨-, error, horigin⟩ | ⟨a, b, c, d, udp, message, rfl, -⟩
      · rw [horigin] at hbody
        cases hbody
      · simp only [List.length_append, List.length_cons, List.length_nil,
          Octets.length_ofWord16] at hstated
        omega

/-- **Nothing is read exactly from what is malformed.** -/
theorem ofDatagram_eq_error_iff :
    (∃ error, ofDatagram datagram = .error error) ↔ Malformed datagram := by
  refine ⟨fun ⟨error, hframe⟩ => ?_, fun hmalformed => ?_⟩
  · -- The reader makes its checks in the order in which they are made here, and each that fails is
    -- one way to be malformed.
    rcases datagram with _ | ⟨first, _ | ⟨function, _ | ⟨high, _ | ⟨low, rest⟩⟩⟩⟩
    iterate 4 exact .header (by simp)
    by_cases hmark : first = mark
    · subst hmark
      have hstated : (Octets.word16 high low).toNat =
          statedLength (mark :: function :: high :: low :: rest) := Octets.toNat_word16 high low
      rw [ofDatagram_mark function hstated] at hframe
      split at hframe
      · rename_i hless
        exact .length hless
      split at hframe
      · rename_i hcut
        refine .body ?_
        simp only [List.length_cons]
        omega
      · rename_i hless hcut
        rcases function_cases function with hkind | rfl | hkind
        · rw [ofBody_message hkind] at hframe
          cases hframe
        · -- Only a body with an origin can still be too short.
          rw [ofBody_relayed] at hframe
          rcases decodeOrigin_cases
            (rest.take (statedLength (mark :: 0x04 :: high :: low :: rest) - 4)) with
            ⟨hshort, -⟩ | ⟨a, b, c, d, udp, message, -, horigin⟩
          · rw [List.length_take_of_le (Nat.le_of_not_lt hcut)] at hshort
            exact .origin rfl (by omega)
          · rw [horigin] at hframe
            cases hframe
        · rw [ofBody_other hkind] at hframe
          cases hframe
    · exact .mark fun hfirst => hmark (Option.some.inj hfirst)
  · cases hframe : ofDatagram datagram with
    | error error => exact ⟨error, rfl⟩
    | ok frame => exact absurd hmalformed (not_malformed_of_ok hframe)

/-! ## Writing -/

theorem plain_encodeMessage {message : Octets} (hsize : 4 + message.length < 65536)
    (broadcast : Bool) :
    (encodeMessage message broadcast).Plain ∧ (encodeMessage message broadcast).octets =
      octets (if broadcast then 0x0B else 0x0A) message := by
  have hfield : ¬ 65535 < headLength + message.length := Nat.not_lt.mpr (Nat.le_of_lt_succ hsize)
  rw [encodeMessage, if_neg hfield]
  exact ⟨by simp, by simp [octets, headLength, broadcastFunction, unicastFunction]⟩

theorem length_octets (function : UInt8) (body : Octets) :
    (octets function body).length = 4 + body.length := by
  simp only [octets, List.length_cons, List.length_append, Octets.length_ofWord16]
  omega

end Frame

namespace Transport

/-! ## Sending -/

/-- The datagram around a message. -/
def framed (destination : Address) (message : Octets) : Octets :=
  Frame.octets (if destination.isBroadcast then 0x0B else 0x0A) message

theorem datagramFor_eq (destination : Address) (message : Octets) :
    datagramFor destination message =
      if 1596 < message.length then .error (.oversized message.length)
      else .ok (framed destination message) := by
  unfold datagramFor
  by_cases hsize : 4 + message.length < 65536
  · obtain ⟨hplain, hoctets⟩ := Frame.plain_encodeMessage hsize destination.isBroadcast
    by_cases hover : 1596 < message.length
    · have hroom : datagramLimit <
          (Frame.encodeMessage message destination.isBroadcast).octets.length := by
        rw [hoctets, Frame.length_octets, datagramLimit]
        omega
      rw [Encoding.within_of_lt hplain hroom, if_pos hover]
    · have hroom : (Frame.encodeMessage message destination.isBroadcast).octets.length ≤
          datagramLimit := by
        rw [hoctets, Frame.length_octets, datagramLimit]
        omega
      rw [Encoding.within_of_fits hplain hroom, if_neg hover, hoctets]
      rfl
  · -- The length does not even fit into its field.
    have hfault : ¬ (Frame.encodeMessage message destination.isBroadcast).Fits datagramLimit := by
      rw [Frame.encodeMessage, if_pos (by rw [Frame.headLength]; omega)]
      exact fun hfits => not_plain_fault_cons _ _ hfits.1
    obtain ⟨error, hwithin⟩ := Encoding.exists_error_of_not_fits hfault
    rw [hwithin, if_pos (by omega)]

theorem datagramFor_of_le {destination : Address} {message : Octets}
    (hsize : message.length ≤ 1596) :
    datagramFor destination message = .ok (framed destination message) := by
  rw [datagramFor_eq, if_neg (Nat.not_lt.mpr hsize)]

theorem send_eq_oversized_iff (network : Network) (destination : Address) (message : Octets)
    (size : Nat) :
    send network destination message = .error (.oversized size) ↔
      1596 < message.length ∧ size = message.length := by
  rw [send, datagramFor_eq]
  by_cases hover : 1596 < message.length
  · rw [if_pos hover]
    constructor
    · intro hsend
      cases hsend
      exact ⟨hover, rfl⟩
    · rintro ⟨-, rfl⟩
      rfl
  · rw [if_neg hover]
    refine iff_of_false ?_ fun hboth => hover hboth.1
    cases network <;> nofun

/-! ## Receiving -/

/-- The buffer and the outcome after a datagram from `peer` has been received into `buffer`. -/
inductive Received (peer : Address) (datagram buffer : Octets) :
    Octets × Except LinkError (Nat × Address) → Prop where
  | message {octets : Octets} (carries : Frame.Carries datagram (.message octets))
      (fits : octets.length ≤ buffer.length) :
      Received peer datagram buffer
        (octets ++ buffer.drop octets.length, .ok (octets.length, peer))
  | relayed {origin : Address} {octets : Octets}
      (carries : Frame.Carries datagram (.relayed origin octets))
      (fits : octets.length ≤ buffer.length) :
      Received peer datagram buffer
        (octets ++ buffer.drop octets.length, .ok (octets.length, origin))
  | other {function : UInt8} (carries : Frame.Carries datagram (.other function)) :
      Received peer datagram buffer (buffer, .error (.notMessage function))
  | invalid (malformed : Frame.Malformed datagram) :
      Received peer datagram buffer (buffer, .error .invalidFrame)
  | oversized {octets : Octets}
      (carries : Frame.Carries datagram (.message octets) ∨
        ∃ origin, Frame.Carries datagram (.relayed origin octets))
      (large : buffer.length < octets.length) :
      Received peer datagram buffer (buffer, .error (.oversized octets.length))

/-- Without a message that fits the buffer is left as it was. -/
theorem Received.buffer_of_error {peer : Address} {datagram buffer : Octets}
    {outcome : Octets × Except LinkError (Nat × Address)} {error : LinkError}
    (hreceived : Received peer datagram buffer outcome) (herror : outcome.2 = .error error) :
    outcome.1 = buffer := by
  cases hreceived with
  | message | relayed => cases herror
  | other | invalid | oversized => rfl

section

variable (peer : Address) {datagram : Octets} (buffer : Octets)

theorem receive_of_message {octets : Octets} {sender : Address}
    (hmessage : messageIn peer datagram = .ok (octets, sender)) :
    receive peer datagram buffer =
      if octets.length ≤ buffer.length then
        (octets ++ buffer.drop octets.length, .ok (octets.length, sender))
      else (buffer, .error (.oversized octets.length)) := by
  rw [receive, hmessage]
  by_cases hfits : octets.length ≤ buffer.length
  · simp only [deliver, if_pos hfits]
  · simp only [deliver, if_neg hfits]

theorem receive_of_error {error : LinkError} (hmessage : messageIn peer datagram = .error error) :
    receive peer datagram buffer = (buffer, .error error) := by
  rw [receive, hmessage]

variable (hsize : datagram.length ≤ datagramLimit)

include hsize

theorem messageIn_eq :
    messageIn peer datagram =
      match Frame.ofDatagram datagram with
      | .ok (.message octets) => .ok (octets, peer)
      | .ok (.relayed origin octets) => .ok (octets, origin)
      | .ok (.other function) => .error (.notMessage function)
      | .error _ => .error .invalidFrame := by
  conv =>
    rhs
    rw [← List.take_of_length_le hsize]
  rfl

theorem messageIn_of_message {octets : Octets}
    (hcarries : Frame.Carries datagram (.message octets)) :
    messageIn peer datagram = .ok (octets, peer) := by
  rw [messageIn_eq peer hsize, Frame.ofDatagram_eq_ok_iff.mpr hcarries]

theorem messageIn_of_relayed {origin : Address} {octets : Octets}
    (hcarries : Frame.Carries datagram (.relayed origin octets)) :
    messageIn peer datagram = .ok (octets, origin) := by
  rw [messageIn_eq peer hsize, Frame.ofDatagram_eq_ok_iff.mpr hcarries]

/-- **What is received is what the datagram carries.** -/
theorem received_receive : Received peer datagram buffer (receive peer datagram buffer) := by
  have hmessage := messageIn_eq peer hsize
  -- The room in the buffer is looked at last, when a message has been read.
  cases hframe : Frame.ofDatagram datagram with
  | error error =>
      rw [hframe] at hmessage
      rw [receive_of_error peer buffer hmessage]
      exact .invalid (Frame.ofDatagram_eq_error_iff.mp ⟨error, hframe⟩)
  | ok frame =>
      have hcarries := Frame.ofDatagram_eq_ok_iff.mp hframe
      cases frame with
      | message octets =>
          rw [receive_of_message peer buffer (messageIn_of_message peer hsize hcarries)]
          split
          · rename_i hfits
            exact .message hcarries hfits
          · rename_i hlarge
            exact .oversized (.inl hcarries) (Nat.lt_of_not_le hlarge)
      | relayed origin octets =>
          rw [receive_of_message peer buffer (messageIn_of_relayed peer hsize hcarries)]
          split
          · rename_i hfits
            exact .relayed hcarries hfits
          · rename_i hlarge
            exact .oversized (.inr ⟨origin, hcarries⟩) (Nat.lt_of_not_le hlarge)
      | other function =>
          rw [hframe] at hmessage
          rw [receive_of_error peer buffer hmessage]
          exact .other hcarries

/-- **A datagram is received in one way only.** -/
theorem receive_of_received {outcome : Octets × Except LinkError (Nat × Address)}
    (hreceived : Received peer datagram buffer outcome) :
    receive peer datagram buffer = outcome := by
  cases hreceived with
  | message hcarries hfits =>
      rw [receive_of_message peer buffer (messageIn_of_message peer hsize hcarries), if_pos hfits]
  | relayed hcarries hfits =>
      rw [receive_of_message peer buffer (messageIn_of_relayed peer hsize hcarries), if_pos hfits]
  | other hcarries =>
      have hmessage := messageIn_eq peer hsize
      rw [Frame.ofDatagram_eq_ok_iff.mpr hcarries] at hmessage
      rw [receive_of_error peer buffer hmessage]
  | invalid hmalformed =>
      have hmessage := messageIn_eq peer hsize
      obtain ⟨error, hframe⟩ := Frame.ofDatagram_eq_error_iff.mpr hmalformed
      rw [hframe] at hmessage
      rw [receive_of_error peer buffer hmessage]
  | oversized hcarries hlarge =>
      rcases hcarries with hcarries | ⟨origin, hcarries⟩
      · rw [receive_of_message peer buffer (messageIn_of_message peer hsize hcarries),
          if_neg (Nat.not_le.mpr hlarge)]
      · rw [receive_of_message peer buffer (messageIn_of_relayed peer hsize hcarries),
          if_neg (Nat.not_le.mpr hlarge)]

end

/-! ## Both ends -/

section

variable {destination : Address} {message : Octets} (hsize : message.length ≤ 1596)

include hsize

theorem length_framed_le : (framed destination message).length ≤ datagramLimit := by
  rw [framed, Frame.length_octets, datagramLimit]
  omega

theorem carries_of_framed {datagram : Octets} (hframed : framed destination message <+: datagram) :
    Frame.Carries datagram (.message message) := by
  refine .message ⟨by omega, hframed⟩ ?_
  split
  · exact .inr (.inl rfl)
  · exact .inl rfl

/-- Octets behind the frame of a message change nothing, even where the datagram is cut. -/
theorem receive_framed_append (peer : Address) {buffer : Octets}
    (hfits : message.length ≤ buffer.length) (rest : Octets) :
    receive peer (framed destination message ++ rest) buffer =
      (message ++ buffer.drop message.length, .ok (message.length, peer)) := by
  have hcut : framed destination message <+:
      (framed destination message ++ rest).take datagramLimit :=
    List.prefix_take_iff.mpr ⟨List.prefix_append _ _, length_framed_le hsize⟩
  have hmessage : messageIn peer (framed destination message ++ rest) = .ok (message, peer) := by
    rw [messageIn, Frame.ofDatagram_eq_ok_iff.mpr (carries_of_framed hsize hcut)]
  rw [receive_of_message peer buffer hmessage, if_pos hfits]

end

/-- **Messages are delivered unchanged, and every datagram is received in one way.**  A message is
refused as too large exactly from 1597 octets on.  Any other is sent in a datagram from which it is
read, whatever follows there, and received into every buffer that is large enough, with the peer as
its sender.  What is received from a datagram is settled by what it carries, and where it is not a
message that fits, the buffer is left as it was. -/
theorem delivers_unchanged :
    (∀ (network : Network) (destination : Address) (message : Octets),
      (∀ size, send network destination message = .error (.oversized size) ↔
        1596 < message.length ∧ size = message.length) ∧
      (message.length ≤ 1596 → ∃ datagram, datagram.length ≤ 1600 ∧
        send network destination message = network.carry datagram ∧
        ∀ rest, Frame.ofDatagram (datagram ++ rest) = .ok (.message message) ∧
          ∀ peer buffer, message.length ≤ buffer.length →
            receive peer (datagram ++ rest) buffer =
              (message ++ buffer.drop message.length, .ok (message.length, peer)))) ∧
    ∀ (peer : Address) (datagram buffer : Octets), datagram.length ≤ 1600 →
      (∀ outcome, receive peer datagram buffer = outcome ↔
        Received peer datagram buffer outcome) ∧
      ∀ error, (receive peer datagram buffer).2 = .error error →
        (receive peer datagram buffer).1 = buffer := by
  refine ⟨fun network destination message => ⟨send_eq_oversized_iff network destination message,
    fun hsize => ⟨framed destination message, length_framed_le hsize, ?_, fun rest => ⟨?_, ?_⟩⟩⟩,
    fun peer datagram buffer hsize => ⟨fun outcome => ⟨?_, receive_of_received peer buffer hsize⟩,
      ?_⟩⟩
  · rw [send, datagramFor_of_le hsize]
    rfl
  · exact Frame.ofDatagram_eq_ok_iff.mpr (carries_of_framed hsize (List.prefix_append _ _))
  · exact fun peer buffer hfits => receive_framed_append hsize peer hfits rest
  · rintro rfl
    exact received_receive peer buffer hsize
  · exact fun error => (received_receive peer buffer hsize).buffer_of_error

/-- The largest message, with octets behind its frame, and a relayed message for which the buffer
is too small. -/
theorem delivers_unchanged_largest :
    let message : Octets := List.replicate 1596 7
    let peer : Address := ⟨.v4 10 0 0 5, 47808⟩
    let relayed : Octets := [0x81, 0x04, 0, 0x0D, 10, 1, 2, 3, 0xBA, 0xC0, 1, 2, 3]
    (message.length ≤ 1596 ∧ message.length ≤ message.length) ∧
      (∃ datagram, send .delivering peer message = .ok datagram ∧
        receive peer (datagram ++ [1, 2]) message = (message, .ok (1596, peer))) ∧
      relayed.length ≤ 1600 ∧
      Received peer relayed [0, 0] ([0, 0], .error (.oversized 3)) ∧
      receive peer relayed [0, 0] = ([0, 0], .error (.oversized 3)) := by
  intro message peer relayed
  have hlength : message.length = 1596 := List.length_replicate
  obtain ⟨hsent, hreceived⟩ := delivers_unchanged
  obtain ⟨-, hdelivered⟩ := hsent .delivering peer message
  obtain ⟨datagram, -, hdatagram, hread⟩ := hdelivered (Nat.le_of_eq hlength)
  have hback := (hread [1, 2]).2 peer message (Nat.le_refl _)
  rw [List.drop_length, List.append_nil, hlength] at hback
  have hover : receive peer relayed [0, 0] = ([0, 0], .error (.oversized 3)) := rfl
  exact ⟨⟨Nat.le_of_eq hlength, Nat.le_refl _⟩, ⟨datagram, hdatagram, hback⟩, by decide,
    ((hreceived peer relayed [0, 0] (by decide)).1 _).mp hover, hover⟩

end Transport

end Historian
