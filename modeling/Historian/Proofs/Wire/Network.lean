import Historian.Message.Network
import Historian.Proofs.Wire.Reader
import Historian.Proofs.Wire.Writer

/-!
# Network headers read back as they were written

The control octet of a network header says which of its optional parts follow.  A header whose
parts are those that its control octet announces (`NetworkHeader.Matches`) is read back from
its octets, and a header that was read is such a header and is written in the very octets it
was read from (`NetworkHeader.decode_eq_ok_iff`).

An answer goes back to where the request comes from.  The source that a request names is an
address of at most six octets, so the header of the answer can be written, takes at most twelve
octets, and is read back in front of any message (`NetworkHeader.reply_of_decode`).
-/

namespace Historian

open Decoder Encoding

/-! ## Addresses -/

namespace NetworkAddress

section

variable {network : UInt16} {mac : Octets}

theorem toNat_size_of (hmac : mac.length ≤ macLimit) :
    (of network mac).size.toNat = mac.length := by
  have hsmall : mac.length < 256 := Nat.lt_of_le_of_lt hmac (by decide)
  exact UInt8.toNat_ofNat_of_lt' hsmall

theorem octets_of (hmac : mac.length ≤ macLimit) : (of network mac).octets = mac := by
  rw [octets, toNat_size_of hmac]
  exact List.take_left' rfl

theorem encode_of (hmac : mac.length ≤ macLimit) :
    (of network mac).encode =
      [.run (Octets.ofWord16 network), .run [(of network mac).size], .run mac] := by
  have hsize : (of network mac).size.toNat ≤ macLimit := by rwa [toNat_size_of hmac]
  rw [encode, if_pos hsize, octets_of hmac]
  rfl

theorem octets_encode_of (hmac : mac.length ≤ macLimit) :
    (of network mac).encode.octets =
      Octets.ofWord16 network ++ ([(of network mac).size] ++ mac) := by
  simp [encode_of hmac]

theorem reads_decode_of (hmac : mac.length ≤ macLimit) :
    Reads decode (of network mac).encode.octets (of network mac) := by
  have hsize : (of network mac).size.toNat = mac.length := toNat_size_of hmac
  rw [octets_encode_of hmac]
  refine (Reads.word16 network).bind ?_
  refine (Reads.octet _).bind ?_
  rw [hsize]
  exact Reads.after_require (decide_eq_true hmac) ((Reads.take mac).bind_pure rfl)

end

/-- Six octets are kept of an address, and those that do not count are zero. -/
structure Padded (address : NetworkAddress) : Prop where
  length : address.mac.length = macLimit
  size_le : address.size.toNat ≤ macLimit
  zeros : ∀ octet ∈ address.mac.drop address.size.toNat, octet = 0

theorem padded_of (network : UInt16) {mac : Octets} (hmac : mac.length ≤ macLimit) :
    (of network mac).Padded := by
  have hsize : (of network mac).size.toNat = mac.length := toNat_size_of hmac
  have hdrop : (of network mac).mac.drop mac.length =
      List.replicate (macLimit - mac.length) 0 := List.drop_left' rfl
  refine ⟨?_, hsize ▸ hmac, ?_⟩
  · rw [of, List.length_append, List.length_replicate]
    omega
  · rw [hsize, hdrop]
    exact fun octet => List.eq_of_mem_replicate

namespace Padded

variable {address : NetworkAddress}

/-- The octets that count determine the rest. -/
theorem eq_of (hpadded : address.Padded) :
    address.octets.length ≤ macLimit ∧ address = of address.network address.octets := by
  obtain ⟨network, mac, size⟩ := address
  obtain ⟨hlength, hsize, hzeros⟩ := hpadded
  have hcount : (mac.take size.toNat).length = size.toNat :=
    List.length_take_of_le (hlength ▸ hsize)
  have hrest : mac.drop size.toNat = List.replicate (macLimit - size.toNat) 0 := by
    refine List.eq_replicate_iff.mpr ⟨?_, hzeros⟩
    rw [List.length_drop, hlength]
  refine ⟨Nat.le_trans (Nat.le_of_eq hcount) hsize, ?_⟩
  rw [octets, of, hcount, ← hrest, List.take_append_drop, UInt8.ofNat_toNat]

theorem plain_encode (hpadded : address.Padded) : address.encode.Plain := by
  rw [encode, if_pos hpadded.size_le]
  simp

theorem length_encode (hpadded : address.Padded) : address.encode.octets.length ≤ 9 := by
  have hcount : address.octets.length ≤ 6 := hpadded.eq_of.1
  rw [encode, if_pos hpadded.size_le]
  simp only [octets_run_cons, octets_nil, List.length_append, Octets.length_ofWord16,
    List.length_cons, List.length_nil]
  omega

theorem reads_decode (hpadded : address.Padded) :
    Reads decode address.encode.octets address := by
  obtain ⟨hcount, heq⟩ := hpadded.eq_of
  rw [heq]
  exact reads_decode_of hcount

end Padded

/-- An address that was received is padded, and was received in its own encoding. -/
theorem of_decode_eq_ok {input rest : Octets} {address : NetworkAddress}
    (hread : decode input = .ok (address, rest)) :
    address.Padded ∧ input = address.encode.octets ++ rest := by
  obtain ⟨network, _, hnetwork, hread⟩ := exists_of_bind_eq_ok hread
  obtain ⟨size, _, hsize, hread⟩ := exists_of_bind_eq_ok hread
  obtain ⟨_, _, hrequire, hread⟩ := exists_of_bind_eq_ok hread
  obtain ⟨mac, _, htake, hread⟩ := exists_of_bind_eq_ok hread
  cases hread
  obtain ⟨hcondition, hsame⟩ := of_require_eq_ok hrequire
  obtain ⟨hcount, htaken⟩ := of_take_eq_ok htake
  cases hsame
  have hmac : mac.length ≤ macLimit :=
    Nat.le_trans (Nat.le_of_eq hcount) (of_decide_eq_true hcondition)
  have hfield : (of network mac).size = size := by
    rw [← UInt8.toNat_inj, toNat_size_of hmac, hcount]
  refine ⟨padded_of network hmac, ?_⟩
  rw [octets_encode_of hmac, hfield, of_word16_eq_ok hnetwork, of_octet_eq_ok hsize, htaken]
  simp

end NetworkAddress

/-! ## Headers -/

namespace NetworkHeader

open NetworkAddress (macLimit Padded)

/-! ### Optional parts -/

section

variable {α : Type} {condition : Bool} {decoder : Decoder α} {octetsOf : α → Octets}
  {found : Option α}

theorem reads_decodeWhen (hfound : found.isSome = condition)
    (hread : ∀ value, found = some value → Reads decoder (octetsOf value) value) :
    Reads (decodeWhen condition decoder) (found.elim [] octetsOf) found := by
  subst hfound
  cases found with
  | none => exact Reads.pure none
  | some value => exact (hread value rfl).bind_pure rfl

/-- What is known of every value that a decoder makes is known of a part that it makes under a
condition. -/
theorem of_decodeWhen_eq_ok {input rest : Octets} {holds : α → Prop}
    (htakes : ∀ value rest, decoder input = .ok (value, rest) →
      holds value ∧ input = octetsOf value ++ rest)
    (hread : decodeWhen condition decoder input = .ok (found, rest)) :
    found.isSome = condition ∧ (∀ value, found = some value → holds value) ∧
      input = found.elim [] octetsOf ++ rest := by
  cases condition with
  | false =>
      cases hread
      exact ⟨rfl, nofun, rfl⟩
  | true =>
      obtain ⟨value, _, hvalue, hsome⟩ := exists_of_bind_eq_ok hread
      cases hsome
      obtain ⟨hholds, hinput⟩ := htakes value rest hvalue
      refine ⟨rfl, fun other hother => ?_, hinput⟩
      cases hother
      exact hholds

end

/-! ### Headers whose parts are announced -/

/-- The parts of a header are those that its control octet announces, a vendor is named by the
types that belong to vendors, and addresses are padded. -/
structure Matches (header : NetworkHeader) : Prop where
  destination : header.destination.isSome = hasDestination header.control
  source : header.source.isSome = hasSource header.control
  hopCount : header.hopCount.isSome = hasDestination header.control
  messageType : header.messageType.isSome = header.isNetworkMessage
  vendor : header.vendor.isSome = header.messageType.any fun type => firstVendorType ≤ type
  destination_padded : ∀ address, header.destination = some address → address.Padded
  source_padded : ∀ address, header.source = some address → address.Padded

/-- The octets of a part that may be missing. -/
theorem octets_optional {α : Type} (octetsOf : α → Octets) (found : Option α) (usual : α) :
    Encoding.octets (if found.isSome then [.run (octetsOf (found.getD usual))] else []) =
      found.elim [] octetsOf := by
  cases found with
  | none => rfl
  | some value => exact List.append_nil _

theorem octets_encodeAddress (address : Option NetworkAddress) :
    (encodeAddress address).octets = address.elim [] fun address => address.encode.octets := by
  cases address <;> rfl

section

variable {header : NetworkHeader}

theorem plain_encodeAddress {address : Option NetworkAddress}
    (hpadded : ∀ kept, address = some kept → kept.Padded) : (encodeAddress address).Plain := by
  cases address with
  | none => exact plain_nil
  | some kept => exact (hpadded kept rfl).plain_encode

theorem plain_encode (hmatches : header.Matches) : header.encode.Plain := by
  have hdestination := plain_encodeAddress hmatches.destination_padded
  have hsource := plain_encodeAddress hmatches.source_padded
  have hhops : Encoding.Plain (if header.destination.isSome then
      [.run [header.hopCount.getD fullHopCount]] else []) := by
    split <;> simp
  have hlast : Encoding.Plain (if header.isNetworkMessage then
      .run [header.messageType.getD 0] ::
        if firstVendorType ≤ header.messageType.getD 0 then
          [.run (Octets.ofWord16 (header.vendor.getD 0))] else []
      else []) := by
    split
    · split <;> simp
    · simp
  rw [encode]
  simp only [plain_append, plain_run_cons, plain_nil, true_and]
  exact ⟨⟨⟨hdestination, hsource⟩, hhops⟩, hlast⟩

/-- The octets of a header, part by part. -/
theorem octets_encode (hmatches : header.Matches) :
    header.encode.octets = [version] ++ ([header.control] ++
      (header.destination.elim [] (fun address => address.encode.octets) ++
        (header.source.elim [] (fun address => address.encode.octets) ++
          (header.hopCount.elim [] (fun count => [count]) ++
            (header.messageType.elim [] (fun type => [type]) ++
              header.vendor.elim [] Octets.ofWord16))))) := by
  -- A part that is not announced is not written, and one that is announced is there.
  have hhops : Encoding.octets (if header.destination.isSome then
      [.run [header.hopCount.getD fullHopCount]] else []) =
      header.hopCount.elim [] fun count => [count] := by
    rw [hmatches.destination, ← hmatches.hopCount]
    exact octets_optional (fun count => [count]) _ _
  -- The vendor stands only behind the type of a message of the network layer, so the two are taken
  -- together.
  have hlast : Encoding.octets (if header.isNetworkMessage then
      .run [header.messageType.getD 0] ::
        if firstVendorType ≤ header.messageType.getD 0 then
          [.run (Octets.ofWord16 (header.vendor.getD 0))] else []
      else []) =
      header.messageType.elim [] (fun type => [type]) ++ header.vendor.elim [] Octets.ofWord16 := by
    have hvendor := hmatches.vendor
    rw [← hmatches.messageType]
    cases hmessage : header.messageType with
    | none =>
        rw [hmessage] at hvendor
        have hnone : header.vendor = none := by simpa using hvendor
        rw [hnone]
        rfl
    | some type =>
        rw [hmessage] at hvendor
        have hnamed : header.vendor.isSome = true ↔ firstVendorType ≤ type := by
          rw [hvendor]
          exact decide_eq_true_iff
        simp only [Option.isSome_some, if_true, Option.getD_some, ← hnamed, octets_run_cons,
          octets_optional]
        rfl
  rw [encode]
  simp only [octets_append, octets_run_cons, octets_encodeAddress, hhops, hlast,
    List.append_assoc, List.cons_append, List.nil_append]

/-! ### Both ways -/

theorem reads_decode (hmatches : header.Matches) :
    Reads decode header.encode.octets header := by
  have htype := hmatches.messageType
  have hvendor := hmatches.vendor
  -- Every part is read under the condition that the control octet sets, which is that it is there.
  rw [octets_encode hmatches]
  refine (Reads.octet version).bind ?_
  refine Reads.after_require (by decide) ?_
  refine (Reads.octet header.control).bind ?_
  refine (reads_decodeWhen hmatches.destination
    fun address haddress => (hmatches.destination_padded address haddress).reads_decode).bind ?_
  refine (reads_decodeWhen hmatches.source
    fun address haddress => (hmatches.source_padded address haddress).reads_decode).bind ?_
  refine (reads_decodeWhen hmatches.hopCount fun count _ => Reads.octet count).bind ?_
  refine (reads_decodeWhen htype fun type _ => Reads.octet type).bind ?_
  exact (reads_decodeWhen hvendor fun vendor _ => Reads.word16 vendor).bind_pure rfl

/-- A header that was read has the parts that it announces, and was read from its own encoding. -/
theorem of_decode_eq_ok {input rest : Octets} (hread : decode input = .ok (header, rest)) :
    header.Matches ∧ input = header.encode.octets ++ rest := by
  obtain ⟨found, _, hversion, hread⟩ := exists_of_bind_eq_ok hread
  obtain ⟨_, _, hrequire, hread⟩ := exists_of_bind_eq_ok hread
  obtain ⟨control, _, hcontrol, hread⟩ := exists_of_bind_eq_ok hread
  obtain ⟨destination, _, hdestination, hread⟩ := exists_of_bind_eq_ok hread
  obtain ⟨source, _, hsource, hread⟩ := exists_of_bind_eq_ok hread
  obtain ⟨hopCount, _, hhops, hread⟩ := exists_of_bind_eq_ok hread
  obtain ⟨messageType, _, htype, hread⟩ := exists_of_bind_eq_ok hread
  obtain ⟨vendor, _, hvendor, hread⟩ := exists_of_bind_eq_ok hread
  cases hread
  obtain ⟨hone, hsame⟩ := of_require_eq_ok hrequire
  cases hsame
  have hfound : found = version := of_decide_eq_true hone
  -- Nothing but the octets they were read from is known of the parts that are no addresses.
  have haddress : ∀ address rest input, NetworkAddress.decode input = .ok (address, rest) →
      address.Padded ∧ input = address.encode.octets ++ rest :=
    fun _ _ _ => NetworkAddress.of_decode_eq_ok
  have hoctet : ∀ (value : UInt8) (rest input : Octets), octet input = .ok (value, rest) →
      True ∧ input = [value] ++ rest := fun _ _ _ hvalue => ⟨trivial, of_octet_eq_ok hvalue⟩
  have hword : ∀ (value : UInt16) (rest input : Octets), word16 input = .ok (value, rest) →
      True ∧ input = Octets.ofWord16 value ++ rest :=
    fun _ _ _ hvalue => ⟨trivial, of_word16_eq_ok hvalue⟩
  obtain ⟨hasDestination, hdestinationPadded, hdestination⟩ :=
    of_decodeWhen_eq_ok (fun _ _ => haddress _ _ _) hdestination
  obtain ⟨hasSource, hsourcePadded, hsource⟩ :=
    of_decodeWhen_eq_ok (fun _ _ => haddress _ _ _) hsource
  obtain ⟨hasHops, -, hhops⟩ := of_decodeWhen_eq_ok (fun _ _ => hoctet _ _ _) hhops
  obtain ⟨hasType, -, htype⟩ := of_decodeWhen_eq_ok (fun _ _ => hoctet _ _ _) htype
  obtain ⟨hasVendor, -, hvendor⟩ := of_decodeWhen_eq_ok (fun _ _ => hword _ _ _) hvendor
  have hmatches : Matches ⟨control, destination, source, hopCount, messageType, vendor⟩ :=
    ⟨hasDestination, hasSource, hasHops, hasType, hasVendor, hdestinationPadded, hsourcePadded⟩
  refine ⟨hmatches, ?_⟩
  rw [octets_encode hmatches, of_octet_eq_ok hversion, of_octet_eq_ok hcontrol, hfound,
    hdestination, hsource, hhops, htype, hvendor]
  simp only [List.append_assoc, List.cons_append, List.nil_append]

/-- **A header is read from its own encoding and from nothing else.** -/
theorem decode_eq_ok_iff {input rest : Octets} :
    decode input = .ok (header, rest) ↔
      header.Matches ∧ input = header.encode.octets ++ rest := by
  refine ⟨of_decode_eq_ok, ?_⟩
  rintro ⟨hmatches, rfl⟩
  exact reads_decode hmatches rest

end

/-- A header without optional parts is two octets. -/
theorem encode_plain {control : UInt8} (hmessage : Octets.bit control 7 = false) :
    (plain control).encode = [.run [version, control]] := by
  simp [encode, plain, encodeAddress, isNetworkMessage, hmessage]

/-! ## The header of an answer -/

/-- The header of an answer that goes back through a router. -/
def routed (source : NetworkAddress) : NetworkHeader :=
  { plain 32 with destination := some source, hopCount := some fullHopCount }

theorem matches_routed {source : NetworkAddress} (hsource : source.Padded) :
    (routed source).Matches := by
  have hdestination : hasDestination 32 = true := by decide
  have hsourceless : hasSource 32 = false := by decide
  have hmessage : Octets.bit 32 7 = false := by decide
  refine ⟨hdestination.symm, hsourceless.symm, hdestination.symm, hmessage.symm, rfl, ?_, nofun⟩
  intro address haddress
  cases haddress
  exact hsource

theorem matches_plain : (plain 0).Matches :=
  ⟨by decide, by decide, by decide, by decide, rfl, nofun, nofun⟩

theorem length_encode_routed {source : NetworkAddress} (hsource : source.Padded) :
    (routed source).encode.octets.length ≤ 12 := by
  have hlength := hsource.length_encode
  rw [octets_encode (matches_routed hsource)]
  simp only [routed, plain, Option.elim_some, Option.elim_none, List.length_append,
    List.length_cons, List.length_nil]
  omega

/-- **The header of an answer leads back to where the request comes from**, and takes at most
twelve octets. -/
theorem matches_reply {header : NetworkHeader} (hmatches : header.Matches) :
    header.reply.Matches ∧ header.reply.encode.octets.length ≤ 12 := by
  cases hsource : header.source with
  | none =>
      have hreply : header.reply = plain 0 := by rw [reply, hsource]
      rw [hreply]
      exact ⟨matches_plain, by decide⟩
  | some source =>
      have hpadded := hmatches.source_padded source hsource
      have hreply : header.reply = routed source := by
        rw [reply, hsource]
        rfl
      rw [hreply]
      exact ⟨matches_routed hpadded, length_encode_routed hpadded⟩

/-- **The header of an answer can be written, into twelve octets, and read back.** -/
theorem reply_of_decode {input rest : Octets} {header : NetworkHeader}
    (hread : decode input = .ok (header, rest)) :
    header.reply.encode.Plain ∧ header.reply.encode.octets.length ≤ 12 ∧
      Reads decode header.reply.encode.octets header.reply := by
  obtain ⟨hreply, hlength⟩ := matches_reply (of_decode_eq_ok hread).1
  exact ⟨plain_encode hreply, hlength, reads_decode hreply⟩

/-- **Network headers are lossless both ways.**  What can be read are the headers whose parts are
announced, each from its own encoding.  Such a header is written wherever there is room, and so
is the header of the answer, which takes at most twelve octets and goes to where the request
comes from. -/
theorem lossless (header : NetworkHeader) :
    (∀ input rest, decode input = .ok (header, rest) ↔
        header.Matches ∧ input = header.encode.octets ++ rest) ∧
      (header.Matches →
        header.encode.Gives header.encode.octets ∧
          header.reply.Matches ∧ header.reply.encode.Gives header.reply.encode.octets ∧
          header.reply.encode.octets.length ≤ 12 ∧
          header.reply.isNetworkMessage = false ∧ header.reply.source = none ∧
          header.reply.destination = header.source ∧
          (header.source = none → header.reply = plain 0)) := by
  refine ⟨fun _ _ => decode_eq_ok_iff, fun hmatches => ?_⟩
  obtain ⟨hreply, hlength⟩ := matches_reply hmatches
  refine ⟨(plain_encode hmatches).gives, hreply, (plain_encode hreply).gives, hlength, ?_⟩
  have hlocal : Octets.bit 0 7 = false := by decide
  have hremote : Octets.bit 32 7 = false := by decide
  cases hsource : header.source with
  | none => simp [reply, hsource, plain, isNetworkMessage, hlocal]
  | some source => simp [reply, hsource, plain, isNetworkMessage, hremote]

/-- A message of a vendor from one network to another has every part. -/
theorem lossless_vendor :
    let header : NetworkHeader :=
      ⟨0xA8, some (.of 5 [7]), some (.of 6 [1, 2, 3, 4, 5, 6]), some 9, some 130, some 260⟩
    let octets : Octets := [1, 0xA8, 0, 5, 1, 7, 0, 6, 6, 1, 2, 3, 4, 5, 6, 9, 130, 1, 4]
    header.Matches ∧ header.encode.octets = octets ∧
      decode (octets ++ [96]) = .ok (header, [96]) ∧
      header.reply.encode.Gives [1, 32, 0, 6, 6, 1, 2, 3, 4, 5, 6, 255] ∧
      header.reply.destination = some (.of 6 [1, 2, 3, 4, 5, 6]) := by
  intro header octets
  have hread : decode (octets ++ [96]) = .ok (header, [96]) := rfl
  have hwritten : header.encode.octets = octets := by decide
  have hreply : header.reply.encode.octets = [1, 32, 0, 6, 6, 1, 2, 3, 4, 5, 6, 255] := by decide
  obtain ⟨hway, hback⟩ := lossless header
  obtain ⟨hmatches, -⟩ := (hway _ _).mp hread
  obtain ⟨-, -, hgives, -, -, -, hdestination, -⟩ := hback hmatches
  exact ⟨hmatches, hwritten, hread, hreply ▸ hgives, hdestination⟩

end NetworkHeader

end Historian
