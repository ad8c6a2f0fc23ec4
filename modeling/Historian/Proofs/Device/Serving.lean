import Historian.Device.Responder

/-!
# One bad frame never affects another

All frames are received into one buffer, and a frame shorter than the one before leaves octets
of it behind.  A frame that arrives is owed at most one answer, and which one follows from the
frame alone (`Device.owed`).  The device tries to send the answers that are owed, each to where
its frame comes from and in the order of the frames, until the link fails for good
(`Device.run_eq_attempts`).

## Strategy

The length of the buffer is all that one arrival leaves to the next.  `Device.serve_cons` says
what becomes of one arrival whatever the buffer holds, and the induction goes over all buffers
of that length.
-/

namespace Historian

namespace Device

/-! ## What is owed -/

/-- The error with which an arrival ends the service, if it does. -/
def Arrival.fatal? : Arrival → Option LinkError
  | frame _ _ => none
  | failure error => if error.isPerFrame then none else some error

/-- The answer that an arrival is owed, and where it goes.  A frame that does not fit into the
buffer is not received. -/
def owed (device : Device) : Arrival → Option (Address × Octets)
  | .frame octets source =>
      if octets.length ≤ frameLimit then
        match device.reply? octets with
        | .ok (some message) => some (source, message)
        | _ => none
      else none
  | .failure _ => none

/-- Tries to send an answer. -/
def attempt (send : SendOutcome) (answer : Address × Octets) : Sending :=
  ⟨answer.1, answer.2, send answer.1 answer.2⟩

/-- What the device has tried to send for the answers it owes, once it has tried `tried` others. -/
def attempts (send : Nat → SendOutcome) (tried : Nat) (answers : List (Address × Octets)) :
    List Sending :=
  answers.mapIdx fun sent => attempt (send (tried + sent))

theorem attempts_cons (send : Nat → SendOutcome) (tried : Nat) (answer : Address × Octets)
    (answers : List (Address × Octets)) :
    attempts send tried (answer :: answers) =
      attempt (send tried) answer :: attempts send (tried + 1) answers := by
  simp only [attempts, List.mapIdx_cons, Nat.add_zero, Nat.add_comm, Nat.add_left_comm]

/-! ## One arrival -/

/-- The buffer keeps its length, and what is read from it is the frame that arrived. -/
theorem Arrival.into_frame {octets buffer : Octets} (source : Address)
    (hfit : octets.length ≤ buffer.length) :
    ∃ filled, (frame octets source).into buffer = (filled, .ok (octets.length, source)) ∧
      filled.length = buffer.length ∧ filled.take octets.length = octets := by
  refine ⟨octets ++ buffer.drop octets.length, ?_, ?_, List.take_left' rfl⟩
  · simp only [into, Transport.deliver, if_pos hfit]
  · rw [List.length_append, List.length_drop]
    omega

section

variable (device : Device) (send : Nat → SendOutcome) (closing : LinkError) (tried : Nat)
  {buffer : Octets} (arrival : Arrival) (rest : List Arrival)

theorem serve_cons_of_fatal {error : LinkError} (hfatal : arrival.fatal? = some error) :
    device.serve send closing tried buffer (arrival :: rest) = ([], .link error) := by
  cases arrival with
  | frame octets source => cases hfatal
  | failure cause =>
      simp only [Arrival.fatal?] at hfatal
      split at hfatal
      · cases hfatal
      · rename_i hlasting
        cases hfatal
        simp only [serve, Arrival.into, hlasting]
        rfl

/-- **An arrival costs the service nothing but the answer that it is owed.**  The next one finds a
buffer of the same length. -/
theorem serve_cons (hbuffer : buffer.length = frameLimit) (hgoes : arrival.fatal? = none) :
    ∃ left : Octets, left.length = frameLimit ∧
      device.serve send closing tried buffer (arrival :: rest) =
        match device.owed arrival with
        | none => device.serve send closing tried left rest
        | some answer =>
            (attempt (send tried) answer ::
                (device.serve send closing (tried + 1) left rest).1,
              (device.serve send closing (tried + 1) left rest).2) := by
  cases arrival with
  | failure error =>
      have hpassing : error.isPerFrame = true := by simpa [Arrival.fatal?] using hgoes
      refine ⟨buffer, hbuffer, ?_⟩
      simp only [serve, Arrival.into, hpassing, if_true, owed]
  | frame octets source =>
      by_cases hfit : octets.length ≤ frameLimit
      · obtain ⟨filled, hinto, hlength, htake⟩ :=
          Arrival.into_frame source (Nat.le_trans hfit (Nat.le_of_eq hbuffer.symm))
        refine ⟨filled, hlength.trans hbuffer, ?_⟩
        simp only [serve, hinto, htake, owed, if_pos hfit, handleFrame]
        cases device.reply? octets with
        | error cause => rfl
        | ok reply => cases reply <;> rfl
      · -- A frame that does not fit is an error of this frame only.
        refine ⟨buffer, hbuffer, ?_⟩
        have hover : ¬ octets.length ≤ buffer.length := hbuffer ▸ hfit
        simp only [serve, Arrival.into, Transport.deliver, if_neg hover, owed, if_neg hfit,
          LinkError.isPerFrame, if_true]

end

/-! ## All arrivals -/

/-- The answers that are owed until the link fails for good. -/
def owedFor (device : Device) (arrivals : List Arrival) : List (Address × Octets) :=
  (arrivals.takeWhile fun arrival => arrival.fatal?.isNone).filterMap device.owed

theorem serve_eq (device : Device) (send : Nat → SendOutcome) (closing : LinkError)
    (arrivals : List Arrival) (tried : Nat) {buffer : Octets}
    (hbuffer : buffer.length = frameLimit) :
    device.serve send closing tried buffer arrivals =
      (attempts send tried (device.owedFor arrivals),
        .link ((arrivals.findSome? Arrival.fatal?).getD closing)) := by
  induction arrivals generalizing tried buffer with
  | nil => rfl
  | cons arrival rest ih =>
      cases hfatal : arrival.fatal? with
      | some error =>
          rw [serve_cons_of_fatal device send closing tried arrival rest hfatal]
          simp [owedFor, attempts, hfatal]
      | none =>
          obtain ⟨left, hleft, hserve⟩ :=
            serve_cons device send closing tried arrival rest hbuffer hfatal
          rw [hserve]
          cases howed : device.owed arrival with
          | none => simp [ih tried hleft, owedFor, hfatal, howed]
          | some answer => simp [ih (tried + 1) hleft, owedFor, hfatal, howed, attempts_cons]

/-- **Whatever arrives before a frame, the frame is answered as if it came alone.**  The device
tries to send the answers that the frames are owed, in their order and each to the source of
its frame, whether the earlier ones could be sent or not, and ends with the first error by
which the link fails for good. -/
theorem run_eq_attempts (device : Device) (send : Nat → SendOutcome) (closing : LinkError)
    (arrivals : List Arrival) :
    device.run send closing arrivals =
      (attempts send 0 (device.owedFor arrivals),
        .link ((arrivals.findSome? Arrival.fatal?).getD closing)) :=
  serve_eq device send closing arrivals 0 List.length_replicate

/-- A longer request, a frame that cannot be received, one that cannot be read, and an answer
that cannot be sent leave the next request its answer. -/
example :
    let source : Address := ⟨.v4 10 0 0 5, 47808⟩
    (ofConfig .usual).run (fun _ _ _ => some (.oversized 3)) (.socket "closed")
        [.frame [1, 0, 0, 5, 41, 14, 255, 255] source, .failure .invalidFrame, .frame [2] source,
          .frame [1, 0, 0, 5, 42, 14] source] =
      ([⟨source, [1, 0, 96, 41, 9], some (.oversized 3)⟩,
        ⟨source, [1, 0, 96, 42, 9], some (.oversized 3)⟩], .link (.socket "closed")) := by
  decide +kernel

end Device

end Historian
