import Historian.Octets.Writer

/-!
# What a writer holds after an encoding

`Writer.emit` performs an encoding step by step and may stop half-way.  This file
says what comes of it without the steps: `Writer.emit_eq_ok_iff` for an encoding
that is written as a whole, `Writer.emit_eq_error` for one that does not fit.  An
encoding without faults is written exactly if there is room for its octets, and a
writer that failed has put a front part of them behind what it held
(`Writer.exists_grown_emit`), so that it can be rewound.
-/

namespace Historian

namespace Encoding

/-- No step of the encoding is a fault. -/
def Plain (encoding : Encoding) : Prop := ∀ piece ∈ encoding, ∃ octets, piece = .run octets

@[simp] theorem plain_nil : Plain [] := by
  intro piece hpiece
  cases hpiece

@[simp] theorem plain_run_cons (octets : Octets) (rest : Encoding) :
    Plain (.run octets :: rest) ↔ Plain rest := by
  simp [Plain]

@[simp] theorem not_plain_fault_cons (error : EncodeError) (rest : Encoding) :
    ¬ Plain (.fault error :: rest) := by
  simp [Plain]

@[simp] theorem plain_append (first second : Encoding) :
    Plain (first ++ second) ↔ Plain first ∧ Plain second := by
  simp only [Plain, List.mem_append, or_imp, forall_and]

/-! ## The octets of an encoding -/

@[simp] theorem octets_nil : octets [] = [] := rfl

@[simp] theorem octets_run_cons (run : Octets) (rest : Encoding) :
    octets (.run run :: rest) = run ++ octets rest := rfl

@[simp] theorem octets_append (first second : Encoding) :
    octets (first ++ second) = octets first ++ octets second := by
  induction first with
  | nil => rfl
  | cons piece rest ih =>
      cases piece with
      | run run => simp [ih]
      | fault error => simpa [octets] using ih

theorem plain_flatMap {α : Type} {encode : α → Encoding} (values : List α)
    (hplain : ∀ value ∈ values, (encode value).Plain) : Plain (values.flatMap encode) := by
  intro piece hpiece
  obtain ⟨value, hvalue, hmem⟩ := List.mem_flatMap.mp hpiece
  exact hplain value hvalue piece hmem

end Encoding

namespace Writer

open Encoding

/-! ## Success -/

/-- **An encoding is written as a whole exactly if it has no fault and fits.**  Its
octets are then appended. -/
theorem emit_eq_ok_iff (encoding : Encoding) (writer next : Writer) :
    writer.emit encoding = (next, .ok ()) ↔
      encoding.Plain ∧ encoding.octets.length ≤ writer.free.length ∧
        next = ⟨writer.written ++ encoding.octets,
          writer.free.drop encoding.octets.length⟩ := by
  induction encoding generalizing writer with
  | nil => simp [emit, eq_comm]
  | cons piece rest ih =>
      cases piece with
      | fault error => simp [emit]
      | run run =>
          by_cases hfit : run.length ≤ writer.free.length
          · have hlength : run.length + (octets rest).length ≤ writer.free.length ↔
                (octets rest).length ≤ writer.free.length - run.length := by omega
            simp [emit, write, hfit, ih, hlength]
          · have hover : ¬ run.length + (octets rest).length ≤ writer.free.length := by omega
            simp [emit, write, hfit, hover]

theorem emit_of_fits {encoding : Encoding} {writer : Writer} (hplain : encoding.Plain)
    (hfit : encoding.octets.length ≤ writer.free.length) :
    writer.emit encoding = (⟨writer.written ++ encoding.octets,
      writer.free.drop encoding.octets.length⟩, .ok ()) :=
  (emit_eq_ok_iff encoding writer _).mpr ⟨hplain, hfit, rfl⟩

/-! ## Failure -/

/-- `later` is `earlier` after `part` was put over the first of its free octets. -/
structure Grown (earlier : Writer) (part : Octets) (later : Writer) : Prop where
  fits : part.length ≤ earlier.free.length
  eq : later = ⟨earlier.written ++ part, earlier.free.drop part.length⟩

namespace Grown

variable {earlier middle later : Writer} {part more : Octets}

theorem refl (writer : Writer) : Grown writer [] writer :=
  ⟨Nat.zero_le _, by rw [List.append_nil, List.length_nil, List.drop_zero]⟩

theorem trans (hfirst : Grown earlier part middle) (hsecond : Grown middle more later) :
    Grown earlier (part ++ more) later := by
  obtain ⟨hfits, rfl⟩ := hfirst
  obtain ⟨hmore, rfl⟩ := hsecond
  rw [List.length_drop] at hmore
  refine ⟨?_, ?_⟩
  · rw [List.length_append]
    omega
  · rw [List.append_assoc, List.drop_drop, List.length_append]

/-- What stood in the buffer before the position of `earlier` still stands there. -/
theorem take_buffer (hgrown : Grown earlier part later) :
    later.buffer.take earlier.written.length = earlier.written := by
  rw [hgrown.eq, buffer, List.append_assoc, List.take_left]

/-- Going back to the position of `earlier` leaves the octets put there in the buffer. -/
theorem rewind_eq (hgrown : Grown earlier part later) :
    later.rewind earlier.written.length =
      ⟨earlier.written, part ++ earlier.free.drop part.length⟩ := by
  rw [hgrown.eq, rewind, List.length_append]
  split
  · rw [List.take_left, List.drop_left]
  · -- Not to have passed the mark is to have written nothing.
    rename_i hpassed
    have hnil : part = [] := List.eq_nil_of_length_eq_zero (by omega)
    rw [hnil, List.append_nil, List.nil_append]

theorem length_free_rewind (hgrown : Grown earlier part later) :
    (later.rewind earlier.written.length).free.length = earlier.free.length := by
  have hfits := hgrown.fits
  rw [hgrown.rewind_eq, List.length_append, List.length_drop]
  omega

end Grown

/-- Whatever comes of an encoding, a front part of its octets is put into the buffer. -/
theorem exists_grown_emit (encoding : Encoding) (writer : Writer) :
    ∃ part, part <+: encoding.octets ∧ Grown writer part (writer.emit encoding).1 := by
  induction encoding generalizing writer with
  | nil => exact ⟨[], List.nil_prefix, .refl writer⟩
  | cons piece rest ih =>
      cases piece with
      | fault error => exact ⟨[], List.nil_prefix, .refl writer⟩
      | run run =>
          by_cases hfit : run.length ≤ writer.free.length
          · obtain ⟨part, hpart, hgrown⟩ := ih ⟨writer.written ++ run, writer.free.drop run.length⟩
            have hrun : Grown writer run ⟨writer.written ++ run, writer.free.drop run.length⟩ :=
              ⟨hfit, rfl⟩
            refine ⟨run ++ part, (List.prefix_append_right_inj run).mpr hpart, ?_⟩
            simp only [emit, write, if_pos hfit]
            exact hrun.trans hgrown
          · simp only [emit, write, if_neg hfit]
            exact ⟨[], List.nil_prefix, .refl writer⟩

/-- A plain encoding that does not fit fails for want of room. -/
theorem emit_eq_error {encoding : Encoding} {writer : Writer} (hplain : encoding.Plain)
    (hover : writer.free.length < encoding.octets.length) :
    (writer.emit encoding).2 = .error .bufferTooSmall := by
  induction encoding generalizing writer with
  | nil => simp at hover
  | cons piece rest ih =>
      cases piece with
      | fault error => simp at hplain
      | run run =>
          by_cases hfit : run.length ≤ writer.free.length
          · simp only [emit, write, if_pos hfit]
            refine ih (by simpa using hplain) ?_
            simp only [octets_run_cons, List.length_append] at hover
            simp only [List.length_drop]
            omega
          · simp only [emit, write, if_neg hfit]

/-- Rewinding a writer that went on from `writer` gives back what `writer` held. -/
theorem written_rewind_emit (encoding : Encoding) (writer : Writer) :
    ((writer.emit encoding).1.rewind writer.written.length).written = writer.written := by
  obtain ⟨part, -, hgrown⟩ := exists_grown_emit encoding writer
  rw [hgrown.rewind_eq]

end Writer

/-! ## Writing into a fresh buffer -/

@[simp] theorem Writer.length_free_blank (capacity : Nat) :
    (Writer.blank capacity).free.length = capacity :=
  List.length_replicate

/-- A plain encoding that fits into a buffer gives its octets. -/
theorem Encoding.within_of_fits {encoding : Encoding} {capacity : Nat}
    (hplain : encoding.Plain) (hfit : encoding.octets.length ≤ capacity) :
    encoding.within capacity = .ok encoding.octets := by
  have hroom : encoding.octets.length ≤ (Writer.blank capacity).free.length := by
    rwa [Writer.length_free_blank]
  rw [within, Writer.emit_of_fits hplain hroom]
  rfl

/-- Nothing else gives octets, and none but these. -/
theorem Encoding.of_within_eq_ok {encoding : Encoding} {capacity : Nat} {octets : Octets}
    (hwithin : encoding.within capacity = .ok octets) :
    encoding.Plain ∧ encoding.octets.length ≤ capacity ∧ octets = encoding.octets := by
  unfold within at hwithin
  split at hwithin
  · rename_i writer hemit
    obtain ⟨hplain, hfit, rfl⟩ := (Writer.emit_eq_ok_iff _ _ _).mp hemit
    rw [Writer.length_free_blank] at hfit
    exact ⟨hplain, hfit, (Except.ok.inj hwithin).symm⟩
  · cases hwithin

/-- A plain encoding that does not fit gives nothing. -/
theorem Encoding.within_of_lt {encoding : Encoding} {capacity : Nat} (hplain : encoding.Plain)
    (hover : capacity < encoding.octets.length) :
    encoding.within capacity = .error .bufferTooSmall := by
  have hroom : (Writer.blank capacity).free.length < encoding.octets.length := by
    rwa [Writer.length_free_blank]
  have hfailed := Writer.emit_eq_error hplain hroom
  rcases hemit : (Writer.blank capacity).emit encoding with ⟨writer, result⟩
  rw [hemit] at hfailed
  rw [within, hemit]
  cases hfailed
  rfl

/-- An encoding can be written into a buffer of `capacity` octets. -/
def Encoding.Fits (encoding : Encoding) (capacity : Nat) : Prop :=
  encoding.Plain ∧ encoding.octets.length ≤ capacity

theorem Encoding.exists_error_of_not_fits {encoding : Encoding} {capacity : Nat}
    (hover : ¬ encoding.Fits capacity) : ∃ error, encoding.within capacity = .error error := by
  cases hwithin : encoding.within capacity with
  | error error => exact ⟨error, rfl⟩
  | ok octets =>
      obtain ⟨hplain, hfit, -⟩ := of_within_eq_ok hwithin
      exact absurd ⟨hplain, hfit⟩ hover

/-- An encoding puts out `octets` wherever there is room for them. -/
def Encoding.Gives (encoding : Encoding) (octets : Octets) : Prop :=
  ∀ capacity, encoding.within capacity =
    if octets.length ≤ capacity then .ok octets else .error .bufferTooSmall

/-- Without a fault, nothing but the room decides. -/
theorem Encoding.Plain.gives {encoding : Encoding} (hplain : encoding.Plain) :
    encoding.Gives encoding.octets := by
  intro capacity
  split
  · rename_i hfit
    exact within_of_fits hplain hfit
  · rename_i hover
    exact within_of_lt hplain (Nat.lt_of_not_le hover)

end Historian
