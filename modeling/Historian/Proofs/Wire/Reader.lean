import Historian.Octets.Decoder

/-!
# What a decoder takes

`Decoder.Reads decoder octets value` says that `decoder` takes `octets` from the front
of any input and makes `value` of them, whatever follows.  Decoders that are put
together read what their parts read, one after the other (`Reads.bind`), so a round
trip of a format is assembled from the round trips of its fields.

Where a field may be missing, what follows decides.  For those places
`Decoder.bind_of_ok` performs one step on the input at hand.
-/

namespace Historian

namespace Octets

/-! ## Numbers as octets -/

theorem word16_ofWord16 (value : UInt16) :
    word16 (UInt8.ofNat (value.toNat / 256)) (UInt8.ofNat value.toNat) = value := by
  apply UInt16.toNat_inj.mp
  have hbound := value.toNat_lt
  simp only [word16, UInt8.toNat_ofNat', UInt16.toNat_ofNat']
  omega

theorem toNat_word16 (high low : UInt8) :
    (word16 high low).toNat = high.toNat * 256 + low.toNat := by
  have hhigh := high.toNat_lt
  have hlow := low.toNat_lt
  exact UInt16.toNat_ofNat_of_lt' (by change _ < 65536; omega)

theorem ofWord16_word16 (high low : UInt8) : ofWord16 (word16 high low) = [high, low] := by
  have hhigh := high.toNat_lt
  have hlow := low.toNat_lt
  rw [ofWord16, toNat_word16, List.cons.injEq, List.cons.injEq, ← UInt8.toNat_inj,
    ← UInt8.toNat_inj, UInt8.toNat_ofNat', UInt8.toNat_ofNat']
  exact ⟨by omega, by omega, rfl⟩

theorem word32_ofWord32 (value : UInt32) :
    word32 (UInt8.ofNat (value.toNat / 16777216)) (UInt8.ofNat (value.toNat / 65536))
      (UInt8.ofNat (value.toNat / 256)) (UInt8.ofNat value.toNat) = value := by
  apply UInt32.toNat_inj.mp
  have hbound := value.toNat_lt
  simp only [word32, UInt8.toNat_ofNat', UInt32.toNat_ofNat']
  omega

theorem toNat_word32 (a b c d : UInt8) :
    (word32 a b c d).toNat = ((a.toNat * 256 + b.toNat) * 256 + c.toNat) * 256 + d.toNat := by
  have ha := a.toNat_lt
  have hb := b.toNat_lt
  have hc := c.toNat_lt
  have hd := d.toNat_lt
  exact UInt32.toNat_ofNat_of_lt' (by change _ < 4294967296; omega)

theorem ofWord32_word32 (a b c d : UInt8) : ofWord32 (word32 a b c d) = [a, b, c, d] := by
  have ha := a.toNat_lt
  have hb := b.toNat_lt
  have hc := c.toNat_lt
  have hd := d.toNat_lt
  simp only [ofWord32, toNat_word32, List.cons.injEq, and_true, ← UInt8.toNat_inj,
    UInt8.toNat_ofNat']
  omega

end Octets

namespace Decoder

variable {α β : Type}

/-! ## One step -/

/-- A sequence of decoders goes on behind what the first one took. -/
theorem bind_of_ok {decoder : Decoder α} {next : α → Decoder β} {input rest : Octets}
    {value : α} (hread : decoder input = .ok (value, rest)) :
    (decoder >>= next) input = next value rest := by
  change (decoder input >>= fun result => next result.1 result.2) = _
  rw [hread]
  rfl

/-- A sequence of decoders fails where the first one fails. -/
theorem bind_of_error {decoder : Decoder α} {next : α → Decoder β} {input : Octets}
    {error : DecodeError} (hread : decoder input = .error error) :
    (decoder >>= next) input = .error error := by
  change (decoder input >>= fun result => next result.1 result.2) = _
  rw [hread]
  rfl

/-- A sequence of decoders that succeeds has gone through a value of the first one. -/
theorem exists_of_bind_eq_ok {decoder : Decoder α} {next : α → Decoder β} {input : Octets}
    {result : β × Octets} (hread : (decoder >>= next) input = .ok result) :
    ∃ value rest, decoder input = .ok (value, rest) ∧ next value rest = .ok result := by
  cases hfirst : decoder input with
  | error error =>
      rw [bind_of_error hfirst] at hread
      cases hread
  | ok first =>
      obtain ⟨value, rest⟩ := first
      rw [bind_of_ok hfirst] at hread
      exact ⟨value, rest, rfl, hread⟩

theorem peek_of_ok {decoder : Decoder α} {input rest : Octets} {value : α}
    (hread : decoder input = .ok (value, rest)) :
    peek decoder input = .ok (value, input) := by
  simp [peek, hread]

theorem peek_of_error {decoder : Decoder α} {input : Octets} {error : DecodeError}
    (hread : decoder input = .error error) : peek decoder input = .error error := by
  simp [peek, hread]

@[simp] theorem octet_bind_cons (next : UInt8 → Decoder β) (first : UInt8) (rest : Octets) :
    (octet >>= next) (first :: rest) = next first rest := rfl

@[simp] theorem atEnd_apply (input : Octets) : atEnd input = .ok (input.isEmpty, input) := rfl

theorem require_of_true {condition : Bool} {error : DecodeError} {input : Octets}
    (hcondition : condition = true) : require condition error input = .ok ((), input) := by
  subst hcondition
  rfl

theorem of_require_eq_ok {condition : Bool} {error : DecodeError} {input : Octets}
    {result : Unit × Octets} (hread : require condition error input = .ok result) :
    condition = true ∧ result = ((), input) := by
  cases condition with
  | false => cases hread
  | true =>
      cases hread
      exact ⟨rfl, rfl⟩

/-! ## What was taken -/

theorem of_octet_eq_ok {input rest : Octets} {value : UInt8}
    (hread : octet input = .ok (value, rest)) : input = value :: rest := by
  cases input with
  | nil => cases hread
  | cons first others =>
      cases hread
      rfl

theorem of_word16_eq_ok {input rest : Octets} {value : UInt16}
    (hread : word16 input = .ok (value, rest)) : input = Octets.ofWord16 value ++ rest := by
  rcases input with _ | ⟨high, _ | ⟨low, others⟩⟩
  · cases hread
  · cases hread
  · cases hread
    rw [Octets.ofWord16_word16]
    rfl

theorem of_word32_eq_ok {input rest : Octets} {value : UInt32}
    (hread : word32 input = .ok (value, rest)) : input = Octets.ofWord32 value ++ rest := by
  rcases input with _ | ⟨a, _ | ⟨b, _ | ⟨c, _ | ⟨d, others⟩⟩⟩⟩
  iterate 4 cases hread
  cases hread
  rw [Octets.ofWord32_word32]
  rfl

theorem of_take_eq_ok {count : Nat} {input rest taken : Octets}
    (hread : take count input = .ok (taken, rest)) :
    taken.length = count ∧ input = taken ++ rest := by
  rw [take] at hread
  split at hread
  · rename_i henough
    cases hread
    exact ⟨List.length_take_of_le henough, (List.take_append_drop count input).symm⟩
  · cases hread

/-! ## Reading a value -/

/-- `decoder` takes `octets` from the front of any input and makes `value` of them. -/
def Reads (decoder : Decoder α) (octets : Octets) (value : α) : Prop :=
  ∀ rest, decoder (octets ++ rest) = .ok (value, rest)

namespace Reads

variable {decoder : Decoder α} {octets : Octets} {value : α}

/-- An input that is used up. -/
theorem whole (hread : Reads decoder octets value) : decoder octets = .ok (value, []) := by
  simpa using hread []

theorem pure (value : α) : Reads (pure value) [] value := fun _ => rfl

theorem bind {next : α → Decoder β} {more : Octets} {result : β}
    (hread : Reads decoder octets value) (hnext : Reads (next value) more result) :
    Reads (decoder >>= next) (octets ++ more) result := by
  intro rest
  rw [List.append_assoc, bind_of_ok (hread (more ++ rest))]
  exact hnext rest

/-- A last step that only looks at the value. -/
theorem bind_pure {result : β} {next : α → Decoder β} (hread : Reads decoder octets value)
    (hnext : next value = Pure.pure result) : Reads (decoder >>= next) octets result := by
  intro rest
  rw [bind_of_ok (hread rest), hnext]
  rfl

/-- A first step that takes nothing. -/
theorem after_require {condition : Bool} {error : DecodeError} (hcondition : condition = true)
    (hread : Reads decoder octets value) :
    Reads (require condition error >>= fun _ => decoder) octets value := by
  intro rest
  rw [bind_of_ok (require_of_true hcondition)]
  exact hread rest

/-- A first step that asks whether anything is left, where something is. -/
theorem after_atEnd {next : Bool → Decoder α} (hsome : octets ≠ [])
    (hread : Reads (next false) octets value) : Reads (atEnd >>= next) octets value := by
  intro rest
  have hleft : (octets ++ rest).isEmpty = false :=
    List.isEmpty_eq_false_iff.mpr (List.append_ne_nil_of_left_ne_nil hsome rest)
  rw [bind_of_ok (atEnd_apply _), hleft]
  exact hread rest

/-! ## The readers that formats are built from -/

theorem octet (value : UInt8) : Reads Decoder.octet [value] value := fun _ => rfl

theorem word16 (value : UInt16) : Reads Decoder.word16 (Octets.ofWord16 value) value := by
  intro rest
  simp only [Octets.ofWord16, List.cons_append, List.nil_append, Decoder.word16,
    Octets.word16_ofWord16]

theorem word32 (value : UInt32) : Reads Decoder.word32 (Octets.ofWord32 value) value := by
  intro rest
  simp only [Octets.ofWord32, List.cons_append, List.nil_append, Decoder.word32,
    Octets.word32_ofWord32]

theorem take (octets : Octets) : Reads (Decoder.take octets.length) octets octets := by
  intro rest
  simp [Decoder.take]

end Reads

/-! ## Reading to the end -/

/-- `decoder`, used again and again, makes `values` of an input and uses it up. -/
inductive ReadsAll (decoder : Decoder α) : Octets → List α → Prop where
  | done : ReadsAll decoder [] []
  | next {input rest : Octets} {value : α} {values : List α}
      (read : decoder input = .ok (value, rest)) (others : ReadsAll decoder rest values) :
      ReadsAll decoder input (value :: values)

namespace ReadsAll

variable {decoder : Decoder α}

/-- Values that are read wherever they stand are read one after another. -/
theorem of_reads {octetsOf : α → Octets} {values : List α}
    (hreads : ∀ value ∈ values, Reads decoder (octetsOf value) value) :
    ReadsAll decoder (values.flatMap octetsOf) values := by
  induction values with
  | nil => exact .done
  | cons value values ih =>
      obtain ⟨hfirst, hrest⟩ := List.forall_mem_cons.mp hreads
      exact .next (hfirst _) (ih hrest)

/-- An input is read in one way, unless there are values without octets. -/
theorem unique (hempty : ∀ result, decoder [] ≠ .ok result) {input : Octets}
    {values others : List α} (hvalues : ReadsAll decoder input values)
    (hothers : ReadsAll decoder input others) : others = values := by
  induction hvalues generalizing others with
  | done =>
      cases hothers with
      | done => rfl
      | next hread _ => exact absurd hread (hempty _)
  | next hread _ ih =>
      cases hothers with
      | done => exact absurd hread (hempty _)
      | next hother hrest =>
          rw [hread] at hother
          cases hother
          rw [ih hrest]

end ReadsAll

end Decoder

end Historian
