import Historian.Proofs.Log.Addressing

/-!
# Which refusal a client sees

A request to read a range can be at fault in several ways at once.  `Page.grounds` lists them in
the order in which they count, and `Page.refused_iff_first` says that the first that applies
decides: its refusal is answered and no other, whatever the size of the buffer, and the buffer is
left as it was.

## Strategy

What is asked for is found before anything is written, and what is found is not refused any more
(`Page.answer_ne_refused`).  So the grounds are those of `Page.locate`, where they are gone through
one by one; the last two are those of the log (`LogView.resolve_eq_error_iff`).
-/

namespace Historian

/-! ## The first that applies -/

/-- A value stands behind the first condition of a list that holds. -/
inductive FirstOf {α : Type} : List (Prop × α) → α → Prop where
  | here {condition : Prop} {value : α} {rest : List (Prop × α)} (holds : condition) :
      FirstOf ((condition, value) :: rest) value
  | later {condition : Prop} {value other : α} {rest : List (Prop × α)} (fails : ¬ condition)
      (first : FirstOf rest other) : FirstOf ((condition, value) :: rest) other

namespace FirstOf

variable {α β : Type} {condition ground : Prop} {value other : α} {rest : List (Prop × α)}

theorem cons_iff_of_holds (holds : condition) :
    FirstOf ((condition, value) :: rest) other ↔ value = other := by
  constructor
  · intro hfirst
    cases hfirst with
    | here => rfl
    | later fails => exact absurd holds fails
  · rintro rfl
    exact .here holds

theorem cons_iff_of_fails (fails : ¬ condition) :
    FirstOf ((condition, value) :: rest) other ↔ FirstOf rest other := by
  constructor
  · intro hfirst
    cases hfirst with
    | here holds => exact absurd holds fails
    | later _ hrest => exact hrest
  · exact .later fails

theorem singleton_iff : FirstOf [(condition, value)] other ↔ condition ∧ value = other := by
  by_cases holds : condition
  · rw [cons_iff_of_holds holds, and_iff_right holds]
  · rw [cons_iff_of_fails holds]
    exact iff_of_false nofun fun hboth => holds hboth.1

/-- One check of several decides, or leaves it to the next. -/
theorem error_ite_iff [Decidable condition] {next : Except α β} (hground : condition ↔ ground)
    (hnext : ¬ ground → (next = .error other ↔ FirstOf rest other)) :
    (if condition then .error value else next) = .error other ↔
      FirstOf ((ground, value) :: rest) other := by
  by_cases holds : ground
  · rw [if_pos (hground.mpr holds), cons_iff_of_holds holds, Except.error.injEq]
  · rw [if_neg (mt hground.mp holds), cons_iff_of_fails holds, hnext holds]

end FirstOf

/-! ## The range -/

namespace LogView

/-- A log refuses a range for its kind, and else for its position. -/
theorem resolve_eq_error_iff (view : LogView) (range : Range) (refusal : Refusal) :
    view.resolve range = .error refusal ↔
      FirstOf [(∃ choice, range = .unsupported choice, .invalidParameterDataType),
        (view.count ≠ 0 ∧ ∃ reference count, range = .byPosition reference count ∧
          ¬ view.HasPosition reference, .invalidArrayIndex)] refusal := by
  by_cases hkind : ∃ choice, range = .unsupported choice
  · rw [FirstOf.cons_iff_of_holds hkind]
    obtain ⟨choice, rfl⟩ := hkind
    rw [resolve, Except.error.injEq]
  have hserved := not_exists.mp hkind
  rw [FirstOf.cons_iff_of_fails hkind, FirstOf.singleton_iff]
  by_cases hposition : view.count ≠ 0 ∧ ∃ reference count, range = .byPosition reference count
  · obtain ⟨hsome, reference, count, rfl⟩ := hposition
    rw [resolve_byPosition_eq_error_iff hsome]
    simp [hsome, eq_comm, and_comm]
  · -- Any other range is resolved, and so is a position of an empty log.
    obtain ⟨selection, hselection⟩ : ∃ selection, view.resolve range = .ok selection := by
      by_cases hsome : view.count = 0
      · exact ⟨none, resolve_of_empty hsome hserved⟩
      · exact exists_resolve_of_served hserved fun reference count hsame =>
          hposition ⟨hsome, reference, count, hsame⟩
    rw [hselection]
    constructor
    · intro hfault
      cases hfault
    · rintro ⟨⟨hsome, reference, count, hsame, -⟩, -⟩
      exact absurd ⟨hsome, reference, count, hsame⟩ hposition

end LogView

namespace Page

/-! ## The request -/

/-- The grounds on which a request to read a range is refused, in the order in which they
count. -/
def grounds (repository : Repository) (request : RangeRequest) : List (Prop × Refusal) :=
  [(request.object.type ≠ .trendLog ∨ repository request.object.number = none,
      ⟨.object, .unknownObject⟩),
    (request.property ≠ .logBuffer, ⟨.property, .propertyIsNotAList⟩),
    (request.index ≠ none, ⟨.property, .propertyIsNotAnArray⟩),
    (∃ choice, request.range = .unsupported choice, ⟨.services, .invalidParameterDataType⟩),
    (∃ view, repository request.object.number = some view ∧ view.count ≠ 0 ∧
      ∃ reference count, request.range = .byPosition reference count ∧
        ¬ view.HasPosition reference, ⟨.property, .invalidArrayIndex⟩)]

/-- **A request is refused on the first ground that applies.** -/
theorem locate_eq_error_iff (repository : Repository) (request : RangeRequest)
    (refusal : Refusal) :
    locate repository request = .error refusal ↔
      FirstOf (grounds repository request) refusal := by
  unfold locate grounds
  cases hview : repository request.object.number with
  | none =>
      rw [FirstOf.cons_iff_of_holds (.inr rfl), ite_self, Except.error.injEq]
      rfl
  | some view =>
      refine FirstOf.error_ite_iff (by simp) fun _ => ?_
      refine FirstOf.error_ite_iff Iff.rfl fun _ => ?_
      refine FirstOf.error_ite_iff Option.isSome_iff_ne_none fun _ => ?_
      simp only [Option.some.injEq, exists_eq_left']
      refine Iff.trans ?_ (view.resolve_eq_error_iff request.range refusal)
      split <;> simp [*]

/-- **The first ground that applies decides.**  The buffer plays no part, and is left as it
was. -/
theorem refused_iff_first (repository : Repository) (request : RangeRequest) (refusal : Refusal)
    (out after : Octets) :
    answer repository request out = (.error (.refused refusal), after) ↔
      FirstOf (grounds repository request) refusal ∧ after = out := by
  rw [← locate_eq_error_iff]
  cases hlocate : locate repository request with
  | error fault => simp [answer, hlocate, eq_comm]
  | ok found =>
      refine iff_of_false (answer_ne_refused hlocate out after refusal) ?_
      rintro ⟨hfault, -⟩
      cases hfault

end Page

end Historian
