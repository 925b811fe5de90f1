import CellScheme.Primitive.Apply

/-!
Checks on the types of arguments. They go over the whole argument list before the operation does
anything: a list of the right type passes, and in every other list the first argument of another type
decides the error, whatever stands before and behind it.
-/
namespace CellScheme.Primitive

/-- A check on one argument asks for values of a certain make and refuses all others. -/
structure Checks {α : Type} (wrap : α → Value) (refusal : Value → Error)
    (check : Value → Except Error α) : Prop where
  passes : ∀ a, check (wrap a) = .ok a
  refuses : ∀ v, (∀ a, v ≠ wrap a) → check v = .error (refusal v)

theorem checks_numberArgument (p : Primitive) :
    Checks .number (fun v => .type (.numbersRequired p v.display)) p.numberArgument where
  passes _ := rfl
  refuses v other := by
    cases v with
    | number n => exact absurd rfl (other n)
    | _ => rfl

theorem checks_stringArgument (p : Primitive) :
    Checks .string (fun v => .type (.stringsRequired p v.display)) p.stringArgument where
  passes _ := rfl
  refuses v other := by
    cases v with
    | string text => exact absurd rfl (other text)
    | _ => rfl

namespace Checks

variable {α : Type} {wrap : α → Value} {refusal : Value → Error} {check : Value → Except Error α}

theorem mapM_ok (checks : Checks wrap refusal check) (items : List α) :
    (items.map wrap).mapM check = .ok items := by
  induction items with
  | nil => rfl
  | cons item rest ih =>
    rw [List.map_cons, List.mapM_cons, checks.passes, ih]
    rfl

/-- The first argument of another type decides the error. -/
theorem mapM_error (checks : Checks wrap refusal check) (items : List α) {other : Value}
    (foreign : ∀ a, other ≠ wrap a) (rest : List Value) :
    (items.map wrap ++ other :: rest).mapM check = .error (refusal other) := by
  induction items with
  | nil =>
    rw [List.map_nil, List.nil_append, List.mapM_cons, checks.refuses other foreign]
    rfl
  | cons item items ih =>
    rw [List.map_cons, List.cons_append, List.mapM_cons, checks.passes, ih]
    rfl

end Checks

/-- An argument list is all of one make, or it has a first argument of another. -/
theorem all_or_first_other {α : Type} (wrap : α → Value) (arguments : List Value) :
    (∃ items : List α, arguments = items.map wrap) ∨
      ∃ (items : List α) (other : Value) (rest : List Value),
        arguments = items.map wrap ++ other :: rest ∧ ∀ a, other ≠ wrap a := by
  induction arguments with
  | nil => exact .inl ⟨[], rfl⟩
  | cons head rest ih =>
    by_cases fits : ∃ a, head = wrap a
    · obtain ⟨a, rfl⟩ := fits
      rcases ih with ⟨items, rfl⟩ | ⟨items, other, rest, rfl, foreign⟩
      · exact .inl ⟨a :: items, rfl⟩
      · exact .inr ⟨a :: items, other, rest, rfl, foreign⟩
    · exact .inr ⟨[], head, rest, rfl, fun a same => fits ⟨a, same⟩⟩

theorem apply_eq_run {p : Primitive} {arguments : List Value}
    (accepted : p.arity.unmet? arguments.length = none) : p.apply arguments = p.run arguments := by
  simp only [apply, Arity.check, accepted]
  rfl

end CellScheme.Primitive
