import CellScheme.Proofs.Code
import CellScheme.Proofs.PrimitiveCall

/-!
The closures inside a value, also those nested in lists. Data have none, and a value assembled from
others has no closure that they do not have (`Value.closures_of_isAssembled`).
-/
namespace CellScheme

/-- A closure, apart from the value that it is. -/
structure Closure where
  stamp : Nat
  params : List String
  body : List Form
  env : Environment

mutual

/-- The closures inside a value. -/
def Value.closures : Value → List Closure
  | .list items => Value.closuresAll items
  | .closure stamp params body env => [⟨stamp, params, body, env⟩]
  | _ => []

/-- The closures inside several values. -/
def Value.closuresAll : List Value → List Closure
  | [] => []
  | item :: rest => item.closures ++ Value.closuresAll rest

end

namespace Value

theorem mem_closuresAll {values : List Value} {c : Closure} :
    c ∈ closuresAll values ↔ ∃ v ∈ values, c ∈ v.closures := by
  induction values with
  | nil => simp [closuresAll]
  | cons value rest ih => simp [closuresAll, ih]

theorem closures_literal {value : Value} (literal : value.isLiteral = true) :
    value.closures = [] := by
  cases value <;> first | rfl | cases literal

theorem closures_of_isAtHand {arguments : List Value} {v : Value} (atHand : v.IsAtHand arguments)
    {c : Closure} (member : c ∈ v.closures) : c ∈ closuresAll arguments := by
  rcases atHand with inside | ⟨items, inside, item⟩
  · exact mem_closuresAll.mpr ⟨v, inside, member⟩
  · exact mem_closuresAll.mpr ⟨.list items, inside, mem_closuresAll.mpr ⟨v, item, member⟩⟩

/-- Assembling a value makes no closure. -/
theorem closures_of_isAssembled {arguments : List Value} {v : Value}
    (assembled : v.IsAssembled arguments) {c : Closure} (member : c ∈ v.closures) :
    c ∈ closuresAll arguments := by
  cases assembled with
  | literal literal =>
    rw [closures_literal literal] at member
    cases member
  | atHand atHand => exact closures_of_isAtHand atHand member
  | list items =>
    obtain ⟨item, inside, member⟩ := mem_closuresAll.mp member
    exact closures_of_isAtHand (items item inside) member

mutual

/-- Data hold no closures. -/
theorem closures_datum : (value : Value) → value.isDatum = true → value.closures = []
  | .list items, data => closuresAll_data items data
  | .number _, _ | .symbol _, _ | .string _, _ | .boolean _, _ => rfl
termination_by structural value => value

theorem closuresAll_data : (values : List Value) → allData values = true → closuresAll values = []
  | [], _ => rfl
  | value :: rest, data => by
    simp only [allData, Bool.and_eq_true] at data
    rw [closuresAll, closures_datum value data.1, closuresAll_data rest data.2, List.append_nil]
termination_by structural values => values

end

end Value

end CellScheme
