import CellScheme.Proofs.ArgumentTypes
import Mathlib.Data.List.Chain

/-!
Chained comparisons. They look at neighbours only, but each of their relations is transitive, so that a
comparison holds of a whole argument list exactly when it holds of every two arguments in their order
(`Primitive.chained_iff_pairwise`).
-/
namespace CellScheme.Primitive

section

variable {α : Type} {relation : α → α → Bool}

theorem chained_iff_isChain (items : List α) :
    chained relation items = true ↔ items.IsChain fun left right => relation left right = true := by
  fun_induction chained relation items with
  | case1 left right rest ih => rw [Bool.and_eq_true, List.isChain_cons_cons, ih]
  | case2 items short =>
    match items, short with
    | [], _ => simp
    | [_], _ => simp
    | left :: right :: rest, short => exact (short left right rest rfl).elim

/-- A transitive relation holds between all neighbours exactly when it holds between all pairs. -/
theorem chained_iff_pairwise
    (trans : ∀ a b c, relation a b = true → relation b c = true → relation a c = true)
    (items : List α) :
    chained relation items = true ↔ items.Pairwise fun left right => relation left right = true := by
  have : Trans (fun left right => relation left right = true)
      (fun left right => relation left right = true)
      (fun left right => relation left right = true) := ⟨fun first second => trans _ _ _ first second⟩
  rw [chained_iff_isChain, List.isChain_iff_pairwise]

end

/-- The relation of numbers that a comparison asks for. -/
def relation? : Primitive → Option (Int → Int → Prop)
  | .equals => some (· = ·)
  | .less => some (· < ·)
  | .greater => some (· > ·)
  | .atMost => some (· ≤ ·)
  | .atLeast => some (· ≥ ·)
  | _ => none

variable {p : Primitive} {relation : Int → Int → Prop}

/-- A comparison is the test of its relation along the argument list. -/
theorem exists_compare (asks : p.relation? = some relation) :
    ∃ test : Int → Int → Bool, p.run = p.compare test ∧ (∀ a b, test a b = true ↔ relation a b) ∧
      ∀ a b c, relation a b → relation b c → relation a c := by
  match p with
  | .equals =>
    cases asks
    exact ⟨_, rfl, fun _ _ => beq_iff_eq, fun _ _ _ first second => first.trans second⟩
  | .less =>
    cases asks
    exact ⟨_, rfl, fun _ _ => decide_eq_true_iff, fun _ _ _ first second => Int.lt_trans first second⟩
  | .greater =>
    cases asks
    exact ⟨_, rfl, fun _ _ => decide_eq_true_iff, fun _ _ _ first second => Int.lt_trans second first⟩
  | .atMost =>
    cases asks
    exact ⟨_, rfl, fun _ _ => decide_eq_true_iff, fun _ _ _ first second => Int.le_trans first second⟩
  | .atLeast =>
    cases asks
    exact ⟨_, rfl, fun _ _ => decide_eq_true_iff, fun _ _ _ first second => Int.le_trans second first⟩

/-- Given numbers only, a comparison tests all pairs. -/
theorem run_compare (asks : p.relation? = some relation) (numbers : List Fixnum) :
    ∃ truth, p.run (numbers.map .number) = .ok (.boolean truth) ∧
      (truth = true ↔ numbers.Pairwise fun left right => relation left.val right.val) := by
  obtain ⟨test, runs, iff, trans⟩ := exists_compare asks
  refine ⟨chained test (numbers.map Fixnum.val), ?_, ?_⟩
  · rw [runs, compare, (checks_numberArgument p).mapM_ok]
    rfl
  · have trans' : ∀ a b c, test a b = true → test b c = true → test a c = true := by
      intro a b c first second
      exact (iff a c).mpr (trans a b c ((iff a b).mp first) ((iff b c).mp second))
    rw [chained_iff_pairwise trans', List.pairwise_map]
    simp only [iff]

theorem run_compare_other (asks : p.relation? = some relation) (numbers : List Fixnum) {other : Value}
    (foreign : ∀ n, other ≠ .number n) (rest : List Value) :
    p.run (numbers.map .number ++ other :: rest) =
      .error (.type (.numbersRequired p other.display)) := by
  obtain ⟨test, runs, _⟩ := exists_compare asks
  rw [runs, compare, (checks_numberArgument p).mapM_error numbers foreign rest]
  rfl

theorem arity_of_relation? (asks : p.relation? = some relation) : p.arity = .atLeast 2 := by
  cases p <;> first | rfl | cases asks

theorem accepted_of_two_le {arguments : List Value} (atLeast : p.arity = .atLeast 2)
    (two : 2 ≤ arguments.length) : p.arity.unmet? arguments.length = none := by
  rw [atLeast]
  exact if_neg (Nat.not_lt.mpr two)

theorem run_isSameString (texts : List String) :
    ∃ truth, isSameString.run (texts.map .string) = .ok (.boolean truth) ∧
      (truth = true ↔ texts.Pairwise (· = ·)) := by
  refine ⟨chained (fun left right => left == right) texts, ?_, ?_⟩
  · rw [run, (checks_stringArgument _).mapM_ok]
    rfl
  · have trans : ∀ a b c : String, (a == b) = true → (b == c) = true → (a == c) = true := by
      intro a b c first second
      rw [beq_iff_eq] at first second ⊢
      exact first.trans second
    rw [chained_iff_pairwise trans]
    simp only [beq_iff_eq]

theorem run_isSameString_other (texts : List String) {other : Value}
    (foreign : ∀ text, other ≠ .string text) (rest : List Value) :
    isSameString.run (texts.map .string ++ other :: rest) =
      .error (.type (.stringsRequired isSameString other.display)) := by
  rw [run, (checks_stringArgument _).mapM_error texts foreign rest]
  rfl

/-- Two comparisons that hold of the same numbers, in the orders that these are given, do the same. -/
theorem apply_eq_apply {q : Primitive} {relation' : Int → Int → Prop}
    (asks : p.relation? = some relation) (asks' : q.relation? = some relation')
    {numbers numbers' : List Fixnum} (lengths : numbers.length = numbers'.length)
    (iff : (numbers.Pairwise fun left right => relation left.val right.val) ↔
      numbers'.Pairwise fun left right => relation' left.val right.val) :
    p.apply (numbers.map .number) = q.apply (numbers'.map .number) := by
  obtain ⟨truth, runs, holds⟩ := run_compare asks numbers
  obtain ⟨truth', runs', holds'⟩ := run_compare asks' numbers'
  have same : truth = truth' := Bool.eq_iff_iff.mpr (holds.trans (iff.trans holds'.symm))
  simp only [apply, arity_of_relation? asks, arity_of_relation? asks', runs, runs', same,
    List.length_map, lengths]

/-- Chained comparisons compare all pairs. The first argument of another type is reported, even when
arguments before it fail the comparison. Else the comparison holds exactly when its relation holds between
every two arguments in their order. So a comparison of numbers holds of a list when the one the other way
round holds of the reversed list, and equality of numbers holds in every order or in none. -/
theorem comparisons_compare_all_pairs :
    (∀ p relation, p.relation? = some relation →
      (∀ (numbers : List Fixnum) (other : Value) (rest : List Value), (∀ n, other ≠ .number n) →
        2 ≤ (numbers.map Value.number ++ other :: rest).length →
        p.apply (numbers.map .number ++ other :: rest) =
            .error (.type (.numbersRequired p other.display)) ∧
          (Error.type (.numbersRequired p other.display)).message =
            "Type error: " ++ (p.name ++ " requires numbers, got " ++ other.display)) ∧
      ∀ numbers : List Fixnum, 2 ≤ numbers.length →
        ∃ truth, p.apply (numbers.map .number) = .ok (.boolean truth) ∧
          (truth = true ↔ numbers.Pairwise fun left right => relation left.val right.val)) ∧
    (∀ (texts : List String) (other : Value) (rest : List Value), (∀ text, other ≠ .string text) →
      2 ≤ (texts.map Value.string ++ other :: rest).length →
      isSameString.apply (texts.map .string ++ other :: rest) =
          .error (.type (.stringsRequired isSameString other.display)) ∧
        (Error.type (.stringsRequired isSameString other.display)).message =
          "Type error: " ++ ("string=?" ++ " requires strings, got " ++ other.display)) ∧
    (∀ texts : List String, 2 ≤ texts.length →
      ∃ truth, isSameString.apply (texts.map .string) = .ok (.boolean truth) ∧
        (truth = true ↔ texts.Pairwise (· = ·))) ∧
    (∀ numbers : List Fixnum,
      less.apply (numbers.map .number) = greater.apply (numbers.reverse.map .number) ∧
      atMost.apply (numbers.map .number) = atLeast.apply (numbers.reverse.map .number)) ∧
    ∀ numbers numbers' : List Fixnum, numbers.Perm numbers' →
      equals.apply (numbers.map .number) = equals.apply (numbers'.map .number) := by
  refine ⟨fun p relation asks => ⟨?_, ?_⟩, ?_, ?_, ?_, ?_⟩
  · intro numbers other rest foreign two
    rw [apply_eq_run (accepted_of_two_le (arity_of_relation? asks) two)]
    exact ⟨run_compare_other asks numbers foreign rest, rfl⟩
  · intro numbers two
    rw [apply_eq_run (accepted_of_two_le (arity_of_relation? asks) (by simpa using two))]
    exact run_compare asks numbers
  · intro texts other rest foreign two
    rw [apply_eq_run (accepted_of_two_le rfl two)]
    exact ⟨run_isSameString_other texts foreign rest, rfl⟩
  · intro texts two
    rw [apply_eq_run (accepted_of_two_le rfl (by simpa using two))]
    exact run_isSameString texts
  · intro numbers
    exact ⟨apply_eq_apply rfl rfl numbers.length_reverse.symm List.pairwise_reverse.symm,
      apply_eq_apply rfl rfl numbers.length_reverse.symm List.pairwise_reverse.symm⟩
  · intro numbers numbers' permuted
    exact apply_eq_apply rfl rfl permuted.length_eq (permuted.pairwise_iff Eq.symm)

/-- Among 3, 1 and a text, the text is reported although 3 and 1 do not increase; and 1, 2, 1 do not
increase although the first two do. -/
theorem comparisons_compare_all_pairs_small :
    less.apply [.number ⟨3, by decide, by decide⟩, .number .one, .string "2"] =
        .error (.type (.numbersRequired .less "\"2\"")) ∧
      less.apply [.number .zero, .number .one, .number .zero] = .ok (.boolean false) ∧
      equals.apply [.number .one, .number .zero, .number .one] =
        equals.apply [.number .zero, .number .one, .number .one] := by
  obtain ⟨compare, _, _, _, permuted⟩ := comparisons_compare_all_pairs
  obtain ⟨other, pairs⟩ := compare .less _ rfl
  refine ⟨?_, ?_, ?_⟩
  · exact (other [⟨3, by decide, by decide⟩, .one] (.string "2") [] (by simp) (by decide)).1
  · obtain ⟨truth, applied, iff⟩ := pairs [.zero, .one, .zero] (by decide)
    cases truth with
    | false => exact applied
    | true => exact absurd (iff.mp rfl) (by decide)
  · exact permuted [.one, .zero, .one] [.zero, .one, .one] (.swap ..)

end CellScheme.Primitive
