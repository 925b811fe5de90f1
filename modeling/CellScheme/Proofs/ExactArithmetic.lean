import CellScheme.Proofs.ArgumentTypes
import Mathlib.Algebra.BigOperators.Group.List.Basic

/-!
Arithmetic against unbounded integers. A primitive stands for a chain of exact steps over its arguments.
It returns what the whole chain comes to when every step stays in range and none divides by zero; else
it fails in the way of the first step that does not (`Arithmetic.Chain.run_checked`).
-/
namespace CellScheme

/-- An integer is in the range of numbers of the language. -/
def Fixnum.InRange (value : Int) : Prop :=
  -9223372036854775808 ≤ value ∧ value ≤ 9223372036854775807

instance : DecidablePred Fixnum.InRange := fun value => by
  unfold Fixnum.InRange
  infer_instance

/-- The least number of the language. -/
def Fixnum.least : Fixnum :=
  ⟨-9223372036854775808, by decide, by decide⟩

/-- The greatest number of the language. -/
def Fixnum.greatest : Fixnum :=
  ⟨9223372036854775807, by decide, by decide⟩

/-- The number -1. -/
def Fixnum.minusOne : Fixnum :=
  ⟨-1, by decide, by decide⟩

theorem Fixnum.val_injective : Function.Injective Fixnum.val := by
  rintro ⟨value, _, _⟩ ⟨value', _, _⟩ rfl
  rfl

namespace Arithmetic

/-- A computation on unbounded integers that takes its operands from left to right. -/
structure Chain where
  operation : Operation
  step : Int → Int → Int
  start : Int
  operands : List Int

namespace Chain

variable (chain : Chain)

/-- What the chain comes to after a number of its operands. -/
def after (count : Nat) : Int :=
  (chain.operands.take count).foldl chain.step chain.start

/-- What the chain comes to in the end. -/
def total : Int :=
  chain.operands.foldl chain.step chain.start

/-- What is wrong with the step for one operand: it divides by zero, or its result is out of range. -/
def fault? (index : Nat) : Option RunFault :=
  if chain.operation = .division ∧ chain.operands[index]? = some 0 then some .divisionByZero
  else if Fixnum.InRange (chain.after (index + 1)) then none
  else some (.overflow chain.operation)

/-- No step is wrong. -/
def Succeeds : Prop :=
  ∀ index < chain.operands.length, chain.fault? index = none

/-- Some step is wrong, and what is wrong with the first such step is this. -/
def FailsWith (fault : RunFault) : Prop :=
  ∃ index < chain.operands.length, chain.fault? index = some fault ∧
    ∀ earlier < index, chain.fault? earlier = none

end Chain

/-- One step with its checks. -/
def checked (operation : Operation) (step : Int → Int → Int) (left right : Fixnum) :
    Except Error Fixnum :=
  if operation = .division ∧ right.val = 0 then throw (.run .divisionByZero)
  else inRange operation (step left.val right.val)

theorem inRange_of_inRange {operation : Operation} {value : Int} (inside : Fixnum.InRange value) :
    ∃ n, inRange operation value = .ok n ∧ n.val = value := by
  refine ⟨⟨value, inside.1, inside.2⟩, ?_, rfl⟩
  exact inRange_of_mem operation ⟨value, inside.1, inside.2⟩

theorem inRange_of_not_inRange {operation : Operation} {value : Int}
    (outside : ¬ Fixnum.InRange value) :
    inRange operation value = .error (.run (.overflow operation)) := by
  have absent : Fixnum.ofInt? value = none := dif_neg outside
  simp only [inRange, absent]
  rfl

namespace Chain

variable {operation : Operation} {step : Int → Int → Int}

/-- After its first operand a chain goes on as the chain that starts there. -/
theorem fault?_succ (start operand : Int) (operands : List Int) (index : Nat) :
    (Chain.mk operation step start (operand :: operands)).fault? (index + 1) =
      (Chain.mk operation step (step start operand) operands).fault? index := rfl

theorem succeeds_cons {start operand : Int} {operands : List Int}
    (sound : (Chain.mk operation step start (operand :: operands)).fault? 0 = none)
    (rest : (Chain.mk operation step (step start operand) operands).Succeeds) :
    (Chain.mk operation step start (operand :: operands)).Succeeds := by
  intro index inside
  cases index with
  | zero => exact sound
  | succ index =>
    rw [fault?_succ]
    exact rest index (Nat.lt_of_succ_lt_succ inside)

theorem failsWith_cons {start operand : Int} {operands : List Int} {fault : RunFault}
    (sound : (Chain.mk operation step start (operand :: operands)).fault? 0 = none)
    (rest : (Chain.mk operation step (step start operand) operands).FailsWith fault) :
    (Chain.mk operation step start (operand :: operands)).FailsWith fault := by
  obtain ⟨index, inside, wrong, before⟩ := rest
  refine ⟨index + 1, Nat.succ_lt_succ inside, ?_, fun earlier less => ?_⟩
  · rw [fault?_succ]
    exact wrong
  · cases earlier with
    | zero => exact sound
    | succ earlier =>
      rw [fault?_succ]
      exact before earlier (Nat.lt_of_succ_lt_succ less)

/-- No chain both succeeds and fails, and none fails in two ways. -/
theorem FailsWith.not_succeeds {chain : Chain} {fault : RunFault} (fails : chain.FailsWith fault) :
    ¬ chain.Succeeds := by
  obtain ⟨index, inside, wrong, _⟩ := fails
  intro succeeds
  rw [succeeds index inside] at wrong
  cases wrong

theorem FailsWith.unique {chain : Chain} {fault fault' : RunFault} (fails : chain.FailsWith fault)
    (fails' : chain.FailsWith fault') : fault = fault' := by
  obtain ⟨index, _, wrong, before⟩ := fails
  obtain ⟨index', _, wrong', before'⟩ := fails'
  rcases Nat.lt_trichotomy index index' with less | rfl | greater
  · rw [before' index less] at wrong
    cases wrong
  · exact Option.some.inj (wrong.symm.trans wrong')
  · rw [before index' greater] at wrong'
    cases wrong'

/-- A chain that never divides fails by overflow only. -/
theorem FailsWith.eq_overflow {chain : Chain} {fault : RunFault} (fails : chain.FailsWith fault)
    (undivided : chain.operation ≠ .division) : fault = .overflow chain.operation := by
  obtain ⟨index, _, wrong, _⟩ := fails
  rw [fault?, if_neg fun zero => undivided zero.1] at wrong
  split at wrong
  · cases wrong
  · exact (Option.some.inj wrong).symm

/-- A checked step does what the first step of the exact chain says. -/
theorem checked_eq (operation : Operation) (step : Int → Int → Int) (start operand : Fixnum)
    (operands : List Int) :
    match (Chain.mk operation step start.val (operand.val :: operands)).fault? 0 with
    | none => ∃ n, checked operation step start operand = .ok n ∧ n.val = step start.val operand.val
    | some fault => checked operation step start operand = .error (.run fault) := by
  simp only [fault?, after, checked, List.getElem?_cons_zero, Option.some.injEq, Nat.zero_add,
    List.take_succ_cons, List.take_zero, List.foldl_cons, List.foldl_nil]
  by_cases zero : operation = .division ∧ operand.val = 0
  · simp only [if_pos zero]
    rfl
  · simp only [if_neg zero]
    by_cases inside : Fixnum.InRange (step start.val operand.val)
    · simp only [if_pos inside]
      exact inRange_of_inRange inside
    · simp only [if_neg inside]
      exact inRange_of_not_inRange inside

/-- Checked steps in a row come to what the exact chain comes to, or end in the way of its first step
that is wrong. -/
theorem run_checked (operation : Operation) (step : Int → Int → Int) (start : Fixnum)
    (operands : List Fixnum) :
    let chain : Chain := ⟨operation, step, start.val, operands.map Fixnum.val⟩
    (chain.Succeeds ∧
        ∃ n, operands.foldlM (checked operation step) start = .ok n ∧ n.val = chain.total) ∨
      ∃ fault, chain.FailsWith fault ∧
        operands.foldlM (checked operation step) start = .error (.run fault) := by
  induction operands generalizing start with
  | nil => exact .inl ⟨fun index inside => absurd inside (Nat.not_lt_zero index), start, rfl, rfl⟩
  | cons operand operands ih =>
    have first := checked_eq operation step start operand (operands.map Fixnum.val)
    rw [List.foldlM_cons]
    split at first
    next sound =>
      obtain ⟨n, success, value⟩ := first
      rw [success]
      rcases ih n with ⟨succeeds, last, success', total⟩ | ⟨fault, fails, failure⟩
      · rw [value] at succeeds total
        exact .inl ⟨succeeds_cons sound succeeds, last, success', total⟩
      · rw [value] at fails
        exact .inr ⟨fault, failsWith_cons sound fails, failure⟩
    next fault wrong =>
      rw [first]
      refine .inr ⟨fault, ⟨0, Nat.zero_lt_succ _, wrong, ?_⟩, rfl⟩
      exact fun earlier less => absurd less (Nat.not_lt_zero earlier)

end Chain

theorem addStep_eq : addStep = checked .addition (· + ·) := by
  funext left right
  simp [addStep, checked]

theorem multiplyStep_eq : multiplyStep = checked .multiplication (· * ·) := by
  funext left right
  simp [multiplyStep, checked]

theorem subtractStep_eq : subtractStep = checked .subtraction (· - ·) := by
  funext left right
  simp [subtractStep, checked]

theorem divideStep_eq : divideStep = checked .division Int.tdiv := by
  funext left right
  simp [divideStep, checked]

end Arithmetic

open Arithmetic

namespace Primitive

/-- The exact computation that an arithmetic primitive stands for, given its arguments. -/
def chain? : Primitive → List Int → Option Chain
  | .add, operands => some ⟨.addition, (· + ·), 0, operands⟩
  | .multiply, operands => some ⟨.multiplication, (· * ·), 1, operands⟩
  | .subtract, [only] => some ⟨.negation, fun _ n => -n, 0, [only]⟩
  | .subtract, first :: rest => some ⟨.subtraction, (· - ·), first, rest⟩
  | .divide, first :: rest => some ⟨.division, Int.tdiv, first, rest⟩
  | _, _ => none

variable {p : Primitive}

/-- Given numbers only, the primitive takes the steps of its chain, each with its checks. -/
theorem run_numbers {numbers : List Fixnum} {chain : Chain}
    (found : p.chain? (numbers.map Fixnum.val) = some chain) :
    ∃ (start : Fixnum) (operands : List Fixnum),
      chain = ⟨chain.operation, chain.step, start.val, operands.map Fixnum.val⟩ ∧
      p.run (numbers.map .number) =
        (do return .number (← operands.foldlM (checked chain.operation chain.step) start)) := by
  have arguments := (checks_numberArgument p).mapM_ok numbers
  match p, numbers with
  | .add, numbers =>
    cases found
    refine ⟨.zero, numbers, rfl, ?_⟩
    rw [run, arguments, ← addStep_eq]
    rfl
  | .multiply, numbers =>
    cases found
    refine ⟨.one, numbers, rfl, ?_⟩
    rw [run, arguments, ← multiplyStep_eq]
    rfl
  | .subtract, [only] =>
    cases found
    refine ⟨.zero, [only], rfl, ?_⟩
    have negation : [only].foldlM (checked .negation fun _ n => -n) Fixnum.zero =
        inRange .negation (-only.val) := by simp [checked]
    rw [run, arguments, negation]
    rfl
  | .subtract, first :: second :: rest =>
    cases found
    refine ⟨first, second :: rest, rfl, ?_⟩
    rw [run, arguments, ← subtractStep_eq]
    rfl
  | .divide, first :: rest =>
    cases found
    refine ⟨first, rest, rfl, ?_⟩
    rw [run, arguments, ← divideStep_eq]
    rfl

/-- The operations of arithmetic. -/
def arithmetic : List Primitive :=
  [.add, .subtract, .multiply, .divide]

theorem mem_arithmetic : p ∈ arithmetic ↔ p = .add ∨ p = .subtract ∨ p = .multiply ∨ p = .divide := by
  simp [arithmetic]

/-- Every argument list of numbers that an operation accepts has its chain. -/
theorem exists_chain (operation : p ∈ arithmetic) {numbers : List Int}
    (accepted : p.arity.unmet? numbers.length = none) : ∃ chain, p.chain? numbers = some chain := by
  rcases mem_arithmetic.mp operation with rfl | rfl | rfl | rfl
  · exact ⟨_, rfl⟩
  · match numbers with
    | [] => cases accepted
    | [_] | _ :: _ :: _ => exact ⟨_, rfl⟩
  · exact ⟨_, rfl⟩
  · match numbers with
    | [] => cases accepted
    | _ :: _ => exact ⟨_, rfl⟩

/-- An argument of another type is reported before anything is computed. -/
theorem run_other (operation : p ∈ arithmetic) (numbers : List Fixnum) {other : Value}
    (foreign : ∀ n, other ≠ .number n) (rest : List Value) :
    p.run (numbers.map .number ++ other :: rest) =
      .error (.type (.numbersRequired p other.display)) := by
  have refused := (checks_numberArgument p).mapM_error numbers foreign rest
  rcases mem_arithmetic.mp operation with rfl | rfl | rfl | rfl <;>
  · rw [run, refused]
    rfl

/-- Given numbers only, the primitive returns what its chain comes to, or fails as its chain does. -/
theorem run_chain {numbers : List Fixnum} {chain : Chain}
    (found : p.chain? (numbers.map Fixnum.val) = some chain) :
    (chain.Succeeds ∧ ∃ n, p.run (numbers.map .number) = .ok (.number n) ∧ n.val = chain.total) ∨
      ∃ fault, chain.FailsWith fault ∧ p.run (numbers.map .number) = .error (.run fault) := by
  obtain ⟨start, operands, same, runs⟩ := run_numbers found
  have course := Chain.run_checked chain.operation chain.step start operands
  rw [← same] at course
  rcases course with ⟨succeeds, n, success, total⟩ | ⟨fault, fails, failure⟩
  · rw [success] at runs
    exact .inl ⟨succeeds, n, runs, total⟩
  · rw [failure] at runs
    exact .inr ⟨fault, fails, runs⟩

/-- Given numbers only, the primitive succeeds exactly when its chain does, and so it is with every way
to fail. -/
theorem run_chain_iff {numbers : List Fixnum} {chain : Chain}
    (found : p.chain? (numbers.map Fixnum.val) = some chain) :
    (∀ v, p.run (numbers.map .number) = .ok v ↔
      chain.Succeeds ∧ ∃ n, v = .number n ∧ n.val = chain.total) ∧
    ∀ e, p.run (numbers.map .number) = .error e ↔
      ∃ fault, chain.FailsWith fault ∧ e = .run fault := by
  rcases run_chain found with ⟨succeeds, n, success, total⟩ | ⟨fault, fails, failure⟩
  · rw [success]
    refine ⟨fun v => ⟨?_, ?_⟩, fun e => ⟨nofun, ?_⟩⟩
    · rintro ⟨⟩
      exact ⟨succeeds, n, rfl, total⟩
    · rintro ⟨_, n', rfl, total'⟩
      rw [Fixnum.val_injective (total.trans total'.symm)]
    · rintro ⟨fault, fails, rfl⟩
      exact absurd succeeds fails.not_succeeds
  · rw [failure]
    refine ⟨fun v => ⟨nofun, ?_⟩, fun e => ⟨?_, ?_⟩⟩
    · rintro ⟨succeeds, _⟩
      exact absurd succeeds fails.not_succeeds
    · rintro ⟨⟩
      exact ⟨fault, fails, rfl⟩
    · rintro ⟨fault', fails', rfl⟩
      rw [fails.unique fails']

/-- An operation that returns was given numbers only. -/
theorem numbers_of_run (among : p ∈ arithmetic) {arguments : List Value} {v : Value}
    (success : p.run arguments = .ok v) : ∃ numbers : List Fixnum, arguments = numbers.map .number := by
  rcases all_or_first_other Value.number arguments with all | ⟨numbers, other, rest, rfl, foreign⟩
  · exact all
  · rw [run_other among numbers foreign rest] at success
    cases success

/-- Numbers in another order are numbers, with the same integers in that order. -/
theorem numbers_of_perm {numbers : List Fixnum} {arguments : List Value}
    (reordered : (numbers.map Value.number).Perm arguments) :
    ∃ numbers' : List Fixnum, arguments = numbers'.map .number ∧
      (numbers.map Fixnum.val).Perm (numbers'.map Fixnum.val) := by
  rcases all_or_first_other Value.number arguments with
    ⟨numbers', rfl⟩ | ⟨numbers', other, rest, rfl, foreign⟩
  · have wraps : Function.Injective Value.number := fun _ _ same => Value.number.inj same
    exact ⟨numbers', rfl, ((List.map_perm_map_iff wraps).mp reordered).map Fixnum.val⟩
  · obtain ⟨n, _, same⟩ := List.mem_map.mp (reordered.mem_iff.mpr (by simp : other ∈ _))
    exact absurd same.symm (foreign n)

/-- Where the order of the operands makes no difference to the exact result, other orders of the same
arguments give the same result or overflow. -/
theorem apply_reordered {operation : Operation} {step : Int → Int → Int} {start : Int}
    [RightCommutative step] (among : p ∈ arithmetic) (any : p.arity = .any)
    (chains : ∀ operands, p.chain? operands = some ⟨operation, step, start, operands⟩)
    (undivided : operation ≠ .division) {arguments arguments' : List Value}
    (reordered : arguments.Perm arguments') {v : Value} (success : p.apply arguments = .ok v) :
    p.apply arguments' = .ok v ∨ p.apply arguments' = .error (.run (.overflow operation)) := by
  have applies : ∀ arguments, p.apply arguments = p.run arguments :=
    fun _ => apply_eq_run (by rw [any]; rfl)
  rw [applies] at success ⊢
  obtain ⟨numbers, rfl⟩ := numbers_of_run among success
  obtain ⟨numbers', rfl, permuted⟩ := numbers_of_perm reordered
  obtain ⟨_, n, rfl, total⟩ := ((run_chain_iff (chains _)).1 v).mp success
  rcases run_chain (chains (numbers'.map Fixnum.val)) with
    ⟨_, n', success', total'⟩ | ⟨fault, fails, failure⟩
  · have same : n' = n := Fixnum.val_injective <| by
      rw [total, total']
      exact (permuted.foldl_eq start).symm
    rw [success', same]
    exact .inl rfl
  · rw [failure, fails.eq_overflow undivided]
    exact .inr rfl

/-- Arithmetic is exact or fails, it never wraps around. In an argument list that an operation accepts,
the first argument that is no number is reported, whatever the numbers are. Given numbers only, the
operation returns what its chain of exact steps comes to when all steps stay in range and none divides by
zero, and else it fails in the way of the first step that does not. So another order of the arguments of
`+` and `*` may turn a result into an overflow, but never into another result. -/
theorem arithmetic_is_exact (among : p ∈ arithmetic) :
    (∀ (numbers : List Fixnum) (other : Value) (rest : List Value), (∀ n, other ≠ .number n) →
      p.arity.unmet? (numbers.map Value.number ++ other :: rest).length = none →
      p.apply (numbers.map .number ++ other :: rest) =
          .error (.type (.numbersRequired p other.display)) ∧
        (Error.type (.numbersRequired p other.display)).message =
          "Type error: " ++ (p.name ++ " requires numbers, got " ++ other.display)) ∧
    (∀ numbers : List Fixnum, p.arity.unmet? numbers.length = none →
      ∃ chain, p.chain? (numbers.map Fixnum.val) = some chain ∧
        (∀ v, p.apply (numbers.map .number) = .ok v ↔
          chain.Succeeds ∧ ∃ n, v = .number n ∧ n.val = chain.total) ∧
        ∀ e, p.apply (numbers.map .number) = .error e ↔
          ∃ fault, chain.FailsWith fault ∧ e = .run fault) ∧
    ∀ operation, (p = .add ∧ operation = .addition) ∨ (p = .multiply ∧ operation = .multiplication) →
      (∀ (arguments arguments' : List Value) (v : Value), arguments.Perm arguments' →
        p.apply arguments = .ok v →
        p.apply arguments' = .ok v ∨ p.apply arguments' = .error (.run (.overflow operation))) ∧
      ∃ (arguments arguments' : List Value) (v : Value), arguments.Perm arguments' ∧
        p.apply arguments = .ok v ∧ p.apply arguments' = .error (.run (.overflow operation)) := by
  refine ⟨fun numbers other rest foreign accepted => ⟨?_, rfl⟩, fun numbers accepted => ?_, ?_⟩
  · rw [apply_eq_run accepted, run_other among numbers foreign rest]
  · obtain ⟨chain, found⟩ : ∃ chain, p.chain? (numbers.map Fixnum.val) = some chain :=
      exists_chain among (by rwa [List.length_map])
    rw [apply_eq_run (by rwa [List.length_map])]
    exact ⟨chain, found, run_chain_iff found⟩
  · rintro operation (⟨rfl, rfl⟩ | ⟨rfl, rfl⟩)
    · refine ⟨fun _ _ _ reordered =>
        apply_reordered among rfl (fun _ => rfl) (by decide) reordered, ?_⟩
      exact ⟨[.number .minusOne, .number .greatest, .number .one],
        [.number .greatest, .number .one, .number .minusOne], .number .greatest,
        @List.perm_append_comm _ [_] [_, _], rfl, rfl⟩
    · refine ⟨fun _ _ _ reordered =>
        apply_reordered among rfl (fun _ => rfl) (by decide) reordered, ?_⟩
      exact ⟨[.number .zero, .number .greatest, .number .greatest],
        [.number .greatest, .number .greatest, .number .zero], .number .zero,
        @List.perm_append_comm _ [_] [_, _], rfl, rfl⟩

/-- The least number divided by -1 and then by 0 overflows, while a text among the divisors is reported
first. The sum that leaves the range on the way is an overflow, and in another order it is none. -/
theorem arithmetic_is_exact_at_the_edges :
    divide.apply [.number .least, .number .minusOne, .number .zero] =
        .error (.run (.overflow .division)) ∧
      divide.apply [.number .one, .number .zero, .string "0"] =
        .error (.type (.numbersRequired .divide "\"0\"")) ∧
      subtract.apply [.number .least] = .error (.run (.overflow .negation)) ∧
      add.apply [.number .greatest, .number .one, .number .minusOne] =
        .error (.run (.overflow .addition)) ∧
      add.apply [.number .minusOne, .number .greatest, .number .one] = .ok (.number .greatest) := by
  obtain ⟨other, division, _⟩ := arithmetic_is_exact (p := .divide) (by decide)
  obtain ⟨_, negation, _⟩ := arithmetic_is_exact (p := .subtract) (by decide)
  obtain ⟨_, addition, _⟩ := arithmetic_is_exact (p := .add) (by decide)
  refine ⟨?_, ?_, ?_, ?_, ?_⟩
  · obtain ⟨_, ⟨⟩, _, fails⟩ := division [.least, .minusOne, .zero] rfl
    exact (fails _).mpr ⟨_, ⟨0, by decide, rfl, nofun⟩, rfl⟩
  · exact (other [.one, .zero] (.string "0") [] (by simp) rfl).1
  · obtain ⟨_, ⟨⟩, _, fails⟩ := negation [.least] rfl
    exact (fails _).mpr ⟨_, ⟨0, by decide, rfl, nofun⟩, rfl⟩
  · obtain ⟨_, ⟨⟩, _, fails⟩ := addition [.greatest, .one, .minusOne] rfl
    exact (fails _).mpr ⟨_, ⟨1, by decide, rfl, fun | 0, _ => rfl⟩, rfl⟩
  · obtain ⟨_, ⟨⟩, succeeds, _⟩ := addition [.minusOne, .greatest, .one] rfl
    exact (succeeds _).mpr ⟨fun | 0, _ | 1, _ | 2, _ => rfl, _, rfl, rfl⟩

end Primitive

end CellScheme
