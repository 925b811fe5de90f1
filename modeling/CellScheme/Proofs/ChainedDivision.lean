import CellScheme.Proofs.ExactArithmetic
import Mathlib.Algebra.BigOperators.Group.List.Lemmas
import Mathlib.Algebra.Ring.Int.Defs

/-!
Division by several divisors in turn. Rounding toward zero after each division is the same as rounding
once, after a division by the product of all divisors (`Arithmetic.foldl_tdiv`). The only quotient of
numbers that is out of range is that of the least one by -1, so a division by nonzero numbers overflows
exactly when the least number meets -1 before any other divisor than 1
(`Arithmetic.division_cases`).
-/
namespace CellScheme

namespace Arithmetic

theorem tdiv_tdiv (a b c : Int) : (a.tdiv b).tdiv c = a.tdiv (b * c) := by
  obtain ⟨m, rfl | rfl⟩ := a.eq_nat_or_neg <;> obtain ⟨n, rfl | rfl⟩ := b.eq_nat_or_neg <;>
    obtain ⟨k, rfl | rfl⟩ := c.eq_nat_or_neg <;>
    simp only [Int.neg_tdiv, Int.tdiv_neg, Int.neg_mul, Int.mul_neg, Int.neg_neg, ← Int.ofNat_tdiv,
      ← Int.natCast_mul, Nat.div_div_eq_div_mul]

/-- Several truncated divisions in a row are one by the product. -/
theorem foldl_tdiv (a : Int) (divisors : List Int) :
    divisors.foldl Int.tdiv a = a.tdiv divisors.prod := by
  induction divisors generalizing a with
  | nil => simp
  | cons divisor divisors ih => rw [List.foldl_cons, ih, tdiv_tdiv, List.prod_cons]

/-- A quotient of numbers other than that of the least one by -1 is in range. A divisor other than 1
also brings it away from the least number. -/
theorem inRange_tdiv {a divisor : Int} (inside : Fixnum.InRange a) (nonzero : divisor ≠ 0)
    (other : divisor ≠ 1) (calm : ¬ (a = Fixnum.least.val ∧ divisor = -1)) :
    Fixnum.InRange (a.tdiv divisor) ∧ a.tdiv divisor ≠ Fixnum.least.val := by
  simp only [Fixnum.InRange, Fixnum.least] at inside calm ⊢
  have smaller := Int.natAbs_tdiv_le_natAbs a divisor
  by_cases least : a = -9223372036854775808
  · have halved : (a.tdiv divisor).natAbs ≤ a.natAbs / 2 := by
      rw [Int.natAbs_tdiv]
      exact Nat.div_le_div_left (by omega) (by decide)
    omega
  · omega

/-- The least number is divided by -1, after no other divisors than 1. -/
def Overflows (a : Int) (divisors : List Int) : Prop :=
  a = Fixnum.least.val ∧ divisors.find? (fun divisor => divisor != 1) = some (-1)

/-- Dividing a number by nonzero numbers succeeds, or it overflows where the least number meets -1. -/
theorem division_cases {a : Int} {divisors : List Int} (inside : Fixnum.InRange a)
    (nonzero : ∀ divisor ∈ divisors, divisor ≠ 0) :
    let chain : Chain := ⟨.division, Int.tdiv, a, divisors⟩
    (¬ Overflows a divisors ∧ chain.Succeeds) ∨
      (Overflows a divisors ∧ chain.FailsWith (.overflow .division)) := by
  induction divisors generalizing a with
  | nil =>
    have calm : ¬ Overflows a [] := by simp [Overflows]
    exact .inl ⟨calm, fun index less => absurd less (Nat.not_lt_zero index)⟩
  | cons divisor divisors ih =>
    obtain ⟨here, later⟩ := List.forall_mem_cons.mp nonzero
    have first : (Chain.mk .division Int.tdiv a (divisor :: divisors)).fault? 0 =
        if Fixnum.InRange (a.tdiv divisor) then none else some (.overflow .division) := by
      simp [Chain.fault?, Chain.after, here]
    by_cases one : divisor = 1
    · subst one
      rw [Int.tdiv_one, if_pos inside] at first
      rcases ih inside later with ⟨calm, succeeds⟩ | ⟨overflows, fails⟩
      · refine .inl ⟨calm, Chain.succeeds_cons first ?_⟩
        rwa [Int.tdiv_one]
      · refine .inr ⟨overflows, Chain.failsWith_cons first ?_⟩
        rwa [Int.tdiv_one]
    · have meets : Overflows a (divisor :: divisors) ↔ a = Fixnum.least.val ∧ divisor = -1 := by
        simp [Overflows, one]
      rw [meets]
      by_cases calm : a = Fixnum.least.val ∧ divisor = -1
      · obtain ⟨rfl, rfl⟩ := calm
        refine .inr ⟨⟨rfl, rfl⟩, 0, Nat.zero_lt_succ _, first, ?_⟩
        exact fun earlier less => absurd less (Nat.not_lt_zero earlier)
      · obtain ⟨inside', away⟩ := inRange_tdiv inside here one calm
        rw [if_pos inside'] at first
        rcases ih inside' later with ⟨_, succeeds⟩ | ⟨overflows, _⟩
        · exact .inl ⟨calm, Chain.succeeds_cons first succeeds⟩
        · exact absurd overflows.1 away

end Arithmetic

open Arithmetic

namespace Primitive

variable {a : Fixnum} {divisors : List Fixnum}

/-- A division by nonzero numbers returns the quotient by their product, or it overflows. -/
theorem divide_cases (nonempty : divisors ≠ []) (nonzero : ∀ divisor ∈ divisors, divisor.val ≠ 0) :
    (¬ Overflows a.val (divisors.map Fixnum.val) ∧
        ∃ n, divide.apply (.number a :: divisors.map .number) = .ok (.number n) ∧
          n.val = a.val.tdiv (divisors.map Fixnum.val).prod) ∨
      (Overflows a.val (divisors.map Fixnum.val) ∧
        divide.apply (.number a :: divisors.map .number) = .error (.run (.overflow .division))) := by
  have accepted : divide.arity.unmet? ((a :: divisors).map Value.number).length = none := by
    have one := List.length_pos_iff.mpr nonempty
    simp only [arity, Arity.unmet?, List.map_cons, List.length_cons, List.length_map]
    exact if_neg (by omega)
  have found : divide.chain? ((a :: divisors).map Fixnum.val) =
      some ⟨.division, Int.tdiv, a.val, divisors.map Fixnum.val⟩ := rfl
  have runs := run_chain_iff found
  rw [← apply_eq_run accepted, List.map_cons] at runs
  rcases division_cases ⟨a.least_le, a.le_greatest⟩ (List.forall_mem_map.mpr nonzero) with
    ⟨calm, succeeds⟩ | ⟨overflows, fails⟩
  · rcases run_chain found with ⟨_, n, success, total⟩ | ⟨_, fails, _⟩
    · rw [← apply_eq_run accepted, List.map_cons] at success
      refine .inl ⟨calm, n, success, ?_⟩
      rw [total, Chain.total, foldl_tdiv]
    · exact absurd succeeds fails.not_succeeds
  · exact .inr ⟨overflows, (runs.2 _).mpr ⟨_, fails, rfl⟩⟩

theorem quotient_of_divide (nonempty : divisors ≠ [])
    (nonzero : ∀ divisor ∈ divisors, divisor.val ≠ 0) {v : Value}
    (success : divide.apply (.number a :: divisors.map .number) = .ok v) :
    ∃ n, v = .number n ∧ n.val = a.val.tdiv (divisors.map Fixnum.val).prod := by
  rcases divide_cases nonempty nonzero with ⟨_, n, success', quotient⟩ | ⟨_, failure⟩
  · exact ⟨n, Except.ok.inj (success.symm.trans success'), quotient⟩
  · rw [failure] at success
    cases success

/-- Dividing by several nonzero numbers in turn is dividing once by their exact product, however far
that is out of range; so two orders of the divisors that both give a result give the same. The only error
is an overflow, and it comes exactly when the least number is divided and the first divisor other than 1
is -1. -/
theorem chained_division_is_one (nonempty : divisors ≠ [])
    (nonzero : ∀ divisor ∈ divisors, divisor.val ≠ 0) :
    (∀ v, divide.apply (.number a :: divisors.map .number) = .ok v →
      ∃ n, v = .number n ∧ n.val = a.val.tdiv (divisors.map Fixnum.val).prod) ∧
    (∀ divisors', divisors.Perm divisors' → ∀ v v',
      divide.apply (.number a :: divisors.map .number) = .ok v →
      divide.apply (.number a :: divisors'.map .number) = .ok v' → v = v') ∧
    (divide.apply (.number a :: divisors.map .number) = .error (.run (.overflow .division)) ↔
      a = .least ∧ (divisors.map Fixnum.val).find? (fun divisor => divisor != 1) = some (-1)) ∧
    ∀ e, divide.apply (.number a :: divisors.map .number) = .error e →
      e = .run (.overflow .division) := by
  have cases := divide_cases (a := a) nonempty nonzero
  refine ⟨fun _ => quotient_of_divide nonempty nonzero, ?_, ?_, ?_⟩
  · intro divisors' permuted v v' success success'
    have nonempty' : divisors' ≠ [] := by
      rintro rfl
      exact nonempty permuted.eq_nil
    have nonzero' : ∀ divisor ∈ divisors', divisor.val ≠ 0 :=
      fun divisor member => nonzero divisor (permuted.mem_iff.mpr member)
    obtain ⟨n, rfl, quotient⟩ := quotient_of_divide nonempty nonzero success
    obtain ⟨n', rfl, quotient'⟩ := quotient_of_divide nonempty' nonzero' success'
    rw [← (permuted.map Fixnum.val).prod_eq] at quotient'
    rw [Fixnum.val_injective (quotient.trans quotient'.symm)]
  · rcases cases with ⟨calm, n, success, _⟩ | ⟨⟨least, meets⟩, failure⟩
    · rw [success]
      exact ⟨nofun, fun ⟨least, meets⟩ => absurd ⟨congrArg Fixnum.val least, meets⟩ calm⟩
    · exact iff_of_true failure ⟨Fixnum.val_injective least, meets⟩
  · intro e failure
    rcases cases with ⟨_, n, success, _⟩ | ⟨_, overflow⟩
    · rw [success] at failure
      cases failure
    · exact (Except.error.inj (overflow.symm.trans failure)).symm

/-- The least number overflows when 1 and -1 are its first divisors. Divided by the greatest number
before, it has a quotient, although the product of the divisors is the same. -/
theorem chained_division_is_one_for_least :
    divide.apply [.number .least, .number .one, .number .minusOne, .number .greatest] =
        .error (.run (.overflow .division)) ∧
      divide.apply [.number .least, .number .greatest, .number .minusOne, .number .one] =
        .ok (.number .one) ∧
      Fixnum.one.val =
        Fixnum.least.val.tdiv [Fixnum.greatest.val, Fixnum.minusOne.val, Fixnum.one.val].prod := by
  obtain ⟨_, _, overflow, _⟩ := chained_division_is_one (a := .least)
    (List.cons_ne_nil Fixnum.one [.minusOne, .greatest]) (by decide)
  obtain ⟨quotient, _⟩ := chained_division_is_one (a := .least)
    (List.cons_ne_nil Fixnum.greatest [.minusOne, .one]) (by decide)
  obtain ⟨_, ⟨⟩, value⟩ := quotient (.number .one) rfl
  exact ⟨overflow.mpr ⟨rfl, rfl⟩, rfl, value⟩

end Primitive

end CellScheme
