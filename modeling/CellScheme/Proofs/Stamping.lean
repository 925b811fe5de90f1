import CellScheme.Proofs.Code
import Mathlib.Logic.Equiv.Defs
import Mathlib.Tactic.SplitIfs

/-!
What stamping does. Numbering a plain tree draws one stamp for each of its `lambda` occurrences, in
order and without gaps, and changes nothing else, so two numberings of the same tree differ only by
how far their supplies are apart (`Program.stamped_draws`). Numbering the same forms in another order
permutes their stamps (`Form.stampedAll_perm`).
-/
namespace CellScheme

theorem draw_bind {α β : Type} (draw : StateM Nat α) (next : α → StateM Nat β) (supply : Nat) :
    (draw >>= next).run supply = (next (draw.run supply).1).run (draw.run supply).2 := rfl

theorem draw_pure {α : Type} (result : α) (supply : Nat) :
    (pure result : StateM Nat α).run supply = (result, supply) := rfl

/-- The questions that trees of one kind answer: their stamps in order, whether they are plain, and
what they become when their stamps change. -/
structure Kind (α : Type) where
  stamps : α → List Nat
  plain : α → Bool
  restamp : (Nat → Nat) → α → α

namespace Kind

/-- A stamp by itself. -/
def stamp : Kind Nat := ⟨fun stamp => [stamp], fun _ => true, fun change stamp => change stamp⟩

/-- Expressions. -/
def expr : Kind Expr := ⟨Expr.stamps, Expr.isPlain, Expr.restamp⟩

/-- Lists of expressions. -/
def exprs : Kind (List Expr) := ⟨Expr.stampsAll, Expr.allPlain, Expr.restampAll⟩

/-- Bindings of a `let`. -/
def bindings : Kind (List (String × Expr)) :=
  ⟨Expr.bindingsStamps, Expr.bindingsPlain, Expr.restampBindings⟩

/-- Elements of a body. -/
def form : Kind Form := ⟨Form.stamps, Form.isPlain, Form.restamp⟩

/-- Bodies and programs. -/
def forms : Kind (List Form) := ⟨Form.stampsAll, Form.allPlain, Form.restampAll⟩

end Kind

/-- A draw of a tree takes a fixed number of stamps from the supply and gives them to the tree in
order. The tree is plain, and from another supply it is the same tree with other stamps. -/
structure Draws {α : Type} (kind : Kind α) (draw : StateM Nat α) (count : Nat) : Prop where
  supply : ∀ supply, (draw.run supply).2 = supply + count
  stamps : ∀ supply, kind.stamps (draw.run supply).1 = List.range' supply count
  plain : ∀ supply, kind.plain (draw.run supply).1 = true
  shift : ∀ supply supply' change, (∀ i < count, change (supply + i) = supply' + i) →
    kind.restamp change (draw.run supply).1 = (draw.run supply').1

namespace Draws

variable {α β γ δ : Type} {kind : Kind δ} {first : Kind α} {second : Kind β} {third : Kind γ}
variable {one : StateM Nat α} {two : StateM Nat β} {three : StateM Nat γ} {m n k : Nat}

theorem drawStamp : Draws Kind.stamp drawStamp 1 where
  supply _ := rfl
  stamps _ := rfl
  plain _ := rfl
  shift _ _ _ agree := agree 0 Nat.one_pos

/-- A tree without stamps is drawn as it is. -/
theorem unchanged {tree : δ} (none : kind.stamps tree = []) (plain : kind.plain tree = true)
    (fixed : ∀ change, kind.restamp change tree = tree) :
    Draws kind (pure tree) 0 where
  supply _ := rfl
  stamps _ := none
  plain _ := plain
  shift _ _ change _ := fixed change

theorem map (build : α → δ) (draws : Draws first one m)
    (stamps : ∀ a, kind.stamps (build a) = first.stamps a)
    (plain : ∀ a, kind.plain (build a) = first.plain a)
    (restamp : ∀ change a, kind.restamp change (build a) = build (first.restamp change a)) :
    Draws kind (do return build (← one)) m where
  supply s := draws.supply s
  stamps s := (stamps _).trans (draws.stamps s)
  plain s := (plain _).trans (draws.plain s)
  shift s s' change agree := (restamp change _).trans (congrArg build (draws.shift s s' change agree))

/-- Two draws in a row share the supply: the second goes on where the first has stopped. -/
theorem both (build : α → β → δ) (draws : Draws first one m) (draws' : Draws second two n)
    (stamps : ∀ a b, kind.stamps (build a b) = first.stamps a ++ second.stamps b)
    (plain : ∀ a b, kind.plain (build a b) = (first.plain a && second.plain b))
    (restamp : ∀ change a b,
      kind.restamp change (build a b) = build (first.restamp change a) (second.restamp change b)) :
    Draws kind (do return build (← one) (← two)) (m + n) where
  supply s := by
    simp only [draw_bind, draw_pure, draws.supply, draws'.supply]
    omega
  stamps s := by
    simp only [draw_bind, draw_pure, stamps, draws.supply, draws.stamps, draws'.stamps,
      List.range'_append_1]
  plain s := by
    simp only [draw_bind, draw_pure, plain, draws.plain, draws'.plain, Bool.and_self]
  shift s s' change agree := by
    have left := draws.shift s s' change fun i bound => agree i (by omega)
    have right := draws'.shift (s + m) (s' + m) change fun i bound => by
      rw [Nat.add_assoc, Nat.add_assoc]
      exact agree (m + i) (by omega)
    simp only [draw_bind, draw_pure, restamp, draws.supply, left, right]

theorem all (build : α → β → γ → δ) (draws : Draws first one m) (draws' : Draws second two n)
    (draws'' : Draws third three k)
    (stamps : ∀ a b c,
      kind.stamps (build a b c) = first.stamps a ++ second.stamps b ++ third.stamps c)
    (plain : ∀ a b c, kind.plain (build a b c) = (first.plain a && second.plain b && third.plain c))
    (restamp : ∀ change a b c, kind.restamp change (build a b c) =
      build (first.restamp change a) (second.restamp change b) (third.restamp change c)) :
    Draws kind (do return build (← one) (← two) (← three)) (m + n + k) := by
  let pair : Kind (α × β) :=
    ⟨fun p => first.stamps p.1 ++ second.stamps p.2, fun p => first.plain p.1 && second.plain p.2,
      fun change p => (first.restamp change p.1, second.restamp change p.2)⟩
  have inner : Draws pair (do return (← one, ← two)) (m + n) :=
    both Prod.mk draws draws' (fun _ _ => rfl) (fun _ _ => rfl) (fun _ _ _ => rfl)
  exact both (fun p c => build p.1 p.2 c) inner draws'' (fun p c => stamps p.1 p.2 c)
    (fun p c => plain p.1 p.2 c) (fun change p c => restamp change p.1 p.2 c)

end Draws

mutual

/-- Data have nothing to number. -/
theorem Value.stamped_datum : (value : Value) → value.isDatum = true → value.stamped = pure value
  | .list items, data => by
    rw [Value.stamped, Value.stampedAll_data items (by simpa only [Value.isDatum] using data)]
    rfl
  | .number _, _ | .symbol _, _ | .string _, _ | .boolean _, _ => rfl
termination_by structural value => value

theorem Value.stampedAll_data : (values : List Value) → Value.allData values = true →
    Value.stampedAll values = pure values
  | [], _ => rfl
  | value :: rest, data => by
    simp only [Value.allData, Bool.and_eq_true] at data
    rw [Value.stampedAll, Value.stamped_datum value data.1, Value.stampedAll_data rest data.2]
    rfl
termination_by structural values => values

end

mutual

theorem Expr.draws_stamped : (expr : Expr) → expr.isPlain = true →
    ∃ count, Draws Kind.expr expr.stamped count
  | .quoted datum, plain => by
    rw [Expr.stamped, Value.stamped_datum datum plain]
    exact ⟨0, .unchanged rfl plain fun _ => rfl⟩
  | .conditional test consequent alternative, plain => by
    simp only [Expr.isPlain, Bool.and_eq_true] at plain
    obtain ⟨_, first⟩ := Expr.draws_stamped test plain.1.1
    obtain ⟨_, second⟩ := Expr.draws_stamped consequent plain.1.2
    obtain ⟨_, third⟩ := Expr.draws_stamped alternative plain.2
    exact ⟨_, .all Expr.conditional first second third
      (fun _ _ _ => rfl) (fun _ _ _ => rfl) (fun _ _ _ _ => rfl)⟩
  | .lambda _ params body, plain => by
    obtain ⟨_, inner⟩ := Form.draws_stampedAll body plain
    exact ⟨_, .both (Expr.lambda · params ·) .drawStamp inner
      (fun _ _ => rfl) (fun _ _ => rfl) (fun _ _ _ => rfl)⟩
  | .letIn bindings body, plain => by
    simp only [Expr.isPlain, Bool.and_eq_true] at plain
    obtain ⟨_, bound⟩ := Expr.draws_stampedBindings bindings plain.1
    obtain ⟨_, inner⟩ := Form.draws_stampedAll body plain.2
    exact ⟨_, .both Expr.letIn bound inner (fun _ _ => rfl) (fun _ _ => rfl) (fun _ _ _ => rfl)⟩
  | .apply operator operands, plain => by
    simp only [Expr.isPlain, Bool.and_eq_true] at plain
    obtain ⟨_, head⟩ := Expr.draws_stamped operator plain.1
    obtain ⟨_, others⟩ := Expr.draws_stampedAll operands plain.2
    exact ⟨_, .both Expr.apply head others (fun _ _ => rfl) (fun _ _ => rfl) (fun _ _ _ => rfl)⟩
  | .number _, _ | .boolean _, _ | .string _, _ | .primitive _, _ | .variable _, _ =>
    ⟨0, .unchanged rfl rfl fun _ => rfl⟩
termination_by structural expr => expr

theorem Expr.draws_stampedAll : (exprs : List Expr) → Expr.allPlain exprs = true →
    ∃ count, Draws Kind.exprs (Expr.stampedAll exprs) count
  | [], _ => ⟨0, .unchanged rfl rfl fun _ => rfl⟩
  | expr :: rest, plain => by
    simp only [Expr.allPlain, Bool.and_eq_true] at plain
    obtain ⟨_, head⟩ := Expr.draws_stamped expr plain.1
    obtain ⟨_, others⟩ := Expr.draws_stampedAll rest plain.2
    exact ⟨_, .both List.cons head others (fun _ _ => rfl) (fun _ _ => rfl) (fun _ _ _ => rfl)⟩
termination_by structural exprs => exprs

theorem Expr.draws_stampedBindings : (bindings : List (String × Expr)) →
    Expr.bindingsPlain bindings = true →
    ∃ count, Draws Kind.bindings (Expr.stampedBindings bindings) count
  | [], _ => ⟨0, .unchanged rfl rfl fun _ => rfl⟩
  | (name, value) :: rest, plain => by
    simp only [Expr.bindingsPlain, Bool.and_eq_true] at plain
    obtain ⟨_, head⟩ := Expr.draws_stamped value plain.1
    obtain ⟨_, others⟩ := Expr.draws_stampedBindings rest plain.2
    exact ⟨_, .both (fun value rest => (name, value) :: rest) head others
      (fun _ _ => rfl) (fun _ _ => rfl) (fun _ _ _ => rfl)⟩
termination_by structural bindings => bindings

theorem Form.draws_stamped : (form : Form) → form.isPlain = true →
    ∃ count, Draws Kind.form form.stamped count
  | .define name value, plain => by
    obtain ⟨count, inner⟩ := Expr.draws_stamped value plain
    exact ⟨count, .map (Form.define name) inner (fun _ => rfl) (fun _ => rfl) (fun _ _ => rfl)⟩
  | .assign name value, plain => by
    obtain ⟨count, inner⟩ := Expr.draws_stamped value plain
    exact ⟨count, .map (Form.assign name) inner (fun _ => rfl) (fun _ => rfl) (fun _ _ => rfl)⟩
  | .expr body, plain => by
    obtain ⟨count, inner⟩ := Expr.draws_stamped body plain
    exact ⟨count, .map Form.expr inner (fun _ => rfl) (fun _ => rfl) (fun _ _ => rfl)⟩
termination_by structural form => form

theorem Form.draws_stampedAll : (forms : List Form) → Form.allPlain forms = true →
    ∃ count, Draws Kind.forms (Form.stampedAll forms) count
  | [], _ => ⟨0, .unchanged rfl rfl fun _ => rfl⟩
  | form :: rest, plain => by
    simp only [Form.allPlain, Bool.and_eq_true] at plain
    obtain ⟨_, head⟩ := Form.draws_stamped form plain.1
    obtain ⟨_, others⟩ := Form.draws_stampedAll rest plain.2
    exact ⟨_, .both List.cons head others (fun _ _ => rfl) (fun _ _ => rfl) (fun _ _ _ => rfl)⟩
termination_by structural forms => forms

end

/-- Numbering a plain program takes one run of stamps from the supply and gives them out in order;
from another supply the same program comes out with other stamps. -/
theorem Program.stamped_draws {program : Program} (plain : Form.allPlain program = true) :
    ∃ count, ∀ supply,
      (program.stamped supply).2 = supply + count ∧
      Form.stampsAll (program.stamped supply).1 = List.range' supply count ∧
      Form.allPlain (program.stamped supply).1 = true ∧
      ∀ supply' change, (∀ i < count, change (supply + i) = supply' + i) →
        Form.restampAll change (program.stamped supply).1 = (program.stamped supply').1 := by
  obtain ⟨count, draws⟩ := Form.draws_stampedAll program plain
  exact ⟨count, fun supply =>
    ⟨draws.supply supply, draws.stamps supply, draws.plain supply, draws.shift supply⟩⟩

/-- The permutation that lets two neighbouring blocks change places. -/
def blockSwap (start first second : Nat) : Equiv.Perm Nat where
  toFun i :=
    if i < start then i else if i < start + first then i + second
    else if i < start + first + second then i - first else i
  invFun i :=
    if i < start then i else if i < start + second then i + first
    else if i < start + second + first then i - second else i
  left_inv i := by grind
  right_inv i := by grind

theorem blockSwap_apply (start first second i : Nat) : blockSwap start first second i =
    if i < start then i else if i < start + first then i + second
    else if i < start + first + second then i - first else i := rfl

theorem Form.run_stampedAll_cons (form : Form) (rest : List Form) (supply : Nat) :
    (Form.stampedAll (form :: rest)).run supply =
      ((form.stamped.run supply).1 :: ((Form.stampedAll rest).run (form.stamped.run supply).2).1,
        ((Form.stampedAll rest).run (form.stamped.run supply).2).2) := rfl

theorem Form.run_stampedAll_append (forms rest : List Form) (supply : Nat) :
    (Form.stampedAll (forms ++ rest)).run supply =
      (((Form.stampedAll forms).run supply).1 ++
          ((Form.stampedAll rest).run ((Form.stampedAll forms).run supply).2).1,
        ((Form.stampedAll rest).run ((Form.stampedAll forms).run supply).2).2) := by
  induction forms generalizing supply with
  | nil => rfl
  | cons form forms ih =>
    rw [List.cons_append, run_stampedAll_cons, run_stampedAll_cons, ih]
    rfl

/-- The same plain forms, numbered in another order, differ by a permutation of the new stamps. -/
theorem Form.stampedAll_perm {forms forms' : List Form} (permuted : forms.Perm forms')
    (plain : Form.allPlain forms = true) (supply : Nat) :
    ((Form.stampedAll forms').run supply).2 = ((Form.stampedAll forms).run supply).2 ∧
    ∃ σ : Equiv.Perm Nat,
      (∀ i, i < supply ∨ ((Form.stampedAll forms).run supply).2 ≤ i → σ i = i) ∧
      (Form.restampAll σ ((Form.stampedAll forms).run supply).1).Perm
        ((Form.stampedAll forms').run supply).1 := by
  induction permuted generalizing supply with
  | nil => exact ⟨rfl, Equiv.refl Nat, fun _ _ => rfl, .refl _⟩
  | @cons form forms forms' permuted ih =>
    rw [Form.allPlain, Bool.and_eq_true] at plain
    obtain ⟨count, draws⟩ := Form.draws_stamped form plain.1
    obtain ⟨supplies, σ, fixed, others⟩ := ih plain.2 (form.stamped.run supply).2
    have below : ∀ i < supply + count, σ i = i := fun i small =>
      fixed i (.inl (draws.supply supply ▸ small))
    have first : (form.stamped.run supply).1.restamp σ = (form.stamped.run supply).1 :=
      draws.shift supply supply σ fun i small => below _ (by omega)
    refine ⟨supplies, σ, ?_, ?_⟩
    · rintro i (old | new)
      · exact below i (by omega)
      · exact fixed i (.inr new)
    · simp only [run_stampedAll_cons, Form.restampAll, first]
      exact others.cons _
  | swap form form' forms =>
    simp only [Form.allPlain, Bool.and_eq_true] at plain
    obtain ⟨count, draws⟩ := Form.draws_stamped form plain.2.1
    obtain ⟨count', draws'⟩ := Form.draws_stamped form' plain.1
    obtain ⟨more, others⟩ := Form.draws_stampedAll forms plain.2.2
    simp only [run_stampedAll_cons, draws.supply, draws'.supply, others.supply]
    refine ⟨by omega, blockSwap supply count' count, ?_, ?_⟩
    · rintro i outside
      rw [blockSwap_apply]
      split_ifs <;> omega
    · have moved := draws.shift (supply + count') supply (blockSwap supply count' count)
        fun i small => by rw [blockSwap_apply]; split_ifs <;> omega
      have moved' := draws'.shift supply (supply + count) (blockSwap supply count' count)
        fun i small => by rw [blockSwap_apply]; split_ifs <;> omega
      have kept := others.shift (supply + count' + count) (supply + count + count')
        (blockSwap supply count' count)
        fun i small => by rw [blockSwap_apply]; split_ifs <;> omega
      change Form.restamp _ _ = _ at moved moved'
      change Form.restampAll _ _ = _ at kept
      rw [Form.restampAll, Form.restampAll, moved, moved', kept]
      exact .swap _ _ _
  | @trans forms forms' forms'' first second ih ih' =>
    rw [Form.allPlain_eq] at plain
    have plain' : Form.allPlain forms' = true := by rw [Form.allPlain_eq, ← first.all_eq, plain]
    obtain ⟨supplies, σ, fixed, others⟩ := ih (by rw [Form.allPlain_eq, plain]) supply
    obtain ⟨supplies', σ', fixed', others'⟩ := ih' plain' supply
    refine ⟨supplies'.trans supplies, σ.trans σ', ?_, ?_⟩
    · intro i outside
      rw [Equiv.trans_apply, fixed i outside]
      exact fixed' i (supplies ▸ outside)
    · have composed := others.map (Form.restamp σ')
      rw [← Form.restampAll_eq, ← Form.restampAll_eq, Form.restampAll_restampAll] at composed
      exact composed.trans others'

end CellScheme
