import CellScheme.Proofs.Closure
import CellScheme.Proofs.Ownership
import Mathlib.Algebra.Group.End
import Mathlib.Logic.Equiv.Basic

/-!
Renaming of addresses, frames and stamps. Names for cells, frames and code are handed out in order of
creation and are never shown to a program: values that differ only by a renaming print the same and
compare the same, and primitives treat them the same (`Primitive.apply_rename`).
-/
namespace CellScheme

/-- One-to-one renamings of addresses, of the serial numbers of frames, and of stamps. -/
structure Renaming where
  cell : Equiv.Perm Nat
  frame : Equiv.Perm Nat
  stamp : Equiv.Perm Nat

/-- The renaming that changes nothing. -/
def Renaming.refl : Renaming :=
  ⟨Equiv.refl Nat, Equiv.refl Nat, Equiv.refl Nat⟩

/-- One renaming after another. -/
def Renaming.trans (ρ ρ' : Renaming) : Renaming :=
  ⟨ρ.cell.trans ρ'.cell, ρ.frame.trans ρ'.frame, ρ.stamp.trans ρ'.stamp⟩

/-- A frame with another serial number and other addresses. The names stay. -/
def Frame.rename (ρ : Renaming) (frame : Frame) : Frame :=
  ⟨ρ.frame frame.serial, frame.slots.map fun slot => (slot.1, ρ.cell slot.2)⟩

/-- An environment with all of its frames renamed. -/
def Environment.rename (ρ : Renaming) (env : Environment) : Environment :=
  env.map (Frame.rename ρ)

mutual

/-- A value with all closures inside it renamed: their stamps, the stamps in their bodies, and their
environments. -/
def Value.rename (ρ : Renaming) : Value → Value
  | .list items => .list (Value.renameAll ρ items)
  | .closure stamp params body env =>
    .closure (ρ.stamp stamp) params (Form.restampAll ρ.stamp body) (env.rename ρ)
  | v => v

/-- Several values with all closures inside them renamed. -/
def Value.renameAll (ρ : Renaming) : List Value → List Value
  | [] => []
  | item :: rest => item.rename ρ :: Value.renameAll ρ rest

end

/-- A closure renamed. -/
def Closure.rename (ρ : Renaming) (c : Closure) : Closure :=
  ⟨ρ.stamp c.stamp, c.params, Form.restampAll ρ.stamp c.body, c.env.rename ρ⟩

/-- A permutation that is known on places below a bound, with values below another bound, can be
made to send the places from the one bound on to those from the other bound on. -/
theorem exists_extend (π : Equiv.Perm Nat) {known : Set Nat} {start start' : Nat}
    (below : ∀ i ∈ known, i < start ∧ π i < start') (count : Nat) :
    ∃ π' : Equiv.Perm Nat, (∀ i ∈ known, π' i = π i) ∧ ∀ i < count, π' (start + i) = start' + i := by
  induction count with
  | zero => exact ⟨π, fun _ _ => rfl, fun i bound => absurd bound (Nat.not_lt_zero i)⟩
  | succ count ih =>
    obtain ⟨extended, same, new⟩ := ih
    -- One more place is sent where it belongs by swapping its present value with the wanted one.
    refine ⟨Equiv.swap (extended (start + count)) (start' + count) * extended, ?_, ?_⟩
    · intro i member
      obtain ⟨inside, inside'⟩ := below i member
      have apart : extended i ≠ extended (start + count) := by
        intro equal
        have place := extended.injective equal
        omega
      have apart' : extended i ≠ start' + count := by
        rw [same i member]
        omega
      rw [Equiv.Perm.mul_apply, Equiv.swap_apply_of_ne_of_ne apart apart', same i member]
    · intro i bound
      rw [Equiv.Perm.mul_apply]
      by_cases last : i = count
      · subst last
        exact Equiv.swap_apply_left _ _
      · have earlier : i < count := by omega
        have apart : extended (start + i) ≠ extended (start + count) := by
          intro equal
          have place := extended.injective equal
          omega
        have apart' : extended (start + i) ≠ start' + count := by
          rw [new i earlier]
          omega
        rw [Equiv.swap_apply_of_ne_of_ne apart apart', new i earlier]

variable (ρ : Renaming)

namespace Environment

theorem lookup_rename (slots : List (String × Address)) (name : String) :
    (slots.map fun slot => (slot.1, ρ.cell slot.2)).lookup name =
      (slots.lookup name).map ρ.cell := by
  induction slots with
  | nil => rfl
  | cons slot rest ih =>
    obtain ⟨key, address⟩ := slot
    rw [List.map_cons, List.lookup_cons, List.lookup_cons]
    by_cases same : name = key
    · simp [same]
    · simp [beq_eq_false_iff_ne.mpr same, ih]

/-- A name resolves to the renamed address, when it does so in the global table. -/
theorem find?_rename {globals globals' : GlobalTable} {name : String}
    (agree : globals'.find? name = (globals.find? name).map ρ.cell) (env : Environment) :
    (env.rename ρ).find? globals' name = (env.find? globals name).map ρ.cell := by
  induction env with
  | nil => exact agree
  | cons frame outer ih =>
    rw [rename] at ih ⊢
    rw [List.map_cons, find?, find?, ih, Frame.rename, lookup_rename]
    cases frame.slots.lookup name <;> simp

/-- Renaming an environment depends only on its serial numbers and addresses. -/
theorem rename_congr {ρ ρ' : Renaming} {env : Environment}
    (agree : ∀ frame ∈ env, ρ.frame frame.serial = ρ'.frame frame.serial ∧
      ∀ slot ∈ frame.slots, ρ.cell slot.2 = ρ'.cell slot.2) :
    env.rename ρ = env.rename ρ' := by
  refine List.map_congr_left fun frame member => ?_
  obtain ⟨serial, slots⟩ := agree frame member
  rw [Frame.rename, Frame.rename, serial]
  congr 1
  exact List.map_congr_left fun slot inside => by rw [slots slot inside]

theorem rename_refl (env : Environment) : env.rename .refl = env := by
  have same : Frame.rename .refl = id := by
    funext frame
    simp [Frame.rename, Renaming.refl]
  rw [rename, same, List.map_id]

theorem rename_trans (ρ ρ' : Renaming) (env : Environment) :
    (env.rename ρ).rename ρ' = env.rename (ρ.trans ρ') := by
  have both : Frame.rename ρ' ∘ Frame.rename ρ = Frame.rename (ρ.trans ρ') := by
    funext frame
    simp [Frame.rename, Renaming.trans, Function.comp_def]
  rw [rename, rename, List.map_map, both, rename]

theorem same_rename (left right : Environment) :
    (left.rename ρ).same (right.rename ρ) = left.same right := by
  cases left <;> cases right <;> simp [same, identity?, rename, Frame.rename]

end Environment

namespace Value

theorem renameAll_eq (values : List Value) : renameAll ρ values = values.map (Value.rename ρ) := by
  induction values with
  | nil => rfl
  | cons item rest ih => rw [renameAll, ih, List.map_cons]

@[simp] theorem rename_list (items : List Value) :
    (Value.list items).rename ρ = .list (items.map (Value.rename ρ)) := by
  rw [rename, renameAll_eq]

@[simp] theorem isTrue_rename (v : Value) : (v.rename ρ).isTrue = v.isTrue := by
  cases v <;> rfl

mutual

/-- Only closures are renamed. -/
theorem rename_of_no_closures : (v : Value) → v.closures = [] → v.rename ρ = v
  | .list items, empty => congrArg Value.list (renameAll_of_no_closures items empty)
  | .closure _ _ _ _, empty => nomatch empty
  | .number _, _ | .symbol _, _ | .string _, _ | .boolean _, _ | .primitive _, _
  | .unspecified, _ => rfl
termination_by structural v => v

theorem renameAll_of_no_closures : (values : List Value) → closuresAll values = [] →
    renameAll ρ values = values
  | [], _ => rfl
  | item :: rest, empty => by
    obtain ⟨head, tail⟩ := List.append_eq_nil_iff.mp empty
    rw [renameAll, rename_of_no_closures item head, renameAll_of_no_closures rest tail]
termination_by structural values => values

end

theorem rename_literal {v : Value} (literal : v.isLiteral = true) : v.rename ρ = v :=
  rename_of_no_closures ρ v (closures_literal literal)

mutual

theorem closures_rename : (v : Value) → (v.rename ρ).closures = v.closures.map (Closure.rename ρ)
  | .list items => closuresAll_renameAll items
  | .number _ | .symbol _ | .string _ | .boolean _ | .primitive _ | .closure _ _ _ _
  | .unspecified => rfl
termination_by structural v => v

theorem closuresAll_renameAll : (values : List Value) →
    closuresAll (renameAll ρ values) = (closuresAll values).map (Closure.rename ρ)
  | [] => rfl
  | item :: rest => by
    rw [renameAll, closuresAll, closuresAll, List.map_append, closures_rename item,
      closuresAll_renameAll rest]
termination_by structural values => values

end

mutual

/-- Renaming a value depends only on what it does to the closures inside. -/
theorem rename_congr {ρ ρ' : Renaming} : (v : Value) →
    (∀ c ∈ v.closures, c.rename ρ = c.rename ρ') → v.rename ρ = v.rename ρ'
  | .list items, agree => congrArg Value.list (renameAll_congr items agree)
  | .closure stamp params body env, agree => by
    have same := agree ⟨stamp, params, body, env⟩ (by simp [closures])
    simp only [Closure.rename, Closure.mk.injEq] at same
    rw [Value.rename, Value.rename, same.1, same.2.2.1, same.2.2.2]
  | .number _, _ | .symbol _, _ | .string _, _ | .boolean _, _ | .primitive _, _
  | .unspecified, _ => rfl
termination_by structural v => v

theorem renameAll_congr {ρ ρ' : Renaming} : (values : List Value) →
    (∀ c ∈ closuresAll values, c.rename ρ = c.rename ρ') →
    renameAll ρ values = renameAll ρ' values
  | [], _ => rfl
  | item :: rest, agree => by
    simp only [closuresAll, List.forall_mem_append] at agree
    rw [renameAll, renameAll, rename_congr item agree.1, renameAll_congr rest agree.2]
termination_by structural values => values

end

mutual

theorem rename_refl : (v : Value) → v.rename .refl = v
  | .list items => congrArg Value.list (renameAll_refl items)
  | .closure stamp params body env => by
    have same : Form.restampAll (Renaming.refl.stamp) body = body := Form.restampAll_id body
    rw [Value.rename, same, Environment.rename_refl]
    rfl
  | .number _ | .symbol _ | .string _ | .boolean _ | .primitive _ | .unspecified => rfl
termination_by structural v => v

theorem renameAll_refl : (values : List Value) → renameAll .refl values = values
  | [] => rfl
  | item :: rest => by rw [renameAll, rename_refl item, renameAll_refl rest]
termination_by structural values => values

end

mutual

theorem rename_trans (ρ ρ' : Renaming) : (v : Value) →
    (v.rename ρ).rename ρ' = v.rename (ρ.trans ρ')
  | .list items => congrArg Value.list (renameAll_trans ρ ρ' items)
  | .closure stamp params body env => by
    rw [Value.rename, Value.rename, Form.restampAll_restampAll, Environment.rename_trans]
    rfl
  | .number _ | .symbol _ | .string _ | .boolean _ | .primitive _ | .unspecified => rfl
termination_by structural v => v

theorem renameAll_trans (ρ ρ' : Renaming) : (values : List Value) →
    renameAll ρ' (renameAll ρ values) = renameAll (ρ.trans ρ') values
  | [] => rfl
  | item :: rest => by
    rw [renameAll, renameAll, rename_trans ρ ρ' item, renameAll_trans ρ ρ' rest, renameAll]
termination_by structural values => values

end

mutual

/-- Equality does not depend on names. -/
theorem equal_rename : (left right : Value) → (left.rename ρ).equal (right.rename ρ) = left.equal right
  | .list left, .list right => by
    rw [Value.rename, Value.rename, equal, equal, equalAll_rename left right]
  | .closure _ _ _ _, .closure _ _ _ _ => by
    simp only [Value.rename, equal, Environment.same_rename, ρ.stamp.injective.beq_eq]
  | .number _, right | .symbol _, right | .string _, right | .boolean _, right
  | .primitive _, right | .unspecified, right => by cases right <;> rfl
  | .list _, .number _ | .list _, .symbol _ | .list _, .string _ | .list _, .boolean _
  | .list _, .primitive _ | .list _, .closure _ _ _ _ | .list _, .unspecified => rfl
  | .closure _ _ _ _, .number _ | .closure _ _ _ _, .symbol _ | .closure _ _ _ _, .string _
  | .closure _ _ _ _, .boolean _ | .closure _ _ _ _, .primitive _ | .closure _ _ _ _, .list _
  | .closure _ _ _ _, .unspecified => rfl
termination_by structural left => left

theorem equalAll_rename : (left right : List Value) →
    equalAll (renameAll ρ left) (renameAll ρ right) = equalAll left right
  | [], [] | [], _ :: _ | _ :: _, [] => rfl
  | left :: leftRest, right :: rightRest => by
    rw [renameAll, renameAll, equalAll, equalAll, equal_rename left right,
      equalAll_rename leftRest rightRest]
termination_by structural left => left

end

theorem identical_rename (left right : Value) :
    (left.rename ρ).identical (right.rename ρ) = left.identical right := by
  have same := equal_rename ρ left right
  cases left with
  | list items =>
    cases right with
    | list others => simp [identical]
    | number _ | symbol _ | string _ | boolean _ | primitive _ | closure _ _ _ _ | unspecified => rfl
  | closure stamp params body env => exact same
  | number _ | symbol _ | string _ | boolean _ | primitive _ | unspecified => exact same

mutual

/-- No name is printed. -/
theorem written_rename : (v : Value) → (v.rename ρ).written = v.written
  | .list items => congrArg (fun inner => '(' :: inner ++ [')']) (writtenAll_rename items)
  | .number _ | .symbol _ | .string _ | .boolean _ | .primitive _ | .closure _ _ _ _
  | .unspecified => rfl
termination_by structural v => v

theorem writtenAll_rename : (values : List Value) →
    writtenAll (renameAll ρ values) = writtenAll values
  | [] => rfl
  | [item] => by simp only [renameAll, writtenAll, written_rename item]
  | item :: next :: rest => by
    have others := writtenAll_rename (next :: rest)
    simp only [renameAll] at others ⊢
    simp only [writtenAll, written_rename item, others]
termination_by structural values => values

end

@[simp] theorem display_rename (v : Value) : (v.rename ρ).display = v.display := by
  rw [display, display, written_rename]

end Value

namespace Primitive

variable {α : Type}

/-- A computation with a result that no renaming changes. -/
theorem map_rename_literal {first : Except Error α} {build : α → Value}
    (literal : ∀ a, (build a).isLiteral = true) :
    (first >>= fun a => pure (build a)).map (Value.rename ρ) = first >>= fun a => pure (build a) := by
  cases first with
  | error _ => rfl
  | ok a => exact congrArg Except.ok (Value.rename_literal ρ (literal a))

theorem mapM_rename {each : Value → Except Error α} (same : ∀ v, each (v.rename ρ) = each v)
    (arguments : List Value) : (arguments.map (Value.rename ρ)).mapM each = arguments.mapM each := by
  induction arguments with
  | nil => rfl
  | cons head rest ih => rw [List.map_cons, List.mapM_cons, List.mapM_cons, same, ih]

theorem numberArgument_rename (p : Primitive) (v : Value) :
    p.numberArgument (v.rename ρ) = p.numberArgument v := by
  have shown := Value.display_rename ρ v
  cases v <;> first
    | rfl
    | exact congrArg (fun text => Except.error (Error.type (.numbersRequired p text))) shown

theorem stringArgument_rename (p : Primitive) (v : Value) :
    p.stringArgument (v.rename ρ) = p.stringArgument v := by
  have shown := Value.display_rename ρ v
  cases v <;> first
    | rfl
    | exact congrArg (fun text => Except.error (Error.type (.stringsRequired p text))) shown

theorem listArgument_rename (p : Primitive) (v : Value) :
    p.listArgument (v.rename ρ) = (p.listArgument v).map (List.map (Value.rename ρ)) := by
  have shown := Value.display_rename ρ v
  cases v with
  | list items => rw [Value.rename_list]; rfl
  | number _ | symbol _ | string _ | boolean _ | primitive _ | closure _ _ _ _ | unspecified =>
    exact congrArg (fun text => Except.error (Error.type (.listRequired p text))) shown

theorem compare_rename (p : Primitive) (relation : Int → Int → Bool) (arguments : List Value) :
    p.compare relation (arguments.map (Value.rename ρ)) =
      (p.compare relation arguments).map (Value.rename ρ) := by
  rw [compare, compare, mapM_rename ρ (numberArgument_rename ρ p),
    map_rename_literal ρ fun _ => rfl]

theorem test_rename {holds : Value → Bool} (same : ∀ v, holds (v.rename ρ) = holds v)
    (arguments : List Value) :
    test holds (arguments.map (Value.rename ρ)) = (test holds arguments).map (Value.rename ρ) := by
  match arguments with
  | [] | _ :: _ :: _ => rfl
  | [v] => exact congrArg (fun truth => Except.ok (Value.boolean truth)) (same v)

theorem testFirst_rename (p : Primitive) {holds : Value → Bool}
    (same : ∀ v, holds (v.rename ρ) = holds v) (arguments : List Value) :
    p.testFirst holds (arguments.map (Value.rename ρ)) =
      (p.testFirst holds arguments).map (Value.rename ρ) := by
  cases arguments with
  | nil => rfl
  | cons v _ => exact congrArg (fun truth => Except.ok (Value.boolean truth)) (same v)

theorem compareTwo_rename {relation : Value → Value → Bool}
    (same : ∀ left right, relation (left.rename ρ) (right.rename ρ) = relation left right)
    (arguments : List Value) :
    compareTwo relation (arguments.map (Value.rename ρ)) =
      (compareTwo relation arguments).map (Value.rename ρ) := by
  match arguments with
  | [] | [_] => rfl
  | [left, right] => exact congrArg (fun truth => Except.ok (Value.boolean truth)) (same left right)
  | _ :: _ :: _ :: rest => simp [compareTwo]; rfl

theorem conjunction_rename (arguments : List Value) :
    conjunction (arguments.map (Value.rename ρ)) = (conjunction arguments).rename ρ := by
  have same : ((fun v : Value => !v.isTrue) ∘ Value.rename ρ) = fun v => !v.isTrue := by
    funext v
    simp
  rw [conjunction, conjunction, List.find?_map, same, List.getLast?_map]
  cases arguments.find? fun v => !v.isTrue with
  | some falsy => rfl
  | none => cases arguments.getLast? <;> rfl

theorem disjunction_rename (arguments : List Value) :
    disjunction (arguments.map (Value.rename ρ)) = (disjunction arguments).rename ρ := by
  have same : (Value.isTrue ∘ Value.rename ρ) = Value.isTrue := by
    funext v
    simp
  rw [disjunction, disjunction, List.find?_map, same]
  cases arguments.find? Value.isTrue <;> rfl

theorem raisedText_rename (arguments : List Value) :
    raisedText (arguments.map (Value.rename ρ)) = raisedText arguments := by
  have same : ∀ v : Value, messagePart (v.rename ρ) = messagePart v := by
    intro v
    have shown := Value.display_rename ρ v
    cases v <;> first | rfl | exact shown
  have parts : messagePart ∘ Value.rename ρ = messagePart := funext same
  cases arguments with
  | nil => rfl
  | cons head rest => simp [raisedText, same, parts]

/-- Running an operation on renamed arguments renames its result. -/
theorem run_rename (p : Primitive) (arguments : List Value) :
    p.run (arguments.map (Value.rename ρ)) = (p.run arguments).map (Value.rename ρ) := by
  cases p with
  | add | subtract | multiply | divide =>
    simp only [run, mapM_rename ρ (numberArgument_rename ρ _)]
    cases arguments.mapM (numberArgument _) with
    | error _ => rfl
    | ok numbers => exact (map_rename_literal ρ fun _ => rfl).symm
  | equals | less | greater | atMost | atLeast => exact compare_rename ρ _ _ _
  | not => exact test_rename ρ (by simp) _
  | isList | isNumber | isBoolean | isString | isSymbol =>
    refine test_rename ρ (fun v => ?_) _
    cases v <;> rfl
  | and => exact congrArg Except.ok (conjunction_rename ρ arguments)
  | or => exact congrArg Except.ok (disjunction_rename ρ arguments)
  | list => exact congrArg Except.ok (Value.rename_list ρ arguments).symm
  | isIdentical => exact compareTwo_rename ρ (Value.identical_rename ρ) _
  | isEqual => exact compareTwo_rename ρ (Value.equal_rename ρ) _
  | isSameString | appendStrings =>
    simp only [run, mapM_rename ρ (stringArgument_rename ρ _)]
    exact (map_rename_literal ρ fun _ => rfl).symm
  | cons =>
    rcases arguments with _ | ⟨first, _ | ⟨second, _ | ⟨third, rest⟩⟩⟩
    · rfl
    · rfl
    · have shown := Value.display_rename ρ second
      cases second with
      | list rest =>
        rw [List.map_cons, List.map_cons, Value.rename_list]
        exact congrArg Except.ok (Value.rename_list ρ (first :: rest)).symm
      | number _ | symbol _ | string _ | boolean _ | primitive _ | closure _ _ _ _ | unspecified =>
        exact congrArg (fun text => Except.error (Error.type (.listTailRequired text))) shown
    · simp [run]
      rfl
  | car =>
    cases arguments with
    | nil => rfl
    | cons v _ =>
      simp only [run, soleArgument, List.map_cons, pure_bind, listArgument_rename]
      cases listArgument _ v with
      | error _ => rfl
      | ok items => cases items <;> rfl
  | cdr =>
    cases arguments with
    | nil => rfl
    | cons v _ =>
      simp only [run, soleArgument, List.map_cons, pure_bind, listArgument_rename]
      cases listArgument _ v with
      | error _ => rfl
      | ok items =>
        cases items with
        | nil => rfl
        | cons _ rest => exact congrArg Except.ok (Value.rename_list ρ rest).symm
  | isNull | isPair =>
    refine testFirst_rename ρ _ (fun v => ?_) _
    cases v with
    | list items => cases items <;> rfl
    | number _ | symbol _ | string _ | boolean _ | primitive _ | closure _ _ _ _ | unspecified => rfl
  | isProcedure =>
    refine testFirst_rename ρ _ (fun v => ?_) _
    cases v <;> rfl
  | raise => exact congrArg (fun text => Except.error (Error.run (.raised text))) (raisedText_rename ρ _)

/-- Primitives do not depend on names. -/
theorem apply_rename (p : Primitive) (arguments : List Value) :
    p.apply (arguments.map (Value.rename ρ)) = (p.apply arguments).map (Value.rename ρ) := by
  simp only [apply, List.length_map]
  cases p.arity.check arguments.length with
  | error _ => rfl
  | ok _ => exact run_rename ρ p arguments

end Primitive

end CellScheme
