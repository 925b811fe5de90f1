import CellScheme.Primitive.Apply

/-!
What primitives do, as far as evaluation depends on it. A primitive fails by raising an error of its
own and in no other way (`Primitive.apply_operates`), and its result is assembled from its arguments,
their items and literals (`Primitive.apply_assembles`).
-/
namespace CellScheme

/-- The errors that an evaluation raises on account of the program. Faults of reading and syntax,
cells that do not exist and defects are not among them. -/
def Error.isRaised : Error → Bool
  | .source _ | .illegalAddress _ | .arity _ _ (some _) | .defect _ => false
  | .unboundVariable _ | .badProcedure _ | .emptyProgram | .type _ | .run _ | .arity _ _ none => true

/-- The errors that primitives raise. Names, procedures and levels are no matter of theirs. -/
def Error.isOperational : Error → Bool
  | .run (.depthLimit _) => false
  | .type _ | .run _ | .arity _ _ none => true
  | _ => false

theorem Error.isRaised_of_isOperational {error : Error} (operational : error.isOperational = true) :
    error.isRaised = true := by
  cases error with
  | type _ | run _ => rfl
  | arity _ _ expression =>
    cases expression with
    | none => rfl
    | some _ => cases operational
  | source _ | unboundVariable _ | illegalAddress _ | badProcedure _ | emptyProgram | defect _ =>
    cases operational

/-- A computation without memory fails in no other way than by a raised error. -/
def Raises {α : Type} (result : Except Error α) : Prop :=
  ∀ error, result = .error error → error.isRaised = true

/-- A computation without memory fails in no other way than primitives do. -/
def Operates {α : Type} (result : Except Error α) : Prop :=
  ∀ error, result = .error error → error.isOperational = true

namespace Operates

variable {α β : Type}

theorem ok (result : α) : Operates (.ok result) := by
  intro error failure
  cases failure

theorem bind {first : Except Error α} {next : α → Except Error β} (operates : Operates first)
    (operates' : ∀ middle, Operates (next middle)) : Operates (first >>= next) := by
  cases first with
  | error cause =>
    intro error failure
    cases failure
    exact operates cause rfl
  | ok middle => exact operates' middle

theorem mapM {each : α → Except Error β} {items : List α} (operates : ∀ item, Operates (each item)) :
    Operates (items.mapM each) := by
  induction items with
  | nil => exact ok []
  | cons head rest ih =>
    rw [List.mapM_cons]
    exact (operates head).bind fun _ => ih.bind fun _ => ok _

theorem foldlM {step : β → α → Except Error β} {items : List α} {start : β}
    (operates : ∀ state item, Operates (step state item)) : Operates (items.foldlM step start) := by
  induction items generalizing start with
  | nil => exact ok start
  | cons head rest ih =>
    rw [List.foldlM_cons]
    exact (operates start head).bind fun _ => ih

end Operates

namespace Arithmetic

theorem inRange_operates (step : Operation) (exact : Int) : Operates (inRange step exact) := by
  unfold inRange
  split
  · exact .ok _
  · intro error failure
    cases failure
    rfl

theorem divideStep_operates (left right : Fixnum) : Operates (divideStep left right) := by
  unfold divideStep
  split
  · intro error failure
    cases failure
    rfl
  · exact inRange_operates _ _

theorem difference_operates (arguments : List Fixnum) : Operates (difference arguments) := by
  match arguments with
  | [] =>
    intro error failure
    cases failure
    rfl
  | [_] => exact inRange_operates _ _
  | _ :: _ :: _ => exact .foldlM fun _ _ => inRange_operates _ _

theorem quotient_operates (arguments : List Fixnum) : Operates (quotient arguments) := by
  cases arguments with
  | nil =>
    intro error failure
    cases failure
    rfl
  | cons => exact .foldlM divideStep_operates

end Arithmetic

namespace Primitive

theorem numberArgument_operates (p : Primitive) (argument : Value) :
    Operates (p.numberArgument argument) := by
  intro error failure
  cases argument <;> cases failure <;> rfl

theorem stringArgument_operates (p : Primitive) (argument : Value) :
    Operates (p.stringArgument argument) := by
  intro error failure
  cases argument <;> cases failure <;> rfl

theorem listArgument_operates (p : Primitive) (argument : Value) :
    Operates (p.listArgument argument) := by
  intro error failure
  cases argument <;> cases failure <;> rfl

theorem soleArgument_operates {p : Primitive} {arguments : List Value} (some : arguments ≠ []) :
    Operates (p.soleArgument arguments) := by
  cases arguments with
  | nil => exact absurd rfl some
  | cons argument _ => exact .ok argument

theorem compare_operates (p : Primitive) (relation : Int → Int → Bool) (arguments : List Value) :
    Operates (p.compare relation arguments) :=
  .bind (.mapM p.numberArgument_operates) fun _ => .ok _

theorem test_operates (holds : Value → Bool) (arguments : List Value) :
    Operates (test holds arguments) := by
  unfold test
  split <;> exact .ok _

theorem testFirst_operates {p : Primitive} {holds : Value → Bool} {arguments : List Value}
    (some : arguments ≠ []) : Operates (p.testFirst holds arguments) :=
  .bind (soleArgument_operates some) fun _ => .ok _

theorem compareTwo_operates (relation : Value → Value → Bool) (arguments : List Value) :
    Operates (compareTwo relation arguments) := by
  unfold compareTwo
  split
  · exact .ok _
  · intro error failure
    cases failure
    rfl

/-- The operations that look at their first argument without testing that there is one. -/
def readsFirst : Primitive → Bool
  | .car | .cdr | .isNull | .isPair | .isProcedure => true
  | _ => false

/-- These operations accept exactly one argument. -/
theorem ne_nil_of_accepted {p : Primitive} {arguments : List Value}
    (accepted : p.arity.unmet? arguments.length = none) (reads : p.readsFirst = true) :
    arguments ≠ [] := by
  have exact : p.arity = .exactly 1 := by
    cases p with
    | car | cdr | isNull | isPair | isProcedure => rfl
    | _ => cases reads
  rintro rfl
  simp [exact, Arity.unmet?] at accepted

/-- An operation fails by an error of its own, as long as an argument is there for those that read
the first one. -/
theorem run_operates {p : Primitive} {arguments : List Value}
    (some : p.readsFirst = true → arguments ≠ []) : Operates (p.run arguments) := by
  cases p with
  | add | multiply =>
    exact .bind (.mapM (numberArgument_operates _)) fun _ =>
      .bind (.foldlM fun _ _ => Arithmetic.inRange_operates _ _) fun _ => .ok _
  | subtract =>
    exact .bind (.mapM (numberArgument_operates _)) fun _ =>
      .bind (Arithmetic.difference_operates _) fun _ => .ok _
  | divide =>
    exact .bind (.mapM (numberArgument_operates _)) fun _ =>
      .bind (Arithmetic.quotient_operates _) fun _ => .ok _
  | equals | less | greater | atMost | atLeast => exact compare_operates _ _ _
  | not | isList | isNumber | isBoolean | isString | isSymbol => exact test_operates _ _
  | and | or | list => exact .ok _
  | isIdentical | isEqual => exact compareTwo_operates _ _
  | isSameString | appendStrings =>
    exact .bind (.mapM (stringArgument_operates _)) fun _ => .ok _
  | cons =>
    intro error failure
    simp only [run] at failure
    split at failure <;> cases failure <;> rfl
  | car | cdr =>
    refine .bind (soleArgument_operates (some rfl)) fun argument =>
      .bind (listArgument_operates _ argument) fun items => ?_
    intro error failure
    cases items <;> cases failure
    rfl
  | isNull | isPair | isProcedure => exact testFirst_operates (some rfl)
  | raise =>
    intro error failure
    cases failure
    rfl

/-- A primitive fails in its own ways only. -/
theorem apply_operates (p : Primitive) (arguments : List Value) : Operates (p.apply arguments) := by
  unfold apply Arity.check
  cases accepted : p.arity.unmet? arguments.length with
  | none => exact run_operates (ne_nil_of_accepted accepted)
  | some expected =>
    intro error failure
    cases failure
    rfl

theorem apply_raises (p : Primitive) (arguments : List Value) : Raises (p.apply arguments) :=
  fun error failure => Error.isRaised_of_isOperational (p.apply_operates arguments error failure)

end Primitive

/-- Values that an expression denotes by itself, and the value of a form that has none. -/
def Value.isLiteral : Value → Bool
  | .number _ | .boolean _ | .string _ | .primitive _ | .unspecified => true
  | _ => false

/-- A value is at hand when it is an argument or an item of one. -/
def Value.IsAtHand (arguments : List Value) (v : Value) : Prop :=
  v ∈ arguments ∨ ∃ items, .list items ∈ arguments ∧ v ∈ items

/-- What a primitive can make of its arguments: a literal, a value at hand, or a list of such. -/
inductive Value.IsAssembled (arguments : List Value) : Value → Prop
  | literal {v : Value} : v.isLiteral = true → IsAssembled arguments v
  | atHand {v : Value} : v.IsAtHand arguments → IsAssembled arguments v
  | list {items : List Value} : (∀ item ∈ items, item.IsAtHand arguments) →
    IsAssembled arguments (.list items)

namespace Primitive

/-- Every result of a computation is assembled from the arguments. -/
def Assembles (arguments : List Value) (result : Except Error Value) : Prop :=
  ∀ v, result = .ok v → v.IsAssembled arguments

variable {α : Type} {arguments : List Value}

theorem Assembles.bind {first : Except Error α} {next : α → Except Error Value}
    (assembles : ∀ middle, first = .ok middle → Assembles arguments (next middle)) :
    Assembles arguments (first >>= next) := by
  cases first with
  | error _ =>
    intro v success
    cases success
  | ok middle => exact assembles middle rfl

theorem Assembles.literal {v : Value} (literal : v.isLiteral = true) :
    Assembles arguments (.ok v) := by
  intro _ success
  cases success
  exact .literal literal

theorem compare_assembles (p : Primitive) (relation : Int → Int → Bool) :
    Assembles arguments (p.compare relation arguments) :=
  .bind fun _ _ => .literal rfl

theorem test_assembles (holds : Value → Bool) : Assembles arguments (test holds arguments) := by
  unfold test
  split <;> exact .literal rfl

theorem testFirst_assembles (p : Primitive) (holds : Value → Bool) :
    Assembles arguments (p.testFirst holds arguments) :=
  .bind fun _ _ => .literal rfl

theorem compareTwo_assembles (relation : Value → Value → Bool) :
    Assembles arguments (compareTwo relation arguments) := by
  unfold compareTwo
  split
  · exact .literal rfl
  · intro v success
    cases success

theorem mem_of_soleArgument {p : Primitive} {argument : Value}
    (found : p.soleArgument arguments = .ok argument) : argument ∈ arguments := by
  cases arguments with
  | nil => cases found
  | cons head rest =>
    cases found
    exact List.mem_cons_self

theorem eq_of_listArgument {p : Primitive} {argument : Value} {items : List Value}
    (found : p.listArgument argument = .ok items) : argument = .list items := by
  cases argument <;> cases found
  rfl

theorem conjunction_assembled (arguments : List Value) :
    (conjunction arguments).IsAssembled arguments := by
  unfold conjunction
  split
  · rename_i falsy found
    exact .atHand (.inl (List.mem_of_find?_eq_some found))
  · cases last : arguments.getLast? with
    | none => exact .literal rfl
    | some v => exact .atHand (.inl (List.mem_of_getLast? last))

theorem disjunction_assembled (arguments : List Value) :
    (disjunction arguments).IsAssembled arguments := by
  unfold disjunction
  cases found : arguments.find? Value.isTrue with
  | none => exact .literal rfl
  | some v => exact .atHand (.inl (List.mem_of_find?_eq_some found))

theorem run_assembles (p : Primitive) (arguments : List Value) :
    Assembles arguments (p.run arguments) := by
  cases p with
  | add | subtract | multiply | divide => exact .bind fun _ _ => .bind fun _ _ => .literal rfl
  | equals | less | greater | atMost | atLeast => exact compare_assembles _ _
  | not | isList | isNumber | isBoolean | isString | isSymbol => exact test_assembles _
  | and =>
    rintro _ ⟨⟩
    exact conjunction_assembled arguments
  | or =>
    rintro _ ⟨⟩
    exact disjunction_assembled arguments
  | list =>
    rintro _ ⟨⟩
    exact .list fun item member => .inl member
  | isIdentical | isEqual => exact compareTwo_assembles _
  | isSameString | appendStrings => exact .bind fun _ _ => .literal rfl
  | cons =>
    intro v success
    simp only [run] at success
    split at success <;> cases success
    rename_i first rest
    refine .list fun item member => ?_
    rcases List.mem_cons.mp member with rfl | inside
    · exact .inl (by simp)
    · exact .inr ⟨rest, by simp, inside⟩
  | car =>
    refine .bind fun argument sole => .bind fun items list => ?_
    obtain rfl := eq_of_listArgument list
    intro v success
    cases items <;> cases success
    exact .atHand (.inr ⟨_, mem_of_soleArgument sole, by simp⟩)
  | cdr =>
    refine .bind fun argument sole => .bind fun items list => ?_
    obtain rfl := eq_of_listArgument list
    intro v success
    cases items <;> cases success
    exact .list fun item member => .inr ⟨_, mem_of_soleArgument sole, by simp [member]⟩
  | isNull | isPair | isProcedure => exact testFirst_assembles _ _
  | raise =>
    intro v success
    cases success

theorem apply_assembles (p : Primitive) {arguments : List Value} {v : Value}
    (applied : p.apply arguments = .ok v) : v.IsAssembled arguments := by
  have assembles : Assembles arguments (p.apply arguments) :=
    .bind fun _ _ => run_assembles p arguments
  exact assembles v applied

end Primitive

end CellScheme
