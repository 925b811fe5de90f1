import CellScheme.Evaluator
import CellScheme.Proofs.Code
import Mathlib.Logic.Relation

/-!
The moments of a run. A point is one evaluation about to begin: what is to be evaluated, where, with
how many levels left, and in which memory. `Calls` relates a point to the points that its evaluation
begins itself, so the points reached from the start of a program are all moments at which the run
reads or changes memory.

Main statements: a nested evaluation stands at a part of the code around it, in the scope of that
part (`Calls.part_eq`), except when a closure is applied (`Calls.body_eq`).
-/
namespace CellScheme

open Evaluation

/-- The names of a frame, in order. -/
def Frame.names (frame : Frame) : List String :=
  frame.slots.map Prod.fst

/-- The names that an environment binds, one list for each frame, innermost first. -/
def Environment.names (env : Environment) : Scope :=
  env.map Frame.names

@[simp] theorem Environment.names_global : Environment.names .global = [] := rfl

@[simp] theorem Environment.names_cons (frame : Frame) (env : Environment) :
    Environment.names (frame :: env) = frame.names :: Environment.names env := rfl

namespace Memory

/-- The frame that binds names to as many new cells. -/
def newFrame (memory : Memory) (names : List String) : Frame :=
  ⟨memory.frames.size, names.zip (List.range' memory.store.size names.length)⟩

/-- Memory after names have been bound to new cells that hold the given values. -/
def enter (memory : Memory) (names : List String) (values : List Value) : Memory :=
  (memory.allocateAll values).recordFrame (memory.newFrame names)

@[simp] theorem names_newFrame (memory : Memory) (names : List String) :
    (memory.newFrame names).names = names := by
  simp [newFrame, Frame.names, List.map_fst_zip]

variable {memory : Memory} {v w : Value}

/-- What a cell holds after a step was put there by the step, or was there before. -/
theorem read?_write {address queried : Address}
    (found : (memory.write address v).store.read? queried = some w) :
    w = v ∨ memory.store.read? queried = some w := by
  simp only [write, Store.write, Store.read?, Array.getElem?_setIfInBounds] at found
  split at found
  · split at found <;> cases found
    exact .inl rfl
  · exact .inr found

theorem read?_define {name : String} {address : Address}
    (found : (memory.define name v).store.read? address = some w) :
    w = v ∨ memory.store.read? address = some w := by
  simp only [define, Store.allocate, Store.read?, Array.getElem?_push] at found
  split at found
  · exact .inl (Option.some.inj found).symm
  · exact .inr found

theorem read?_enter {names : List String} {values : List Value} {address : Address}
    (found : (memory.enter names values).store.read? address = some w) :
    w ∈ values ∨ memory.store.read? address = some w := by
  simp only [enter, recordFrame, allocateAll, Store.read?, Store.cells_allocateAll,
    Array.getElem?_append] at found
  split at found
  · exact .inr found
  · exact .inl (List.mem_of_getElem? (by simpa using found))

end Memory

namespace Evaluation

theorem outcome_enter_eq {env : Environment} {names : List String} {values : List Value}
    {memory : Memory} (aligned : names.length = values.length) :
    outcome (enter env names values) memory =
      (.ok (memory.newFrame names :: env), memory.enter names values) := by
  rw [outcome_enter env names values memory aligned]
  simp only [Memory.newFrame, Memory.enter, aligned]

/-- Two computations in a row have a result when the first has one and the second, from there, has
it. -/
theorem outcome_bind_ok {α β : Type} {first : Evaluation α} {next : α → Evaluation β}
    {memory left : Memory} {result : β} :
    outcome (first >>= next) memory = (.ok result, left) ↔
      ∃ middle between, outcome first memory = (.ok middle, between) ∧
        outcome (next middle) between = (.ok result, left) := by
  rw [outcome_bind]
  rcases outcome first memory with ⟨_ | middle, between⟩ <;> simp

/-- Several computations have results when each has one from the memory that those before it have
left. -/
theorem outcome_mapM_cons_ok {α β : Type} {each : α → Evaluation β} {head : α} {rest : List α}
    {memory left : Memory} {results : List β} :
    outcome ((head :: rest).mapM each) memory = (.ok results, left) ↔
      ∃ result between others, outcome (each head) memory = (.ok result, between) ∧
        outcome (rest.mapM each) between = (.ok others, left) ∧ results = result :: others := by
  rw [List.mapM_cons, outcome_bind_ok]
  constructor
  · rintro ⟨result, between, first, second⟩
    obtain ⟨others, _, inner, final⟩ := outcome_bind_ok.mp second
    cases final
    exact ⟨result, between, others, first, inner, rfl⟩
  · rintro ⟨result, between, others, first, inner, rfl⟩
    exact ⟨result, between, first, outcome_bind_ok.mpr ⟨others, left, inner, rfl⟩⟩

theorem length_of_outcome_mapM {α β : Type} {each : α → Evaluation β} {items : List α}
    {memory left : Memory} {results : List β}
    (success : outcome (items.mapM each) memory = (.ok results, left)) :
    results.length = items.length := by
  induction items generalizing memory results with
  | nil =>
    cases success
    rfl
  | cons head rest ih =>
    obtain ⟨_, _, _, _, inner, rfl⟩ := outcome_mapM_cons_ok.mp success
    rw [List.length_cons, List.length_cons, ih inner]

end Evaluation

/-- What is to be evaluated: an expression, a body or program, or what is left of a sequence after
the forms before it. The value of the last of these is kept as the result so far. -/
inductive Task where
  | expr (body : Expr)
  | body (forms : List Form)
  | rest (result : Value) (forms : List Form)

/-- The code of a task. -/
def Task.code : Task → Code
  | .expr tree => .expr tree
  | .body forms | .rest _ forms => .forms forms

/-- An evaluation about to begin. -/
structure Point where
  budget : Nat
  env : Environment
  task : Task
  memory : Memory

namespace Point

/-- The evaluation that begins at a point. -/
def evaluation (limit : Nat) (point : Point) : Evaluation Value :=
  match point.task with
  | .expr body => evaluate limit point.budget point.env body
  | .body forms => evaluateBody limit point.budget point.env forms
  | .rest result forms => evaluateForms (evaluate limit point.budget) point.env result forms

/-- How the evaluation that begins at a point ends. -/
def outcome (limit : Nat) (point : Point) : Except Error Value × Memory :=
  Evaluation.outcome (point.evaluation limit) point.memory

end Point

/-- Where a nested evaluation stands: at a part of the code around it, at the same code, or at the
body of the `lambda` with a stamp. -/
inductive Turn where
  | part (index : Nat)
  | same
  | body (stamp : Nat)

/-- A point calls another when its evaluation begins that one itself, after all nested evaluations
before it have succeeded. -/
inductive Calls (limit : Nat) : Point → Turn → Point → Prop
  | test {budget env test consequent alternative memory} :
    Calls limit ⟨budget + 1, env, .expr (.conditional test consequent alternative), memory⟩
      (.part 0) ⟨budget, env, .expr test, memory⟩
  | consequent {budget env test consequent alternative memory value left} :
    outcome (evaluate limit budget env test) memory = (.ok value, left) → value.isTrue = true →
    Calls limit ⟨budget + 1, env, .expr (.conditional test consequent alternative), memory⟩
      (.part 1) ⟨budget, env, .expr consequent, left⟩
  | alternative {budget env test consequent alternative memory value left} :
    outcome (evaluate limit budget env test) memory = (.ok value, left) → value.isTrue = false →
    Calls limit ⟨budget + 1, env, .expr (.conditional test consequent alternative), memory⟩
      (.part 2) ⟨budget, env, .expr alternative, left⟩
  | bound {budget env bindings body memory index binding values left} :
    outcome ((bindings.take index).mapM fun binding => evaluate limit budget env binding.2) memory =
      (.ok values, left) →
    bindings[index]? = some binding →
    Calls limit ⟨budget + 1, env, .expr (.letIn bindings body), memory⟩
      (.part index) ⟨budget, env, .expr binding.2, left⟩
  | letBody {budget env bindings body memory values left} :
    outcome (bindings.mapM fun binding => evaluate limit budget env binding.2) memory =
      (.ok values, left) →
    Calls limit ⟨budget + 1, env, .expr (.letIn bindings body), memory⟩ (.part bindings.length)
      ⟨budget, left.newFrame (bindings.map Prod.fst) :: env, .body body,
        left.enter (bindings.map Prod.fst) values⟩
  | operator {budget env operator operands memory} :
    Calls limit ⟨budget + 1, env, .expr (.apply operator operands), memory⟩
      (.part 0) ⟨budget, env, .expr operator, memory⟩
  | operand {budget env operator operands memory procedure between index operand arguments left} :
    outcome (evaluate limit budget env operator) memory = (.ok procedure, between) →
    outcome ((operands.take index).mapM (evaluate limit budget env)) between =
      (.ok arguments, left) →
    operands[index]? = some operand →
    Calls limit ⟨budget + 1, env, .expr (.apply operator operands), memory⟩
      (.part (index + 1)) ⟨budget, env, .expr operand, left⟩
  | application {budget env operator operands memory stamp params body captured between arguments
      left} :
    outcome (evaluate limit budget env operator) memory =
      (.ok (.closure stamp params body captured), between) →
    outcome (operands.mapM (evaluate limit budget env)) between = (.ok arguments, left) →
    params.length = arguments.length →
    Calls limit ⟨budget + 1, env, .expr (.apply operator operands), memory⟩ (.body stamp)
      ⟨budget, left.newFrame params :: captured, .body body, left.enter params arguments⟩
  | forms {budget env form rest memory} :
    Calls limit ⟨budget + 1, env, .body (form :: rest), memory⟩ .same
      ⟨budget, env, .rest .unspecified (form :: rest), memory⟩
  | defined {budget env result name value rest memory} :
    Calls limit ⟨budget, env, .rest result (.define name value :: rest), memory⟩
      (.part 0) ⟨budget, .global, .expr value, memory⟩
  | afterDefine {budget env result name value rest memory content left} :
    outcome (evaluate limit budget .global value) memory = (.ok content, left) →
    Calls limit ⟨budget, env, .rest result (.define name value :: rest), memory⟩
      (.part 1) ⟨budget, .global, .rest .unspecified rest, left.define name content⟩
  | assigned {budget env result name value rest memory address} :
    env.find? memory.globals name = some address →
    Calls limit ⟨budget, env, .rest result (.assign name value :: rest), memory⟩
      (.part 0) ⟨budget, env, .expr value, memory⟩
  | afterAssign {budget env result name value rest memory address content left} :
    env.find? memory.globals name = some address →
    outcome (evaluate limit budget env value) memory = (.ok content, left) →
    Calls limit ⟨budget, env, .rest result (.assign name value :: rest), memory⟩
      (.part 1) ⟨budget, env, .rest .unspecified rest, left.write address content⟩
  | element {budget env result body rest memory} :
    Calls limit ⟨budget, env, .rest result (.expr body :: rest), memory⟩
      (.part 0) ⟨budget, env, .expr body, memory⟩
  | afterElement {budget env result body rest memory value left} :
    outcome (evaluate limit budget env body) memory = (.ok value, left) →
    Calls limit ⟨budget, env, .rest result (.expr body :: rest), memory⟩
      (.part 1) ⟨budget, env, .rest value rest, left⟩

/-- A point is reached from another through calls. -/
def Reaches (limit : Nat) : Point → Point → Prop :=
  Relation.ReflTransGen fun point next => ∃ turn, Calls limit point turn next

namespace Calls

variable {limit : Nat} {point next : Point}

/-- What is evaluated at a part is that part, in an environment with the names of its scope. -/
theorem part_eq {index : Nat} (call : Calls limit point (.part index) next) :
    (point.task.code.parts point.env.names)[index]? = some (next.env.names, next.task.code) := by
  cases call with
  | bound _ found =>
    obtain ⟨bound, rfl⟩ := List.getElem?_eq_some_iff.mp found
    simp [Task.code, List.getElem?_append_left, bound]
  | letBody _ => simp [Task.code]
  | operand _ _ found => simp [Task.code, found]
  | test | consequent | alternative | operator | defined | afterDefine | assigned | afterAssign
  | element | afterElement => rfl

theorem same_eq (call : Calls limit point .same next) :
    next.env = point.env ∧ next.task.code = point.task.code := by
  cases call
  exact ⟨rfl, rfl⟩

/-- The body of a closure runs in a new frame with the names of its parameters, on top of the
environment that the closure has captured. The closure is a value that the run has just computed. -/
theorem body_eq {stamp : Nat} (call : Calls limit point (.body stamp) next) :
    ∃ params body captured operator operands left,
      point.task = .expr (.apply operator operands) ∧
      Calls limit point (.part 0) ⟨next.budget, point.env, .expr operator, point.memory⟩ ∧
      Point.outcome limit ⟨next.budget, point.env, .expr operator, point.memory⟩ =
        (.ok (.closure stamp params body captured), left) ∧
      next.env.names = params :: captured.names ∧ next.env.tail = captured ∧
      next.task = .body body := by
  cases call with
  | application first _ _ =>
    exact ⟨_, _, _, _, _, _, rfl, .operator, first, by simp, rfl, rfl⟩

end Calls

end CellScheme
