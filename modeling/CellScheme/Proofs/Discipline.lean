import CellScheme.Proofs.Call
import CellScheme.Proofs.PrimitiveCall

/-!
Invariants of runs. A discipline says what holds of memory, of values, and of the places that are
evaluated, how memory moves, and which errors may end an evaluation; its laws are what the single
steps of the evaluator must keep. `Discipline.ends` and `Discipline.calls` carry it over whole runs:
to every result and error, and to every point that is reached.
-/
namespace CellScheme

open Evaluation

/-- What holds throughout a run, with the laws that the steps of a run must keep. A place is code
about to be evaluated in an environment. -/
structure Discipline where
  memory : Memory → Prop
  moves : Memory → Memory → Prop
  value : Memory → Value → Prop
  place : Memory → Environment → Code → Prop
  error : Error → Prop
  /-- Memory moves along a run by moves in a row. -/
  refl : ∀ m, moves m m
  trans : ∀ {m n k}, moves m n → moves n k → moves m k
  /-- What holds of a value or place goes on to hold. -/
  value_moves : ∀ {m n v}, moves m n → value m v → value n v
  place_moves : ∀ {m n env code}, moves m n → place m env code → place n env code
  /-- The parts of a place are places, in the same environment or in the global one. -/
  part : ∀ {m env code part inner}, place m env code → part ∈ code.parts env.names →
    inner = env ∨ inner = .global → inner.names = part.1 → place m inner part.2
  /-- Places yield values. -/
  literal : ∀ {m v}, v.isLiteral = true → value m v
  quoted : ∀ {m env datum}, place m env (.expr (.quoted datum)) → value m datum
  lambda : ∀ {m env stamp params body}, place m env (.expr (.lambda stamp params body)) →
    value m (.closure stamp params body env)
  fetch : ∀ {m env name address v}, memory m → place m env (.expr (.variable name)) →
    env.find? m.globals name = some address → m.store.read? address = some v → value m v
  assembled : ∀ {m arguments v}, (∀ argument ∈ arguments, value m argument) →
    v.IsAssembled arguments → value m v
  /-- The ways in which memory changes: a definition, an assignment to a cell found before its
  value was computed, and a new frame for a `let` or for an application. -/
  define : ∀ {m env name expr rest v}, memory m →
    place m env (.forms (.define name expr :: rest)) → value m v →
    memory (m.define name v) ∧ moves m (m.define name v)
  write : ∀ {m n env name expr rest address v}, memory m → memory n → moves m n →
    place m env (.forms (.assign name expr :: rest)) →
    env.find? m.globals name = some address → value n v →
    memory (n.write address v) ∧ moves n (n.write address v)
  enterLet : ∀ {m env bindings body values}, memory m →
    place m env (.expr (.letIn bindings body)) → bindings.length = values.length →
    (∀ v ∈ values, value m v) →
    memory (m.enter (bindings.map Prod.fst) values) ∧
      moves m (m.enter (bindings.map Prod.fst) values) ∧
      place (m.enter (bindings.map Prod.fst) values) (m.newFrame (bindings.map Prod.fst) :: env)
        (.forms body)
  enterBody : ∀ {m stamp params body captured values}, memory m →
    value m (.closure stamp params body captured) → params.length = values.length →
    (∀ v ∈ values, value m v) →
    memory (m.enter params values) ∧ moves m (m.enter params values) ∧
      place (m.enter params values) (m.newFrame params :: captured) (.forms body)
  /-- Errors: those that are raised, and those for want of a cell. -/
  raised : ∀ {e}, e.isRaised = true → error e
  illegal : ∀ {m env name address}, memory m → place m env (.expr (.variable name)) →
    env.find? m.globals name = some address → m.store.read? address = none →
    error (.illegalAddress address)

namespace Discipline

variable {limit : Nat} {α β : Type} (D : Discipline)

/-- A computation keeps a discipline when memory goes on to be good and has moved, and when the
result is good or the error is one that may happen. -/
def Keeps (evaluation : Evaluation α) (memory : Memory) (good : Memory → α → Prop) : Prop :=
  match outcome evaluation memory with
  | (.ok result, left) => D.memory left ∧ D.moves memory left ∧ good left result
  | (.error cause, left) => D.memory left ∧ D.moves memory left ∧ D.error cause

/-- Several values that are good. -/
def values (memory : Memory) (values : List Value) : Prop :=
  ∀ v ∈ values, D.value memory v

variable {D}

theorem Keeps.of_ok {evaluation : Evaluation α} {memory left : Memory}
    {good : Memory → α → Prop} {result : α} (keeps : D.Keeps evaluation memory good)
    (ends : outcome evaluation memory = (.ok result, left)) :
    D.memory left ∧ D.moves memory left ∧ good left result := by
  simpa only [Keeps, ends] using keeps

/-- A good result is also the one that the computation has. -/
theorem Keeps.witnessed {evaluation : Evaluation α} {memory : Memory} {good : Memory → α → Prop}
    (keeps : D.Keeps evaluation memory good) :
    D.Keeps evaluation memory fun left result =>
      good left result ∧ outcome evaluation memory = (.ok result, left) := by
  unfold Keeps at keeps ⊢
  generalize outcome evaluation memory = ended at keeps ⊢
  rcases ended with ⟨_ | _, left⟩
  · exact keeps
  · exact ⟨keeps.1, keeps.2.1, keeps.2.2, rfl⟩

theorem Keeps.pure {memory : Memory} {good : Memory → α → Prop} {result : α}
    (holds : D.memory memory) (fine : good memory result) :
    D.Keeps (pure result) memory good :=
  ⟨holds, D.refl memory, fine⟩

theorem Keeps.throw {memory : Memory} {good : Memory → α → Prop} {cause : Error}
    (holds : D.memory memory) (may : D.error cause) :
    D.Keeps (throw cause : Evaluation α) memory good :=
  ⟨holds, D.refl memory, may⟩

theorem Keeps.bind {first : Evaluation α} {next : α → Evaluation β} {memory : Memory}
    {middle : Memory → α → Prop} {good : Memory → β → Prop} (keeps : D.Keeps first memory middle)
    (keeps' : ∀ result left, D.memory left → D.moves memory left → middle left result →
      D.Keeps (next result) left good) :
    D.Keeps (first >>= next) memory good := by
  unfold Keeps at keeps ⊢
  rw [outcome_bind]
  generalize outcome first memory = ended at keeps ⊢
  rcases ended with ⟨_ | result, left⟩
  · exact keeps
  · obtain ⟨holds, moved, fine⟩ := keeps
    have after := keeps' result left holds moved fine
    unfold Keeps at after
    dsimp only
    generalize outcome (next result) left = ended at after ⊢
    rcases ended with ⟨_ | _, last⟩
    · exact ⟨after.1, D.trans moved after.2.1, after.2.2⟩
    · exact ⟨after.1, D.trans moved after.2.1, after.2.2⟩

/-- What is kept for each item, in whatever memory the items before it leave, is kept for all. -/
theorem Keeps.mapM {each : α → Evaluation Value} {items : List α} {memory : Memory}
    (holds : D.memory memory)
    (keeps : ∀ item ∈ items, ∀ left, D.memory left → D.moves memory left →
      D.Keeps (each item) left D.value) :
    D.Keeps (items.mapM each) memory D.values := by
  induction items generalizing memory with
  | nil => exact .pure holds (by simp [values])
  | cons head rest ih =>
    rw [List.mapM_cons]
    refine .bind (keeps head (by simp) memory holds (D.refl memory)) ?_
    intro result between holds' moved fine
    refine .bind (ih holds' fun item member left good moved' =>
      keeps item (by simp [member]) left good (D.trans moved moved')) ?_
    intro others left holds'' moved' fine'
    refine .pure holds'' fun v member => ?_
    rcases List.mem_cons.mp member with rfl | inside
    · exact D.value_moves moved' fine
    · exact fine' v inside

theorem Keeps.resolve {env : Environment} {name : String} {memory : Memory}
    (holds : D.memory memory) :
    D.Keeps (resolve env name) memory fun left address =>
      left = memory ∧ env.find? memory.globals name = some address := by
  unfold Keeps
  rw [outcome_resolve]
  cases env.find? memory.globals name with
  | some address => exact ⟨holds, D.refl memory, rfl, rfl⟩
  | none => exact ⟨holds, D.refl memory, D.raised rfl⟩

theorem Keeps.modify {change : Memory → Memory} {memory : Memory}
    (holds : D.memory (change memory)) (moved : D.moves memory (change memory)) :
    D.Keeps (modify change) memory fun after _ => after = change memory := by
  unfold Keeps
  rw [outcome_modify]
  exact ⟨holds, moved, rfl⟩

/-- All expressions in places are kept with a budget. In one level of evaluation this is assumed of
the recursive calls, and it is proved by induction on the budget. -/
def KeepsExprs (D : Discipline) (limit budget : Nat) : Prop :=
  ∀ {env expr memory}, D.memory memory → D.place memory env (.expr expr) →
    D.Keeps (evaluate limit budget env expr) memory D.value

/-- All bodies in places are kept with a budget. -/
def KeepsBodies (D : Discipline) (limit budget : Nat) : Prop :=
  ∀ {env forms memory}, D.memory memory → D.place memory env (.forms forms) →
    D.Keeps (evaluateBody limit budget env forms) memory D.value

variable {budget : Nat} {env : Environment} {memory : Memory}

/-- A part that stands in the environment of the place around it. -/
theorem part_here {code inner : Code} (placed : D.place memory env code)
    (member : (env.names, inner) ∈ code.parts env.names) : D.place memory env inner :=
  D.part placed member (.inl rfl) rfl

/-- A part that stands in the global environment. -/
theorem part_global {code inner : Code} (placed : D.place memory env code)
    (member : ([], inner) ∈ code.parts env.names) : D.place memory .global inner :=
  D.part placed member (.inr rfl) rfl

theorem keeps_variable {name : String} (holds : D.memory memory)
    (placed : D.place memory env (.expr (.variable name))) :
    D.Keeps (do Evaluation.fetch (← Evaluation.resolve env name)) memory D.value := by
  refine .bind (.resolve holds) ?_
  rintro address _ _ _ ⟨rfl, found⟩
  unfold Keeps
  rw [outcome_fetch]
  cases read : Store.read? _ address with
  | some v => exact ⟨holds, D.refl _, D.fetch holds placed found read⟩
  | none => exact ⟨holds, D.refl _, D.illegal holds placed found read⟩

theorem keeps_bindings (exprs : D.KeepsExprs limit budget) {bindings : List (String × Expr)}
    {body : List Form} (holds : D.memory memory)
    (placed : D.place memory env (.expr (.letIn bindings body)))
    {some : List (String × Expr)} (among : ∀ binding ∈ some, binding ∈ bindings) :
    D.Keeps (some.mapM fun binding => evaluate limit budget env binding.2) memory D.values := by
  refine .mapM holds fun binding member left good moved => exprs good ?_
  refine part_here (D.place_moves moved placed) ?_
  exact List.mem_append_left _ (List.mem_map.mpr ⟨binding, among binding member, rfl⟩)

theorem keeps_operands (exprs : D.KeepsExprs limit budget) {operator : Expr}
    {operands : List Expr} (holds : D.memory memory)
    (placed : D.place memory env (.expr (.apply operator operands)))
    {some : List Expr} (among : ∀ operand ∈ some, operand ∈ operands) :
    D.Keeps (some.mapM (evaluate limit budget env)) memory D.values := by
  refine .mapM holds fun operand member left good moved => exprs good ?_
  refine part_here (D.place_moves moved placed) ?_
  exact List.mem_cons_of_mem _ (List.mem_map.mpr ⟨operand, among operand member, rfl⟩)

theorem keeps_enter {names : List String} {values : List Value} {inner : Code}
    (aligned : names.length = values.length)
    (entered : D.memory (memory.enter names values) ∧ D.moves memory (memory.enter names values) ∧
      D.place (memory.enter names values) (memory.newFrame names :: env) inner) :
    D.Keeps (enter env names values) memory fun left inside => D.place left inside inner := by
  unfold Keeps
  rw [outcome_enter_eq aligned]
  exact entered

theorem keeps_apply (bodies : D.KeepsBodies limit budget) {procedure : Value}
    {arguments : List Value} (holds : D.memory memory) (fine : D.value memory procedure)
    (fine' : D.values memory arguments) :
    D.Keeps (applyProcedure (evaluateBody limit budget) procedure arguments) memory D.value := by
  cases procedure with
  | primitive p =>
    simp only [applyProcedure, Keeps, outcome_lift]
    cases applied : p.apply arguments with
    | ok v => exact ⟨holds, D.refl memory, D.assembled fine' (p.apply_assembles applied)⟩
    | error cause => exact ⟨holds, D.refl memory, D.raised (p.apply_raises arguments cause applied)⟩
  | closure stamp params body captured =>
    simp only [applyProcedure]
    split
    · rename_i aligned
      refine .bind (keeps_enter aligned (D.enterBody holds fine aligned fine')) ?_
      intro inside left good _ placed
      exact bodies good placed
    · exact .throw holds (D.raised rfl)
  | number _ | symbol _ | string _ | boolean _ | list _ | unspecified =>
    exact .throw holds (D.raised rfl)

theorem keeps_forms (exprs : D.KeepsExprs limit budget) {result : Value} {forms : List Form}
    (holds : D.memory memory) (placed : D.place memory env (.forms forms))
    (fine : D.value memory result) :
    D.Keeps (evaluateForms (evaluate limit budget) env result forms) memory D.value := by
  induction forms generalizing env result memory with
  | nil => exact .pure holds fine
  | cons form rest ih =>
    cases form with
    | define name value =>
      refine .bind (exprs holds (part_global placed (by simp))) ?_
      intro content left good moved fine'
      have here := D.place_moves moved placed
      have stepped := D.define good here fine'
      refine .bind (.modify stepped.1 stepped.2) ?_
      rintro _ _ good' _ rfl
      refine ih good' (part_global (D.place_moves stepped.2 here) (by simp)) ?_
      exact D.literal rfl
    | assign name value =>
      refine .bind (.resolve holds) ?_
      rintro address _ _ _ ⟨rfl, found⟩
      refine .bind (exprs holds (part_here placed (by simp))) ?_
      intro content left good moved fine'
      have stepped := D.write holds good moved placed found fine'
      refine .bind (.modify stepped.1 stepped.2) ?_
      rintro _ _ good' _ rfl
      have here := D.place_moves (D.trans moved stepped.2) placed
      exact ih good' (part_here here (by simp)) (D.literal rfl)
    | expr body =>
      refine .bind (exprs holds (part_here placed (by simp))) ?_
      intro v left good moved fine'
      exact ih good (part_here (D.place_moves moved placed) (by simp)) fine'

theorem keepsExprs_succ (exprs : D.KeepsExprs limit budget) (bodies : D.KeepsBodies limit budget) :
    D.KeepsExprs limit (budget + 1) := by
  intro env expr memory holds placed
  rw [evaluate.eq_def]
  dsimp only
  cases expr with
  | number _ | boolean _ | string _ | primitive _ => exact .pure holds (D.literal rfl)
  | quoted datum => exact .pure holds (D.quoted placed)
  | «variable» name => exact keeps_variable holds placed
  | conditional test consequent alternative =>
    refine .bind (exprs holds (part_here placed (by simp))) ?_
    intro v left good moved _
    have here := D.place_moves moved placed
    split
    · exact exprs good (part_here here (by simp))
    · exact exprs good (part_here here (by simp))
  | lambda stamp params body => exact .pure holds (D.lambda placed)
  | letIn bindings body =>
    refine .bind (keeps_bindings exprs holds placed fun _ member => member).witnessed ?_
    rintro values left good moved ⟨fine, ended⟩
    have lengths := (length_of_outcome_mapM ended).symm
    have entered := D.enterLet good (D.place_moves moved placed) lengths fine
    refine .bind (keeps_enter (by simpa using lengths) entered) ?_
    intro inside left' good' _ here
    exact bodies good' here
  | apply operator operands =>
    refine .bind (exprs holds (part_here placed (by simp))) ?_
    intro procedure between good moved fine
    refine .bind (keeps_operands exprs good (D.place_moves moved placed) fun _ member => member) ?_
    intro arguments left good' moved' fine'
    exact keeps_apply bodies good' (D.value_moves moved' fine) fine'

theorem keepsBodies_succ (exprs : D.KeepsExprs limit budget) : D.KeepsBodies limit (budget + 1) := by
  intro env forms memory holds placed
  cases forms with
  | nil => exact .throw holds (D.raised rfl)
  | cons form rest => exact keeps_forms exprs holds placed (D.literal rfl)

/-- Every evaluation keeps a discipline, with any budget. -/
theorem keeps (D : Discipline) (limit budget : Nat) :
    D.KeepsExprs limit budget ∧ D.KeepsBodies limit budget := by
  induction budget with
  | zero =>
    constructor
    · intro env expr memory holds _
      rw [evaluate.eq_def]
      exact .throw holds (D.raised rfl)
    · intro env forms memory holds _
      rw [evaluateBody.eq_def]
      exact .throw holds (D.raised rfl)
  | succ budget ih => exact ⟨keepsExprs_succ ih.1 ih.2, keepsBodies_succ ih.1⟩

/-- What a discipline asks of a point: good memory, a place, and a good result so far. -/
structure Holds (D : Discipline) (point : Point) : Prop where
  memory : D.memory point.memory
  place : D.place point.memory point.env point.task.code
  result : ∀ value forms, point.task = .rest value forms → D.value point.memory value

/-- What a discipline promises of the end of the evaluation that begins at a point. -/
structure Ends (D : Discipline) (limit : Nat) (point : Point) : Prop where
  memory : D.memory (point.outcome limit).2
  moves : D.moves point.memory (point.outcome limit).2
  value : ∀ v, (point.outcome limit).1 = .ok v → D.value (point.outcome limit).2 v
  error : ∀ e, (point.outcome limit).1 = .error e → D.error e

/-- However the evaluation that begins at a point ends, memory is good and has moved, and the
result is good or the error is one that may happen. -/
theorem ends (limit : Nat) {point : Point} (holds : D.Holds point) : D.Ends limit point := by
  have keeps : D.Keeps (point.evaluation limit) point.memory D.value := by
    obtain ⟨budget, env, task, memory⟩ := point
    cases task with
    | expr body => exact (D.keeps limit budget).1 holds.memory holds.place
    | body forms => exact (D.keeps limit budget).2 holds.memory holds.place
    | rest value forms =>
      exact keeps_forms (D.keeps limit budget).1 holds.memory holds.place (holds.result _ _ rfl)
  unfold Keeps at keeps
  rw [← Point.outcome] at keeps
  rcases ended : point.outcome limit with ⟨e | v, left⟩ <;> rw [ended] at keeps
  · constructor <;> rw [ended]
    · exact keeps.1
    · exact keeps.2.1
    · simp
    · rintro _ ⟨⟩
      exact keeps.2.2
  · constructor <;> rw [ended]
    · exact keeps.1
    · exact keeps.2.1
    · rintro _ ⟨⟩
      exact keeps.2.2
    · simp

/-- A task other than the rest of a sequence has no result so far. -/
theorem Holds.here {point : Point} (memory : D.memory point.memory)
    (place : D.place point.memory point.env point.task.code)
    (start : ∀ value forms, point.task ≠ .rest value forms) : D.Holds point :=
  ⟨memory, place, fun value forms task => absurd task (start value forms)⟩

/-- A value computed at a place. -/
theorem evaluated {expr : Expr} {v : Value} {left : Memory} (holds : D.memory memory)
    (placed : D.place memory env (.expr expr))
    (ended : outcome (evaluate limit budget env expr) memory = (.ok v, left)) :
    D.memory left ∧ D.moves memory left ∧ D.value left v :=
  ((D.keeps limit budget).1 holds placed).of_ok ended

theorem calls_letIn {bindings some : List (String × Expr)} {body : List Form}
    {values : List Value} {left : Memory} (holds : D.memory memory)
    (placed : D.place memory env (.expr (.letIn bindings body)))
    (among : ∀ binding ∈ some, binding ∈ bindings)
    (ended : outcome (some.mapM fun binding => evaluate limit budget env binding.2) memory =
      (.ok values, left)) :
    D.memory left ∧ D.moves memory left ∧ D.values left values :=
  (keeps_bindings (D.keeps limit budget).1 holds placed among).of_ok ended

theorem calls_apply {operator : Expr} {operands some : List Expr} {procedure : Value}
    {arguments : List Value} {between left : Memory} (holds : D.memory memory)
    (placed : D.place memory env (.expr (.apply operator operands)))
    (first : outcome (evaluate limit budget env operator) memory = (.ok procedure, between))
    (among : ∀ operand ∈ some, operand ∈ operands)
    (others : outcome (some.mapM (evaluate limit budget env)) between = (.ok arguments, left)) :
    D.memory left ∧ D.moves memory left ∧ D.value left procedure ∧ D.values left arguments := by
  obtain ⟨good, moved, fine⟩ := evaluated holds (part_here placed (by simp)) first
  obtain ⟨good', moved', fine'⟩ :=
    (keeps_operands (D.keeps limit budget).1 good (D.place_moves moved placed) among).of_ok others
  exact ⟨good', D.trans moved moved', D.value_moves moved' fine, fine'⟩

/-- A discipline that holds at a point holds at every point that it calls, and memory has moved. -/
theorem calls {point next : Point} {turn : Turn} (holds : D.Holds point)
    (call : Calls limit point turn next) :
    D.Holds next ∧ D.moves point.memory next.memory := by
  obtain ⟨memory, place, result⟩ := holds
  cases call with
  | test | operator =>
    exact ⟨.here memory (part_here place (by simp [Task.code])) (by simp), D.refl _⟩
  | consequent ended _ | alternative ended _ =>
    obtain ⟨good, moved, _⟩ :=
      evaluated memory (part_here place (by simp [Task.code])) ended
    have here := D.place_moves moved place
    exact ⟨.here good (part_here here (by simp [Task.code])) (by simp), moved⟩
  | bound ended found =>
    obtain ⟨good, moved, _⟩ := calls_letIn memory place (fun _ => List.mem_of_mem_take) ended
    have member := List.mem_of_getElem? found
    have here := D.place_moves moved place
    refine ⟨.here good (part_here here ?_) (by simp), moved⟩
    exact List.mem_append_left _ (List.mem_map.mpr ⟨_, member, rfl⟩)
  | letBody ended =>
    obtain ⟨good, moved, fine⟩ := calls_letIn memory place (fun _ member => member) ended
    have lengths := (length_of_outcome_mapM ended).symm
    obtain ⟨good', moved', inside⟩ := D.enterLet good (D.place_moves moved place) lengths fine
    exact ⟨.here good' inside (by simp), D.trans moved moved'⟩
  | operand first others found =>
    obtain ⟨good, moved, _⟩ := calls_apply memory place first (fun _ => List.mem_of_mem_take) others
    have member := List.mem_of_getElem? found
    have here := D.place_moves moved place
    refine ⟨.here good (part_here here ?_) (by simp), moved⟩
    exact List.mem_cons_of_mem _ (List.mem_map.mpr ⟨_, member, rfl⟩)
  | application first others aligned =>
    obtain ⟨good, moved, fine, fine'⟩ :=
      calls_apply memory place first (fun _ member => member) others
    obtain ⟨good', moved', inside⟩ := D.enterBody good fine aligned fine'
    exact ⟨.here good' inside (by simp), D.trans moved moved'⟩
  | forms =>
    refine ⟨⟨memory, place, ?_⟩, D.refl _⟩
    intro value forms task
    cases task
    exact D.literal rfl
  | defined =>
    exact ⟨.here memory (part_global place (by simp [Task.code])) (by simp), D.refl _⟩
  | assigned _ | element =>
    exact ⟨.here memory (part_here place (by simp [Task.code])) (by simp), D.refl _⟩
  | afterDefine ended =>
    obtain ⟨good, moved, fine⟩ :=
      evaluated memory (part_global place (by simp [Task.code])) ended
    have here := D.place_moves moved place
    obtain ⟨good', moved'⟩ := D.define good here fine
    refine ⟨⟨good', part_global (D.place_moves moved' here) (by simp [Task.code]), ?_⟩,
      D.trans moved moved'⟩
    intro value forms task
    cases task
    exact D.literal rfl
  | afterAssign found ended =>
    obtain ⟨good, moved, fine⟩ :=
      evaluated memory (part_here place (by simp [Task.code])) ended
    obtain ⟨good', moved'⟩ := D.write memory good moved place found fine
    have here := D.place_moves (D.trans moved moved') place
    refine ⟨⟨good', part_here here (by simp [Task.code]), ?_⟩, D.trans moved moved'⟩
    intro value forms task
    cases task
    exact D.literal rfl
  | afterElement ended =>
    obtain ⟨good, moved, fine⟩ :=
      evaluated memory (part_here place (by simp [Task.code])) ended
    have here := D.place_moves moved place
    refine ⟨⟨good, part_here here (by simp [Task.code]), ?_⟩, moved⟩
    intro value forms task
    cases task
    exact fine

/-- A body is begun in a new frame, made after everything that came before it. -/
theorem calls_body {point next : Point} {turn : Turn} (holds : D.Holds point)
    (call : Calls limit point turn next) {body : List Form} (task : next.task = .body body) :
    ∃ left names values outer, D.memory left ∧ D.moves point.memory left ∧
      names.length = values.length ∧ next.env = left.newFrame names :: outer ∧
      next.memory = left.enter names values := by
  obtain ⟨memory, place, _⟩ := holds
  cases call with
  | letBody ended =>
    obtain ⟨good, moved, _⟩ := calls_letIn memory place (fun _ member => member) ended
    have lengths := length_of_outcome_mapM ended
    exact ⟨_, _, _, _, good, moved, by simp [lengths], rfl, rfl⟩
  | application first others aligned =>
    obtain ⟨good, moved, _⟩ := calls_apply memory place first (fun _ member => member) others
    exact ⟨_, _, _, _, good, moved, aligned, rfl, rfl⟩
  | test | consequent | alternative | bound | operator | operand | forms | defined | afterDefine
  | assigned | afterAssign | element | afterElement => cases task

/-- A discipline that holds at a point holds at every point reached from it. -/
theorem reaches {point next : Point} (holds : D.Holds point) (reached : Reaches limit point next) :
    D.Holds next ∧ D.moves point.memory next.memory := by
  induction reached with
  | refl => exact ⟨holds, D.refl _⟩
  | tail _ call ih =>
    obtain ⟨_, call⟩ := call
    obtain ⟨good, moved⟩ := calls ih.1 call
    exact ⟨good, D.trans ih.2 moved⟩

end Discipline

end CellScheme
