import CellScheme.Proofs.Closure
import CellScheme.Proofs.DepthLimit

/-!
The course of an evaluation. The nested evaluations that an evaluation begins itself come one after
another, each at a moment of its own (`Calls.unique`). Between them memory stands still, and what
happens when the next one begins is said once, with the values answered so far: nothing, a definition,
an assignment, or a new frame (`Calls.begins`). When none is left the evaluation has its result
(`Stands.goes_on`). Every statement about the order of events in a run comes from these.
-/
namespace CellScheme

open Evaluation

/-- The number of a nested evaluation among those that the evaluation around it begins, in the order
of time. Only one of the two branches of a conditional is ever begun. -/
def Turn.moment (task : Task) : Turn → Nat
  | .part index =>
    match task with
    | .expr (.conditional _ _ _) => min index 1
    | _ => index
  | .same => 0
  | .body _ =>
    match task with
    | .expr (.apply _ operands) => operands.length + 1
    | _ => 0

/-- How many nested evaluations a task begins at most. -/
def Task.width : Task → Nat
  | .expr (.conditional _ _ _) => 2
  | .expr (.letIn bindings _) => bindings.length + 1
  | .expr (.apply _ operands) => operands.length + 2
  | .expr _ => 0
  | .body _ => 1
  | .rest _ _ => 2

/-- The memory that the evaluation leaves that begins at a point. -/
def Point.final (limit : Nat) (point : Point) : Memory :=
  (point.outcome limit).2

/-- Memory at a moment, between nested evaluations: where the evaluation begins, or where the last
nested one has succeeded. -/
inductive Stands (limit : Nat) (point : Point) : Nat → Memory → Prop
  | start : Stands limit point 0 point.memory
  | after {turn : Turn} {next : Point} {v : Value} {left : Memory} :
    Calls limit point turn next → next.outcome limit = (.ok v, left) →
    Stands limit point (turn.moment point.task + 1) left

/-- A nested evaluation before a moment has answered with a value. -/
def Answered (limit : Nat) (point : Point) (moment : Nat) (v : Value) : Prop :=
  ∃ turn next left, Calls limit point turn next ∧ turn.moment point.task < moment ∧
    next.outcome limit = (.ok v, left)

/-- What happens when a nested evaluation begins at a moment at which memory stands. -/
inductive Begins (limit : Nat) (point : Point) (moment : Nat) (left : Memory) : Point → Prop
  | kept {budget : Nat} {env : Environment} {task : Task} :
    env = point.env ∨ env = .global → (∀ forms, task ≠ .body forms) →
    (∀ v forms, task = .rest v forms → v = .unspecified ∨ Answered limit point moment v) →
    Begins limit point moment left ⟨budget, env, task, left⟩
  | define {budget : Nat} {result content : Value} {name : String} {value : Expr}
      {rest : List Form} :
    point.task = .rest result (.define name value :: rest) →
    Answered limit point moment content →
    Begins limit point moment left
      ⟨budget, .global, .rest .unspecified rest, left.define name content⟩
  | assign {budget : Nat} {result content : Value} {name : String} {value : Expr}
      {rest : List Form} {address : Address} :
    point.task = .rest result (.assign name value :: rest) →
    point.env.find? point.memory.globals name = some address →
    Answered limit point moment content →
    Begins limit point moment left
      ⟨budget, point.env, .rest .unspecified rest, left.write address content⟩
  | enter {budget : Nat} {names : List String} {values : List Value} {outer : Environment}
      {body : List Form} :
    names.length = values.length →
    (∀ v ∈ values, Answered limit point moment v) →
    outer = point.env ∨ (∃ stamp, Answered limit point moment (.closure stamp names body outer)) →
    Begins limit point moment left
      ⟨budget, left.newFrame names :: outer, .body body, left.enter names values⟩

/-- Where the value of an evaluation comes from that begins no further nested one. -/
inductive Yields (limit : Nat) (point : Point) (moment : Nat) (left : Memory) : Value → Prop
  | literal {v : Value} : v.isLiteral = true → Yields limit point moment left v
  | quoted {datum : Value} : point.task = .expr (.quoted datum) →
    Yields limit point moment left datum
  | lambda {stamp : Nat} {params : List String} {body : List Form} :
    point.task = .expr (.lambda stamp params body) →
    Yields limit point moment left (.closure stamp params body point.env)
  | fetched {address : Address} {v : Value} : left.store.read? address = some v →
    Yields limit point moment left v
  | assembled {arguments : List Value} {v : Value} :
    (∀ argument ∈ arguments, Answered limit point moment argument) → v.IsAssembled arguments →
    Yields limit point moment left v
  | answered {v : Value} : Answered limit point moment v → Yields limit point moment left v
  | kept {v : Value} : point.task = .rest v [] → Yields limit point moment left v

/-- No further nested evaluation begins: memory stays as it stands. -/
structure Finishes (limit : Nat) (point : Point) (moment : Nat) (left : Memory) : Prop where
  final : point.final limit = left
  yields : ∀ v, (point.outcome limit).1 = .ok v → Yields limit point moment left v

namespace Evaluation

variable {α β : Type} {each : α → Evaluation β} {items : List α} {memory left : Memory}
  {results : List β}

/-- One computation more. -/
theorem outcome_mapM_take_succ {index : Nat} {item : α} (found : items[index]? = some item) :
    outcome ((items.take (index + 1)).mapM each) memory = (.ok results, left) ↔
      ∃ values between result, outcome ((items.take index).mapM each) memory = (.ok values, between) ∧
        outcome (each item) between = (.ok result, left) ∧ results = values ++ [result] := by
  induction items generalizing index memory results with
  | nil => cases found
  | cons head rest ih =>
    cases index with
    | zero =>
      obtain rfl := Option.some.inj found
      simp only [List.take_succ_cons, List.take_zero, outcome_mapM_cons_ok]
      constructor
      · rintro ⟨result, _, _, success, nothing, rfl⟩
        cases nothing
        exact ⟨[], memory, result, rfl, success, rfl⟩
      · rintro ⟨_, _, result, nothing, success, rfl⟩
        cases nothing
        exact ⟨result, left, [], success, rfl, rfl⟩
    | succ index =>
      simp only [List.take_succ_cons, outcome_mapM_cons_ok]
      constructor
      · rintro ⟨first, between, others, success, further, rfl⟩
        obtain ⟨values, last, result, before, success', rfl⟩ := (ih found).mp further
        exact ⟨_, last, result, ⟨first, between, values, success, before, rfl⟩, success', rfl⟩
      · rintro ⟨_, last, result, ⟨first, between, values, success, before, rfl⟩, success', rfl⟩
        exact ⟨first, between, _, success, (ih found).mpr ⟨values, last, result, before, success', rfl⟩,
          rfl⟩

/-- Every result is that of one of the computations, after those before it. -/
theorem outcome_mapM_mem (success : outcome (items.mapM each) memory = (.ok results, left))
    {result : β} (member : result ∈ results) :
    ∃ index item values before after, items[index]? = some item ∧
      outcome ((items.take index).mapM each) memory = (.ok values, before) ∧
      outcome (each item) before = (.ok result, after) := by
  induction items generalizing memory results with
  | nil =>
    cases success
    cases member
  | cons head rest ih =>
    obtain ⟨first, between, others, here, further, rfl⟩ := outcome_mapM_cons_ok.mp success
    rcases List.mem_cons.mp member with rfl | inside
    · exact ⟨0, head, [], memory, between, rfl, rfl, here⟩
    · obtain ⟨index, item, values, before, after, found, taken, there⟩ := ih further inside
      refine ⟨index + 1, item, first :: values, before, after, found, ?_, there⟩
      exact outcome_mapM_cons_ok.mpr ⟨first, between, values, here, taken, rfl⟩

/-- The same for the results so far. -/
theorem outcome_mapM_take_mem {count : Nat}
    (success : outcome ((items.take count).mapM each) memory = (.ok results, left))
    {result : β} (member : result ∈ results) :
    ∃ index item values before after, index < count ∧ items[index]? = some item ∧
      outcome ((items.take index).mapM each) memory = (.ok values, before) ∧
      outcome (each item) before = (.ok result, after) := by
  obtain ⟨index, item, values, before, after, found, taken, there⟩ := outcome_mapM_mem success member
  rw [List.getElem?_take] at found
  split at found
  · rename_i less
    rw [List.take_take, Nat.min_eq_left (Nat.le_of_lt less)] at taken
    exact ⟨index, item, values, before, after, less, found, taken, there⟩
  · cases found

end Evaluation

section
variable {limit budget : Nat} {env : Environment} {memory between left : Memory}
  {bindings : List (String × Expr)} {body : List Form} {operator : Expr} {operands : List Expr}
  {procedure : Value} {values : List Value} {count : Nat}

/-- Memory stands where the bound values so far have been computed, and these are its answers. -/
theorem stands_bindings (most : count ≤ bindings.length)
    (ended : outcome ((bindings.take count).mapM fun binding => evaluate limit budget env binding.2)
      memory = (.ok values, left)) :
    Stands limit ⟨budget + 1, env, .expr (.letIn bindings body), memory⟩ count left ∧
      ∀ v ∈ values, Answered limit ⟨budget + 1, env, .expr (.letIn bindings body), memory⟩ count v := by
  constructor
  · cases count with
    | zero =>
      cases ended
      exact .start
    | succ index =>
      have found : bindings[index]? = some bindings[index] := List.getElem?_eq_getElem most
      obtain ⟨_, _, _, before, success, _⟩ := (outcome_mapM_take_succ found).mp ended
      exact .after (.bound before found) success
  · intro v member
    obtain ⟨index, binding, _, _, after, less, found, before, success⟩ :=
      outcome_mapM_take_mem ended member
    exact ⟨_, _, after, .bound before found, less, success⟩

/-- Memory stands where the operator and the operands so far have been evaluated, and their values
are its answers. -/
theorem stands_operands (first : outcome (evaluate limit budget env operator) memory =
      (.ok procedure, between)) (most : count ≤ operands.length)
    (ended : outcome ((operands.take count).mapM (evaluate limit budget env)) between =
      (.ok values, left)) :
    Stands limit ⟨budget + 1, env, .expr (.apply operator operands), memory⟩ (count + 1) left ∧
      ∀ v ∈ procedure :: values,
        Answered limit ⟨budget + 1, env, .expr (.apply operator operands), memory⟩ (count + 1) v := by
  constructor
  · cases count with
    | zero =>
      cases ended
      exact .after .operator first
    | succ index =>
      have found : operands[index]? = some operands[index] := List.getElem?_eq_getElem most
      obtain ⟨_, _, _, before, success, _⟩ := (outcome_mapM_take_succ found).mp ended
      exact .after (.operand first before found) success
  · intro v member
    rcases List.mem_cons.mp member with rfl | inside
    · exact ⟨_, _, between, .operator, Nat.succ_pos _, first⟩
    obtain ⟨index, operand, _, _, after, less, found, before, success⟩ :=
      outcome_mapM_take_mem ended inside
    exact ⟨_, _, after, .operand first before found, Nat.succ_lt_succ less, success⟩

end

variable {limit : Nat} {point next : Point} {turn : Turn}

theorem Calls.moment_lt_width (call : Calls limit point turn next) :
    turn.moment point.task < point.task.width := by
  cases call with
  | bound _ found =>
    exact Nat.lt_succ_of_lt (List.getElem?_eq_some_iff.mp found).1
  | operand _ _ found =>
    have less := (List.getElem?_eq_some_iff.mp found).1
    simp only [Turn.moment, Task.width]
    omega
  | test | consequent | alternative | letBody | operator | application | forms | defined | afterDefine
  | assigned | afterAssign | element | afterElement => simp [Turn.moment, Task.width]

/-- A nested evaluation begins at its moment, in the way in which one can begin. -/
theorem Calls.begins (call : Calls limit point turn next) :
    ∃ left, Stands limit point (turn.moment point.task) left ∧
      Begins limit point (turn.moment point.task) left next := by
  cases call with
  | test | operator | element => exact ⟨_, .start, .kept (.inl rfl) (by simp) (by simp)⟩
  | consequent ended _ | alternative ended _ =>
    exact ⟨_, .after .test ended, .kept (.inl rfl) (by simp) (by simp)⟩
  | bound ended found =>
    have less := (List.getElem?_eq_some_iff.mp found).1
    exact ⟨_, (stands_bindings (Nat.le_of_lt less) ended).1, .kept (.inl rfl) (by simp) (by simp)⟩
  | @letBody _ _ bindings _ _ _ _ ended =>
    have lengths := length_of_outcome_mapM ended
    rw [← bindings.take_length] at ended
    obtain ⟨stands, answered⟩ := stands_bindings (Nat.le_refl _) ended
    exact ⟨_, stands, .enter (by simp [lengths]) answered (.inl rfl)⟩
  | operand first ended found =>
    have less := (List.getElem?_eq_some_iff.mp found).1
    exact ⟨_, (stands_operands first (Nat.le_of_lt less) ended).1, .kept (.inl rfl) (by simp) (by simp)⟩
  | @application _ _ _ operands _ _ _ _ _ _ _ _ first ended aligned =>
    rw [← operands.take_length] at ended
    obtain ⟨stands, answered⟩ := stands_operands first (Nat.le_refl _) ended
    obtain ⟨closure, arguments⟩ := List.forall_mem_cons.mp answered
    exact ⟨_, stands, .enter aligned arguments (.inr ⟨_, closure⟩)⟩
  | forms =>
    refine ⟨_, .start, .kept (.inl rfl) (by simp) ?_⟩
    rintro _ _ ⟨⟩
    exact .inl rfl
  | defined => exact ⟨_, .start, .kept (.inr rfl) (by simp) (by simp)⟩
  | assigned _ => exact ⟨_, .start, .kept (.inl rfl) (by simp) (by simp)⟩
  | afterDefine ended =>
    exact ⟨_, .after .defined ended, .define rfl ⟨_, _, _, .defined, Nat.one_pos, ended⟩⟩
  | afterAssign found ended =>
    refine ⟨_, .after (.assigned found) ended, .assign rfl found ?_⟩
    exact ⟨_, _, _, .assigned found, Nat.one_pos, ended⟩
  | afterElement ended =>
    refine ⟨_, .after .element ended, .kept (.inl rfl) (by simp) ?_⟩
    rintro _ _ ⟨⟩
    exact .inr ⟨_, _, _, .element, Nat.one_pos, ended⟩

/-- Nested evaluations of one evaluation that begin at the same moment are the same. -/
theorem Calls.unique {turn' : Turn} {next' : Point} (call : Calls limit point turn next)
    (call' : Calls limit point turn' next')
    (same : turn.moment point.task = turn'.moment point.task) : next = next' := by
  cases call with
  | test =>
    cases call' with
    | test => rfl
    | consequent | alternative => cases same
  | consequent ended holds =>
    cases call' with
    | test => cases same
    | consequent ended' _ =>
      cases ended.symm.trans ended'
      rfl
    | alternative ended' fails =>
      cases ended.symm.trans ended'
      cases holds.symm.trans fails
  | alternative ended fails =>
    cases call' with
    | test => cases same
    | consequent ended' holds =>
      cases ended.symm.trans ended'
      cases holds.symm.trans fails
    | alternative ended' _ =>
      cases ended.symm.trans ended'
      rfl
  | bound ended found =>
    cases call' with
    | bound ended' found' =>
      obtain rfl : _ = _ := same
      cases ended.symm.trans ended'
      cases found.symm.trans found'
      rfl
    | letBody _ =>
      obtain rfl : _ = _ := same
      simp [Turn.moment] at found
  | letBody ended =>
    cases call' with
    | bound _ found' =>
      obtain rfl : _ = _ := same
      simp [Turn.moment] at found'
    | letBody ended' =>
      cases ended.symm.trans ended'
      rfl
  | operator =>
    cases call' with
    | operator => rfl
    | operand | application => cases same
  | operand first ended found =>
    cases call' with
    | operator => cases same
    | operand first' ended' found' =>
      obtain rfl : _ = _ := Nat.succ.inj same
      cases first.symm.trans first'
      cases ended.symm.trans ended'
      cases found.symm.trans found'
      rfl
    | application _ _ _ =>
      obtain rfl : _ = _ := Nat.succ.inj same
      simp at found
  | application first ended _ =>
    cases call' with
    | operator => cases same
    | operand _ _ found' =>
      obtain rfl : _ = _ := Nat.succ.inj same
      simp at found'
    | application first' ended' _ =>
      cases first.symm.trans first'
      cases ended.symm.trans ended'
      rfl
  | forms =>
    cases call'
    rfl
  | defined =>
    cases call' with
    | defined => rfl
    | afterDefine => cases same
  | afterDefine ended =>
    cases call' with
    | defined => cases same
    | afterDefine ended' =>
      cases ended.symm.trans ended'
      rfl
  | assigned _ =>
    cases call' with
    | assigned => rfl
    | afterAssign => cases same
  | afterAssign found ended =>
    cases call' with
    | assigned => cases same
    | afterAssign found' ended' =>
      cases found.symm.trans found'
      cases ended.symm.trans ended'
      rfl
  | element =>
    cases call' with
    | element => rfl
    | afterElement => cases same
  | afterElement ended =>
    cases call' with
    | element => cases same
    | afterElement ended' =>
      cases ended.symm.trans ended'
      rfl

/-- Memory stands in one way at a moment. -/
theorem Stands.unique {moment : Nat} {left left' : Memory} (stands : Stands limit point moment left)
    (stands' : Stands limit point moment left') : left = left' := by
  generalize same : moment = moment' at stands'
  cases stands with
  | start =>
    cases stands' with
    | start => rfl
    | after => cases same
  | after call ended =>
    cases stands' with
    | start => cases same
    | after call' ended' =>
      obtain rfl := call.unique call' (Nat.succ.inj same)
      cases ended.symm.trans ended'
      rfl

/-- At this moment a nested evaluation begins, or the evaluation has finished. -/
def GoesOn (limit : Nat) (point : Point) (moment : Nat) (left : Memory) : Prop :=
  (∃ turn next, Calls limit point turn next ∧ turn.moment point.task = moment) ∨
    Finishes limit point moment left

section
variable {budget : Nat} {env : Environment} {memory between left : Memory}

theorem Finishes.of_eq {moment : Nat} {result : Except Error Value}
    (ended : point.outcome limit = (result, left))
    (yields : ∀ v, result = .ok v → Yields limit point moment left v) :
    Finishes limit point moment left :=
  ⟨by rw [Point.final, ended], by rwa [ended]⟩

/-- A nested evaluation that is the last one has the result of the evaluation around it. -/
theorem Finishes.of_last {v : Value} (call : Calls limit point turn next)
    (ended : next.outcome limit = (.ok v, left)) (last : point.outcome limit = (.ok v, left)) :
    Finishes limit point (turn.moment point.task + 1) left := by
  refine .of_eq last ?_
  rintro _ ⟨⟩
  exact .answered ⟨_, _, _, call, Nat.lt_succ_self _, ended⟩

theorem goesOn_letIn {bindings : List (String × Expr)} {body : List Form} {values : List Value}
    {count : Nat} (most : count ≤ bindings.length)
    (ended : outcome ((bindings.take count).mapM fun binding => evaluate limit budget env binding.2)
      memory = (.ok values, left)) :
    GoesOn limit ⟨budget + 1, env, .expr (.letIn bindings body), memory⟩ count left := by
  rcases Nat.lt_or_eq_of_le most with less | rfl
  · exact .inl ⟨_, _, .bound ended (List.getElem?_eq_getElem less), rfl⟩
  · rw [List.take_length] at ended
    exact .inl ⟨_, _, .letBody ended, rfl⟩

theorem goesOn_apply {operator : Expr} {operands : List Expr} {procedure : Value}
    {values : List Value} {count : Nat}
    (first : outcome (evaluate limit budget env operator) memory = (.ok procedure, between))
    (most : count ≤ operands.length)
    (ended : outcome ((operands.take count).mapM (evaluate limit budget env)) between =
      (.ok values, left)) :
    GoesOn limit ⟨budget + 1, env, .expr (.apply operator operands), memory⟩ (count + 1) left := by
  rcases Nat.lt_or_eq_of_le most with less | rfl
  · exact .inl ⟨_, _, .operand first ended (List.getElem?_eq_getElem less), rfl⟩
  have answered := (stands_operands first (Nat.le_refl _) ended).2
  rw [List.take_length] at ended
  have applied : Point.outcome limit ⟨budget + 1, env, .expr (.apply operator operands), memory⟩ =
      outcome (applyProcedure (evaluateBody limit budget) procedure values) left := by
    simp only [Point.outcome, Point.evaluation, evaluate, outcome_bind, first, ended]
  cases procedure with
  | closure stamp params body captured =>
    by_cases aligned : params.length = values.length
    · exact .inl ⟨_, _, .application first ended aligned, rfl⟩
    · simp only [applyProcedure, if_neg aligned, outcome_throw] at applied
      exact .inr (.of_eq applied (by simp))
  | primitive p =>
    rw [applyProcedure, outcome_lift] at applied
    refine .inr (.of_eq applied fun v success => ?_)
    exact .assembled (List.forall_mem_cons.mp answered).2 (p.apply_assembles success)
  | number _ | symbol _ | string _ | boolean _ | list _ | unspecified =>
    exact .inr (.of_eq applied (by simp))

theorem goesOn_start : GoesOn limit point 0 point.memory := by
  obtain ⟨budget, env, task, memory⟩ := point
  match task, budget with
  | .rest result [], _ =>
    refine .inr (.of_eq rfl ?_)
    rintro _ ⟨⟩
    exact .kept rfl
  | .rest result (.define name value :: rest), _ => exact .inl ⟨_, _, .defined, rfl⟩
  | .rest result (.assign name value :: rest), budget =>
    cases found : env.find? memory.globals name with
    | some address => exact .inl ⟨_, _, .assigned found, rfl⟩
    | none =>
      have ended : Point.outcome limit ⟨budget, env, .rest result (.assign name value :: rest), memory⟩ =
          (.error (.unboundVariable name), memory) := by
        simp only [Point.outcome, Point.evaluation, evaluateForms, outcome_bind, outcome_resolve,
          found]
      exact .inr (.of_eq ended (by simp))
  | .rest result (.expr body :: rest), _ => exact .inl ⟨_, _, .element, rfl⟩
  | .expr body, 0 =>
    have exhausted : Point.IsExhausted ⟨0, env, .expr body, memory⟩ := ⟨rfl, by simp⟩
    exact .inr (.of_eq (Point.outcome_of_isExhausted limit exhausted) (by simp))
  | .body forms, 0 =>
    have exhausted : Point.IsExhausted ⟨0, env, .body forms, memory⟩ := ⟨rfl, by simp⟩
    exact .inr (.of_eq (Point.outcome_of_isExhausted limit exhausted) (by simp))
  | .body [], budget + 1 => exact .inr (.of_eq rfl (by simp))
  | .body (form :: rest), budget + 1 => exact .inl ⟨_, _, .forms, rfl⟩
  | .expr (.conditional _ _ _), budget + 1 => exact .inl ⟨_, _, .test, rfl⟩
  | .expr (.letIn _ _), budget + 1 => exact goesOn_letIn (Nat.zero_le _) rfl
  | .expr (.apply _ _), budget + 1 => exact .inl ⟨_, _, .operator, rfl⟩
  | .expr (.number _), budget + 1 | .expr (.boolean _), budget + 1 | .expr (.string _), budget + 1
  | .expr (.primitive _), budget + 1 =>
    refine .inr (.of_eq rfl ?_)
    rintro _ ⟨⟩
    exact .literal rfl
  | .expr (.quoted _), budget + 1 =>
    refine .inr (.of_eq rfl ?_)
    rintro _ ⟨⟩
    exact .quoted rfl
  | .expr (.lambda _ _ _), budget + 1 =>
    refine .inr (.of_eq rfl ?_)
    rintro _ ⟨⟩
    exact .lambda rfl
  | .expr (.variable name), budget + 1 =>
    have ended : Point.outcome limit ⟨budget + 1, env, .expr (.variable name), memory⟩ =
        outcome (do fetch (← resolve env name)) memory := rfl
    rw [outcome_bind, outcome_resolve] at ended
    cases found : env.find? memory.globals name with
    | none =>
      simp only [found] at ended
      exact .inr (.of_eq ended (by simp))
    | some address =>
      simp only [found, outcome_fetch] at ended
      refine .inr (.of_eq ended fun v success => ?_)
      split at success <;> cases success
      rename_i read
      exact .fetched read

/-- Wherever memory stands, the evaluation goes on. -/
theorem Stands.goes_on {moment : Nat} (stands : Stands limit point moment left) :
    GoesOn limit point moment left := by
  cases stands with
  | start => exact goesOn_start
  | after call ended =>
    cases call with
    | test =>
      cases holds : Value.isTrue _ with
      | true => exact .inl ⟨_, _, .consequent ended holds, rfl⟩
      | false => exact .inl ⟨_, _, .alternative ended holds, rfl⟩
    | consequent first holds =>
      refine .inr (.of_last (.consequent first holds) ended ?_)
      refine outcome_bind_ok.mpr ⟨_, _, first, ?_⟩
      rw [holds]
      exact ended
    | alternative first fails =>
      refine .inr (.of_last (.alternative first fails) ended ?_)
      refine outcome_bind_ok.mpr ⟨_, _, first, ?_⟩
      rw [fails]
      exact ended
    | bound before found =>
      have less := (List.getElem?_eq_some_iff.mp found).1
      have taken := (outcome_mapM_take_succ found).mpr ⟨_, _, _, before, ended, rfl⟩
      exact goesOn_letIn less taken
    | letBody before =>
      refine .inr (.of_last (.letBody before) ended ?_)
      have aligned := (length_of_outcome_mapM before).symm
      refine outcome_bind_ok.mpr ⟨_, _, before, ?_⟩
      exact outcome_bind_ok.mpr ⟨_, _, outcome_enter_eq (by simpa using aligned), ended⟩
    | operator => exact goesOn_apply ended (Nat.zero_le _) rfl
    | operand first before found =>
      have less := (List.getElem?_eq_some_iff.mp found).1
      have taken := (outcome_mapM_take_succ found).mpr ⟨_, _, _, before, ended, rfl⟩
      exact goesOn_apply first less taken
    | application first before aligned =>
      refine .inr (.of_last (.application first before aligned) ended ?_)
      refine outcome_bind_ok.mpr ⟨_, _, first, outcome_bind_ok.mpr ⟨_, _, before, ?_⟩⟩
      simp only [applyProcedure, if_pos aligned]
      exact outcome_bind_ok.mpr ⟨_, _, outcome_enter_eq aligned, ended⟩
    | forms => exact .inr (.of_last .forms ended ended)
    | defined => exact .inl ⟨_, _, .afterDefine ended, rfl⟩
    | afterDefine first =>
      refine .inr (.of_last (.afterDefine first) ended ?_)
      exact outcome_bind_ok.mpr ⟨_, _, first, outcome_bind_ok.mpr ⟨_, _, rfl, ended⟩⟩
    | assigned found => exact .inl ⟨_, _, .afterAssign found ended, rfl⟩
    | afterAssign found first =>
      refine .inr (.of_last (.afterAssign found first) ended ?_)
      refine outcome_bind_ok.mpr ⟨_, _, outcome_resolve_ok found, ?_⟩
      exact outcome_bind_ok.mpr ⟨_, _, first, outcome_bind_ok.mpr ⟨_, _, rfl, ended⟩⟩
    | element => exact .inl ⟨_, _, .afterElement ended, rfl⟩
    | afterElement first =>
      refine .inr (.of_last (.afterElement first) ended ?_)
      exact outcome_bind_ok.mpr ⟨_, _, first, ended⟩

end

end CellScheme
