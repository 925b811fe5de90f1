import CellScheme.Proofs.Discipline
import CellScheme.Session
import Mathlib.Data.Nat.Find

/-!
The depth limit as a cut-off. A run fails at a depth check exactly when it reaches a point with no
level left (`Point.cut_iff_exhausts`), so errors of nested evaluations are neither lost nor
replaced. A run that no check has failed goes on in the same way with any more levels
(`Agrees.task`). Hence there is one threshold for each evaluation: below it the limit is reported,
and from it on the limit makes no difference (`Session.limit_is_cutoff`).
-/
namespace CellScheme

open Evaluation

/-- A computation under a limit agrees with another one when they have the same outcome from every
memory from which the first is not cut off by its limit. -/
def Agrees {α : Type} (limit : Nat) (short long : Evaluation α) : Prop :=
  ∀ memory, (∃ left, outcome short memory = (.error (.run (.depthLimit limit)), left)) ∨
    outcome long memory = outcome short memory

namespace Agrees

variable {α β : Type} {limit : Nat}

theorem refl (limit : Nat) (evaluation : Evaluation α) : Agrees limit evaluation evaluation :=
  fun _ => .inr rfl

theorem bind {short long : Evaluation α} {next next' : α → Evaluation β}
    (agrees : Agrees limit short long) (agrees' : ∀ a, Agrees limit (next a) (next' a)) :
    Agrees limit (short >>= next) (long >>= next') := by
  intro memory
  rw [outcome_bind, outcome_bind]
  rcases agrees memory with ⟨left, cut⟩ | same
  · exact .inl ⟨left, by rw [cut]⟩
  · rw [same]
    rcases outcome short memory with ⟨error | a, left⟩
    · exact .inr rfl
    · exact agrees' a left

theorem mapM {each each' : α → Evaluation β} (agrees : ∀ a, Agrees limit (each a) (each' a))
    (items : List α) : Agrees limit (items.mapM each) (items.mapM each') := by
  induction items with
  | nil => exact .refl limit _
  | cons head rest ih =>
    rw [List.mapM_cons, List.mapM_cons]
    exact (agrees head).bind fun _ => ih.bind fun _ => .refl limit _

theorem forms {each each' : Environment → Expr → Evaluation Value}
    (agrees : ∀ env expr, Agrees limit (each env expr) (each' env expr)) (env : Environment)
    (result : Value) (forms : List Form) :
    Agrees limit (evaluateForms each env result forms) (evaluateForms each' env result forms) := by
  induction forms generalizing env result with
  | nil => exact .refl limit _
  | cons form rest ih =>
    cases form with
    | define name value =>
      exact (agrees .global value).bind fun _ => (refl limit _).bind fun _ => ih .global _
    | assign name value =>
      exact (refl limit _).bind fun _ =>
        (agrees env value).bind fun _ => (refl limit _).bind fun _ => ih env _
    | expr body => exact (agrees env body).bind fun _ => ih env _

theorem apply {each each' : Environment → List Form → Evaluation Value}
    (agrees : ∀ env forms, Agrees limit (each env forms) (each' env forms)) (procedure : Value)
    (arguments : List Value) :
    Agrees limit (applyProcedure each procedure arguments)
      (applyProcedure each' procedure arguments) := by
  cases procedure with
  | closure stamp params body captured =>
    simp only [applyProcedure]
    split
    · exact (refl limit _).bind fun inner => agrees inner body
    · exact .refl limit _
  | number _ | symbol _ | string _ | boolean _ | list _ | primitive _ | unspecified =>
    exact .refl limit _

/-- Evaluation with more levels, under whatever limit, agrees with evaluation with fewer. -/
theorem levels {limit' budget budget' : Nat} (more : budget ≤ budget') :
    (∀ env expr, Agrees limit (evaluate limit budget env expr) (evaluate limit' budget' env expr)) ∧
      ∀ env forms, Agrees limit (evaluateBody limit budget env forms)
        (evaluateBody limit' budget' env forms) := by
  induction budget generalizing budget' with
  | zero =>
    constructor
    · intro env expr memory
      exact .inl ⟨memory, by rw [evaluate.eq_def]; rfl⟩
    · intro env forms memory
      exact .inl ⟨memory, by rw [evaluateBody.eq_def]; rfl⟩
  | succ budget ih =>
    obtain ⟨budget', rfl⟩ : ∃ further, budget' = further + 1 := ⟨budget' - 1, by omega⟩
    obtain ⟨exprs, bodies⟩ := @ih budget' (by omega)
    constructor
    · intro env expr
      rw [evaluate.eq_def, evaluate.eq_def]
      cases expr with
      | number _ | boolean _ | string _ | primitive _ | quoted _ | «variable» _ | lambda _ _ _ =>
        exact .refl limit _
      | conditional test consequent alternative =>
        refine (exprs env test).bind fun value => ?_
        split
        · exact exprs env consequent
        · exact exprs env alternative
      | letIn bindings body =>
        exact (mapM (fun binding => exprs env binding.2) bindings).bind fun _ =>
          (refl limit _).bind fun inner => bodies inner body
      | apply operator operands =>
        exact (exprs env operator).bind fun procedure =>
          (mapM (exprs env) operands).bind fun arguments => apply bodies procedure arguments
    · intro env forms
      cases forms with
      | nil => exact .refl limit _
      | cons form rest => exact Agrees.forms exprs env _ _

end Agrees

namespace Evaluation

variable {α β : Type} {memory left : Memory} {e : Error}

/-- Two computations in a row fail when the first one does, or when the second does from where the
first has ended. -/
theorem outcome_bind_error {first : Evaluation α} {next : α → Evaluation β} :
    outcome (first >>= next) memory = (.error e, left) ↔
      outcome first memory = (.error e, left) ∨
        ∃ middle between, outcome first memory = (.ok middle, between) ∧
          outcome (next middle) between = (.error e, left) := by
  rw [outcome_bind]
  rcases outcome first memory with ⟨_ | middle, between⟩ <;> simp

/-- Several computations fail when one of them does, from where those before it have ended. -/
theorem outcome_mapM_error {each : α → Evaluation β} {items : List α} :
    outcome (items.mapM each) memory = (.error e, left) ↔
      ∃ index item results between,
        outcome ((items.take index).mapM each) memory = (.ok results, between) ∧
          items[index]? = some item ∧ outcome (each item) between = (.error e, left) := by
  induction items generalizing memory with
  | nil =>
    constructor
    · intro failure
      cases failure
    · rintro ⟨index, item, _, _, _, found, _⟩
      cases found
  | cons head rest ih =>
    rw [List.mapM_cons, outcome_bind_error]
    constructor
    · rintro (failure | ⟨result, between, success, further⟩)
      · exact ⟨0, head, [], memory, rfl, rfl, failure⟩
      · rcases outcome_bind_error.mp further with failure | ⟨_, _, _, failure⟩
        · obtain ⟨index, item, results, middle, before, found, last⟩ := ih.mp failure
          refine ⟨index + 1, item, result :: results, middle, ?_, found, last⟩
          exact outcome_mapM_cons_ok.mpr ⟨result, between, results, success, before, rfl⟩
        · cases failure
    · rintro ⟨index, item, results, between, before, found, failure⟩
      cases index with
      | zero =>
        cases before
        cases found
        exact .inl failure
      | succ index =>
        obtain ⟨result, middle, others, success, before', _⟩ := outcome_mapM_cons_ok.mp before
        have inner := ih.mpr ⟨index, item, others, between, before', found, failure⟩
        exact .inr ⟨result, middle, success, outcome_bind_error.mpr (.inl inner)⟩

theorem outcome_resolve_ok {env : Environment} {name : String} {address : Address}
    (found : env.find? memory.globals name = some address) :
    outcome (resolve env name) memory = (.ok address, memory) := by
  rw [outcome_resolve, found]

end Evaluation

/-- An error of a nested evaluation is the error of the evaluation around it, and ends it there. -/
theorem Calls.outcome_error {limit : Nat} {point next : Point} {turn : Turn}
    (call : Calls limit point turn next) {e : Error} {left : Memory}
    (failure : next.outcome limit = (.error e, left)) :
    point.outcome limit = (.error e, left) := by
  unfold Point.outcome Point.evaluation at failure ⊢
  cases call with
  | test | operator | defined | element => exact outcome_bind_error.mpr (.inl failure)
  | consequent ended holds | alternative ended holds =>
    refine outcome_bind_error.mpr (.inr ⟨_, _, ended, ?_⟩)
    rw [holds]
    exact failure
  | bound ended found =>
    have inner := outcome_mapM_error.mpr ⟨_, _, _, _, ended, found, failure⟩
    exact outcome_bind_error.mpr (.inl inner)
  | letBody ended =>
    have aligned := (length_of_outcome_mapM ended).symm
    refine outcome_bind_error.mpr (.inr ⟨_, _, ended, ?_⟩)
    refine outcome_bind_error.mpr (.inr ⟨_, _, outcome_enter_eq (by simpa using aligned), ?_⟩)
    exact failure
  | operand ended ended' found =>
    have inner := outcome_mapM_error.mpr ⟨_, _, _, _, ended', found, failure⟩
    exact outcome_bind_error.mpr (.inr ⟨_, _, ended, outcome_bind_error.mpr (.inl inner)⟩)
  | application ended ended' aligned =>
    refine outcome_bind_error.mpr (.inr ⟨_, _, ended, ?_⟩)
    refine outcome_bind_error.mpr (.inr ⟨_, _, ended', ?_⟩)
    simp only [applyProcedure, if_pos aligned]
    exact outcome_bind_error.mpr (.inr ⟨_, _, outcome_enter_eq aligned, failure⟩)
  | forms => exact failure
  | afterDefine ended =>
    refine outcome_bind_error.mpr (.inr ⟨_, _, ended, ?_⟩)
    exact outcome_bind_error.mpr (.inr ⟨_, _, rfl, failure⟩)
  | assigned found =>
    refine outcome_bind_error.mpr (.inr ⟨_, _, outcome_resolve_ok found, ?_⟩)
    exact outcome_bind_error.mpr (.inl failure)
  | afterAssign found ended =>
    refine outcome_bind_error.mpr (.inr ⟨_, _, outcome_resolve_ok found, ?_⟩)
    refine outcome_bind_error.mpr (.inr ⟨_, _, ended, ?_⟩)
    exact outcome_bind_error.mpr (.inr ⟨_, _, rfl, failure⟩)
  | afterElement ended => exact outcome_bind_error.mpr (.inr ⟨_, _, ended, failure⟩)

namespace Point

variable {limit n : Nat} {point : Point} {left : Memory}

/-- A point at which a depth check fails: no level is left there. Only an expression and a whole
sequence are checked, not what is left of a sequence. -/
def IsExhausted (point : Point) : Prop :=
  point.budget = 0 ∧ ∀ result forms, point.task ≠ .rest result forms

/-- A run that reaches a point at which a depth check fails. -/
def Exhausts (limit : Nat) (point : Point) : Prop :=
  ∃ next, Reaches limit point next ∧ next.IsExhausted

theorem outcome_of_isExhausted (limit : Nat) (exhausted : point.IsExhausted) :
    point.outcome limit = (.error (.run (.depthLimit limit)), point.memory) := by
  obtain ⟨budget, env, task, memory⟩ := point
  obtain ⟨rfl, checked⟩ := exhausted
  cases task with
  | expr body => rw [outcome, evaluation]; dsimp only; rw [evaluate.eq_def]; rfl
  | body forms => rw [outcome, evaluation]; dsimp only; rw [evaluateBody.eq_def]; rfl
  | rest result forms => exact absurd rfl (checked result forms)

/-- A nested evaluation ends with the depth error of some limit. -/
def CallsCut (limit : Nat) (point : Point) (n : Nat) (left : Memory) : Prop :=
  ∃ turn next, Calls limit point turn next ∧
    next.outcome limit = (.error (.run (.depthLimit n)), left)

section
variable {budget : Nat} {env : Environment} {memory : Memory}

theorem callsCut_rest {result : Value} {forms : List Form}
    (cut : Point.outcome limit ⟨budget, env, .rest result forms, memory⟩ =
      (.error (.run (.depthLimit n)), left)) :
    CallsCut limit ⟨budget, env, .rest result forms, memory⟩ n left := by
  cases forms with
  | nil => cases cut
  | cons form rest =>
    cases form with
    | define name value =>
      rcases outcome_bind_error.mp cut with failure | ⟨content, between, success, further⟩
      · exact ⟨_, _, .defined, failure⟩
      · exact ⟨_, _, .afterDefine success, further⟩
    | assign name value =>
      rcases outcome_bind_error.mp cut with failure | ⟨address, _, resolved, further⟩
      · rw [outcome_resolve] at failure
        split at failure <;> cases failure
      rw [outcome_resolve] at resolved
      split at resolved <;> cases resolved
      rename_i found
      rcases outcome_bind_error.mp further with failure | ⟨content, between, success, further⟩
      · exact ⟨_, _, .assigned found, failure⟩
      · exact ⟨_, _, .afterAssign found success, further⟩
    | expr body =>
      rcases outcome_bind_error.mp cut with failure | ⟨value, between, success, further⟩
      · exact ⟨_, _, .element, failure⟩
      · exact ⟨_, _, .afterElement success, further⟩

/-- Applying a procedure meets a depth error in the body of a closure only. -/
theorem cut_of_applyProcedure {procedure : Value} {arguments : List Value}
    (cut : Evaluation.outcome (applyProcedure (evaluateBody limit budget) procedure arguments) memory =
      (.error (.run (.depthLimit n)), left)) :
    ∃ stamp params body captured, procedure = .closure stamp params body captured ∧
      params.length = arguments.length ∧
      Point.outcome limit ⟨budget, memory.newFrame params :: captured, .body body,
        memory.enter params arguments⟩ = (.error (.run (.depthLimit n)), left) := by
  cases procedure with
  | primitive p =>
    rw [applyProcedure, outcome_lift] at cut
    have operational := p.apply_operates arguments _ (congrArg Prod.fst cut)
    cases operational
  | closure stamp params body captured =>
    by_cases aligned : params.length = arguments.length
    · simp only [applyProcedure, if_pos aligned, outcome_bind, outcome_enter_eq aligned] at cut
      exact ⟨stamp, params, body, captured, rfl, aligned, cut⟩
    · simp only [applyProcedure, if_neg aligned] at cut
      cases cut
  | number _ | symbol _ | string _ | boolean _ | list _ | unspecified => cases cut

theorem callsCut_expr {expr : Expr}
    (cut : Point.outcome limit ⟨budget + 1, env, .expr expr, memory⟩ =
      (.error (.run (.depthLimit n)), left)) :
    CallsCut limit ⟨budget + 1, env, .expr expr, memory⟩ n left := by
  cases expr with
  | number _ | boolean _ | string _ | primitive _ | quoted _ | lambda _ _ _ => cases cut
  | «variable» name =>
    rcases outcome_bind_error.mp cut with failure | ⟨address, between, _, failure⟩
    · rw [outcome_resolve] at failure
      split at failure <;> cases failure
    · rw [outcome_fetch] at failure
      split at failure <;> cases failure
  | conditional test consequent alternative =>
    rcases outcome_bind_error.mp cut with failure | ⟨value, between, success, further⟩
    · exact ⟨_, _, .test, failure⟩
    cases holds : value.isTrue with
    | true =>
      rw [holds] at further
      exact ⟨_, _, .consequent success holds, further⟩
    | false =>
      rw [holds] at further
      exact ⟨_, _, .alternative success holds, further⟩
  | letIn bindings body =>
    rcases outcome_bind_error.mp cut with failure | ⟨values, between, success, further⟩
    · obtain ⟨index, binding, results, middle, before, found, last⟩ :=
        outcome_mapM_error.mp failure
      exact ⟨_, _, .bound before found, last⟩
    · have aligned := (length_of_outcome_mapM success).symm
      rw [outcome_bind, outcome_enter_eq (by simpa using aligned)] at further
      exact ⟨_, _, .letBody success, further⟩
  | apply operator operands =>
    rcases outcome_bind_error.mp cut with failure | ⟨procedure, between, success, further⟩
    · exact ⟨_, _, .operator, failure⟩
    rcases outcome_bind_error.mp further with failure | ⟨arguments, last, success', applied⟩
    · obtain ⟨index, operand, results, middle, before, found, last⟩ :=
        outcome_mapM_error.mp failure
      exact ⟨_, _, .operand success before found, last⟩
    · obtain ⟨stamp, params, body, captured, rfl, aligned, failure⟩ := cut_of_applyProcedure applied
      exact ⟨_, _, .application success success' aligned, failure⟩

end

/-- A depth error comes from a depth check at the point itself or from a nested evaluation. -/
theorem isExhausted_or_callsCut
    (cut : point.outcome limit = (.error (.run (.depthLimit n)), left)) :
    (point.IsExhausted ∧ n = limit) ∨ CallsCut limit point n left := by
  obtain ⟨budget, env, task, memory⟩ := point
  by_cases exhausted : IsExhausted ⟨budget, env, task, memory⟩
  · rw [outcome_of_isExhausted limit exhausted] at cut
    cases cut
    exact .inl ⟨exhausted, rfl⟩
  refine .inr ?_
  cases task with
  | rest result forms => exact callsCut_rest cut
  | body forms =>
    obtain ⟨further, rfl⟩ : ∃ further, budget = further + 1 :=
      Nat.exists_eq_succ_of_ne_zero fun none => exhausted ⟨none, by simp⟩
    cases forms with
    | nil => cases cut
    | cons form rest => exact ⟨_, _, .forms, cut⟩
  | expr body =>
    obtain ⟨further, rfl⟩ : ∃ further, budget = further + 1 :=
      Nat.exists_eq_succ_of_ne_zero fun none => exhausted ⟨none, by simp⟩
    exact callsCut_expr cut

/-- What every call makes smaller: the levels that are left, and with the same number of levels the
forms that are left of a sequence. -/
def rank (point : Point) : Nat × Nat :=
  match point.task with
  | .expr _ | .body _ => (point.budget, 0)
  | .rest _ forms => (point.budget, forms.length + 1)

theorem rank_lt_of_calls {next : Point} {turn : Turn} (call : Calls limit point turn next) :
    Prod.Lex (· < ·) (· < ·) next.rank point.rank := by
  cases call with
  | test | consequent | alternative | bound | letBody | operator | operand | application | forms =>
    exact .left _ _ (Nat.lt_succ_self _)
  | defined | afterDefine | assigned | afterAssign | element | afterElement =>
    exact .right _ (by simp)

/-- A run ends with a depth error exactly when it reaches a point at which a depth check fails; the
error tells the limit of the run. -/
theorem cut_iff_exhausts :
    (∃ left, point.outcome limit = (.error (.run (.depthLimit n)), left)) ↔
      point.Exhausts limit ∧ n = limit := by
  constructor
  · rintro ⟨left, cut⟩
    -- The error is followed down the calls, which cannot go on for ever.
    induction hrank : point.rank using
      (Prod.lex Nat.lt_wfRel Nat.lt_wfRel).wf.induction generalizing point left with
    | _ rank ih =>
      subst hrank
      rcases isExhausted_or_callsCut cut with ⟨exhausted, same⟩ | ⟨turn, next, call, cut'⟩
      · exact ⟨⟨point, .refl, exhausted⟩, same⟩
      · obtain ⟨⟨last, reached, exhausted⟩, same⟩ := ih next.rank (rank_lt_of_calls call) left cut' rfl
        exact ⟨⟨last, .head ⟨turn, call⟩ reached, exhausted⟩, same⟩
  · rintro ⟨⟨last, reached, exhausted⟩, rfl⟩
    refine ⟨last.memory, ?_⟩
    induction reached using Relation.ReflTransGen.head_induction_on with
    | refl => exact outcome_of_isExhausted n exhausted
    | head step _ ih =>
      obtain ⟨_, call⟩ := step
      exact call.outcome_error ih

end Point

/-- A task that is begun with all the levels of a limit agrees with the same task under any higher
limit. -/
theorem Agrees.task {limit limit' : Nat} (higher : limit ≤ limit') (env : Environment) (task : Task)
    (memory : Memory) :
    Agrees limit (Point.evaluation limit ⟨limit, env, task, memory⟩)
      (Point.evaluation limit' ⟨limit', env, task, memory⟩) := by
  cases task with
  | expr body => exact (Agrees.levels higher).1 env body
  | body forms => exact (Agrees.levels higher).2 env forms
  | rest result forms => exact .forms (Agrees.levels higher).1 env result forms

/-- A limit cuts an evaluation off: a depth check fails in its run, and the error reports the
limit. -/
def CutsOff (limit : Nat) (start : Point) (answer : Except Error Value) : Prop :=
  start.Exhausts limit ∧ ∃ error, answer = .error error ∧ error = .run (.depthLimit limit) ∧
    error.message =
      "EvaluationError: Evaluation depth limit exceeded (max: " ++ toString limit ++ ")"

/-- The limit is no more than a cut-off for an evaluation, given how it starts and ends under each
limit: either every limit cuts it off, or the limits below a threshold do, and under all others no
depth check fails and it ends in the same way. -/
def IsCutoff (start : Nat → Point) (ended : Nat → Except Error Value × Memory) : Prop :=
  (∀ limit, CutsOff limit (start limit) (ended limit).1) ∨
    ∃ threshold,
      (∀ limit, threshold ≤ limit →
        ended limit = ended threshold ∧ ¬ (start limit).Exhausts limit) ∧
      ∀ limit < threshold, CutsOff limit (start limit) (ended limit).1

theorem Point.cutsOff_of_exhausts {limit : Nat} {point : Point} (exhausts : point.Exhausts limit) :
    CutsOff limit point (point.outcome limit).1 := by
  obtain ⟨left, cut⟩ := cut_iff_exhausts.mpr ⟨exhausts, rfl⟩
  exact ⟨exhausts, _, congrArg Prod.fst cut, rfl, rfl⟩

/-- The limit is a cut-off for every task, from every memory. -/
theorem Point.isCutoff (env : Environment) (task : Task) (memory : Memory) :
    IsCutoff (fun limit => ⟨limit, env, task, memory⟩)
      fun limit => Point.outcome limit ⟨limit, env, task, memory⟩ := by
  classical
  let start (limit : Nat) : Point := ⟨limit, env, task, memory⟩
  by_cases always : ∀ limit, (start limit).Exhausts limit
  · exact .inl fun limit => cutsOff_of_exhausts (always limit)
  have some : ∃ limit, ¬ (start limit).Exhausts limit := not_forall.mp always
  refine .inr ⟨Nat.find some, ?_, ?_⟩
  · intro limit above
    have enough := Nat.find_spec some
    have same : (start limit).outcome limit = (start (Nat.find some)).outcome (Nat.find some) := by
      rcases Agrees.task above env task memory memory with cut | same
      · exact absurd (cut_iff_exhausts.mp cut).1 enough
      · exact same
    refine ⟨same, fun exhausts => enough ?_⟩
    -- A depth error tells its limit, so the error of one run cannot be that of the other.
    obtain ⟨left, cut⟩ := cut_iff_exhausts.mpr ⟨exhausts, rfl⟩
    exact (cut_iff_exhausts.mp ⟨left, same.symm.trans cut⟩).1
  · intro limit below
    exact cutsOff_of_exhausts (not_not.mp (Nat.find_min some below))

namespace Session

/-- The same session with another depth limit. -/
def limited (session : Session) (limit : Nat) : Session :=
  { session with limit }

/-- The depth limit of a session is no more than a cut-off, for every expression and every sequence,
in every environment. -/
theorem limit_is_cutoff (session : Session) (env : Environment) :
    (∀ expr, IsCutoff (fun limit => ⟨limit, env, .expr expr, session.memory⟩)
      fun limit => Prod.map id Session.memory ((session.limited limit).evaluate env expr)) ∧
    ∀ forms, IsCutoff (fun limit => ⟨limit, env, .body forms, session.memory⟩)
      fun limit => Prod.map id Session.memory ((session.limited limit).evaluateBody env forms) :=
  ⟨fun expr => Point.isCutoff env (.expr expr) session.memory,
    fun forms => Point.isCutoff env (.body forms) session.memory⟩

end Session

end CellScheme
