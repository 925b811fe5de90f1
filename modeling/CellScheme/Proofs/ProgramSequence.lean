import CellScheme.Proofs.TextDriven

/-!
Programs in a row. A program whose forms are those of two others runs like the first and then the
second, if neither fails: it draws the same stamps in the same order, and the forms of the second
go on from the memory that the first has left (`Session.Runs.of_append`).
-/
namespace CellScheme

open Evaluation

section

variable {limit budget : Nat} {env : Environment} {forms : List Form}

theorem evaluateBody_of_ne_nil (some : forms ≠ []) : evaluateBody limit (budget + 1) env forms
    = evaluateForms (evaluate limit budget) env .unspecified forms := by
  rw [evaluateBody.eq_def]
  cases forms with
  | nil => exact absurd rfl some
  | cons form rest => rfl

theorem outcome_evaluateBody_ok {memory left : Memory} {value : Value} (some : forms ≠ []) :
    outcome (evaluateBody limit limit env forms) memory = (.ok value, left) ↔
      ∃ budget, limit = budget + 1 ∧
        outcome (evaluateForms (evaluate limit budget) env .unspecified forms) memory
          = (.ok value, left) := by
  cases limit with
  | zero =>
    constructor
    · intro ended
      rw [evaluateBody.eq_def] at ended
      cases ended
    · rintro ⟨_, level, -⟩
      cases level
  | succ budget =>
    rw [evaluateBody_of_ne_nil some]
    constructor
    · exact fun ended => ⟨budget, rfl, ended⟩
    · rintro ⟨budget', level, ended⟩
      obtain rfl : budget = budget' := Nat.succ.inj level
      exact ended

/-- The result so far is the result only of a sequence that is at its end. -/
theorem evaluateForms_of_ne_nil {evaluate : Environment → Expr → Evaluation Value}
    (some : forms ≠ []) (result result' : Value) :
    evaluateForms evaluate env result forms = evaluateForms evaluate env result' forms := by
  cases forms with
  | nil => exact absurd rfl some
  | cons form rest => cases form <;> rfl

/-- At the global level no form changes the environment of those behind it. -/
theorem evaluateForms_append (evaluate : Environment → Expr → Evaluation Value) (result : Value)
    (first second : List Form) : evaluateForms evaluate .global result (first ++ second)
      = evaluateForms evaluate .global result first >>= fun value =>
          evaluateForms evaluate .global value second := by
  induction first generalizing result with
  | nil => rw [List.nil_append, evaluateForms, pure_bind]
  | cons form first ih =>
    cases form with
    | define name value | assign name value | expr body =>
      simp only [List.cons_append, evaluateForms, ih, bind_assoc]

end

theorem Form.ofData_append (first second : List Value) : Form.ofData (first ++ second)
    = Form.ofData first >>= fun forms =>
        Form.ofData second >>= fun more => pure (forms ++ more) := by
  induction first with
  | nil => simp [Form.ofData]
  | cons datum first ih => simp only [List.cons_append, Form.ofData, ih, bind_assoc, pure_bind]

/-- Data convert in parts. -/
theorem Program.ofData_append {first second : List Value} {program : Program}
    (converted : Program.ofData (first ++ second) = .ok program) :
    ∃ forms more, Program.ofData first = .ok forms ∧ Program.ofData second = .ok more ∧
      program = forms ++ more := by
  rw [Program.ofData, Form.ofData_append] at converted
  obtain ⟨forms, first, converted⟩ := bind_eq_ok.mp converted
  obtain ⟨more, second, converted⟩ := bind_eq_ok.mp converted
  exact ⟨forms, more, first, second, (Except.ok.inj converted).symm⟩

namespace Session

variable {session next last : Session} {program first second : Program}

/-- A session becomes another one by running a program without an error. No program at all changes
nothing. -/
def Runs (session : Session) (program : Program) (next : Session) : Prop :=
  if program = [] then next = session
  else ∃ value, (session.stamp program).2.evaluateProgram (session.stamp program).1
    = (.ok value, next)

theorem runs_nil : session.Runs [] next ↔ next = session := Iff.rfl

theorem stamp_ne_nil (some : program ≠ []) : (session.stamp program).1 ≠ [] := by
  cases program with
  | nil => exact absurd rfl some
  | cons form rest => exact List.cons_ne_nil _ _

theorem stamp_append : session.stamp (first ++ second)
    = ((session.stamp first).1 ++ ((session.stamp first).2.stamp second).1,
        ((session.stamp first).2.stamp second).2) := by
  simp only [stamp, Program.stamped, Form.run_stampedAll_append]

/-- What a program does that is run without an error: there is a level left for its forms. -/
theorem runs_iff (some : program ≠ []) : session.Runs program next ↔
    ∃ budget value memory, session.limit = budget + 1 ∧
      outcome (evaluateForms (CellScheme.evaluate session.limit budget) .global .unspecified
        (session.stamp program).1) session.memory = (.ok value, memory) ∧
      next = (session.stamp program).2.leaving memory := by
  rw [Runs, if_neg some]
  have run (value : Value) : (session.stamp program).2.evaluateProgram (session.stamp program).1
      = (.ok value, next) ↔
        ∃ memory, outcome (CellScheme.evaluateBody session.limit session.limit .global
          (session.stamp program).1) session.memory = (.ok value, memory) ∧
        next = (session.stamp program).2.leaving memory := by
    constructor
    · intro ended
      obtain ⟨result, left⟩ := Prod.mk.inj ended
      exact ⟨_, Prod.ext result rfl, left.symm⟩
    · rintro ⟨memory, ended, left⟩
      rw [left]
      exact congrArg (fun ended => (ended.1, (session.stamp program).2.leaving ended.2)) ended
  simp only [run, outcome_evaluateBody_ok (stamp_ne_nil some)]
  constructor
  · rintro ⟨value, memory, ⟨budget, level, ended⟩, left⟩
    exact ⟨budget, value, memory, level, ended, left⟩
  · rintro ⟨budget, value, memory, level, ended, left⟩
    exact ⟨value, memory, ⟨budget, level, ended⟩, left⟩

/-- A program that is run at once, without an error, is run in parts. -/
theorem Runs.of_append (runs : session.Runs (first ++ second) last) :
    ∃ next, session.Runs first next ∧ next.Runs second last := by
  by_cases noFirst : first = []
  · subst noFirst
    exact ⟨session, runs_nil.mpr rfl, runs⟩
  by_cases noSecond : second = []
  · subst noSecond
    rw [List.append_nil] at runs
    exact ⟨last, runs, runs_nil.mpr rfl⟩
  have some : first ++ second ≠ [] := by simp [noFirst]
  obtain ⟨budget, value, memory, level, ended, rfl⟩ := (runs_iff some).mp runs
  rw [stamp_append, evaluateForms_append, outcome_bind_ok] at ended
  obtain ⟨result, between, ran, ran'⟩ := ended
  rw [evaluateForms_of_ne_nil (stamp_ne_nil noSecond) result .unspecified] at ran'
  refine ⟨_, (runs_iff noFirst).mpr ⟨budget, result, between, level, ran, rfl⟩, ?_⟩
  refine (runs_iff noSecond).mpr ⟨budget, value, memory, level, ran', ?_⟩
  rw [stamp_append]
  rfl

end Session

end CellScheme
