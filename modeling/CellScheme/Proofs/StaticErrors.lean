import CellScheme.Dialogue
import CellScheme.Proofs.TextDriven

/-!
Faults of reading and of syntax never come from a run. Whatever is evaluated, in whatever
environment and memory, ends in a result, in an error that it raised itself or for want of a cell
(`evaluate_error`). So a fault of reading or syntax shows that nothing ran, and the session is as it
was.
-/
namespace CellScheme

open Evaluation

/-- The errors that any evaluation can end in: those that are raised, and those for want of a
cell. -/
def Error.isDynamic : Error → Bool
  | .illegalAddress _ => true
  | error => error.isRaised

theorem Error.isStatic_eq_false {error : Error} (dynamic : error.isDynamic = true) :
    error.isStatic = false := by
  cases error with
  | source fault => cases dynamic
  | arity expected got expression =>
    cases expression with
    | none => rfl
    | some shown => cases dynamic
  | unboundVariable | illegalAddress | badProcedure | emptyProgram | type | run | defect => rfl

/-- Every evaluation ends in a dynamic error, if in an error at all. Nothing is asked of memory, of
values or of places. -/
def dynamics : Discipline where
  memory _ := True
  moves _ _ := True
  value _ _ := True
  place _ _ _ := True
  error e := e.isDynamic = true
  refl _ := trivial
  trans _ _ := trivial
  value_moves _ _ := trivial
  place_moves _ _ := trivial
  part _ _ _ _ := trivial
  literal _ := trivial
  quoted _ := trivial
  lambda _ := trivial
  fetch _ _ _ _ := trivial
  assembled _ _ := trivial
  define _ _ _ := ⟨trivial, trivial⟩
  write _ _ _ _ _ _ := ⟨trivial, trivial⟩
  enterLet _ _ _ _ := ⟨trivial, trivial, trivial⟩
  enterBody _ _ _ _ := ⟨trivial, trivial, trivial⟩
  raised {e} raised := by
    cases e with
    | illegalAddress => rfl
    | source | unboundVariable | badProcedure | emptyProgram | type | run | arity | defect =>
      exact raised
  illegal _ _ _ _ := rfl

variable {limit budget : Nat} {env : Environment} {memory : Memory} {error : Error}

theorem Point.outcome_error {point : Point} (ends : (point.outcome limit).1 = .error error) :
    error.isDynamic = true := by
  have holds : dynamics.Holds point := ⟨trivial, trivial, fun _ _ _ => trivial⟩
  exact (Discipline.ends limit holds).error error ends

theorem evaluate_error {expr : Expr}
    (ends : (outcome (evaluate limit budget env expr) memory).1 = .error error) :
    error.isDynamic = true := by
  change (Point.outcome limit ⟨budget, env, .expr expr, memory⟩).1 = .error error at ends
  exact Point.outcome_error ends

theorem evaluateBody_error {forms : List Form}
    (ends : (outcome (evaluateBody limit budget env forms) memory).1 = .error error) :
    error.isDynamic = true := by
  change (Point.outcome limit ⟨budget, env, .body forms, memory⟩).1 = .error error at ends
  exact Point.outcome_error ends

namespace Session

variable {session : Session}

/-- A text has a static fault and leaves the session alone, or what it ends in comes from a run. -/
theorem evaluateText_error {comments : Bool} {text : String}
    (ends : (session.evaluateText comments text).1 = .error error) :
    session.evaluateText comments text = (.error error, session) ∨ error.isDynamic = true := by
  cases converted : Program.ofText comments text with
  | ok program =>
    rw [evaluateText_of_ok converted] at ends
    exact .inr (evaluateBody_error ends)
  | error fault =>
    rw [evaluateText_of_error converted] at ends ⊢
    obtain rfl := Except.error.inj ends
    exact .inl rfl

end Session

namespace Dialogue

variable {dialogue next : Dialogue} {line : String} {printed : List String}

/-- What is evaluated when a line is taken as part of a form. -/
def submission (dialogue : Dialogue) (line : String) : Except Error Value × Session :=
  dialogue.session.evaluateText true (dialogue.pending ++ line ++ "\n")

theorem submit_incomplete {fault : SourceError}
    (ends : (dialogue.submission line).1 = .error (.source fault))
    (incomplete : fault.kind = .incomplete) : dialogue.submit line =
      .proceed ⟨(dialogue.submission line).2, dialogue.pending ++ line ++ "\n"⟩ [] := by
  unfold submission at ends ⊢
  unfold submit
  dsimp only
  generalize dialogue.session.evaluateText true (dialogue.pending ++ line ++ "\n") = ended at ends
  obtain ⟨kind, message, context, found⟩ := fault
  obtain rfl : kind = .incomplete := incomplete
  obtain ⟨result, session⟩ := ended
  obtain rfl : result = .error (.source ⟨.incomplete, message, context, found⟩) := ends
  rfl

theorem submit_complete
    (other : ∀ fault, (dialogue.submission line).1 = .error (.source fault) →
      fault.kind ≠ .incomplete) :
    ∃ printed, dialogue.submit line = .proceed ⟨(dialogue.submission line).2, ""⟩ printed := by
  unfold submission at other ⊢
  unfold submit
  dsimp only
  generalize dialogue.session.evaluateText true (dialogue.pending ++ line ++ "\n") = ended at other
  split
  · exact absurd rfl (other _ rfl)
  · exact ⟨_, rfl⟩
  · exact ⟨_, rfl⟩
  · exact ⟨_, rfl⟩

/-- What a dialogue does with a line that is not taken as part of a form: while none is pending, it
passes over a blank line and obeys a command, which begins with a colon. -/
inductive Aside (dialogue : Dialogue) (line : String) : Reply → Prop
  | blank : Text.trim line.toList = [] → Aside dialogue line (.proceed dialogue [])
  | command {more : List Char} {reply : Reply} : Text.trim line.toList = ':' :: more →
    (∃ printed, reply = .proceed dialogue printed ∨ reply = .leave printed) →
    Aside dialogue line reply

theorem take_cases (dialogue : Dialogue) (line : String) :
    dialogue.take line = dialogue.submit line ∨
      (dialogue.pending = "" ∧ dialogue.Aside line (dialogue.take line)) := by
  unfold take
  split
  case isFalse => exact .inl rfl
  case isTrue empty =>
    have trimmed {command : String} (same : String.ofList (Text.trim line.toList) = command) :
        Text.trim line.toList = command.toList := by
      rw [← same, String.toList_ofList]
    have empty : dialogue.pending = "" := String.isEmpty_iff.mp empty
    split
    case h_1 same => exact .inr ⟨empty, .blank (trimmed same)⟩
    case h_2 same | h_3 same | h_4 same =>
      exact .inr ⟨empty, .command (trimmed same) ⟨_, .inl rfl⟩⟩
    case h_5 same | h_6 same => exact .inr ⟨empty, .command (trimmed same) ⟨_, .inr rfl⟩⟩
    case h_7 => exact .inl rfl

/-- While a form is pending, nothing has been evaluated since the dialogue last had none. -/
theorem session_of_pending (taken : dialogue.take line = .proceed next printed)
    (pending : next.pending ≠ "") : next.session = dialogue.session := by
  rcases take_cases dialogue line with submitted | ⟨empty, aside⟩
  · rw [submitted] at taken
    by_cases incomplete : ∃ fault : SourceError,
        (dialogue.submission line).1 = .error (.source fault) ∧ fault.kind = .incomplete
    · obtain ⟨fault, ends, incomplete⟩ := incomplete
      rw [submit_incomplete ends incomplete] at taken
      obtain ⟨rfl, -⟩ := Reply.proceed.inj taken
      rcases Session.evaluateText_error ends with unchanged | dynamic
      · exact congrArg Prod.snd unchanged
      · cases dynamic
    · have other : ∀ fault : SourceError, (dialogue.submission line).1 = .error (.source fault) →
          fault.kind ≠ .incomplete :=
        fun fault ends kind => incomplete ⟨fault, ends, kind⟩
      obtain ⟨_, submitted⟩ := submit_complete other
      rw [submitted] at taken
      obtain ⟨rfl, -⟩ := Reply.proceed.inj taken
      exact absurd rfl pending
  · have same : next = dialogue := by
      rw [taken] at aside
      cases aside with
      | blank => rfl
      | command _ reply =>
        obtain ⟨_, same | left⟩ := reply
        · exact (Reply.proceed.inj same).1
        · cases left
    exact absurd (same ▸ empty) pending

end Dialogue

/-- A fault of reading or of syntax means that nothing ran. Whatever session a text is given to, and
whatever is well formed in it, such a fault leaves the session as it was; no evaluation of any tree,
in any environment and memory, ends in such a fault; and a dialogue that waits for more lines has
evaluated nothing of the lines that wait. -/
theorem static_errors_mean_nothing_ran :
    (∀ (session : Session) (comments : Bool) (text : String) (error : Error),
      (session.evaluateText comments text).1 = .error error → error.isStatic = true →
        (session.evaluateText comments text).2 = session) ∧
    (∀ (session : Session) (env : Environment) (expr : Expr) (error : Error),
      (session.evaluate env expr).1 = .error error → error.isStatic = false) ∧
    (∀ (session : Session) (env : Environment) (forms : List Form) (error : Error),
      (session.evaluateBody env forms).1 = .error error → error.isStatic = false) ∧
    (∀ (session : Session) (program : Program) (error : Error),
      (session.evaluateProgram program).1 = .error error → error.isStatic = false) ∧
    (∀ (dialogue next : Dialogue) (line : String) (printed : List String),
      dialogue.take line = .proceed next printed → next.pending ≠ "" →
        next.session = dialogue.session) := by
  refine ⟨?_, ?_, ?_, ?_, ?_⟩
  · intro session comments text error ends static
    rcases Session.evaluateText_error ends with unchanged | dynamic
    · rw [unchanged]
    · cases static.symm.trans (Error.isStatic_eq_false dynamic)
  · intro session env expr error ends
    exact Error.isStatic_eq_false (evaluate_error ends)
  · intro session env forms error ends
    exact Error.isStatic_eq_false (evaluateBody_error ends)
  · intro session program error ends
    exact Error.isStatic_eq_false (evaluateBody_error ends)
  · intro dialogue next line printed taken pending
    exact Dialogue.session_of_pending taken pending

theorem static_errors_mean_nothing_ran_incomplete :
    (Session.counterSession.evaluateText true "(define x 1) (").2 = Session.counterSession := by
  have refused : (Program.ofText true "(define x 1) (").isOk = false := by decide +kernel
  cases converted : Program.ofText true "(define x 1) (" with
  | ok program =>
    rw [converted] at refused
    cases refused
  | error fault =>
    have ends : (Session.counterSession.evaluateText true "(define x 1) (").1 = .error fault := by
      rw [Session.evaluateText_of_error converted]
    have static : fault.isStatic = true := Program.ofText_eq_error converted
    exact static_errors_mean_nothing_ran.1 _ _ _ _ ends static

end CellScheme
