import CellScheme.Proofs.Policy
import CellScheme.Proofs.Rendering

/-!
Names that are never bound. Stamping keeps trees well formed, so a session that was driven by text and
converted data knows well-formed programs only (`Session.TextDriven.wellFormed`); such programs bind
no keyword and no name of a primitive, globally or in a frame.
-/
namespace CellScheme

theorem Expr.names_stampedBindings (bindings : List (String × Expr)) (supply : Nat) :
    ((Expr.stampedBindings bindings).run supply).1.map Prod.fst = bindings.map Prod.fst := by
  induction bindings generalizing supply with
  | nil => rfl
  | cons binding rest ih => exact congrArg (binding.1 :: ·) (ih _)

mutual

theorem Expr.wellFormed_stamped : (expr : Expr) → (supply : Nat) →
    (Code.expr expr).WellFormed → (Code.expr (expr.stamped.run supply).1).WellFormed
  | .quoted datum, supply, formed => by
    have isDatum := Code.wellFormed_quoted.mp formed
    rw [Expr.stamped, Value.stamped_datum datum isDatum]
    exact formed
  | .conditional test consequent alternative, supply, formed => by
    obtain ⟨first, second, third⟩ := Code.wellFormed_conditional.mp formed
    exact Code.wellFormed_conditional.mpr ⟨Expr.wellFormed_stamped test _ first,
      Expr.wellFormed_stamped consequent _ second, Expr.wellFormed_stamped alternative _ third⟩
  | .lambda _ params body, supply, formed => by
    obtain ⟨names, inner⟩ := Code.wellFormed_lambda.mp formed
    exact Code.wellFormed_lambda.mpr ⟨names, Form.wellFormed_stampedAll body _ inner⟩
  | .letIn bindings body, supply, formed => by
    obtain ⟨names, values, inner⟩ := Code.wellFormed_letIn.mp formed
    rw [← Expr.names_stampedBindings bindings supply] at names
    exact Code.wellFormed_letIn.mpr ⟨names, Expr.wellFormed_stampedBindings bindings _ values,
      Form.wellFormed_stampedAll body _ inner⟩
  | .apply operator operands, supply, formed => by
    obtain ⟨first, others⟩ := Code.wellFormed_apply.mp formed
    exact Code.wellFormed_apply.mpr ⟨Expr.wellFormed_stamped operator _ first,
      Expr.wellFormed_stampedAll operands _ others⟩
  | .number _, _, formed | .boolean _, _, formed | .string _, _, formed | .primitive _, _, formed
  | .variable _, _, formed => formed

theorem Expr.wellFormed_stampedAll : (exprs : List Expr) → (supply : Nat) →
    (∀ expr ∈ exprs, (Code.expr expr).WellFormed) →
    ∀ expr ∈ ((Expr.stampedAll exprs).run supply).1, (Code.expr expr).WellFormed
  | [], _, formed => formed
  | expr :: rest, supply, formed => by
    obtain ⟨first, others⟩ := List.forall_mem_cons.mp formed
    exact List.forall_mem_cons.mpr
      ⟨Expr.wellFormed_stamped expr _ first, Expr.wellFormed_stampedAll rest _ others⟩

theorem Expr.wellFormed_stampedBindings : (bindings : List (String × Expr)) → (supply : Nat) →
    (∀ binding ∈ bindings, (Code.expr binding.2).WellFormed) →
    ∀ binding ∈ ((Expr.stampedBindings bindings).run supply).1, (Code.expr binding.2).WellFormed
  | [], _, formed => formed
  | (name, value) :: rest, supply, formed => by
    obtain ⟨first, others⟩ := List.forall_mem_cons.mp formed
    exact List.forall_mem_cons.mpr
      ⟨Expr.wellFormed_stamped value _ first, Expr.wellFormed_stampedBindings rest _ others⟩

theorem Form.wellFormed_stamped : (form : Form) → (supply : Nat) →
    form.WellFormed → (form.stamped.run supply).1.WellFormed
  | .define name value, supply, formed => by
    obtain ⟨target, inner⟩ := Form.wellFormed_define.mp formed
    exact Form.wellFormed_define.mpr ⟨target, Expr.wellFormed_stamped value _ inner⟩
  | .assign name value, supply, formed => by
    obtain ⟨target, inner⟩ := Form.wellFormed_assign.mp formed
    exact Form.wellFormed_assign.mpr ⟨target, Expr.wellFormed_stamped value _ inner⟩
  | .expr body, supply, formed => by
    exact Form.wellFormed_expr.mpr
      (Expr.wellFormed_stamped body _ (Form.wellFormed_expr.mp formed))

theorem Form.wellFormed_stampedAll : (forms : List Form) → (supply : Nat) →
    (Code.forms forms).WellFormed → (Code.forms ((Form.stampedAll forms).run supply).1).WellFormed
  | [], _, formed => formed
  | form :: rest, supply, formed => by
    obtain ⟨first, others⟩ := Code.wellFormed_cons.mp formed
    exact Code.wellFormed_cons.mpr
      ⟨Form.wellFormed_stamped form _ first, Form.wellFormed_stampedAll rest _ others⟩

end

/-- Well-formed code binds only names that can be bound. -/
def formation : Policy where
  own := Code.OwnFormed
  name := IsBindable
  quoted formed := formed
  params formed := formed.1
  bindings formed := formed.1
  target formed := formed

namespace Session

variable {session : Session} {programs : List Program} {program : Program}

theorem wellFormed_stamp {data : List Value} (isData : Value.allData data = true)
    (converted : Program.ofData data = .ok program) :
    (Code.forms (session.stamp program).1).WellFormed :=
  Form.wellFormed_stampedAll program _
    (Translation.program_isBijective.mirrors data isData converted).wellFormed

/-- All programs that a session knows are well formed. -/
theorem TextDriven.wellFormed (driven : session.TextDriven programs) :
    ∀ program ∈ programs, (Code.forms program).WellFormed := by
  induction driven with
  | fresh => simp
  | text _ converted ih =>
    obtain ⟨data, isData, success⟩ := Program.ofText_eq_ok converted
    exact List.forall_mem_cons.mpr ⟨wellFormed_stamp isData success, ih⟩
  | convert _ isData success ih =>
    exact List.forall_mem_cons.mpr ⟨wellFormed_stamp isData success, ih⟩
  | faultyText _ _ ih | run _ _ ih | skip _ _ ih => exact ih

/-- What a session driven by text and converted data binds can be bound, at every moment. -/
theorem TextDriven.bindsOnly (driven : session.TextDriven programs) (known : program ∈ programs)
    {point : Point} (reached : Reaches session.limit (session.start program) point) :
    point.memory.BindsOnly IsBindable ∧
      (point.outcome session.limit).2.BindsOnly IsBindable := by
  have covers : formation.CoversMemory session.memory := driven.covered driven.wellFormed
  have start : formation.discipline.Holds (session.start program) :=
    Policy.holds covers (driven.wellFormed program known)
  have here := (Discipline.reaches start reached).1
  exact ⟨here.memory.names, (Discipline.ends session.limit here).memory.names⟩

/-- Conversion and rendering are inverse to each other between data and well-formed trees: for
expressions, for body elements and for programs. So no session that is driven by text and converted
data ever binds a keyword or the name of a primitive, globally or in a frame: its programs are well
formed, and at every moment of every run, and after it, all bound names can be bound. -/
theorem conversion_is_bijective :
    Translation.expr.IsBijective ∧ Translation.form.IsBijective ∧
      Translation.program.IsBijective ∧
      ∀ {session : Session} {programs : List Program}, session.TextDriven programs →
        session.memory.BindsOnly IsBindable ∧
          ∀ program ∈ programs, (Code.forms program).WellFormed ∧
            ∀ point, Reaches session.limit (session.start program) point →
              point.memory.BindsOnly IsBindable ∧
                (point.outcome session.limit).2.BindsOnly IsBindable := by
  refine ⟨Translation.expr_isBijective, Translation.form_isBijective,
    Translation.program_isBijective, ?_⟩
  intro session programs driven
  have covers : formation.CoversMemory session.memory := driven.covered driven.wellFormed
  refine ⟨covers.names, ?_⟩
  intro program known
  exact ⟨driven.wellFormed program known, fun point reached => driven.bindsOnly known reached⟩

theorem conversion_is_bijective_counter :
    Form.renderAll counterProgram = counterData ∧
      Program.ofData (Form.renderAll counterProgram) = .ok counterProgram ∧
      counterSession.TextDriven [counterStamped] ∧
      counterSession.memory.globals.bindings.map Prod.fst = ["count"] ∧
      counterSession.memory.BindsOnly IsBindable := by
  obtain ⟨_, _, programs, sessions⟩ := conversion_is_bijective
  have mirrors : Translation.program.Mirrors counterData counterProgram :=
    programs.mirrors counterData rfl rfl
  refine ⟨mirrors.render, ?_, counterSession_textDriven, rfl, ?_⟩
  · exact (programs.returns counterProgram mirrors.wellFormed).convert
  · exact (sessions counterSession_textDriven).1

end Session

end CellScheme
