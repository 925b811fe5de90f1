import CellScheme.Proofs.ProgramSequence
import CellScheme.Proofs.ReadBack
import CellScheme.Proofs.Unobservable
import Mathlib.Data.List.Perm.Basic

/-!
Definitions of procedures may come in any order. Defining a procedure at top level looks nothing up:
it binds a name to a closure over the global environment. So two definitions of different names
change places up to a renaming that lets their cells change places (`Memory.Sound.equivalent_swap`),
any permutation is made of such swaps, and what runs afterwards cannot observe the renaming.

When the definitions are converted anew in each order, their stamps are permuted, too. Programs and
texts, together or one by one, are put together in `Session.definitions_in_any_order`.
-/
namespace CellScheme

open Evaluation

/-- A definition of a procedure: a name and a `lambda`. -/
structure Procedure where
  name : String
  stamp : Nat
  params : List String
  body : List Form

namespace Procedure

/-- The definition as a form. -/
def form (p : Procedure) : Form :=
  .define p.name (.lambda p.stamp p.params p.body)

/-- What the name is bound to at top level. -/
def closure (p : Procedure) : Value :=
  .closure p.stamp p.params p.body .global

/-- The same definition with other stamps. -/
def restamp (change : Nat → Nat) (p : Procedure) : Procedure :=
  { p with stamp := change p.stamp, body := Form.restampAll change p.body }

/-- A program of definitions. -/
def program (procedures : List Procedure) : Program :=
  procedures.map form

theorem form_injective : Function.Injective form := by
  rintro ⟨name, stamp, params, body⟩ ⟨name', stamp', params', body'⟩ same
  simpa [form] using same

theorem program_restamp (change : Nat → Nat) (procedures : List Procedure) :
    program (procedures.map (restamp change)) = Form.restampAll change (program procedures) := by
  rw [Form.restampAll_eq, program, program, List.map_map, List.map_map]
  rfl

theorem names_restamp (change : Nat → Nat) (procedures : List Procedure) :
    (procedures.map (restamp change)).map name = procedures.map name := by
  rw [List.map_map]
  rfl

theorem map_restamp_refl (procedures : List Procedure) :
    procedures.map (restamp (Equiv.refl Nat)) = procedures := by
  have same : restamp (Equiv.refl Nat) = id := by
    funext p
    exact congrArg (Procedure.mk p.name p.stamp p.params) (Form.restampAll_id p.body)
  rw [same, List.map_id]

theorem allPlain_perm {procedures procedures' : List Procedure}
    (permuted : procedures.Perm procedures') (plain : Form.allPlain (program procedures) = true) :
    Form.allPlain (program procedures') = true := by
  rw [Form.allPlain_eq] at plain ⊢
  exact (permuted.map form).all_eq.symm.trans plain

/-- Stamping definitions gives definitions of the same names. -/
theorem exists_stamped (procedures : List Procedure)
    (plain : Form.allPlain (program procedures) = true) (supply : Nat) :
    ∃ stamped, ((Form.stampedAll (program procedures)).run supply).1 = program stamped ∧
      stamped.map name = procedures.map name ∧ Form.allPlain (program stamped) = true := by
  obtain ⟨count, draws⟩ := Form.draws_stampedAll _ plain
  have spelled : ∀ supply, ∃ stamped,
      ((Form.stampedAll (program procedures)).run supply).1 = program stamped ∧
        stamped.map name = procedures.map name := by
    clear plain draws
    induction procedures with
    | nil => exact fun _ => ⟨[], rfl, rfl⟩
    | cons p procedures ih =>
      intro supply
      obtain ⟨stamped, others, names⟩ := ih (p.form.stamped.run supply).2
      refine ⟨⟨p.name, supply, p.params, ((Form.stampedAll p.body).run (supply + 1)).1⟩ :: stamped,
        ?_, congrArg (p.name :: ·) names⟩
      exact congrArg (List.cons _) others
  obtain ⟨stamped, same, names⟩ := spelled supply
  exact ⟨stamped, same, names, same ▸ draws.plain supply⟩

end Procedure

open Procedure

namespace Memory

/-- Memory after several definitions, in order. -/
def defineAll (memory : Memory) (procedures : List Procedure) : Memory :=
  procedures.foldl (fun memory p => memory.define p.name p.closure) memory

/-- Memory after definitions are evaluated under a limit. A limit that leaves no level for the
`lambda` of a definition changes nothing. -/
def defineUnder (limit : Nat) (memory : Memory) (procedures : List Procedure) : Memory :=
  if limit < 2 then memory else memory.defineAll procedures

theorem defineUnder_nil (limit : Nat) (memory : Memory) : memory.defineUnder limit [] = memory := by
  unfold defineUnder
  split <;> rfl

theorem defineUnder_append (limit : Nat) (memory : Memory) (first second : List Procedure) :
    (memory.defineUnder limit first).defineUnder limit second
      = memory.defineUnder limit (first ++ second) := by
  unfold defineUnder
  split
  · rfl
  · rw [defineAll, defineAll, defineAll, List.foldl_append]

/-- Memory is regular when it is sound for some plain programs. -/
def Regular (memory : Memory) : Prop :=
  ∃ programs, memory.Sound programs ∧ ∀ program ∈ programs, Form.allPlain program = true

end Memory

section
variable (limit budget : Nat) (procedures : List Procedure) (rest : List Form) (memory : Memory)

/-- With a level left for the `lambda`, definitions succeed, and the forms behind them go on from
the memory that they leave. -/
theorem outcome_definitions :
    outcome (evaluateForms (evaluate limit (budget + 1)) .global .unspecified
      (program procedures ++ rest)) memory =
    outcome (evaluateForms (evaluate limit (budget + 1)) .global .unspecified rest)
      (memory.defineAll procedures) := by
  induction procedures generalizing memory with
  | nil => rfl
  | cons p procedures ih =>
    have value : evaluate limit (budget + 1) .global (.lambda p.stamp p.params p.body)
        = pure p.closure := by
      rw [evaluate.eq_def]
      rfl
    change outcome (evaluateForms (evaluate limit (budget + 1)) .global .unspecified
      (.define p.name (.lambda p.stamp p.params p.body) :: (program procedures ++ rest))) memory = _
    rw [evaluateForms, value, pure_bind, outcome_bind, outcome_modify]
    exact ih (memory.define p.name p.closure)

theorem outcome_program_append (some : procedures ≠ []) :
    outcome (evaluateBody limit (budget + 2) .global (program procedures ++ rest)) memory =
    outcome (evaluateForms (evaluate limit (budget + 1)) .global .unspecified rest)
      (memory.defineAll procedures) := by
  rw [evaluateBody_of_ne_nil (by simp [program, some]), outcome_definitions]

theorem outcome_program :
    (outcome (evaluateBody limit (budget + 2) .global (program procedures)) memory).2
      = memory.defineAll procedures := by
  cases procedures with
  | nil =>
    rw [evaluateBody.eq_def]
    rfl
  | cons p procedures =>
    have all := outcome_program_append limit budget (p :: procedures) [] memory (by simp)
    rw [List.append_nil] at all
    rw [all]
    rfl

/-- Without that level, a definition ends in an error before it does anything. -/
theorem outcome_program_append_of_few (few : limit < 2) (some : procedures ≠ []) :
    outcome (evaluateBody limit limit .global (program procedures ++ rest)) memory
      = (.error (.run (.depthLimit limit)), memory) := by
  obtain ⟨p, procedures, rfl⟩ := List.exists_cons_of_ne_nil some
  match limit, few with
  | 0, _ =>
    rw [evaluateBody.eq_def]
    rfl
  | 1, _ =>
    have value : evaluate 1 0 .global (.lambda p.stamp p.params p.body)
        = throw (.run (.depthLimit 1)) := by
      rw [evaluate.eq_def]
    change outcome (evaluateBody 1 1 .global
      (.define p.name (.lambda p.stamp p.params p.body) :: (program procedures ++ rest))) memory = _
    rw [evaluateBody_of_ne_nil (by simp), evaluateForms, value, outcome_bind]
    rfl

/-- A program of definitions leaves the same memory under every limit that lets it. -/
theorem outcome_program_under :
    (outcome (evaluateBody limit limit .global (program procedures)) memory).2
      = memory.defineUnder limit procedures := by
  unfold Memory.defineUnder
  split
  case isTrue few =>
    by_cases none : procedures = []
    · subst none
      match limit, few with
      | 0, _ | 1, _ =>
        rw [evaluateBody.eq_def]
        rfl
    · rw [← List.append_nil (program procedures), outcome_program_append_of_few _ _ _ _ few none]
  case isFalse enough =>
    obtain ⟨budget, rfl⟩ : ∃ budget, limit = budget + 2 := ⟨limit - 2, by omega⟩
    exact outcome_program _ _ _ _

end

namespace Memory

variable {m n : Memory} {ρ : Renaming} {procedures procedures' : List Procedure}

theorem Regular.defineAll (regular : m.Regular)
    (plain : Form.allPlain (program procedures) = true) : (m.defineAll procedures).Regular := by
  obtain ⟨programs, sound, plains⟩ := regular
  have plains' : ∀ known ∈ program procedures :: programs, Form.allPlain known = true := by
    intro known member
    rcases List.mem_cons.mp member with rfl | old
    · exact plain
    · exact plains known old
  have further := sound.mono fun _ => List.mem_cons_of_mem (program procedures)
  have ends := Discipline.ends 2 (further.holds plains' List.mem_cons_self 2)
  rw [← outcome_program 2 0]
  exact ⟨_, ends.memory, plains'⟩

/-- Corresponding definitions keep equivalent memories equivalent. -/
theorem Equivalent.defineAll (equivalent : m.Equivalent ρ n) (regular : m.Regular)
    (regular' : n.Regular) (plain : Form.allPlain (program procedures) = true) :
    ∃ ρ', ρ'.stamp = ρ.stamp ∧ (m.defineAll procedures).Equivalent ρ'
      (n.defineAll (procedures.map (Procedure.restamp ρ.stamp))) := by
  obtain ⟨programs, sound, plains⟩ := regular
  obtain ⟨programs', sound', _⟩ := regular'
  obtain ⟨ρ', stamp, _, after, _⟩ := equivalent.evaluateBody sound sound' plains 2 2 plain
  rw [← program_restamp, outcome_program, outcome_program] at after
  exact ⟨ρ', stamp, after⟩

/-- Definitions of different names may be permuted. -/
theorem Regular.equivalent_perm (permuted : procedures.Perm procedures') (regular : m.Regular)
    (plain : Form.allPlain (program procedures) = true)
    (distinct : (procedures.map Procedure.name).Nodup) :
    ∃ ρ, ρ.stamp = Equiv.refl Nat ∧
      (m.defineAll procedures).Equivalent ρ (m.defineAll procedures') := by
  induction permuted generalizing m with
  | nil => exact ⟨.refl, rfl, .refl _⟩
  | @cons p procedures procedures' _ ih =>
    simp only [program, List.map_cons, Form.allPlain, Bool.and_eq_true] at plain
    have one : Form.allPlain (program [p]) = true := by simp [program, Form.allPlain, plain.1]
    exact ih (regular.defineAll one) plain.2 (List.nodup_cons.mp distinct).2
  | swap p q procedures =>
    simp only [program, List.map_cons, Form.allPlain, Bool.and_eq_true] at plain
    have apart : q.name ≠ p.name := by
      intro same
      simp [same] at distinct
    obtain ⟨programs, sound, plains⟩ := id regular
    obtain ⟨ρ, stamp, swapped⟩ := sound.equivalent_swap (v := q.closure) (w := p.closure) apart
      (by simp [Procedure.closure, Value.closures]) (by simp [Procedure.closure, Value.closures])
    have first : Form.allPlain (program [q, p]) = true := by
      simp [program, Form.allPlain, plain.1, plain.2.1]
    have first' : Form.allPlain (program [p, q]) = true := by
      simp [program, Form.allPlain, plain.1, plain.2.1]
    -- The remaining definitions are the same on both sides and follow the two that are swapped.
    obtain ⟨ρ', stamp', after⟩ := swapped.defineAll (regular.defineAll first)
      (regular.defineAll first') plain.2.2
    rw [stamp, map_restamp_refl] at after
    exact ⟨ρ', stamp'.trans stamp, after⟩
  | @trans procedures procedures' procedures'' first second ih ih' =>
    -- Both steps start from the same memory, so the two renamings compose.
    obtain ⟨ρ, stamp, equivalent⟩ := ih regular plain distinct
    obtain ⟨ρ', stamp', equivalent'⟩ := ih' regular (allPlain_perm first plain)
      ((first.map Procedure.name).nodup_iff.mp distinct)
    refine ⟨ρ.trans ρ', ?_, equivalent.trans equivalent'⟩
    rw [Renaming.trans, stamp, stamp']
    rfl

/-- Definitions of different names may be permuted, and their stamps with them, when nothing in
reach has one of these stamps. -/
theorem Regular.equivalent_definitions {σ : Equiv.Perm Nat} (regular : m.Regular)
    (fixed : Renaming.refl.Extends m ⟨Equiv.refl Nat, Equiv.refl Nat, σ⟩)
    (plain : Form.allPlain (program procedures) = true)
    (plain' : Form.allPlain (program procedures') = true)
    (distinct : (procedures.map Procedure.name).Nodup)
    (permuted : (procedures.map (Procedure.restamp σ)).Perm procedures') :
    ∃ ρ, ρ.stamp = σ ∧ (m.defineAll procedures).Equivalent ρ (m.defineAll procedures') := by
  obtain ⟨ρ, stamp, restamped⟩ :=
    ((Equivalent.refl m).congr fixed).defineAll regular regular plain
  obtain ⟨ρ', stamp', equivalent⟩ := regular.equivalent_perm permuted
    (allPlain_perm permuted.symm plain') (by rwa [names_restamp])
  refine ⟨ρ.trans ρ', ?_, restamped.trans equivalent⟩
  rw [Renaming.trans, stamp, stamp']
  rfl

end Memory

namespace Session

/-- Two evaluations end alike under some renaming: with the same error, or with results that
correspond and print the same, and with equivalent memories. -/
def EndAlike (left right : Except Error Value × Session) : Prop :=
  ∃ ρ, Answers (fun v w => w = v.rename ρ ∧ w.display = v.display) left.1 right.1 ∧
    left.2.memory.Equivalent ρ right.2.memory

theorem EndAlike.refl (ended : Except Error Value × Session) : EndAlike ended ended := by
  refine ⟨.refl, ?_, .refl _⟩
  cases ended.1 with
  | error e => exact .error
  | ok v => exact .ok ⟨(Value.rename_refl v).symm, rfl⟩

variable {session : Session} {procedures procedures' : List Procedure} {q : Program}
  {σ : Equiv.Perm Nat}

/-- What is simulated after equivalent memories ends alike. -/
theorem endAlike_of_simulates {m n : Memory} {ρ : Renaming} {left right : Evaluation Value}
    (simulates : Simulates (Memory.Equivalent.world ρ m) m n left right World.Match)
    (before before' : Session) :
    EndAlike ((outcome left m).1, before.leaving (outcome left m).2)
      ((outcome right n).1, before'.leaving (outcome right n).2) := by
  obtain ⟨ρ', _, _, after, answers⟩ := Memory.Equivalent.of_simulates simulates
  refine ⟨ρ', answers.imp ?_, after⟩
  rintro v _ rfl
  exact ⟨rfl, Value.display_rename ρ' v⟩

theorem evaluateProgram_program (session : Session) (procedures : List Procedure) :
    (session.evaluateProgram (program procedures)).2 =
      session.leaving (session.memory.defineUnder session.limit procedures) :=
  congrArg session.leaving (outcome_program_under _ _ _)

/-- Evaluates several programs one after the other, whatever comes of them. -/
def evaluateAll (session : Session) (programs : List Program) : Session :=
  programs.foldl (fun session program => (session.evaluateProgram program).2) session

/-- Definitions leave the same memory however they are divided among programs. -/
theorem evaluateAll_programs (session : Session) (groups : List (List Procedure)) :
    session.evaluateAll (groups.map program) =
      session.leaving (session.memory.defineUnder session.limit groups.flatten) := by
  induction groups generalizing session with
  | nil =>
    rw [List.flatten_nil, Memory.defineUnder_nil]
    rfl
  | cons group groups ih =>
    rw [List.map_cons, evaluateAll, List.foldl_cons, evaluateProgram_program, List.flatten_cons,
      ← Memory.defineUnder_append]
    exact ih _

/-- Plain code that a renaming of stamps leaves alone ends alike after equivalent memories. -/
theorem simulates_of_equivalent {m n : Memory} {ρ : Renaming} (equivalent : m.Equivalent ρ n)
    (regular : m.Regular) (regular' : n.Regular) (limit budget : Nat)
    (plain : Form.allPlain q = true) (kept : Form.restampAll ρ.stamp q = q) :
    Simulates (Memory.Equivalent.world ρ m) m n
        (CellScheme.evaluateBody limit budget .global q)
        (CellScheme.evaluateBody limit budget .global q) World.Match ∧
      Simulates (Memory.Equivalent.world ρ m) m n
        (evaluateForms (CellScheme.evaluate limit budget) .global .unspecified q)
        (evaluateForms (CellScheme.evaluate limit budget) .global .unspecified q) World.Match := by
  obtain ⟨programs, sound, plains⟩ := regular
  obtain ⟨programs', sound', _⟩ := regular'
  have related := equivalent.related sound sound' plains
  have global : (Memory.Equivalent.world ρ m).MatchEnv .global .global :=
    ⟨fun frame member => absurd member List.not_mem_nil, rfl⟩
  obtain ⟨exprs, bodies⟩ := Simulates.simulation ρ.stamp limit budget
  have whole := bodies related global plain
  have rest := Simulates.forms exprs related global (World.match_literal (v := .unspecified) rfl)
    plain
  rw [kept] at whole rest
  exact ⟨whole, rest⟩

/-- Definitions of different names may be permuted, and their stamps with them, when the renaming of
stamps is of no account in memory and in the program that follows. -/
theorem endAlike_of_perm (session : Session) (regular : session.memory.Regular)
    (fixed : Renaming.refl.Extends session.memory ⟨Equiv.refl Nat, Equiv.refl Nat, σ⟩)
    (plain : Form.allPlain (program procedures) = true)
    (plain' : Form.allPlain (program procedures') = true)
    (distinct : (procedures.map Procedure.name).Nodup)
    (permuted : (procedures.map (Procedure.restamp σ)).Perm procedures')
    (follows : Form.allPlain q = true) (kept : Form.restampAll σ q = q) :
    EndAlike (session.evaluateProgram (program procedures ++ q))
        (session.evaluateProgram (program procedures' ++ q)) ∧
      EndAlike
        ((session.leaving (session.memory.defineUnder session.limit procedures)).evaluateProgram q)
        ((session.leaving
          (session.memory.defineUnder session.limit procedures')).evaluateProgram q) := by
  obtain ⟨ρ, rfl, equivalent⟩ :=
    regular.equivalent_definitions fixed plain plain' distinct permuted
  have ended : ∀ (session : Session) (program : Program), session.evaluateProgram program =
      ((outcome (CellScheme.evaluateBody session.limit session.limit .global program)
          session.memory).1,
        session.leaving (outcome (CellScheme.evaluateBody session.limit session.limit .global
          program) session.memory).2) := fun _ _ => rfl
  have empty : procedures = [] ↔ procedures' = [] := by
    rw [← List.length_eq_zero_iff, ← List.length_eq_zero_iff, ← permuted.length_eq,
      List.length_map]
  have simulates := fun budget => simulates_of_equivalent equivalent (regular.defineAll plain)
    (regular.defineAll plain') session.limit budget follows kept
  constructor
  · by_cases none : procedures = []
    · rw [none, empty.mp none]
      exact .refl _
    · have none' : procedures' ≠ [] := mt empty.mpr none
      rw [ended, ended]
      by_cases few : session.limit < 2
      -- The first definition is cut off, whichever it is, and nothing behind it runs.
      · rw [outcome_program_append_of_few _ _ _ _ few none,
          outcome_program_append_of_few _ _ _ _ few none']
        exact .refl _
      · obtain ⟨budget, levels⟩ : ∃ budget, session.limit = budget + 2 :=
          ⟨session.limit - 2, by omega⟩
        have rest := endAlike_of_simulates (simulates (budget + 1)).2 session session
        rw [levels] at rest ⊢
        rw [outcome_program_append _ _ _ _ _ none, outcome_program_append _ _ _ _ _ none']
        exact rest
  · unfold Memory.defineUnder
    split
    · exact .refl _
    · exact endAlike_of_simulates (simulates session.limit).1 session session

variable {programs : List Program}

/-- A renaming of stamps that have not been drawn yet is of no account. -/
theorem Sound.extends_of_new (sound : session.Sound programs)
    (old : ∀ stamp < session.supply, σ stamp = stamp) :
    Renaming.refl.Extends session.memory ⟨Equiv.refl Nat, Equiv.refl Nat, σ⟩ := by
  refine ⟨fun _ _ => rfl, fun c reach => ?_⟩
  have fixed : ∀ stamp ∈ c.stamp :: Form.stampsAll c.body, σ stamp = stamp :=
    fun stamp member => old stamp (sound.stamps_lt reach member)
  have own : σ c.stamp = c.stamp := fixed c.stamp List.mem_cons_self
  have body : Form.restampAll σ c.body = Form.restampAll id c.body :=
    Form.restampAll_congr c.body fun stamp member => fixed stamp (List.mem_cons_of_mem _ member)
  change Closure.mk (σ c.stamp) c.params (Form.restampAll σ c.body) _ =
    Closure.mk c.stamp c.params (Form.restampAll id c.body) _
  rw [own, body]
  rfl

/-- Definitions that are stamped in another order leave the same supply, and what follows them is
stamped alike and ends alike. -/
theorem Sound.exists_draws (sound : session.Sound programs)
    (plain : Form.allPlain (program procedures) = true)
    (distinct : (procedures.map Procedure.name).Nodup) (permuted : procedures.Perm procedures')
    (follows : Form.allPlain q = true) :
    ∃ stamped stamped' supply follower further,
      (Form.stampedAll (program procedures)).run session.supply = (program stamped, supply) ∧
      (Form.stampedAll (program procedures')).run session.supply = (program stamped', supply) ∧
      (Form.stampedAll q).run supply = (follower, further) ∧
      EndAlike
        (({ session with supply := further } : Session).evaluateProgram
          (program stamped ++ follower))
        (({ session with supply := further } : Session).evaluateProgram
          (program stamped' ++ follower)) ∧
      EndAlike
        (({ session with
          memory := session.memory.defineUnder session.limit stamped
          supply := further } : Session).evaluateProgram follower)
        (({ session with
          memory := session.memory.defineUnder session.limit stamped'
          supply := further } : Session).evaluateProgram follower) := by
  obtain ⟨stamped, drawn, names, plain₁⟩ := exists_stamped procedures plain session.supply
  obtain ⟨stamped', drawn', _, plain₂⟩ :=
    exists_stamped procedures' (allPlain_perm permuted plain) session.supply
  obtain ⟨supplies, σ, fixed, restamped⟩ :=
    Form.stampedAll_perm (permuted.map form) plain session.supply
  obtain ⟨count, draws⟩ := Form.draws_stampedAll q follows
  change ((Form.stampedAll (program procedures')).run _).2 =
    ((Form.stampedAll (program procedures)).run _).2 at supplies
  change (Form.restampAll σ ((Form.stampedAll (program procedures)).run _).1).Perm
    ((Form.stampedAll (program procedures')).run _).1 at restamped
  rw [drawn, drawn', ← program_restamp] at restamped
  let supply := ((Form.stampedAll (program procedures)).run session.supply).2
  -- What follows draws its stamps behind those of all definitions, so the permutation keeps them.
  have kept : Form.restampAll σ ((Form.stampedAll q).run supply).1
      = ((Form.stampedAll q).run supply).1 :=
    draws.shift supply supply σ fun i _ => fixed _ (.inr (Nat.le_add_right _ _))
  have alike := endAlike_of_perm
    { session with supply := ((Form.stampedAll q).run supply).2 }
    ⟨programs, sound.memory, sound.plain⟩
    (sound.extends_of_new fun stamp old => fixed stamp (.inl old)) plain₁ plain₂ (names ▸ distinct)
    ((List.map_perm_map_iff form_injective).mp restamped) (draws.plain supply) kept
  exact ⟨stamped, stamped', supply, _, ((Form.stampedAll q).run supply).2, Prod.ext drawn rfl,
    Prod.ext drawn' supplies, rfl, alike.1, alike.2⟩

/-- A text evaluates its program as the session stamps it. -/
theorem evaluateText_of_draws {comments : Bool} {text : String} {program stamped : Program}
    {supply : Nat} (held : Program.ofText comments text = .ok program)
    (drawn : (Form.stampedAll program).run session.supply = (stamped, supply)) :
    session.evaluateText comments text =
      ({ session with supply } : Session).evaluateProgram stamped := by
  rw [evaluateText_of_ok held, stamp, Program.stamped, drawn]

/-- Texts that hold definitions and nothing else, a group of them each. -/
def DefinitionTexts (comments : Bool) : List String → List (List Procedure) → Prop :=
  List.Forall₂ fun text group => Program.ofText comments text = .ok (program group)

/-- Evaluates several texts one after the other, whatever comes of them. -/
def evaluateTexts (session : Session) (comments : Bool) (texts : List String) : Session :=
  texts.foldl (fun session text => (session.evaluateText comments text).2) session

/-- Texts that hold definitions leave the same memory however these are divided among the texts. -/
theorem evaluateTexts_programs {comments : Bool} {texts : List String}
    {groups : List (List Procedure)}
    (held : DefinitionTexts comments texts groups) {stamped : List Procedure} {supply : Nat}
    (drawn : (Form.stampedAll (program groups.flatten)).run session.supply
      = (program stamped, supply)) :
    session.evaluateTexts comments texts =
      { session with
        memory := session.memory.defineUnder session.limit stamped
        supply } := by
  induction held generalizing session stamped with
  | nil =>
    obtain ⟨spelled, rfl⟩ := Prod.mk.inj drawn
    obtain rfl : stamped = [] := List.map_eq_nil_iff.mp spelled.symm
    rw [Memory.defineUnder_nil]
    rfl
  | @cons text group texts groups held _ ih =>
    have split : program (group :: groups).flatten = program group ++ program groups.flatten := by
      rw [List.flatten_cons, program, program, program, List.map_append]
    rw [split, Form.run_stampedAll_append] at drawn
    obtain ⟨spelled, supplies⟩ := Prod.mk.inj drawn
    obtain ⟨first, rest, rfl, own, others⟩ := List.map_eq_append_iff.mp spelled.symm
    -- The first text draws the front of the stamps that all texts draw together.
    have ran : (session.evaluateText comments text).2 =
        { session with
          memory := session.memory.defineUnder session.limit first
          supply := ((Form.stampedAll (program group)).run session.supply).2 } := by
      rw [evaluateText_of_draws held (Prod.ext own.symm rfl)]
      exact evaluateProgram_program _ _
    change ((session.evaluateText comments text).2).evaluateTexts comments texts = _
    rw [ran, ih (Prod.ext others.symm supplies), Memory.defineUnder_append]

variable {comments : Bool}

/-- A plain program of definitions and what follows them, stamped in another order, ends alike. -/
theorem Sound.endAlike_stamp (sound : session.Sound programs)
    (plain : Form.allPlain (program procedures ++ q) = true)
    (distinct : (procedures.map Procedure.name).Nodup) (permuted : procedures.Perm procedures') :
    EndAlike
      ((session.stamp (program procedures ++ q)).2.evaluateProgram
        (session.stamp (program procedures ++ q)).1)
      ((session.stamp (program procedures' ++ q)).2.evaluateProgram
        (session.stamp (program procedures' ++ q)).1) := by
  rw [Form.allPlain_eq, List.all_append, Bool.and_eq_true, ← Form.allPlain_eq,
    ← Form.allPlain_eq] at plain
  obtain ⟨stamped, stamped', supply, follower, further, drawn, drawn', follows, alike, _⟩ :=
    sound.exists_draws plain.1 distinct permuted plain.2
  have whole := Form.run_stampedAll_append (program procedures) q session.supply
  have whole' := Form.run_stampedAll_append (program procedures') q session.supply
  rw [drawn, follows] at whole
  rw [drawn', follows] at whole'
  rw [Session.stamp, Session.stamp, Program.stamped, Program.stamped, whole, whole']
  exact alike

theorem plain_of_texts {texts : List String} {groups : List (List Procedure)}
    (held : DefinitionTexts comments texts groups) :
    Form.allPlain (program groups.flatten) = true := by
  induction held with
  | nil => rfl
  | @cons text group texts groups held _ ih =>
    obtain ⟨data, isData, success⟩ := Program.ofText_eq_ok held
    have first := Program.isPlain_of_ofData isData success
    rw [List.flatten_cons, program, List.map_append, Form.allPlain_eq, List.all_append,
      ← Form.allPlain_eq, ← Form.allPlain_eq, Bool.and_eq_true]
    exact ⟨first, ih⟩

/-- In every text-driven session, definitions of procedures under different names may come in any
order, and so may those of one text, or the texts that hold them. What follows gives the same error,
or results that print the same, and leaves memories that differ by a renaming only. -/
theorem definitions_in_any_order (driven : session.TextDriven programs) :
    -- Programs converted before, in which the definitions stand first or which they make up.
    (∀ (groups groups' : List (List Procedure)) (q : Program),
      Form.allPlain (program groups.flatten) = true →
      (groups.flatten.map Procedure.name).Nodup → groups.flatten.Perm groups'.flatten →
      Form.allPlain q = true →
      EndAlike (session.evaluateProgram (program groups.flatten ++ q))
          (session.evaluateProgram (program groups'.flatten ++ q)) ∧
        EndAlike ((session.evaluateAll (groups.map program)).evaluateProgram q)
          ((session.evaluateAll (groups'.map program)).evaluateProgram q)) ∧
    -- Texts in which the definitions stand first.
    (∀ (comments : Bool) (text text' : String) (procedures procedures' : List Procedure)
        (q : Program),
      Program.ofText comments text = .ok (program procedures ++ q) →
      Program.ofText comments text' = .ok (program procedures' ++ q) →
      (procedures.map Procedure.name).Nodup → procedures.Perm procedures' →
      EndAlike (session.evaluateText comments text) (session.evaluateText comments text')) ∧
    -- Texts that the definitions make up, before another text.
    (∀ (comments : Bool) (texts texts' : List String) (groups groups' : List (List Procedure))
        (text : String) (q : Program),
      DefinitionTexts comments texts groups → DefinitionTexts comments texts' groups' →
      Program.ofText comments text = .ok q →
      (groups.flatten.map Procedure.name).Nodup → groups.flatten.Perm groups'.flatten →
      EndAlike ((session.evaluateTexts comments texts).evaluateText comments text)
        ((session.evaluateTexts comments texts').evaluateText comments text)) := by
  have sound := driven.sound
  refine ⟨?kept, ?oneText, ?ownTexts⟩
  case kept =>
    intro groups groups' q plain distinct permuted follows
    have same : Form.restampAll (Equiv.refl Nat) q = q := Form.restampAll_id q
    rw [evaluateAll_programs, evaluateAll_programs]
    exact session.endAlike_of_perm ⟨programs, sound.memory, sound.plain⟩
      (Renaming.Extends.refl _ _) plain (allPlain_perm permuted plain) distinct
      (by rwa [map_restamp_refl]) follows same
  case oneText =>
    intro comments text text' procedures procedures' q held held' distinct permuted
    obtain ⟨data, isData, success⟩ := Program.ofText_eq_ok held
    rw [evaluateText_of_ok held, evaluateText_of_ok held']
    exact sound.endAlike_stamp (Program.isPlain_of_ofData isData success) distinct permuted
  case ownTexts =>
    intro comments texts texts' groups groups' text q held held' follower distinct permuted
    obtain ⟨data, isData, success⟩ := Program.ofText_eq_ok follower
    obtain ⟨stamped, stamped', supply, _, further, drawn, drawn', follows, _, alike⟩ :=
      sound.exists_draws (plain_of_texts held) distinct permuted
        (Program.isPlain_of_ofData isData success)
    rw [evaluateTexts_programs held drawn, evaluateTexts_programs held' drawn',
      evaluateText_of_draws follower follows, evaluateText_of_draws follower follows]
    exact alike

/-- Data printed one to a line are the text of the program that they denote. -/
theorem ofText_lines {data : List Value} (comments : Bool)
    (readable : Value.allReadable data = true) (shallow : Value.nestAll data ≤ 63)
    {program : Program} (converted : Program.ofData data = .ok program) :
    Program.ofText comments (Reader.lines data) = .ok program := by
  simp only [Program.ofText, Reader.readProgram_lines comments readable shallow, converted]
  rfl

/-- The data of `(define name (lambda (n) (if (= n 0) truth (other (- n 1)))))`. -/
def parityData (name other : String) (truth : Bool) : Value :=
  .list [.symbol "define", .symbol name,
    .list [.symbol "lambda", .list [.symbol "n"],
      .list [.symbol "if", .list [.symbol "=", .symbol "n", .number .zero],
        .boolean truth,
        .list [.symbol other, .list [.symbol "-", .symbol "n", .number .one]]]]]

/-- The procedure that these data define. -/
def parity (name other : String) (truth : Bool) : Procedure :=
  ⟨name, 0, ["n"],
    [.expr (.conditional (.apply (.primitive .equals) [.variable "n", .number .zero])
      (.boolean truth)
      (.apply (.variable other)
        [.apply (.primitive .subtract) [.variable "n", .number .one]]))]⟩

/-- The data of `(list (even? 1) (odd? 1) (count))`. -/
def parityCallData : Value :=
  .list [.symbol "list", .list [.symbol "even?", .number .one],
    .list [.symbol "odd?", .number .one], .list [.symbol "count"]]

/-- The program that these data denote. -/
def parityCall : Program :=
  [.expr (.apply (.primitive .list) [.apply (.variable "even?") [.number .one],
    .apply (.variable "odd?") [.number .one], .apply (.variable "count") []])]

/-- Two procedures that call each other, defined in a session that has run the counter before. -/
theorem definitions_in_any_order_parity :
    let even := parityData "even?" "odd?" true
    let odd := parityData "odd?" "even?" false
    let procedures := [parity "even?" "odd?" true, parity "odd?" "even?" false]
    let procedures' := [parity "odd?" "even?" false, parity "even?" "odd?" true]
    counterSession.TextDriven [counterStamped] ∧
      EndAlike (counterSession.evaluateProgram (program procedures ++ parityCall))
        (counterSession.evaluateProgram (program procedures' ++ parityCall)) ∧
      EndAlike
        (counterSession.evaluateText true (Reader.lines [even, odd, parityCallData]))
        (counterSession.evaluateText true (Reader.lines [odd, even, parityCallData])) ∧
      EndAlike
        ((counterSession.evaluateTexts true [Reader.lines [even], Reader.lines [odd]]).evaluateText
          true (Reader.lines [parityCallData]))
        ((counterSession.evaluateTexts true [Reader.lines [odd, even]]).evaluateText
          true (Reader.lines [parityCallData])) ∧
      (counterSession.evaluateProgram (program procedures ++ parityCall)).1.map Value.display =
        .ok "(#f #t 2)" := by
  intro even odd procedures procedures'
  have inAnyOrder := definitions_in_any_order counterSession_textDriven
  have swapped : procedures.Perm procedures' := .swap _ _ _
  have distinct : (procedures.map Procedure.name).Nodup := by decide
  have plain : Form.allPlain (program procedures) = true := by decide
  have whole : Program.ofText true (Reader.lines [even, odd, parityCallData]) =
      .ok (program procedures ++ parityCall) :=
    ofText_lines true (by decide +kernel) (by decide +kernel) rfl
  have whole' : Program.ofText true (Reader.lines [odd, even, parityCallData]) =
      .ok (program procedures' ++ parityCall) :=
    ofText_lines true (by decide +kernel) (by decide +kernel) rfl
  have each : DefinitionTexts true [Reader.lines [even], Reader.lines [odd]]
      (procedures.map ([·])) :=
    .cons (ofText_lines true (by decide +kernel) (by decide +kernel) rfl)
      (.cons (ofText_lines true (by decide +kernel) (by decide +kernel) rfl) .nil)
  have both : DefinitionTexts true [Reader.lines [odd, even]] [procedures'] :=
    .cons (ofText_lines true (by decide +kernel) (by decide +kernel) rfl) .nil
  have call : Program.ofText true (Reader.lines [parityCallData]) = .ok parityCall :=
    ofText_lines true (by decide +kernel) (by decide +kernel) rfl
  exact ⟨counterSession_textDriven,
    (inAnyOrder.1 [procedures] [procedures'] parityCall plain distinct swapped (by decide)).1,
    inAnyOrder.2.1 true _ _ procedures procedures' parityCall whole whole' distinct swapped,
    inAnyOrder.2.2 true _ _ _ _ _ parityCall each both call distinct swapped, by decide +kernel⟩

end Session

end CellScheme
