import CellScheme.Proofs.Equivalence
import CellScheme.Proofs.TextDriven

/-!
Addresses, cells out of reach and further definitions of a bound name cannot be observed. Sessions
with equivalent memories give the same errors and the same printed results for every program, and
their memories are equivalent afterwards. What a program can observe is whether the same conversion
has made two closures. So code corresponds by the renaming of stamps, or each session converts it
anew; one converted program, run in two such sessions as it is, may tell them apart.
-/
namespace CellScheme

open Evaluation

section
variable (limit budget : Nat) (name : String) (value : Expr) (memory : Memory)

theorem outcome_evaluateBody_expr :
    outcome (evaluateBody limit (budget + 1) .global [.expr value]) memory =
      outcome (evaluate limit budget .global value) memory := by
  rw [evaluateBody.eq_def]
  simp only [evaluateForms, outcome_bind, outcome_pure]
  generalize outcome (evaluate limit budget .global value) memory = ended
  obtain ⟨answer, left⟩ := ended
  cases answer <;> rfl

theorem outcome_evaluateBody_define :
    outcome (evaluateBody limit (budget + 1) .global [.define name value]) memory =
      match outcome (evaluate limit budget .global value) memory with
      | (.ok v, left) => (.ok .unspecified, left.define name v)
      | (.error e, left) => (.error e, left) := by
  rw [evaluateBody.eq_def]
  simp only [evaluateForms, outcome_bind, outcome_pure, outcome_modify]
  generalize outcome (evaluate limit budget .global value) memory = ended
  obtain ⟨answer, left⟩ := ended
  cases answer <;> rfl

end

/-- A definition of a name that is bound already does what its expression does, apart from its own
result: the name keeps its cell, and the cell keeps its value. -/
theorem Memory.Sound.redefine {programs : List Program} {memory : Memory}
    (sound : memory.Sound programs) (plain : ∀ program ∈ programs, Form.allPlain program = true)
    (limit : Nat) {name : String} {value : Expr} (plain' : value.isPlain = true)
    (bound : (memory.globals.find? name).isSome) :
    Answers (fun _ w => w = .unspecified)
        (outcome (evaluateBody limit limit .global [.expr value]) memory).1
        (outcome (evaluateBody limit limit .global [.define name value]) memory).1 ∧
      Memory.Equivalent .refl
        (outcome (evaluateBody limit limit .global [.expr value]) memory).2
        (outcome (evaluateBody limit limit .global [.define name value]) memory).2 := by
  let program : Program := [.expr value]
  have plains : ∀ known ∈ program :: programs, Form.allPlain known = true := by
    intro known member
    rcases List.mem_cons.mp member with rfl | old
    · simp only [program, Form.allPlain, Form.isPlain, plain', Bool.and_self]
    · exact plain known old
  have further := sound.mono fun _ => List.mem_cons_of_mem program
  have ends := Discipline.ends limit (further.holds plains List.mem_cons_self limit)
  have after : Memory.Sound (program :: programs)
      (outcome (evaluateBody limit limit .global [.expr value]) memory).2 := ends.memory
  have grows : memory.Grows (outcome (evaluateBody limit limit .global [.expr value]) memory).2 :=
    ends.moves
  have still := grows.isSome_find? bound
  cases limit with
  | zero =>
    rw [evaluateBody.eq_def, evaluateBody.eq_def]
    exact ⟨.error, .refl memory⟩
  | succ budget =>
    rw [outcome_evaluateBody_expr] at after still ⊢
    rw [outcome_evaluateBody_define]
    generalize outcome (evaluate (budget + 1) budget .global value) memory = ended
      at after still ⊢
    obtain ⟨answer, left⟩ := ended
    cases answer with
    | error e => exact ⟨.error, .refl left⟩
    | ok v => exact ⟨.ok rfl, after.equivalent_define still v⟩

namespace Session

/-- Two evaluations that end alike, under a renaming that extends the one between the memories
before: with the same error, or with results that correspond and print the same. -/
structure SameEnd (before : Memory) (ρ ρ' : Renaming) (left right : Except Error Value × Session) :
    Prop where
  extends_ : ρ.Extends before ρ'
  answers : Answers (fun v w => w = v.rename ρ' ∧ w.display = v.display) left.1 right.1
  memories : left.2.memory.Equivalent ρ' right.2.memory

variable {session session' : Session} {programs programs' : List Program} {program : Program}
  {ρ : Renaming}

/-- A plain program and the same program with renamed stamps end alike. -/
theorem Sound.sameEnd (sound : session.Sound programs) (sound' : session'.Sound programs')
    (limits : session'.limit = session.limit)
    (equivalent : session.memory.Equivalent ρ session'.memory)
    (plain : Form.allPlain program = true) :
    ∃ ρ', ρ'.stamp = ρ.stamp ∧ SameEnd session.memory ρ ρ' (session.evaluateProgram program)
      (session'.evaluateProgram (Form.restampAll ρ.stamp program)) := by
  obtain ⟨ρ', stamp, extends_, memories, answers⟩ :=
    equivalent.evaluateBody sound.memory sound'.memory sound.plain session.limit session.limit plain
  rw [evaluateProgram_eq, evaluateProgram_eq, start, start, limits]
  refine ⟨ρ', stamp, extends_, answers.imp ?_, memories⟩
  rintro v _ rfl
  exact ⟨rfl, Value.display_rename ρ' v⟩

/-- The stamps of a reachable closure and of its body have been drawn before. -/
theorem Sound.stamps_lt (sound : session.Sound programs) {c : Closure}
    (reach : session.memory.ReachableClosure c) {stamp : Nat}
    (member : stamp ∈ c.stamp :: Form.stampsAll c.body) : stamp < session.supply := by
  obtain ⟨_, program, known, path, here⟩ := sound.memory.reachableClosure reach
  have inside : stamp ∈ Form.stampsAll program := Code.mem_stamps_of_at? here member
  exact sound.below stamp (List.mem_flatMap.mpr ⟨program, known, inside⟩)

/-- When both sessions convert the same program, its new stamps can be made to correspond, too. -/
theorem Sound.adopt (sound : session.Sound programs) (sound' : session'.Sound programs')
    (equivalent : session.memory.Equivalent ρ session'.memory)
    (plain : Form.allPlain program = true) :
    ∃ ρ', ρ.Extends session.memory ρ' ∧
      (∀ stamp < session.supply, ρ.stamp stamp < session'.supply →
        ρ'.stamp stamp = ρ.stamp stamp) ∧
      (session'.stamp program).1 = Form.restampAll ρ'.stamp (session.stamp program).1 := by
  obtain ⟨count, draws⟩ := Program.stamped_draws plain
  obtain ⟨_, _, _, shift⟩ := draws session.supply
  let known : Set Nat := { i | i < session.supply ∧ ρ.stamp i < session'.supply }
  obtain ⟨stamp, same, new⟩ := exists_extend ρ.stamp (fun i (member : i ∈ known) => member) count
  refine ⟨⟨ρ.cell, ρ.frame, stamp⟩, ⟨fun _ _ => rfl, ?_⟩, ?_, (shift _ stamp new).symm⟩
  · intro c reach
    -- A closure in reach has old stamps on both sides, and these keep their counterparts.
    have old : ∀ i ∈ c.stamp :: Form.stampsAll c.body, stamp i = ρ.stamp i := by
      intro i member
      refine same i ⟨sound.stamps_lt reach member, ?_⟩
      refine sound'.stamps_lt (equivalent.reachableClosure reach) ?_
      rw [Closure.rename, Form.stampsAll_restampAll]
      exact List.mem_map_of_mem (f := ρ.stamp) member
    have own := old c.stamp List.mem_cons_self
    have body := Form.restampAll_congr c.body fun i member => old i (List.mem_cons_of_mem _ member)
    rw [Closure.rename, Closure.rename, own, body]
    rfl
  · intro i below below'
    exact same i ⟨below, below'⟩

/-- A program that both sessions convert anew ends alike in both. -/
theorem Sound.sameEnd_stamp (sound : session.Sound programs) (sound' : session'.Sound programs')
    (limits : session'.limit = session.limit)
    (equivalent : session.memory.Equivalent ρ session'.memory)
    (plain : Form.allPlain program = true) :
    ∃ ρ', (∀ stamp < session.supply, ρ.stamp stamp < session'.supply →
        ρ'.stamp stamp = ρ.stamp stamp) ∧
      (session'.stamp program).1 = Form.restampAll ρ'.stamp (session.stamp program).1 ∧
      SameEnd session.memory ρ ρ'
        ((session.stamp program).2.evaluateProgram (session.stamp program).1)
        ((session'.stamp program).2.evaluateProgram (session'.stamp program).1) := by
  obtain ⟨ρ₁, extends₁, old, corresponds⟩ := sound.adopt sound' equivalent plain
  have stamped := sound.stamp plain
  obtain ⟨ρ₂, stamp, same⟩ := stamped.sameEnd (sound'.stamp plain) limits (equivalent.congr extends₁)
    (stamped.plain _ List.mem_cons_self)
  rw [← corresponds] at same
  refine ⟨ρ₂, ?_, ?_, extends₁.trans same.extends_, same.answers, same.memories⟩
  · rw [stamp]
    exact old
  · rw [stamp]
    exact corresponds

/-- A text ends alike in both sessions. A faulty one changes neither. -/
theorem TextDriven.sameEnd_text (driven : session.TextDriven programs)
    (driven' : session'.TextDriven programs') (limits : session'.limit = session.limit)
    (equivalent : session.memory.Equivalent ρ session'.memory) (comments : Bool) (text : String) :
    ∃ ρ', SameEnd session.memory ρ ρ' (session.evaluateText comments text)
      (session'.evaluateText comments text) := by
  cases converted : Program.ofText comments text with
  | error fault =>
    rw [evaluateText_of_error converted, evaluateText_of_error converted]
    exact ⟨ρ, .refl _ ρ, .error, equivalent⟩
  | ok program =>
    obtain ⟨data, isData, success⟩ := Program.ofText_eq_ok converted
    rw [evaluateText_of_ok converted, evaluateText_of_ok converted]
    obtain ⟨ρ', _, _, same⟩ := driven.sound.sameEnd_stamp driven'.sound limits equivalent
      (Program.isPlain_of_ofData isData success)
    exact ⟨ρ', same⟩

/-- The data of `(let ((stray 1)) stray)`. -/
def strayData : List Value :=
  [.list [.symbol "let", .list [.list [.symbol "stray", .number .one]], .symbol "stray"]]

/-- The data of `(define count 0)`. -/
def shadowedData : List Value :=
  [.list [.symbol "define", .symbol "count", .number .zero]]

/-- A program that leaves a cell and a frame behind, both out of reach. -/
def strayProgram : Program :=
  [.expr (.letIn [("stray", .number .one)] [.expr (.variable "stray")])]

/-- A further definition of a name. -/
def shadowedProgram : Program :=
  [.define "count" (.number .zero)]

/-- The counter again, after a stray cell and before a definition that comes too late. -/
def crowdedSession : Session :=
  (((Session.evaluateProgram {} strayProgram).2.stamp counterProgram).2.evaluateProgram
    counterStamped).2.evaluateProgram shadowedProgram |>.2

theorem crowdedSession_textDriven :
    crowdedSession.TextDriven [shadowedProgram, counterStamped, strayProgram] := by
  have stray : Session.TextDriven (Session.evaluateProgram {} strayProgram).2 [strayProgram] := by
    have converted : Program.ofData strayData = .ok strayProgram := rfl
    exact .run (.convert (.fresh 256 0) rfl converted) List.mem_cons_self
  have counter : Program.ofData counterData = .ok counterProgram := rfl
  have shadowed : Program.ofData shadowedData = .ok shadowedProgram := rfl
  exact .run (.convert (.run (.convert stray rfl counter) List.mem_cons_self) rfl shadowed)
    List.mem_cons_self

/-- Where the cells and frames of the small session are found in the crowded one. -/
def crowding : Renaming :=
  ⟨Equiv.swap 0 2 * Equiv.swap 0 1, Equiv.swap 0 1, Equiv.refl Nat⟩

theorem counterSession_equivalent :
    counterSession.memory.Equivalent crowding crowdedSession.memory where
  globals name := by
    change List.lookup name [("count", 2), ("count", 3)] =
      (List.lookup name [("count", 1)]).map crowding.cell
    simp only [List.lookup_cons, List.lookup_nil]
    split <;> rfl
  cells a reach := by
    have bound : a < 2 := counterSession_textDriven.sound.memory.reachable_lt reach
    match a, bound with
    | 0, _ => rfl
    | 1, _ => rfl

/-- Two text-driven sessions with equivalent memories and the same limit cannot be told apart by code
that corresponds, by data converted in each of them, or by a text. Nor can a session be told from
what it would be after the same definition of a bound name without the name. -/
theorem renaming_unobservable (driven : session.TextDriven programs)
    (driven' : session'.TextDriven programs') (limits : session'.limit = session.limit)
    (equivalent : session.memory.Equivalent ρ session'.memory) :
    (∀ program, Form.allPlain program = true →
      ∃ ρ', ρ'.stamp = ρ.stamp ∧ SameEnd session.memory ρ ρ' (session.evaluateProgram program)
        (session'.evaluateProgram (Form.restampAll ρ.stamp program))) ∧
      (∀ data program, Value.allData data = true → Program.ofData data = .ok program →
        ∃ ρ', (∀ stamp < session.supply, ρ.stamp stamp < session'.supply →
            ρ'.stamp stamp = ρ.stamp stamp) ∧
          (session'.stamp program).1 = Form.restampAll ρ'.stamp (session.stamp program).1 ∧
          SameEnd session.memory ρ ρ'
            ((session.stamp program).2.evaluateProgram (session.stamp program).1)
            ((session'.stamp program).2.evaluateProgram (session'.stamp program).1)) ∧
      (∀ comments text, ∃ ρ', SameEnd session.memory ρ ρ' (session.evaluateText comments text)
        (session'.evaluateText comments text)) ∧
      ∀ name value, value.isPlain = true → (session.memory.globals.find? name).isSome →
        Answers (fun _ w => w = .unspecified) (session.evaluateProgram [.expr value]).1
            (session.evaluateProgram [.define name value]).1 ∧
          (session.evaluateProgram [.expr value]).2.memory.Equivalent .refl
            (session.evaluateProgram [.define name value]).2.memory := by
  have sound := driven.sound
  have sound' := driven'.sound
  refine ⟨?_, ?_, ?_, ?_⟩
  · intro program plain
    exact sound.sameEnd sound' limits equivalent plain
  · intro data program isData success
    exact sound.sameEnd_stamp sound' limits equivalent (Program.isPlain_of_ofData isData success)
  · intro comments text
    exact driven.sameEnd_text driven' limits equivalent comments text
  · intro name value plain bound
    exact sound.memory.redefine sound.plain session.limit plain bound

theorem renaming_unobservable_crowded :
    counterSession.TextDriven [counterStamped] ∧
      crowdedSession.TextDriven [shadowedProgram, counterStamped, strayProgram] ∧
      crowdedSession.limit = counterSession.limit ∧
      counterSession.memory.Equivalent crowding crowdedSession.memory ∧
      Form.allPlain counterStamped = true ∧
      (counterSession.evaluateProgram counterStamped).1.map Value.display = .ok "2" ∧
      (∃ ρ', ρ'.stamp = crowding.stamp ∧ SameEnd counterSession.memory crowding ρ'
        (counterSession.evaluateProgram counterStamped)
        (crowdedSession.evaluateProgram (Form.restampAll crowding.stamp counterStamped))) ∧
      ∃ ρ', SameEnd counterSession.memory crowding ρ'
        (counterSession.evaluateText true "(count)") (crowdedSession.evaluateText true "(count)") :=
  have all := renaming_unobservable counterSession_textDriven crowdedSession_textDriven rfl
    counterSession_equivalent
  ⟨counterSession_textDriven, crowdedSession_textDriven, rfl, counterSession_equivalent, rfl, rfl,
    all.1 counterStamped rfl, all.2.2.1 true "(count)"⟩

/-- The data of `(define f 0)`. -/
def holderData : List Value :=
  [.list [.symbol "define", .symbol "f", .number .zero]]

/-- The program that these data denote. -/
def holderProgram : Program :=
  [.define "f" (.number .zero)]

/-- The data of `(let ((g (lambda () 0)) (old f)) (set! f g) (eq? old g))`. -/
def probeData : List Value :=
  [.list [.symbol "let",
    .list [.list [.symbol "g", .list [.symbol "lambda", .list [], .number .zero]],
      .list [.symbol "old", .symbol "f"]],
    .list [.symbol "set!", .symbol "f", .symbol "g"],
    .list [.symbol "eq?", .symbol "old", .symbol "g"]]]

/-- The program that these data denote: it asks whether `f` holds a closure that the program itself
has made, and puts one there. -/
def probeProgram : Program :=
  [.expr (.letIn [("g", .lambda 0 [] [.expr (.number .zero)]), ("old", .variable "f")]
    [.assign "f" (.variable "g"),
      .expr (.apply (.primitive .isIdentical) [.variable "old", .variable "g"])])]

/-- The probe as the first conversion and as the second one stamp it. -/
def probe (stamp : Nat) : Program :=
  (probeProgram.stamped stamp).1

/-- A session that has defined `f` and has converted the probe twice. -/
def prober : Session :=
  (((Session.evaluateProgram {} holderProgram).2.stamp probeProgram).2.stamp probeProgram).2

/-- The session after one of the probes has run. -/
def probed (stamp : Nat) : Session :=
  (prober.evaluateProgram (probe stamp)).2

theorem prober_textDriven : prober.TextDriven [probe 1, probe 0, holderProgram] := by
  have holder : Session.TextDriven (Session.evaluateProgram {} holderProgram).2 [holderProgram] := by
    have converted : Program.ofData holderData = .ok holderProgram := rfl
    exact .run (.convert (.fresh 256 0) rfl converted) List.mem_cons_self
  have converted : Program.ofData probeData = .ok probeProgram := rfl
  exact .convert (.convert holder rfl converted) rfl converted

/-- After either probe, memory is the same but for the stamp of the closure in it. -/
theorem probed_equivalent :
    (probed 0).memory.Equivalent ⟨Equiv.refl Nat, Equiv.refl Nat, Equiv.swap 0 1⟩
      (probed 1).memory where
  globals name := by
    have same : (probed 1).memory.globals = (probed 0).memory.globals := rfl
    rw [same]
    cases (probed 0).memory.globals.find? name <;> rfl
  cells a reach := by
    have driven : (probed 0).TextDriven [probe 1, probe 0, holderProgram] :=
      .run prober_textDriven (by simp)
    have bound : a < 3 := driven.sound.memory.reachable_lt reach
    match a, bound with
    | 0, _ => rfl
    | 1, _ => rfl
    | 2, _ => rfl

/-- One conversion of a program, run as it is in two sessions with equivalent memories, tells them
apart: closures are compared by the code that has made them, and only one session holds a closure
made by this conversion. -/
theorem kept_program_tells_apart :
    (probed 0).TextDriven [probe 1, probe 0, holderProgram] ∧
      (probed 1).TextDriven [probe 1, probe 0, holderProgram] ∧
      (probed 1).limit = (probed 0).limit ∧
      (probed 0).memory.Equivalent ⟨Equiv.refl Nat, Equiv.refl Nat, Equiv.swap 0 1⟩
        (probed 1).memory ∧
      ((probed 0).evaluateProgram (probe 0)).1.map Value.display = .ok "#t" ∧
      ((probed 1).evaluateProgram (probe 0)).1.map Value.display = .ok "#f" :=
  ⟨.run prober_textDriven (by simp), .run prober_textDriven (by simp), rfl, probed_equivalent,
    rfl, rfl⟩

end Session

end CellScheme
