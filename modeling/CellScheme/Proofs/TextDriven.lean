import CellScheme.Proofs.Conversion
import CellScheme.Proofs.Soundness
import CellScheme.Proofs.Stamping

/-!
Sessions that only text and converted data have changed. `Session.TextDriven` says how such a session
comes about and which programs it knows; `Session.TextDriven.sound` is its invariant: sound memory,
plain programs, and no stamp used twice. From it every moment of every run starts in good order
(`Session.TextDriven.holds`).
-/
namespace CellScheme

/-- The point at which the evaluation of a program begins. -/
def Session.start (session : Session) (program : Program) : Point :=
  ⟨session.limit, .global, .body program, session.memory⟩

/-- The session after an evaluation has left a memory behind. -/
def Session.leaving (session : Session) (memory : Memory) : Session :=
  { session with memory }

theorem Session.evaluateProgram_eq (session : Session) (program : Program) :
    session.evaluateProgram program =
      (((session.start program).outcome session.limit).1,
        session.leaving ((session.start program).outcome session.limit).2) := rfl

/-- An evaluation that leaves memory alone leaves the session alone. -/
theorem Session.perform_of_unchanged {session : Session} {α : Type} {evaluation : Evaluation α}
    {result : Except Error α}
    (ended : Evaluation.outcome evaluation session.memory = (result, session.memory)) :
    session.perform evaluation = (result, session) := by
  obtain ⟨memory, limit, supply⟩ := session
  exact congrArg (fun ended => (ended.1, (⟨ended.2, limit, supply⟩ : Session))) ended

/-- A session, starting fresh with any limit, that has only evaluated texts and converted data, and
the programs that it has converted so far. Errors of all kinds may have occurred on the way. A
converted program may be run any number of times; stamps may be left out, since other sessions draw
from the same supply. -/
inductive Session.TextDriven : Session → List Program → Prop
  | fresh (limit supply : Nat) : TextDriven { limit, supply } []
  | text {session : Session} {programs : List Program} {comments : Bool} {text : String}
    {program : Program} : TextDriven session programs →
    Program.ofText comments text = .ok program →
    TextDriven (session.evaluateText comments text).2 ((session.stamp program).1 :: programs)
  | faultyText {session : Session} {programs : List Program} {comments : Bool} {text : String}
    {fault : Error} : TextDriven session programs → Program.ofText comments text = .error fault →
    TextDriven (session.evaluateText comments text).2 programs
  | convert {session : Session} {programs : List Program} {data : List Value} {program : Program} :
    TextDriven session programs → Value.allData data = true → Program.ofData data = .ok program →
    TextDriven (session.stamp program).2 ((session.stamp program).1 :: programs)
  | run {session : Session} {programs : List Program} {program : Program} :
    TextDriven session programs → program ∈ programs →
    TextDriven (session.evaluateProgram program).2 programs
  | skip {session : Session} {programs : List Program} {supply : Nat} :
    TextDriven session programs → session.supply ≤ supply →
    TextDriven { session with supply } programs

/-- The invariant of a session that knows some programs. -/
structure Session.Sound (session : Session) (programs : List Program) : Prop where
  memory : session.memory.Sound programs
  plain : ∀ program ∈ programs, Form.allPlain program = true
  distinct : (programs.flatMap Form.stampsAll).Nodup
  below : ∀ stamp ∈ programs.flatMap Form.stampsAll, stamp < session.supply

section
variable {programs more : List Program} (among : ∀ program ∈ programs, program ∈ more)
include among

theorem Value.Sound.mono {memory : Memory} {v : Value} (sound : v.Sound programs memory) :
    v.Sound more memory := by
  intro c member
  obtain ⟨recorded, program, known, path, here⟩ := sound c member
  exact ⟨recorded, program, among program known, path, here⟩

theorem Memory.Sound.mono {memory : Memory} (sound : memory.Sound programs) : memory.Sound more :=
  ⟨sound.serials, sound.partitioned, fun found => (sound.cells found).mono among⟩

end

/-- A program is placed at the start of its evaluation in a sound memory. -/
theorem Memory.Sound.holds {programs : List Program} {program : Program} {memory : Memory}
    (sound : memory.Sound programs) (plain : ∀ program ∈ programs, Form.allPlain program = true)
    (known : program ∈ programs) (limit : Nat) :
    (soundness programs plain).Holds ⟨limit, .global, .body program, memory⟩ := by
  refine .here sound ⟨?_, program, known, [], rfl⟩ ?_
  · intro frame member
    cases member
  · intro value forms task
    cases task

namespace Session

variable {session : Session} {programs : List Program} {program : Program}

/-- Stamping a plain program gives it stamps that no program known so far has. -/
theorem Sound.stamp (sound : session.Sound programs) (plain : Form.allPlain program = true) :
    (session.stamp program).2.Sound ((session.stamp program).1 :: programs) := by
  obtain ⟨count, draws⟩ := Program.stamped_draws plain
  obtain ⟨supply, stamps, plain', _⟩ := draws session.supply
  have new : ∀ stamp, stamp ∈ Form.stampsAll (session.stamp program).1 ↔
      session.supply ≤ stamp ∧ stamp < session.supply + count := by
    intro stamp
    change stamp ∈ Form.stampsAll (program.stamped session.supply).1 ↔ _
    rw [stamps, List.mem_range'_1]
  refine ⟨sound.memory.mono fun _ => List.mem_cons_of_mem _, ?_, ?_, ?_⟩
  · intro known member
    rcases List.mem_cons.mp member with rfl | old
    · exact plain'
    · exact sound.plain known old
  · rw [List.flatMap_cons, List.nodup_append]
    refine ⟨?_, sound.distinct, ?_⟩
    · change (Form.stampsAll (program.stamped session.supply).1).Nodup
      rw [stamps]
      exact List.nodup_range'
    · rintro stamp fresh _ old rfl
      have above := (new stamp).mp fresh
      have below := sound.below stamp old
      omega
  · intro stamp member
    change stamp < (program.stamped session.supply).2
    rw [supply]
    rw [List.flatMap_cons, List.mem_append] at member
    rcases member with fresh | old
    · exact ((new stamp).mp fresh).2
    · have below := sound.below stamp old
      omega

theorem Sound.evaluateProgram (sound : session.Sound programs) (known : program ∈ programs) :
    (session.evaluateProgram program).2.Sound programs := by
  have ends := Discipline.ends session.limit (sound.memory.holds sound.plain known session.limit)
  exact ⟨ends.memory, sound.plain, sound.distinct, sound.below⟩

theorem evaluateText_of_ok {comments : Bool} {text : String}
    (converted : Program.ofText comments text = .ok program) :
    session.evaluateText comments text =
      (session.stamp program).2.evaluateProgram (session.stamp program).1 := by
  unfold evaluateText
  rw [converted]

theorem evaluateText_of_error {comments : Bool} {text : String} {fault : Error}
    (converted : Program.ofText comments text = .error fault) :
    session.evaluateText comments text = (.error fault, session) := by
  unfold evaluateText
  rw [converted]

namespace TextDriven

/-- A program converted from a text is known to the session in which it is stamped. -/
theorem stampText (driven : session.TextDriven programs) {comments : Bool} {text : String}
    (converted : Program.ofText comments text = .ok program) :
    (session.stamp program).2.TextDriven ((session.stamp program).1 :: programs) := by
  obtain ⟨data, isData, success⟩ := Program.ofText_eq_ok converted
  exact .convert driven isData success

theorem sound (driven : session.TextDriven programs) : session.Sound programs := by
  induction driven with
  | fresh limit supply => exact ⟨Memory.sound_empty [], by simp, by simp, by simp⟩
  | text _ converted ih =>
    obtain ⟨data, isData, success⟩ := Program.ofText_eq_ok converted
    rw [evaluateText_of_ok converted]
    exact (ih.stamp (Program.isPlain_of_ofData isData success)).evaluateProgram List.mem_cons_self
  | faultyText _ converted ih =>
    rw [evaluateText_of_error converted]
    exact ih
  | convert _ isData success ih => exact ih.stamp (Program.isPlain_of_ofData isData success)
  | run _ known ih => exact ih.evaluateProgram known
  | skip _ further ih =>
    exact ⟨ih.memory, ih.plain, ih.distinct,
      fun stamp member => Nat.lt_of_lt_of_le (ih.below stamp member) further⟩

/-- At every point that a known program reaches, memory is sound and the code is placed in its
scope. -/
theorem holds (driven : session.TextDriven programs) (known : program ∈ programs) {point : Point}
    (reached : Reaches session.limit (session.start program) point) :
    (soundness programs driven.sound.plain).Holds point :=
  (Discipline.reaches (driven.sound.memory.holds driven.sound.plain known _) reached).1

/-- The evaluation that begins there leaves memory sound, whatever its end. -/
theorem ends (driven : session.TextDriven programs) (known : program ∈ programs) {point : Point}
    (reached : Reaches session.limit (session.start program) point) :
    (soundness programs driven.sound.plain).Ends session.limit point :=
  Discipline.ends session.limit (driven.holds known reached)

end TextDriven

/-- The data of `(define count ((lambda (n) (lambda () (set! n (+ n 1)) n)) 0)) (count)`. Their session
serves as an instance of the theorems about all text-driven sessions. -/
def counterData : List Value :=
  [.list [.symbol "define", .symbol "count",
      .list [.list [.symbol "lambda", .list [.symbol "n"],
          .list [.symbol "lambda", .list [],
            .list [.symbol "set!", .symbol "n",
              .list [.symbol "+", .symbol "n", .number .one]],
            .symbol "n"]],
        .number .zero]],
    .list [.symbol "count"]]

/-- The program that these data denote. -/
def counterProgram : Program :=
  [.define "count"
      (.apply
        (.lambda 0 ["n"]
          [.expr (.lambda 0 []
            [.assign "n" (.apply (.primitive .add) [.variable "n", .number .one]),
              .expr (.variable "n")])])
        [.number .zero]),
    .expr (.apply (.variable "count") [])]

/-- The same program, stamped in a fresh session. -/
def counterStamped : Program :=
  (Session.stamp {} counterProgram).1

/-- A session that has run this program once. -/
def counterSession : Session :=
  ((Session.stamp {} counterProgram).2.evaluateProgram counterStamped).2

theorem counterSession_textDriven : counterSession.TextDriven [counterStamped] := by
  have converted : Program.ofData counterData = .ok counterProgram := rfl
  exact .run (.convert (.fresh 256 0) rfl converted) List.mem_cons_self

end Session

end CellScheme
