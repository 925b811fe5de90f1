import CellScheme.Proofs.Activation
import CellScheme.Proofs.Origin
import CellScheme.Proofs.StaticScope

/-!
The history of a session: all evaluations of programs that it has been through, the latest first. No
closure is older than this history, and none comes from elsewhere (`Session.Lived.made`): each has been
made where one of its runs came to a `lambda`, in the environment that was in force there. And each
environment other than the global one has been made by one activation of one run
(`Session.Lived.activation_unique`).
-/
namespace CellScheme

/-- One evaluation of a program in a session that knew some programs. -/
structure Run where
  session : Session
  programs : List Program
  program : Program

namespace Run

/-- Where the evaluation begins. -/
def start (run : Run) : Point :=
  run.session.start run.program

/-- The memory that the evaluation has left. -/
def final (run : Run) : Memory :=
  run.start.final run.session.limit

/-- The run came to a `lambda` at a path in a program, and a closure was made there. -/
def Makes (run : Run) (home : Program) (path : List Nat) (c : Closure) : Prop :=
  ∃ point, Visits run.session run.programs run.program home path point ∧
    point.task = .expr (.lambda c.stamp c.params c.body) ∧ point.env = c.env

/-- A closure is inside a value that some evaluation of the run finds in a cell, leaves in a cell, or
has as its result. -/
def Meets (run : Run) (c : Closure) : Prop :=
  ∃ point v, Reaches run.session.limit run.start point ∧ c ∈ v.closures ∧
    ((∃ address, point.memory.store.read? address = some v) ∨
      (∃ address, (point.final run.session.limit).store.read? address = some v) ∨
      (point.outcome run.session.limit).1 = .ok v)

end Run

/-- A session that was driven by text and converted data, with all of its runs, the latest first. A
converted program may be run any number of times. -/
inductive Session.Lived : Session → List Program → List Run → Prop
  | fresh (limit supply : Nat) : Lived { limit, supply } [] []
  | text {session : Session} {programs : List Program} {runs : List Run} {comments : Bool}
    {text : String} {program : Program} : Lived session programs runs →
    Program.ofText comments text = .ok program →
    Lived (session.evaluateText comments text).2 ((session.stamp program).1 :: programs)
      (⟨(session.stamp program).2, (session.stamp program).1 :: programs,
        (session.stamp program).1⟩ :: runs)
  | faultyText {session : Session} {programs : List Program} {runs : List Run} {comments : Bool}
    {text : String} {fault : Error} : Lived session programs runs →
    Program.ofText comments text = .error fault →
    Lived (session.evaluateText comments text).2 programs runs
  | convert {session : Session} {programs : List Program} {runs : List Run} {data : List Value}
    {program : Program} : Lived session programs runs → Value.allData data = true →
    Program.ofData data = .ok program →
    Lived (session.stamp program).2 ((session.stamp program).1 :: programs) runs
  | run {session : Session} {programs : List Program} {runs : List Run} {program : Program} :
    Lived session programs runs → program ∈ programs →
    Lived (session.evaluateProgram program).2 programs (⟨session, programs, program⟩ :: runs)
  | skip {session : Session} {programs : List Program} {runs : List Run} {supply : Nat} :
    Lived session programs runs → session.supply ≤ supply →
    Lived { session with supply } programs runs

/-- A run belongs to the past of a session: it was one of a known program, the session still knows
what was known then, and its memory comes from the one that the run has left. -/
structure Run.Past (session : Session) (programs : List Program) (run : Run) : Prop where
  driven : run.session.TextDriven run.programs
  known : run.program ∈ run.programs
  among : ∀ program ∈ run.programs, program ∈ programs
  before : run.final.Grows session.memory

theorem Run.Past.later {session after : Session} {programs more : List Program} {run : Run}
    (past : run.Past session programs) (grown : session.memory.Grows after.memory)
    (among : ∀ program ∈ programs, program ∈ more) : run.Past after more :=
  ⟨past.driven, past.known, fun program known => among program (past.among program known),
    past.before.trans grown⟩

namespace Session

variable {session : Session} {programs : List Program} {runs : List Run} {program : Program}

theorem Lived.textDriven (lived : session.Lived programs runs) : session.TextDriven programs := by
  induction lived with
  | fresh limit supply => exact .fresh limit supply
  | text _ converted ih => exact .text ih converted
  | faultyText _ converted ih => exact .faultyText ih converted
  | convert _ isData success ih => exact .convert ih isData success
  | run _ known ih => exact .run ih known
  | skip _ further ih => exact .skip ih further

/-- Every session that was driven by text and converted data has a history. -/
theorem TextDriven.lived (driven : session.TextDriven programs) :
    ∃ runs, session.Lived programs runs := by
  induction driven with
  | fresh limit supply => exact ⟨[], .fresh limit supply⟩
  | text _ converted ih => exact ih.imp' _ fun _ lived => .text lived converted
  | faultyText _ converted ih => exact ih.imp fun _ lived => .faultyText lived converted
  | convert _ isData success ih => exact ih.imp fun _ lived => .convert lived isData success
  | run _ known ih => exact ih.imp' _ fun _ lived => .run lived known
  | skip _ further ih => exact ih.imp fun _ lived => .skip lived further

/-- What a program's run does to the memory of a session. -/
theorem memory_grows (session : Session) (program : Program) :
    session.memory.Grows (session.evaluateProgram program).2.memory :=
  (grows session.limit (session.start program)).run .refl

/-- A run that has just ended. -/
theorem TextDriven.past (driven : session.TextDriven programs) (known : program ∈ programs) :
    Run.Past (session.evaluateProgram program).2 programs ⟨session, programs, program⟩ :=
  ⟨driven, known, fun _ among => among, .refl _⟩

theorem Lived.past (lived : session.Lived programs runs) :
    ∀ run ∈ runs, run.Past session programs := by
  induction lived with
  | fresh => simp
  | text lived converted ih =>
    rw [evaluateText_of_ok converted]
    refine List.forall_mem_cons.mpr
      ⟨(lived.textDriven.stampText converted).past List.mem_cons_self, fun run member => ?_⟩
    exact (ih run member).later (memory_grows _ _) fun _ => List.mem_cons_of_mem _
  | faultyText _ converted ih =>
    rw [evaluateText_of_error converted]
    exact ih
  | convert _ _ _ ih =>
    exact fun run member => (ih run member).later (.refl _) fun _ => List.mem_cons_of_mem _
  | run lived known ih =>
    refine List.forall_mem_cons.mpr ⟨lived.textDriven.past known, fun run member => ?_⟩
    exact (ih run member).later (memory_grows _ _) fun _ among => among
  | skip _ _ ih => exact fun run member => (ih run member).later (.refl _) fun _ among => among

/-- Each run began with what the runs before it had left. -/
theorem Lived.ordered (lived : session.Lived programs runs) :
    runs.Pairwise fun later earlier => earlier.final.Grows later.session.memory := by
  induction lived with
  | fresh => exact .nil
  | text lived converted ih =>
    exact List.pairwise_cons.mpr ⟨fun run member => (lived.past run member).before, ih⟩
  | faultyText _ _ ih | convert _ _ _ ih | skip _ _ ih => exact ih
  | run lived _ ih => exact List.pairwise_cons.mpr ⟨fun run member => (lived.past run member).before, ih⟩

end Session

variable {runs : List Run} {run : Run} {c : Closure}

/-- One of several runs came to a `lambda` at a path in a program, and the closure was made there. -/
def Closure.MadeAt (runs : List Run) (home : Program) (path : List Nat) (c : Closure) : Prop :=
  ∃ run ∈ runs, run.Makes home path c

/-- All closures inside a value have been made in some of these runs. -/
def Value.MadeIn (runs : List Run) (v : Value) : Prop :=
  ∀ c ∈ v.closures, ∃ home path, c.MadeAt runs home path

theorem Value.MadeIn.cons {v : Value} (made : v.MadeIn runs) (run : Run) :
    v.MadeIn (run :: runs) := by
  intro c member
  obtain ⟨home, path, run', among, makes⟩ := made c member
  exact ⟨home, path, run', List.mem_cons_of_mem run among, makes⟩

/-- A closure that a run makes has the code that stands at its place in the program, and the names
that are in scope there. -/
theorem Run.Makes.place {home : Program} {path : List Nat} (makes : run.Makes home path c)
    (driven : run.session.TextDriven run.programs) (known : run.program ∈ run.programs) :
    home ∈ run.programs ∧
      home.at? path = some (c.env.names, .expr (.lambda c.stamp c.params c.body)) := by
  obtain ⟨point, visits, task, env⟩ := makes
  obtain ⟨among, here⟩ := driven.scope known visits
  rw [task, env] at here
  exact ⟨among, here⟩

/-- Its environment is the global one, or has been made by one activation of the run. -/
theorem Run.Makes.environment {home : Program} {path : List Nat} (makes : run.Makes home path c) :
    c.env = .global ∨ ∃ moments, Activates run.session.limit run.start moments c.env := by
  obtain ⟨point, visits, _, env⟩ := makes
  have environment := visits.reaches.environment
  rw [env] at environment
  rcases environment with start | further
  · exact .inl start
  · exact further

/-- Closures made in some runs are an origin for each of these runs: no other way to come by a closure
exists. -/
theorem Run.origin (run : Run) (driven : run.session.TextDriven run.programs)
    (known : run.program ∈ run.programs) (member : run ∈ runs) :
    Origin run.session.limit run.start (Value.MadeIn runs) where
  literal literal c inside := by
    rw [Value.closures_literal literal] at inside
    cases inside
  assembled made assembled c inside := by
    obtain ⟨v, argument, inside⟩ :=
      Value.mem_closuresAll.mp (Value.closures_of_isAssembled assembled inside)
    exact made v argument c inside
  quoted {point datum} reached task c inside := by
    obtain ⟨home, path, visits⟩ := driven.visited known reached
    obtain ⟨among, here⟩ := driven.scope known visits
    rw [task] at here
    have isDatum : datum.isDatum = true :=
      Code.isPlain_of_at? here (driven.sound.plain home among)
    rw [Value.closures_datum datum isDatum] at inside
    cases inside
  lambda {point stamp params body} reached task c inside := by
    obtain rfl := List.mem_singleton.mp inside
    obtain ⟨home, path, visits⟩ := driven.visited known reached
    exact ⟨home, path, run, member, point, visits, task, rfl⟩

namespace Session

variable {session : Session} {programs : List Program} {program : Program}

/-- A run that begins with closures of its past only leaves no other ones than these and its own. -/
theorem TextDriven.leaves_made (driven : session.TextDriven programs) (known : program ∈ programs)
    (cells : session.memory.AllCells (Value.MadeIn runs)) :
    (session.evaluateProgram program).2.memory.AllCells
      (Value.MadeIn (⟨session, programs, program⟩ :: runs)) := by
  have origin := Run.origin ⟨session, programs, program⟩ driven known
    (List.mem_cons_self (l := runs))
  refine (origin.run .refl ⟨cells.mono fun _ made => made.cons _, ?_⟩).cells
  rintro _ _ ⟨⟩

/-- All closures in cells have been made in some run of the past, and each run began so. -/
theorem Lived.cells (lived : session.Lived programs runs) :
    session.memory.AllCells (Value.MadeIn runs) ∧
      ∀ run ∈ runs, run.session.memory.AllCells (Value.MadeIn runs) := by
  have further {memory : Memory} {runs : List Run} (run : Run)
      (cells : memory.AllCells (Value.MadeIn runs)) :
      memory.AllCells (Value.MadeIn (run :: runs)) :=
    cells.mono fun _ made => made.cons run
  induction lived with
  | fresh =>
    refine ⟨?_, by simp⟩
    intro address v found
    simp [Store.read?] at found
  | text lived converted ih =>
    rw [evaluateText_of_ok converted]
    refine ⟨(lived.textDriven.stampText converted).leaves_made List.mem_cons_self ih.1, ?_⟩
    exact List.forall_mem_cons.mpr ⟨further _ ih.1, fun run member => further _ (ih.2 run member)⟩
  | faultyText _ converted ih =>
    rw [evaluateText_of_error converted]
    exact ih
  | convert _ _ _ ih | skip _ _ ih => exact ih
  | run lived known ih =>
    refine ⟨lived.textDriven.leaves_made known ih.1, ?_⟩
    exact List.forall_mem_cons.mpr ⟨further _ ih.1, fun run member => further _ (ih.2 run member)⟩

/-- Wherever a closure is met, some run has made it. -/
theorem Lived.made (lived : session.Lived programs runs) (member : run ∈ runs)
    (meets : run.Meets c) : ∃ home path, c.MadeAt runs home path := by
  have past := lived.past run member
  have origin := run.origin past.driven past.known member
  have start : run.start.Stocked (Value.MadeIn runs) := by
    refine ⟨lived.cells.2 run member, ?_⟩
    rintro _ _ ⟨⟩
  obtain ⟨point, v, reached, inside, place⟩ := meets
  have stocked := origin.reaches start reached
  have leaves := origin.run reached stocked
  rcases place with ⟨address, found⟩ | ⟨address, found⟩ | result
  · exact stocked.cells address v found c inside
  · exact leaves.cells address v found c inside
  · exact leaves.value v result c inside

/-- All that is made at a place has the code and the scope of that place, in one of the programs. -/
theorem Lived.place (lived : session.Lived programs runs) {home : Program} {path : List Nat}
    (made : c.MadeAt runs home path) :
    home ∈ programs ∧
      home.at? path = some (c.env.names, .expr (.lambda c.stamp c.params c.body)) := by
  obtain ⟨run, member, makes⟩ := made
  have past := lived.past run member
  obtain ⟨known, here⟩ := makes.place past.driven past.known
  exact ⟨past.among home known, here⟩

end Session

/-- An activation in one of several runs, given by the number of the run and the moments that lead
there, has made an environment. -/
def ActivatesIn (runs : List Run) (index : Nat) (moments : List Nat) (env : Environment) : Prop :=
  ∃ run, runs[index]? = some run ∧ Activates run.session.limit run.start moments env

/-- The environment of a closure is the global one, or one that an activation has made. -/
theorem Closure.MadeAt.environment {home : Program} {path : List Nat}
    (made : c.MadeAt runs home path) :
    c.env = .global ∨ ∃ index moments, ActivatesIn runs index moments c.env := by
  obtain ⟨run, member, makes⟩ := made
  obtain ⟨index, found⟩ := List.mem_iff_getElem?.mp member
  rcases makes.environment with global | ⟨moments, activates⟩
  · exact .inl global
  · exact .inr ⟨index, moments, run, found, activates⟩

namespace Session

variable {session : Session} {programs : List Program} {index index' : Nat}
  {moments moments' : List Nat} {env env' : Environment}

/-- Of two activations, the one in the later run has the later frame. -/
theorem Lived.identity_lt (lived : session.Lived programs runs)
    (activates : ActivatesIn runs index moments env)
    (activates' : ActivatesIn runs index' moments' env') (later : index < index') :
    ∃ serial serial', env.identity? = some serial ∧ env'.identity? = some serial' ∧
      serial' < serial := by
  obtain ⟨run, found, activates⟩ := activates
  obtain ⟨run', found', activates'⟩ := activates'
  obtain ⟨serial, frame, above, _⟩ := activates.made_within
  obtain ⟨serial', frame', _, below⟩ := activates'.made_within
  obtain ⟨bound, rfl⟩ := List.getElem?_eq_some_iff.mp found
  obtain ⟨bound', rfl⟩ := List.getElem?_eq_some_iff.mp found'
  have ordered := List.pairwise_iff_getElem.mp lived.ordered index index' bound bound' later
  have between := ordered.frames_size
  exact ⟨serial, serial', frame, frame', Nat.lt_of_lt_of_le below (Nat.le_trans between above)⟩

/-- The innermost frame tells the activation, and with it the whole environment. -/
theorem Lived.activation_unique (lived : session.Lived programs runs)
    (activates : ActivatesIn runs index moments env)
    (activates' : ActivatesIn runs index' moments' env')
    (same : env.identity? = env'.identity?) : index = index' ∧ moments = moments' ∧ env = env' := by
  rcases Nat.lt_trichotomy index index' with less | rfl | greater
  · obtain ⟨serial, serial', frame, frame', apart⟩ := lived.identity_lt activates activates' less
    rw [frame, frame', Option.some.injEq] at same
    omega
  · obtain ⟨run, found, activates⟩ := activates
    obtain ⟨_, found', activates'⟩ := activates'
    obtain rfl := Option.some.inj (found.symm.trans found')
    exact ⟨rfl, activates.unique activates' same⟩
  · obtain ⟨serial, serial', frame, frame', apart⟩ := lived.identity_lt activates' activates greater
    rw [frame, frame', Option.some.injEq] at same
    omega

end Session

end CellScheme
