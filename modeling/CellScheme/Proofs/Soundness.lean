import CellScheme.Proofs.Closure
import CellScheme.Proofs.Discipline
import CellScheme.Proofs.Ownership

/-!
What holds throughout every run of plain programs. Memory is sound when every cell has one owner and
every closure in a cell has been made by a `lambda` of one of the programs, in frames that bind
exactly the names around that `lambda`. `soundness` is the discipline of sound memory: programs keep
memory sound, wherever they are evaluated in their own scope.
-/
namespace CellScheme

/-- A closure comes from a `lambda` occurrence of a program: it has the stamp, the parameters and the
body of that occurrence, and its environment binds the names of the scope there. -/
def Closure.IsFrom (programs : List Program) (c : Closure) : Prop :=
  ∃ program ∈ programs, ∃ path,
    program.at? path = some (c.env.names, .expr (.lambda c.stamp c.params c.body))

/-- A closure is sound when its frames have been made in this memory and it comes from the
programs. -/
structure Closure.Sound (programs : List Program) (memory : Memory) (c : Closure) : Prop where
  recorded : memory.Recorded c.env
  isFrom : c.IsFrom programs

/-- A value is sound when all closures inside it are. -/
def Value.Sound (programs : List Program) (memory : Memory) (v : Value) : Prop :=
  ∀ c ∈ v.closures, c.Sound programs memory

/-- Code stands in an environment as it stands in one of the programs: all frames have been made in
this memory, and they bind the names of the scope. -/
structure Code.Placed (programs : List Program) (memory : Memory) (env : Environment) (code : Code) :
    Prop where
  recorded : memory.Recorded env
  isFrom : ∃ program ∈ programs, ∃ path, program.at? path = some (env.names, code)

/-- The invariant of memory: frames are numbered in order, cells and their owners match one to one,
and all values in cells are sound. -/
structure Memory.Sound (programs : List Program) (memory : Memory) : Prop where
  serials : ∀ {index : Nat} {frame : Frame}, memory.frames[index]? = some frame → frame.serial = index
  partitioned : memory.Partitioned
  cells : ∀ {address v}, memory.store.read? address = some v → v.Sound programs memory

/-- How memory moves along a run: cells, entries and frames are added behind the old ones. Contents
of old cells may change. -/
structure Memory.Grows (memory after : Memory) : Prop where
  store : memory.store.size ≤ after.store.size
  globals : memory.globals.bindings <+: after.globals.bindings
  frames : ∀ {index : Nat} {frame : Frame}, memory.frames[index]? = some frame →
    after.frames[index]? = some frame

namespace Memory

variable {programs : List Program} {memory after last : Memory}

theorem Grows.refl (memory : Memory) : memory.Grows memory :=
  ⟨Nat.le_refl _, List.prefix_refl _, id⟩

theorem Grows.trans (first : memory.Grows after) (second : after.Grows last) :
    memory.Grows last :=
  ⟨Nat.le_trans first.store second.store, first.globals.trans second.globals,
    fun found => second.frames (first.frames found)⟩

theorem Grows.write (memory : Memory) (address : Address) (v : Value) :
    memory.Grows (memory.write address v) :=
  ⟨Nat.le_of_eq (size_write address v).symm, List.prefix_refl _, id⟩

theorem Grows.define (memory : Memory) (name : String) (v : Value) :
    memory.Grows (memory.define name v) :=
  ⟨by simp [size_define], List.prefix_append _ _, id⟩

theorem Grows.enter (memory : Memory) (names : List String) (values : List Value) :
    memory.Grows (memory.enter names values) := by
  refine ⟨by simp [size_enter], List.prefix_refl _, ?_⟩
  intro index frame found
  have bound := (Array.getElem?_eq_some_iff.mp found).1
  simpa [Memory.enter, recordFrame, allocateAll, Array.getElem?_push, Nat.ne_of_lt bound] using found

theorem Grows.frames_size (grows : memory.Grows after) :
    memory.frames.size ≤ after.frames.size := by
  by_contra less
  have found : memory.frames[after.frames.size]? = some memory.frames[after.frames.size] :=
    Array.getElem?_eq_getElem (Nat.lt_of_not_le less)
  simpa using grows.frames found

/-- A name stays bound. -/
theorem Grows.isSome_find? (grows : memory.Grows after) {name : String}
    (bound : (memory.globals.find? name).isSome) : (after.globals.find? name).isSome := by
  obtain ⟨more, equal⟩ := grows.globals
  rw [GlobalTable.find?] at bound ⊢
  rw [← equal, List.lookup_append, Option.isSome_or, bound, Bool.true_or]

theorem Recorded.grows {env : Environment} (recorded : memory.Recorded env)
    (grows : memory.Grows after) : after.Recorded env :=
  fun frame member => grows.frames (recorded frame member)

/-- The frame just made is recorded together with those below it. -/
theorem recorded_enter {env : Environment} (recorded : memory.Recorded env) (names : List String)
    (values : List Value) : (memory.enter names values).Recorded (memory.newFrame names :: env) := by
  intro frame member
  rcases List.mem_cons.mp member with rfl | outer
  · simp [Memory.enter, recordFrame, allocateAll, newFrame]
  · exact (Grows.enter memory names values).frames (recorded frame outer)

end Memory

variable {programs : List Program} {memory after : Memory}

theorem Value.Sound.grows {v : Value} (sound : v.Sound programs memory)
    (grows : memory.Grows after) : v.Sound programs after :=
  fun c member => ⟨(sound c member).recorded.grows grows, (sound c member).isFrom⟩

theorem Code.Placed.grows {env : Environment} {code : Code}
    (placed : code.Placed programs memory env) (grows : memory.Grows after) :
    code.Placed programs after env :=
  ⟨placed.recorded.grows grows, placed.isFrom⟩

/-- The parts of placed code are placed, in the environment around them or in the global one. -/
theorem Code.Placed.part {env inner : Environment} {code : Code}
    (placed : code.Placed programs memory env) (part : Scope × Code)
    (member : part ∈ code.parts env.names) (recorded : memory.Recorded inner)
    (names : inner.names = part.1) :
    part.2.Placed programs memory inner := by
  obtain ⟨program, known, path, here⟩ := placed.isFrom
  obtain ⟨index, found⟩ := List.mem_iff_getElem?.mp member
  refine ⟨recorded, program, known, path ++ [index], ?_⟩
  rw [Program.at?_part here, found, names]

namespace Memory

theorem sound_empty (programs : List Program) : ({} : Memory).Sound programs where
  serials found := by simp at found
  partitioned := partitioned_empty
  cells found := by simp [Store.read?] at found

theorem Sound.write (sound : memory.Sound programs) (address : Address) {v : Value}
    (fine : v.Sound programs memory) : (memory.write address v).Sound programs where
  serials := sound.serials
  partitioned := sound.partitioned.write address v
  cells {queried w} found := by
    refine Value.Sound.grows ?_ (.write memory address v)
    by_cases same : address = queried
    · subst same
      by_cases inside : address < memory.store.size
      · rw [Memory.write, Store.read?_write_same _ _ _ inside] at found
        cases found
        exact fine
      · have outside : ¬ address < (memory.store.write address v).size := by
          rwa [Store.size_write]
        rw [Store.size] at outside
        simp [Memory.write, Store.read?, outside] at found
    · rw [Memory.write, Store.read?_write_other _ _ _ _ same] at found
      exact sound.cells found

theorem Sound.define (sound : memory.Sound programs) (name : String) {v : Value}
    (fine : v.Sound programs memory) : (memory.define name v).Sound programs where
  serials := sound.serials
  partitioned := sound.partitioned.define name v
  cells {address w} found := by
    refine Value.Sound.grows ?_ (.define memory name v)
    simp only [Memory.define, Store.allocate, Store.read?, Array.getElem?_push] at found
    split at found
    · cases found
      exact fine
    · exact sound.cells found

theorem Sound.enter (sound : memory.Sound programs) {names : List String} {values : List Value}
    (aligned : names.length = values.length) (fine : ∀ v ∈ values, v.Sound programs memory) :
    (memory.enter names values).Sound programs where
  serials {index frame} found := by
    simp only [Memory.enter, recordFrame, allocateAll, Array.getElem?_push] at found
    split at found
    · rename_i same
      cases found
      exact same.symm
    · exact sound.serials found
  partitioned := sound.partitioned.enter aligned
  cells {address w} found := by
    refine Value.Sound.grows ?_ (.enter memory names values)
    simp only [Memory.enter, recordFrame, allocateAll, Store.read?, Store.cells_allocateAll,
      Array.getElem?_append] at found
    split at found
    · exact sound.cells found
    · exact fine w (List.mem_of_getElem? (by simpa using found))

/-- What a name resolves to is a cell. -/
theorem Sound.find?_lt (sound : memory.Sound programs) {env : Environment}
    (recorded : memory.Recorded env) {name : String} {address : Nat}
    (found : env.find? memory.globals name = some address) : address < memory.store.size := by
  obtain ⟨owner, owned⟩ := owner_of_find? recorded found
  exact sound.partitioned.inside owned

end Memory

/-- Plain programs keep memory sound, with every result sound and every error raised. -/
def soundness (programs : List Program)
    (plain : ∀ program ∈ programs, Form.allPlain program = true) : Discipline where
  memory := Memory.Sound programs
  moves := Memory.Grows
  value := Value.Sound programs
  place memory env code := code.Placed programs memory env
  error e := e.isRaised = true
  refl := Memory.Grows.refl
  trans := Memory.Grows.trans
  value_moves grows sound := sound.grows grows
  place_moves grows placed := placed.grows grows
  part placed member where_ names := by
    refine placed.part _ member ?_ names
    rcases where_ with rfl | rfl
    · exact placed.recorded
    · exact fun frame member => absurd member (List.not_mem_nil)
  literal literal c member := by
    rw [Value.closures_literal literal] at member
    cases member
  quoted {_ _ datum} placed c member := by
    obtain ⟨program, known, path, here⟩ := placed.isFrom
    have isDatum : datum.isDatum = true := Code.isPlain_of_at? here (plain program known)
    rw [Value.closures_datum datum isDatum] at member
    cases member
  lambda placed c member := by
    obtain rfl := List.mem_singleton.mp member
    exact ⟨placed.recorded, placed.isFrom⟩
  fetch sound _ _ read := sound.cells read
  assembled fine assembled c member := by
    obtain ⟨v, inside, member⟩ :=
      Value.mem_closuresAll.mp (Value.closures_of_isAssembled assembled member)
    exact fine v inside c member
  define sound _ fine := ⟨sound.define _ fine, .define _ _ _⟩
  write _ sound _ _ _ fine := ⟨sound.write _ fine, .write _ _ _⟩
  enterLet {m env bindings body values} sound placed lengths fine := by
    refine ⟨sound.enter (by simpa using lengths) fine, .enter _ _ _, ?_⟩
    exact (placed.grows (.enter _ _ _)).part (bindings.map Prod.fst :: env.names, .forms body)
      (by simp) (Memory.recorded_enter placed.recorded _ _) (by simp)
  enterBody {m stamp params body captured values} sound fine aligned fine' := by
    refine ⟨sound.enter aligned fine', .enter _ _ _, ?_⟩
    have closure := fine ⟨stamp, params, body, captured⟩ (by simp [Value.closures])
    have placed : (Code.expr (.lambda stamp params body)).Placed programs m captured :=
      ⟨closure.recorded, closure.isFrom⟩
    exact (placed.grows (.enter _ _ _)).part (params :: captured.names, .forms body)
      (by simp) (Memory.recorded_enter placed.recorded _ _) (by simp)
  raised raised := raised
  illegal {m env name address} sound placed found missing := by
    have inside := sound.find?_lt placed.recorded found
    rw [Store.size] at inside
    simp [Store.read?, inside] at missing

end CellScheme
