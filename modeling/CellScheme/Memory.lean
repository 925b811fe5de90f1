import CellScheme.Error
import CellScheme.Store

/-!
All that an evaluation can change, and the steps by which it changes it. What a failed evaluation
has changed stays changed: `Evaluation` keeps the memory beside the error.
-/
namespace CellScheme

/-- The store, the global table, and every frame made so far. The serial number of a frame is its
position among them. -/
structure Memory where
  store : Store := {}
  globals : GlobalTable := {}
  frames : Array Frame := #[]

/-- A computation on memory that may end in an error. -/
abbrev Evaluation := ExceptT Error (StateM Memory)

namespace Memory

def allocateAll (memory : Memory) (values : List Value) : Memory :=
  { memory with store := memory.store.allocateAll values }

/-- Puts a value into a new cell and appends a global entry for it. -/
def define (memory : Memory) (name : String) (value : Value) : Memory :=
  { memory with
    globals := memory.globals.define name memory.store.size
    store := memory.store.allocate value }

def write (memory : Memory) (address : Address) (value : Value) : Memory :=
  { memory with store := memory.store.write address value }

def recordFrame (memory : Memory) (frame : Frame) : Memory :=
  { memory with frames := memory.frames.push frame }

end Memory

namespace Evaluation

def resolve (env : Environment) (name : String) : Evaluation Address := do
  match env.find? (← get).globals name with
  | some address => return address
  | none => throw (.unboundVariable name)

def fetch (address : Address) : Evaluation Value := do
  match (← get).store.read? address with
  | some value => return value
  | none => throw (.illegalAddress address)

/-- New cells for several values. The result is their addresses, in order. -/
def allocateAll (values : List Value) : Evaluation (List Address) :=
  modifyGet fun memory =>
    (List.range' memory.store.size values.length, memory.allocateAll values)

/-- A new frame on top of an environment. Names and addresses must line up. -/
def extend (env : Environment) (names : List String) (addresses : List Address) :
    Evaluation Environment := do
  if names.length = addresses.length then
    modifyGet fun memory =>
      let frame : Frame := ⟨memory.frames.size, names.zip addresses⟩
      (frame :: env, memory.recordFrame frame)
  else throw (.defect (.misaligned names.length addresses.length))

/-- New frames on top of an environment, each on top of the one before. -/
def extendAll (env : Environment) (frames : List (List String × List Address)) :
    Evaluation Environment :=
  frames.foldlM (fun env frame => extend env frame.1 frame.2) env

/-- Binds names to new cells that hold the given values, in a new frame. -/
def enter (env : Environment) (names : List String) (values : List Value) :
    Evaluation Environment := do
  extend env names (← allocateAll values)

/-- The result of a computation on a memory, and the memory that it leaves. -/
def outcome {α : Type} (evaluation : Evaluation α) (memory : Memory) : Except Error α × Memory :=
  evaluation.run.run memory

@[simp] theorem outcome_pure {α : Type} (result : α) (memory : Memory) :
    outcome (pure result) memory = (.ok result, memory) := rfl

@[simp] theorem outcome_throw {α : Type} (error : Error) (memory : Memory) :
    outcome (throw error : Evaluation α) memory = (.error error, memory) := rfl

/-- A computation goes on from the memory that the one before it has left; an error ends it. -/
theorem outcome_bind {α β : Type} (first : Evaluation α) (next : α → Evaluation β)
    (memory : Memory) :
    outcome (first >>= next) memory =
      match outcome first memory with
      | (.ok result, left) => outcome (next result) left
      | (.error error, left) => (.error error, left) := by
  simp only [outcome, ExceptT.run_bind, StateT.run_bind]
  cases StateT.run first.run memory with
  | mk result left => cases result <;> rfl

theorem outcome_lift {α : Type} (result : Except Error α) (memory : Memory) :
    outcome (liftM result : Evaluation α) memory = (result, memory) := by
  cases result <;> rfl

theorem outcome_get (memory : Memory) :
    outcome (get : Evaluation Memory) memory = (.ok memory, memory) := rfl

theorem outcome_modify (change : Memory → Memory) (memory : Memory) :
    outcome (modify change : Evaluation Unit) memory = (.ok (), change memory) := rfl

theorem outcome_resolve (env : Environment) (name : String) (memory : Memory) :
    outcome (resolve env name) memory =
      ((match env.find? memory.globals name with
        | some address => .ok address
        | none => .error (.unboundVariable name)), memory) := by
  simp only [resolve, outcome_bind, outcome_get]
  cases env.find? memory.globals name <;> rfl

theorem outcome_fetch (address : Address) (memory : Memory) :
    outcome (fetch address) memory =
      ((match memory.store.read? address with
        | some value => .ok value
        | none => .error (.illegalAddress address)), memory) := by
  simp only [fetch, outcome_bind, outcome_get]
  cases memory.store.read? address <;> rfl

/-- Entering a frame with one value for each name cannot fail. The new cells come in order behind
the old ones, and the new frame behind the old ones. -/
theorem outcome_enter (env : Environment) (names : List String) (values : List Value)
    (memory : Memory) (aligned : names.length = values.length) :
    outcome (enter env names values) memory =
      (let frame : Frame :=
        ⟨memory.frames.size, names.zip (List.range' memory.store.size values.length)⟩
      (.ok (frame :: env), (memory.allocateAll values).recordFrame frame)) := by
  simp only [enter, outcome_bind]
  have allocated : outcome (allocateAll values) memory =
      (.ok (List.range' memory.store.size values.length), memory.allocateAll values) := rfl
  rw [allocated]
  have lengths : names.length = (List.range' memory.store.size values.length).length := by
    simpa using aligned
  simp only [extend, if_pos lengths]
  rfl

end Evaluation

end CellScheme
