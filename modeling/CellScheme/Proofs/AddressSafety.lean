import CellScheme.Proofs.TextDriven

/-!
Address safety. Whatever a text-driven session evaluates, and however it ends, every address in reach
lies inside the store: those of the global table, of the environment in force, and of all frames that
closures have captured, in cells and in results. So no cell is ever missing, and an assignment always
writes a cell that exists.
-/
namespace CellScheme

/-- The addresses of an environment, through all of its frames. -/
def Environment.addresses (env : Environment) : List Address :=
  env.flatMap fun frame => frame.slots.map Prod.snd

/-- All addresses of an environment are inside the store. -/
def Environment.Inside (memory : Memory) (env : Environment) : Prop :=
  ∀ address ∈ env.addresses, address < memory.store.size

/-- The frames of all closures inside a value hold addresses inside the store. The code of a closure
quotes data only, so no other closure hides there. -/
def Value.Inside (memory : Memory) (v : Value) : Prop :=
  ∀ c ∈ v.closures, Environment.Inside memory c.env ∧ Form.allPlain c.body = true

/-- All addresses in a memory are inside its store. -/
structure Memory.Inside (memory : Memory) : Prop where
  globals : ∀ entry ∈ memory.globals.bindings, entry.2 < memory.store.size
  cells : ∀ address v, memory.store.read? address = some v → v.Inside memory

/-- Address safety at one moment: before and after the evaluation that begins there. -/
structure Point.Inside (limit : Nat) (point : Point) : Prop where
  before : point.memory.Inside
  environment : Environment.Inside point.memory point.env
  after : (point.outcome limit).2.Inside
  result : ∀ v, (point.outcome limit).1 = .ok v → v.Inside (point.outcome limit).2
  legal : ∀ address, (point.outcome limit).1 ≠ .error (.illegalAddress address)
  /-- An assignment writes inside the store, after its value has been computed. -/
  write : ∀ result name value rest address content left,
    point.task = .rest result (.assign name value :: rest) →
    Environment.find? point.memory.globals point.env name = some address →
    (Point.outcome limit ⟨point.budget, point.env, .expr value, point.memory⟩) =
      (.ok content, left) →
    address < left.store.size

section
variable {programs : List Program} {memory : Memory}

theorem Memory.Partitioned.environment (partitioned : memory.Partitioned) {env : Environment}
    (recorded : memory.Recorded env) : Environment.Inside memory env := by
  intro address member
  obtain ⟨frame, inside, slots⟩ := List.mem_flatMap.mp member
  obtain ⟨⟨name, address⟩, slot, rfl⟩ := List.mem_map.mp slots
  obtain ⟨position, found⟩ := List.mem_iff_getElem?.mp slot
  exact partitioned.inside (Memory.address?_of_slot (recorded frame inside) found)

theorem Memory.Sound.value_inside (sound : memory.Sound programs)
    (plain : ∀ program ∈ programs, Form.allPlain program = true) {v : Value}
    (fine : v.Sound programs memory) : v.Inside memory := by
  intro c member
  obtain ⟨recorded, program, known, path, here⟩ := fine c member
  exact ⟨sound.partitioned.environment recorded, Code.isPlain_of_at? here (plain program known)⟩

theorem Memory.Sound.inside (sound : memory.Sound programs)
    (plain : ∀ program ∈ programs, Form.allPlain program = true) : memory.Inside where
  globals entry member := by
    obtain ⟨index, found⟩ := List.mem_iff_getElem?.mp member
    have owned : memory.address? (.entry index) = some entry.2 := by simp [Memory.address?, found]
    exact sound.partitioned.inside owned
  cells _ _ found := sound.value_inside plain (sound.cells found)

end

namespace Session

variable {session : Session} {programs : List Program} {program : Program}

/-- Every moment of every run of a known program is safe. -/
theorem TextDriven.inside (driven : session.TextDriven programs) (known : program ∈ programs)
    {point : Point} (reached : Reaches session.limit (session.start program) point) :
    point.Inside session.limit := by
  have plain := driven.sound.plain
  have holds := driven.holds known reached
  have ends := driven.ends known reached
  refine ⟨holds.memory.inside plain, holds.memory.partitioned.environment holds.place.recorded,
    ends.memory.inside plain, fun v ended => ends.memory.value_inside plain (ends.value v ended),
    ?_, ?_⟩
  · intro address ended
    have raised := ends.error _ ended
    cases raised
  · rintro result name value rest address content left task found ended
    obtain ⟨budget, env, _, memory⟩ := point
    obtain rfl := task
    have before : address < memory.store.size :=
      holds.memory.find?_lt holds.place.recorded found
    have call : Calls session.limit ⟨budget, env, .rest result (.assign name value :: rest), memory⟩
        (.part 0) ⟨budget, env, .expr value, memory⟩ := .assigned found
    have grows := (driven.ends known (reached.tail ⟨_, call⟩)).moves
    rw [ended] at grows
    exact Nat.lt_of_lt_of_le before grows.store

/-- No address of a text-driven session ever leaves the store, at any moment of any run, and so no
evaluation ends for want of a cell. -/
theorem addresses_stay_inside (driven : session.TextDriven programs) :
    session.memory.Inside ∧
      (∀ program ∈ programs, ∀ point, Reaches session.limit (session.start program) point →
        point.Inside session.limit) ∧
      (∀ program ∈ programs, ∀ address,
        (session.evaluateProgram program).1 ≠ .error (.illegalAddress address)) ∧
      ∀ comments text address,
        (session.evaluateText comments text).1 ≠ .error (.illegalAddress address) := by
  refine ⟨driven.sound.memory.inside driven.sound.plain, ?_, ?_, ?_⟩
  · intro program known point reached
    exact driven.inside known reached
  · intro program known
    exact (driven.inside known .refl).legal
  · intro comments text address
    cases converted : Program.ofText comments text with
    | error fault =>
      rw [evaluateText_of_error converted]
      rintro ⟨⟩
      have static := Program.ofText_eq_error converted
      cases static
    | ok program =>
      rw [evaluateText_of_ok converted]
      exact ((driven.stampText converted).inside List.mem_cons_self .refl).legal address

theorem addresses_stay_inside_counter :
    counterSession.TextDriven [counterStamped] ∧
      (counterSession.evaluateProgram counterStamped).1.map Value.display = .ok "2" ∧
      (counterSession.evaluateProgram counterStamped).2.memory.Inside :=
  ⟨counterSession_textDriven, rfl,
    (addresses_stay_inside counterSession_textDriven).2.1 _ List.mem_cons_self _ .refl |>.after⟩

end Session

end CellScheme
