import CellScheme.Proofs.Simulation
import CellScheme.Proofs.Soundness

/-!
Equivalent memories. Two memories are equivalent under a renaming when every global name resolves to
corresponding cells and the cells that can be reached from there hold corresponding values. Cells out
of reach, and later entries for a name already bound, are of no account. Plain code keeps equivalent
memories equivalent (`Memory.Equivalent.evaluateBody`), and definitions of two names lead to
equivalent memories in either order (`Memory.Sound.equivalent_swap`).
-/
namespace CellScheme

namespace Memory

/-- The cells that a program can come upon: those that global names resolve to, and those captured by
closures inside such cells. -/
inductive Reachable (memory : Memory) : Address → Prop
  | named {name : String} {a : Address} : memory.globals.find? name = some a → Reachable memory a
  | captured {a : Address} {v : Value} {c : Closure} {frame : Frame} {slot : String × Address} :
    Reachable memory a → memory.store.read? a = some v → c ∈ v.closures → frame ∈ c.env →
    slot ∈ frame.slots → Reachable memory slot.2

/-- The closures inside reachable cells. -/
def ReachableClosure (memory : Memory) (c : Closure) : Prop :=
  ∃ a v, memory.Reachable a ∧ memory.store.read? a = some v ∧ c ∈ v.closures

/-- Equivalence under a renaming. -/
structure Equivalent (ρ : Renaming) (m n : Memory) : Prop where
  globals : ∀ name, n.globals.find? name = (m.globals.find? name).map ρ.cell
  cells : ∀ a, m.Reachable a → n.store.read? (ρ.cell a) = (m.store.read? a).map (Value.rename ρ)

end Memory

/-- A renaming extends another when it treats all that was reachable in a memory alike. -/
structure Renaming.Extends (memory : Memory) (ρ ρ' : Renaming) : Prop where
  cells : ∀ a, memory.Reachable a → ρ'.cell a = ρ.cell a
  closures : ∀ c, memory.ReachableClosure c → c.rename ρ' = c.rename ρ

theorem Renaming.Extends.refl (memory : Memory) (ρ : Renaming) : ρ.Extends memory ρ :=
  ⟨fun _ _ => rfl, fun _ _ => rfl⟩

theorem Renaming.Extends.trans {memory : Memory} {ρ ρ' ρ'' : Renaming}
    (first : ρ.Extends memory ρ') (second : ρ'.Extends memory ρ'') : ρ.Extends memory ρ'' :=
  ⟨fun a reach => (second.cells a reach).trans (first.cells a reach),
    fun c reach => (second.closures c reach).trans (first.closures c reach)⟩

namespace Memory

variable {ρ : Renaming} {m n : Memory}

namespace Equivalent

theorem refl (m : Memory) : m.Equivalent .refl m where
  globals name := by
    cases m.globals.find? name <;> rfl
  cells a _ := by
    change m.store.read? a = _
    cases m.store.read? a with
    | none => rfl
    | some v => exact congrArg some (Value.rename_refl v).symm

/-- What is reachable on one side corresponds to something reachable on the other. -/
theorem reachable (equivalent : m.Equivalent ρ n) {a : Address} (reach : m.Reachable a) :
    n.Reachable (ρ.cell a) := by
  induction reach with
  | @named name a found =>
    have there := equivalent.globals name
    rw [found] at there
    exact .named there
  | @captured a v c frame slot reach here closure inside slots ih =>
    have there := equivalent.cells a reach
    rw [here] at there
    have closure' : c.rename ρ ∈ (v.rename ρ).closures := by
      rw [Value.closures_rename]
      exact List.mem_map_of_mem closure
    have inside' : frame.rename ρ ∈ (c.rename ρ).env := List.mem_map_of_mem inside
    have slots' : (slot.1, ρ.cell slot.2) ∈ (frame.rename ρ).slots :=
      List.mem_map.mpr ⟨slot, slots, rfl⟩
    exact .captured ih there closure' inside' slots'

/-- What closures can be reached corresponds, too. -/
theorem reachableClosure (equivalent : m.Equivalent ρ n) {c : Closure}
    (reach : m.ReachableClosure c) : n.ReachableClosure (c.rename ρ) := by
  obtain ⟨a, v, reach, here, closure⟩ := reach
  have there := equivalent.cells a reach
  rw [here] at there
  refine ⟨ρ.cell a, v.rename ρ, equivalent.reachable reach, there, ?_⟩
  rw [Value.closures_rename]
  exact List.mem_map_of_mem closure

/-- Only what a renaming does to reachable things matters. -/
theorem congr {ρ' : Renaming} (equivalent : m.Equivalent ρ n) (extends_ : ρ.Extends m ρ') :
    m.Equivalent ρ' n where
  globals name := by
    rw [equivalent.globals name]
    cases found : m.globals.find? name with
    | none => rfl
    | some a => exact congrArg some (extends_.cells a (.named found)).symm
  cells a reach := by
    rw [extends_.cells a reach, equivalent.cells a reach]
    cases here : m.store.read? a with
    | none => rfl
    | some v =>
      refine congrArg some (Value.rename_congr v fun c closure => ?_)
      exact (extends_.closures c ⟨a, v, reach, here, closure⟩).symm

/-- Equivalences compose. -/
theorem trans {ρ' : Renaming} {k : Memory} (equivalent : m.Equivalent ρ n)
    (equivalent' : n.Equivalent ρ' k) : m.Equivalent (ρ.trans ρ') k where
  globals name := by
    rw [equivalent'.globals name, equivalent.globals name, Option.map_map]
    rfl
  cells a reach := by
    have both : Value.rename ρ' ∘ Value.rename ρ = Value.rename (ρ.trans ρ') :=
      funext (Value.rename_trans ρ ρ')
    have there := equivalent'.cells (ρ.cell a) (equivalent.reachable reach)
    rw [equivalent.cells a reach, Option.map_map, both] at there
    exact there

end Equivalent

/-- A reachable cell exists. -/
theorem Sound.reachable_lt {programs : List Program} (sound : m.Sound programs) {a : Nat}
    (reach : m.Reachable a) : a < m.store.size := by
  cases reach with
  | named found =>
    obtain ⟨index, entry⟩ := getElem?_of_lookup found
    have owned : m.address? (.entry index) = some a := by simp [address?, entry]
    exact sound.partitioned.inside owned
  | captured reach here closure inside slots =>
    obtain ⟨position, found⟩ := List.mem_iff_getElem?.mp slots
    have recorded := (sound.cells here _ closure).recorded _ inside
    exact sound.partitioned.inside (address?_of_slot recorded found)

/-- A reachable closure is sound. -/
theorem Sound.reachableClosure {programs : List Program} (sound : m.Sound programs) {c : Closure}
    (reach : m.ReachableClosure c) : c.Sound programs m := by
  obtain ⟨a, v, _, here, closure⟩ := reach
  exact sound.cells here c closure

/-- The world that knows what is reachable. -/
def Equivalent.world (ρ : Renaming) (m : Memory) : World ρ.stamp where
  cell := ρ.cell
  frame := ρ.frame
  cells := { a | m.Reachable a }
  frames := { f | ∃ c frame, m.ReachableClosure c ∧ frame ∈ c.env ∧ frame.serial = f }

variable {programs programs' : List Program}

/-- Sound memories that are equivalent are related in that world. -/
theorem Equivalent.related (equivalent : m.Equivalent ρ n) (sound : m.Sound programs)
    (sound' : n.Sound programs') (plain : ∀ program ∈ programs, Form.allPlain program = true) :
    (Equivalent.world ρ m).Related m n := by
  refine ⟨equivalent.globals, fun _ _ found => .named found, ?_, ?_⟩
  · intro a reach
    have bound : a < m.store.cells.size := sound.reachable_lt reach
    have here : m.store.read? a = some m.store.cells[a] := Array.getElem?_eq_getElem bound
    have there := equivalent.cells a reach
    rw [here] at there
    refine ⟨_, _, here, there, ?_, rfl⟩
    intro c closure
    obtain ⟨recorded, program, known, path, place⟩ := sound.cells here c closure
    refine ⟨fun frame inside => ⟨?_, ?_⟩, Code.isPlain_of_at? place (plain program known)⟩
    · exact ⟨c, frame, ⟨a, _, reach, here, closure⟩, inside, rfl⟩
    · intro slot slots
      exact .captured reach here closure inside slots
  · rintro _ ⟨c, frame, reach, inside, rfl⟩
    have recorded := (sound.reachableClosure reach).recorded frame inside
    have recorded' := (sound'.reachableClosure (equivalent.reachableClosure reach)).recorded
      (frame.rename ρ) (List.mem_map_of_mem inside)
    exact ⟨(Array.getElem?_eq_some_iff.mp recorded).1, (Array.getElem?_eq_some_iff.mp recorded').1⟩

/-- A further definition of a name that is bound already puts a cell out of reach and changes nothing
else. -/
theorem Sound.equivalent_define (sound : m.Sound programs) {name : String}
    (bound : (m.globals.find? name).isSome) (v : Value) : m.Equivalent .refl (m.define name v) where
  globals other := by
    have same := (Equivalent.refl m).globals other
    rw [← same, Memory.define, GlobalTable.find?_define]
    by_cases own : other = name
    · obtain ⟨a, found⟩ := Option.isSome_iff_exists.mp bound
      rw [own, found, Option.some_or]
    · rw [if_neg own, Option.or_none]
  cells a reach := by
    have same := (Equivalent.refl m).cells a reach
    rw [← same]
    exact Store.read?_allocate_old _ _ _ (sound.reachable_lt reach)

section
variable {name name' : String} {v w : Value}

theorem read?_define_old {a : Nat} (inside : a < m.store.size) :
    (m.define name v).store.read? a = m.store.read? a :=
  Store.read?_allocate_old m.store v a inside

theorem read?_define_new : (m.define name v).store.read? m.store.size = some v :=
  Store.read?_allocate_new m.store v

/-- A definition with a value that captures no frame puts in reach at most its own cell. -/
theorem reachable_define (bounded : ∀ a, m.Reachable a → a < m.store.size)
    (free : ∀ c ∈ v.closures, c.env = .global) {a : Nat}
    (reach : (m.define name v).Reachable a) : m.Reachable a ∨ a = m.store.size := by
  induction reach with
  | @named other a found =>
    rw [Memory.define, GlobalTable.find?_define, Option.or_eq_some_iff] at found
    rcases found with old | ⟨_, own⟩
    · exact .inl (.named old)
    · split at own <;> cases own
      exact .inr rfl
  | @captured a u c frame slot _ here closure inside slots ih =>
    rcases ih with old | rfl
    · rw [read?_define_old (bounded a old)] at here
      exact .inl (.captured old here closure inside slots)
    · obtain rfl := Option.some.inj (read?_define_new.symm.trans here)
      rw [free c closure] at inside
      cases inside

/-- A renaming that leaves reachable cells, all frames and all stamps alone changes nothing in
reach. -/
theorem equivalent_of_fixed {ρ : Renaming} (cells : ∀ a, m.Reachable a → ρ.cell a = a)
    (frames : ρ.frame = Equiv.refl Nat) (stamps : ρ.stamp = Equiv.refl Nat) :
    m.Equivalent ρ m := by
  refine (Equivalent.refl m).congr ⟨cells, ?_⟩
  rintro c ⟨a, u, reach, here, closure⟩
  have env : c.env.rename ρ = c.env.rename .refl := by
    refine Environment.rename_congr fun frame inside => ⟨?_, fun slot slots => ?_⟩
    · rw [frames]
      rfl
    · exact cells _ (.captured reach here closure inside slots)
  rw [Closure.rename, Closure.rename, env, stamps]
  rfl

/-- Two definitions of different names may change places, when their values capture no frame: their
cells change places, too. -/
theorem Sound.equivalent_swap (sound : m.Sound programs) (apart : name ≠ name')
    (free : ∀ c ∈ v.closures, c.env = .global) (free' : ∀ c ∈ w.closures, c.env = .global) :
    ∃ ρ, ρ.stamp = Equiv.refl Nat ∧
      ((m.define name v).define name' w).Equivalent ρ ((m.define name' w).define name v) := by
  have bounded : ∀ a, m.Reachable a → a < m.store.size := fun a => sound.reachable_lt
  have further : ∀ {p x}, m.store.size < (m.define p x).store.size := by
    intro p x
    rw [size_define]
    exact Nat.lt_succ_self _
  have bounded' : ∀ a, (m.define name v).Reachable a → a < (m.define name v).store.size := by
    intro a reach
    rcases reachable_define bounded free reach with old | rfl
    · exact (bounded a old).trans further
    · exact further
  let ρ : Renaming := ⟨Equiv.swap m.store.size (m.store.size + 1), Equiv.refl Nat, Equiv.refl Nat⟩
  have left : ρ.cell m.store.size = m.store.size + 1 := Equiv.swap_apply_left _ _
  have right : ρ.cell (m.store.size + 1) = m.store.size := Equiv.swap_apply_right _ _
  have old : ∀ a, m.Reachable a → ρ.cell a = a := by
    intro a reach
    have below := bounded a reach
    exact Equiv.swap_apply_of_ne_of_ne (Nat.ne_of_lt below) (Nat.ne_of_lt (Nat.lt_succ_of_lt below))
  have free_eq : ∀ u : Value, (∀ c ∈ u.closures, c.env = .global) → u.rename ρ = u := by
    intro u free
    refine (Value.rename_congr u fun c member => ?_).trans (Value.rename_refl u)
    rw [Closure.rename, Closure.rename, free c member]
    rfl
  refine ⟨ρ, rfl, ?_, ?_⟩
  · intro other
    simp only [Memory.define, GlobalTable.find?_define, Store.size_allocate]
    cases found : m.globals.find? other with
    | some a => simp [old a (.named found)]
    | none =>
      by_cases own : other = name
      · subst own
        simp [apart, left]
      · by_cases own' : other = name'
        · subst own'
          simp [own, right]
        · simp [own, own']
  · intro a reach
    rcases reachable_define bounded' free' reach with before | rfl
    · rcases reachable_define bounded free before with reach | rfl
      · have below := bounded a reach
        have same := (equivalent_of_fixed old rfl rfl).cells a reach
        rw [old a reach] at same ⊢
        rw [read?_define_old (below.trans further), read?_define_old below, same,
          read?_define_old (below.trans further), read?_define_old below]
      · rw [left, ← size_define name' w, read?_define_new, read?_define_old further,
          read?_define_new, Option.map_some, free_eq v free]
    · rw [read?_define_new, size_define, right, read?_define_old further, read?_define_new,
        Option.map_some, free_eq w free']

end

end Memory

variable {m n : Memory}

/-- Related memories are equivalent under the renaming of the world. -/
theorem World.Related.equivalent {σ : Equiv.Perm Nat} {W : World σ} (related : W.Related m n) :
    m.Equivalent W.toRenaming n := by
  have known : ∀ a, m.Reachable a → a ∈ W.cells := by
    intro a reach
    induction reach with
    | named found => exact related.named _ _ found
    | captured _ here closure inside slots ih =>
      obtain ⟨v, w, found, _, knows, _⟩ := related.cells _ ih
      obtain rfl := Option.some.inj (found.symm.trans here)
      exact ((knows _ closure).1 _ inside).2 _ slots
  refine ⟨related.globals, fun a reach => ?_⟩
  obtain ⟨v, w, here, there, _, same⟩ := related.cells a (known a reach)
  rw [here, Option.map_some, ← same]
  exact there

/-- A larger world renames all that was reachable as before. -/
theorem World.Extends.renaming_extends {ρ : Renaming} {V : World ρ.stamp}
    (extends_ : (Memory.Equivalent.world ρ m).Extends V) : ρ.Extends m V.toRenaming := by
  refine ⟨fun a reach => (extends_.cells a reach).2, ?_⟩
  rintro c ⟨a, v, reach, here, closure⟩
  have knows : (Memory.Equivalent.world ρ m).KnowsEnv c.env := by
    intro frame inside
    refine ⟨⟨c, frame, ⟨a, v, reach, here, closure⟩, inside, rfl⟩, ?_⟩
    intro slot slots
    exact .captured reach here closure inside slots
  rw [Closure.rename, Closure.rename, knows.rename_eq extends_]
  rfl

/-- Computations that are simulated from the world of an equivalence have corresponding answers and
leave equivalent memories. What was reachable corresponds as before, and so do all stamps. -/
theorem Memory.Equivalent.of_simulates {ρ : Renaming} {left right : Evaluation Value}
    (simulates : Simulates (Memory.Equivalent.world ρ m) m n left right World.Match) :
    ∃ ρ', ρ'.stamp = ρ.stamp ∧ ρ.Extends m ρ' ∧
      Memory.Equivalent ρ' (Evaluation.outcome left m).2 (Evaluation.outcome right n).2 ∧
      Answers (fun v w => w = v.rename ρ') (Evaluation.outcome left m).1
        (Evaluation.outcome right n).1 := by
  obtain ⟨V, extends_, related, answers⟩ := simulates
  exact ⟨V.toRenaming, rfl, extends_.renaming_extends, related.equivalent,
    answers.imp fun _ _ fine => fine.2⟩

/-- Corresponding plain code, evaluated in equivalent memories, has corresponding answers and leaves
equivalent memories. -/
theorem Memory.Equivalent.evaluateBody {ρ : Renaming} {programs programs' : List Program}
    (equivalent : m.Equivalent ρ n) (sound : m.Sound programs) (sound' : n.Sound programs')
    (plain : ∀ program ∈ programs, Form.allPlain program = true) (limit budget : Nat)
    {forms : List Form} (plain' : Form.allPlain forms = true) :
    ∃ ρ', ρ'.stamp = ρ.stamp ∧ ρ.Extends m ρ' ∧
      Memory.Equivalent ρ'
        (Evaluation.outcome (CellScheme.evaluateBody limit budget .global forms) m).2
        (Evaluation.outcome (CellScheme.evaluateBody limit budget .global
          (Form.restampAll ρ.stamp forms)) n).2 ∧
      Answers (fun v w => w = v.rename ρ')
        (Evaluation.outcome (CellScheme.evaluateBody limit budget .global forms) m).1
        (Evaluation.outcome (CellScheme.evaluateBody limit budget .global
          (Form.restampAll ρ.stamp forms)) n).1 := by
  have global : (Memory.Equivalent.world ρ m).MatchEnv .global .global :=
    ⟨fun frame member => absurd member List.not_mem_nil, rfl⟩
  exact Memory.Equivalent.of_simulates ((Simulates.simulation ρ.stamp limit budget).2
    (equivalent.related sound sound' plain) global plain')

end CellScheme
