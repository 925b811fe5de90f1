import CellScheme.Proofs.BoundNames
import CellScheme.Proofs.Flow

/-!
A cell is overwritten only by an assignment to its own name. Where neither a program nor the closures
in cells contain an assignment to some name, no run of the program changes a cell of a variable of that
name: neither one that is there when the run begins, nor one that the run makes.
-/
namespace CellScheme

namespace Memory

/-- The name of a variable instance. -/
def name? (memory : Memory) : Owner → Option String
  | .entry index => (memory.globals.bindings[index]?).map Prod.fst
  | .slot frame position =>
    memory.frames[frame]?.bind fun frame => (frame.slots[position]?).map Prod.fst

/-- A cell belongs to a variable of a name: to a global entry or to a slot of a frame. -/
def IsCellOf (memory : Memory) (name : String) (address : Address) : Prop :=
  ∃ owner, memory.name? owner = some name ∧ memory.address? owner = some address

variable {memory after : Memory} {name other : String} {address : Address} {v : Value}

theorem name?_isSome_iff (memory : Memory) (owner : Owner) :
    (memory.name? owner).isSome ↔ (memory.address? owner).isSome := by
  cases owner with
  | entry index => simp [name?, address?]
  | slot frame position =>
    cases found : memory.frames[frame]? <;> simp [name?, address?, found]

theorem Grows.isCellOf (grows : memory.Grows after) (cell : memory.IsCellOf name address) :
    after.IsCellOf name address := by
  obtain ⟨owner, named, owned⟩ := cell
  refine ⟨owner, ?_⟩
  cases owner with
  | entry index =>
    obtain ⟨more, equal⟩ := grows.globals
    simp only [name?, address?, Option.map_eq_some_iff] at named owned ⊢
    obtain ⟨entry, found, rfl⟩ := named
    obtain ⟨entry', found', rfl⟩ := owned
    have bound := (List.getElem?_eq_some_iff.mp found).1
    rw [← equal, List.getElem?_append_left bound]
    exact ⟨⟨entry, found, rfl⟩, ⟨entry', found', rfl⟩⟩
  | slot frame position =>
    simp only [name?, address?, Option.bind_eq_some_iff] at named owned ⊢
    obtain ⟨here, found, slot⟩ := named
    obtain ⟨here', found', slot'⟩ := owned
    exact ⟨⟨here, grows.frames found, slot⟩, ⟨here', grows.frames found', slot'⟩⟩

/-- What a name resolves to is a cell of that name. -/
theorem isCellOf_of_find? {env : Environment} (recorded : memory.Recorded env)
    (found : env.find? memory.globals name = some address) : memory.IsCellOf name address := by
  induction env with
  | nil =>
    obtain ⟨index, entry⟩ := getElem?_of_lookup found
    exact ⟨.entry index, by simp [name?, entry], by simp [address?, entry]⟩
  | cons frame outer ih =>
    rw [Environment.find?, Option.or_eq_some_iff] at found
    rcases found with here | ⟨_, further⟩
    · obtain ⟨position, slot⟩ := getElem?_of_lookup here
      have frames := recorded frame (by simp)
      exact ⟨.slot frame.serial position, by simp [name?, frames, slot], address?_of_slot frames slot⟩
    · exact ih (fun frame member => recorded frame (by simp [member])) further

/-- A cell belongs to variables of one name only. -/
theorem Partitioned.name_unique (partitioned : memory.Partitioned)
    (cell : memory.IsCellOf name address) (cell' : memory.IsCellOf other address) :
    name = other := by
  obtain ⟨owner, named, owned⟩ := cell
  obtain ⟨owner', named', owned'⟩ := cell'
  obtain rfl := partitioned.alone owned owned'
  exact Option.some.inj (named.symm.trans named')

theorem Partitioned.isCellOf_lt (partitioned : memory.Partitioned)
    (cell : memory.IsCellOf name address) : address < memory.store.size := by
  obtain ⟨owner, _, owned⟩ := cell
  exact partitioned.inside owned

/-- A definition makes one cell, for its target. -/
theorem isCellOf_define_iff :
    (memory.define other v).IsCellOf name address ↔
      memory.IsCellOf name address ∨ name = other ∧ address = memory.store.size := by
  constructor
  · rintro ⟨owner, named, owned⟩
    rw [address?_define] at owned
    split at owned
    · rename_i new
      subst new
      simp only [name?, define, GlobalTable.bindings_define, GlobalTable.size,
        List.getElem?_concat_length, Option.map_some, Option.some.injEq] at named
      exact .inr ⟨named.symm, (Option.some.inj owned).symm⟩
    · refine .inl ⟨owner, ?_, owned⟩
      cases owner with
      | slot frame position => exact named
      | entry index =>
        simp only [address?, Option.map_eq_some_iff] at owned
        obtain ⟨entry, found, _⟩ := owned
        have bound := (List.getElem?_eq_some_iff.mp found).1
        simpa only [name?, define, GlobalTable.bindings_define,
          List.getElem?_append_left bound] using named
  · rintro (old | ⟨rfl, rfl⟩)
    · exact (Grows.define memory other v).isCellOf old
    · refine ⟨.entry memory.globals.size, ?_, by rw [address?_define, if_pos rfl]⟩
      simp [name?, define, GlobalTable.size]

/-- A new frame makes one cell for each of its names. -/
theorem isCellOf_enter_iff {names : List String} {values : List Value} :
    (memory.enter names values).IsCellOf name address ↔
      memory.IsCellOf name address ∨
        ∃ position, names[position]? = some name ∧ address = memory.store.size + position := by
  have names_new : ∀ position, (memory.enter names values).name?
      (.slot memory.frames.size position) = names[position]? := by
    intro position
    have bound : names.length ≤ (List.range' memory.store.size names.length).length := by simp
    have slots := congrArg (fun all => all[position]?)
      (List.map_fst_zip bound)
    simp only [List.getElem?_map] at slots
    simpa [name?, enter, recordFrame, allocateAll, newFrame] using slots
  constructor
  · rintro ⟨owner, named, owned⟩
    cases owner with
    | entry index => exact .inl ⟨.entry index, named, owned⟩
    | slot frame position =>
      rw [address?_enter_slot] at owned
      split at owned
      · rename_i new
        subst new
        split at owned <;> cases owned
        rw [names_new] at named
        exact .inr ⟨position, named, rfl⟩
      · rename_i old
        refine .inl ⟨.slot frame position, ?_, owned⟩
        simpa [name?, enter, recordFrame, allocateAll, Array.getElem?_push, old] using named
  · rintro (old | ⟨position, found, rfl⟩)
    · exact (Grows.enter memory names values).isCellOf old
    · have bound := (List.getElem?_eq_some_iff.mp found).1
      refine ⟨.slot memory.frames.size position, (names_new position).trans found, ?_⟩
      rw [address?_enter_slot, if_pos rfl, if_pos bound]

end Memory

/-- No assignment to a name stands anywhere in the code. -/
def Code.Spares (name : String) (code : Code) : Prop :=
  code.Everywhere fun place => ∀ value rest, place ≠ .forms (.assign name value :: rest)

/-- No closure in a cell contains an assignment to a name. -/
def Memory.Spares (name : String) (memory : Memory) : Prop :=
  ∀ address v, memory.store.read? address = some v → ∀ c ∈ v.closures, c.code.Spares name

/-- Well-formed code that contains no assignment to a name. -/
def sparing (name : String) : Policy where
  own code := code.OwnFormed ∧ ∀ value rest, code ≠ .forms (.assign name value :: rest)
  name := IsBindable
  quoted own := own.1
  params own := own.1.1
  bindings own := own.1.1
  target own := own.1

theorem Policy.CoversMemory.sparing {memory : Memory} {name : String}
    (covers : formation.CoversMemory memory) (spares : memory.Spares name) :
    (CellScheme.sparing name).CoversMemory memory where
  names := covers.names
  cells found c member := (covers.cells found c member).and (spares _ _ found c member)

/-- The cells of all variables of a name are there later and hold the same. -/
structure Memory.KeepsCells (name : String) (memory after : Memory) : Prop where
  grows : memory.Grows after
  same : ∀ address, memory.IsCellOf name address →
    after.store.read? address = memory.store.read? address

/-- A step of a run that makes a cell, for a variable of a name, with its initial value: a definition,
or the frame of a `let` or of an application. The point that is begun is the first with this cell. -/
inductive Creates (limit : Nat) (point next : Point) : String → Address → Value → Prop
  | define {turn : Turn} {left : Memory} {result content : Value} {name : String} {value : Expr}
      {rest : List Form} :
    Calls limit point turn next → Stands limit point (turn.moment point.task) left →
    point.task = .rest result (.define name value :: rest) →
    next.memory = left.define name content →
    Creates limit point next name left.store.size content
  | enter {turn : Turn} {left : Memory} {names : List String} {values : List Value}
      {body : List Form} {name : String} {v : Value} {position : Nat} :
    Calls limit point turn next → Stands limit point (turn.moment point.task) left →
    next.task = .body body → next.env.head? = some (left.newFrame names) →
    next.memory = left.enter names values →
    names[position]? = some name → values[position]? = some v →
    Creates limit point next name (left.store.size + position) v

theorem Creates.next_reached {limit : Nat} {start point next : Point} {name : String}
    {address : Address} {v : Value} (creates : Creates limit point next name address v)
    (reached : Reaches limit start point) : Reaches limit start next := by
  cases creates with
  | define call _ _ _ | enter call _ _ _ _ _ _ => exact reached.tail ⟨_, call⟩

/-- The new cell belongs to the variable and holds the initial value. -/
theorem Creates.made {limit : Nat} {point next : Point} {name : String} {address : Address}
    {v : Value} (creates : Creates limit point next name address v) :
    next.memory.IsCellOf name address ∧ next.memory.store.read? address = some v := by
  cases creates with
  | define _ _ _ memory =>
    rw [memory]
    exact ⟨Memory.isCellOf_define_iff.mpr (.inr ⟨rfl, rfl⟩), Store.read?_allocate_new _ _⟩
  | enter _ _ _ _ memory found found' =>
    rw [memory]
    refine ⟨Memory.isCellOf_enter_iff.mpr (.inr ⟨_, found, rfl⟩), ?_⟩
    rw [← found']
    exact Store.read?_allocateAll_new _ _ _

/-- The cells of a memory are old ones, or have been made in a run. -/
def Accounted (limit : Nat) (start : Point) (memory after : Memory) : Prop :=
  ∀ name address, after.IsCellOf name address → memory.IsCellOf name address ∨
    ∃ point next v, Reaches limit start point ∧ Creates limit point next name address v

/-- No cell comes from nowhere. -/
theorem accounts (limit : Nat) (start : Point) : Flow limit start (Accounted limit start) where
  refl _ _ _ cell := .inl cell
  trans first second name address cell := by
    rcases second name address cell with between | made
    · exact first name address between
    · exact .inr made
  begins {point turn next left} reached call stands begins name address cell := by
    cases begins with
    | kept _ _ _ => exact .inl cell
    | assign _ _ _ => exact .inl cell
    | define task _ =>
      rcases Memory.isCellOf_define_iff.mp cell with old | ⟨rfl, rfl⟩
      · exact .inl old
      · exact .inr ⟨point, _, _, reached, .define call stands task rfl⟩
    | enter aligned _ _ =>
      rcases Memory.isCellOf_enter_iff.mp cell with old | ⟨position, found, rfl⟩
      · exact .inl old
      · have bound := (List.getElem?_eq_some_iff.mp found).1
        rw [aligned] at bound
        have value := List.getElem?_eq_getElem bound
        exact .inr ⟨point, _, _, reached, .enter call stands rfl rfl rfl found value⟩

namespace Session

variable {session : Session} {programs : List Program} {program : Program} {name : String}

/-- A session that knows no program with an assignment to a name has no closure with one. -/
theorem TextDriven.spares (driven : session.TextDriven programs)
    (spares : ∀ program ∈ programs, (Code.forms program).Spares name) :
    session.memory.Spares name := by
  have covers : (sparing name).CoversMemory session.memory := driven.covered fun program known =>
    (driven.wellFormed program known).and (spares program known)
  intro address v found c member
  exact (covers.cells found c member).mono fun _ own => own.2

/-- A run of code that contains no assignment to a name keeps all cells of that name: what is written
is the cell of another name, and no cell belongs to two names. -/
theorem TextDriven.keepsCells (driven : session.TextDriven programs) (known : program ∈ programs)
    (spares : (Code.forms program).Spares name) (closures : session.memory.Spares name) :
    Flow session.limit (session.start program) (Memory.KeepsCells name) where
  refl memory := ⟨.refl memory, fun _ _ => rfl⟩
  trans first second := by
    refine ⟨first.grows.trans second.grows, fun address cell => ?_⟩
    rw [second.same address (first.grows.isCellOf cell), first.same address cell]
  begins {point turn next left} reached call stands begins := by
    refine ⟨begins.grows, ?_⟩
    have holds := driven.holds known reached
    obtain ⟨sound, grown⟩ := stands.holds holds
    have partitioned := sound.partitioned
    intro address cell
    have inside := partitioned.isCellOf_lt cell
    cases begins with
    | kept _ _ _ => rfl
    | define _ _ => exact Store.read?_allocate_old _ _ _ inside
    | enter _ _ _ => exact Store.read?_allocateAll_old _ _ _ inside
    | @assign _ _ _ target _ _ _ task found _ =>
      have covers : (sparing name).CoversMemory session.memory :=
        Policy.CoversMemory.sparing (driven.covered driven.wellFormed) closures
      have start : (sparing name).discipline.Holds (session.start program) :=
        Policy.holds covers ((driven.wellFormed program known).and spares)
      have placed := (Discipline.reaches start reached).1.place.here.2
      have distinct : target ≠ name := by
        rintro rfl
        exact placed _ _ (congrArg Task.code task)
      have owned := grown.isCellOf (Memory.isCellOf_of_find? holds.place.recorded found)
      refine Store.read?_write_other _ _ _ _ ?_
      rintro rfl
      exact distinct (partitioned.name_unique owned cell)

/-- Cells are overwritten only by assignments to their own names. When neither a program nor the
closures in cells contain an assignment to a name, the evaluation of the program, whether it succeeds
or fails, changes no cell of a variable of that name: those that are there keep what they hold, and
every one that is there at the end and was not before has been made in the run and holds the value
that it was made with. So when there is no assignment at all, the old store is a prefix of the new
one. -/
theorem only_assignments_overwrite (driven : session.TextDriven programs)
    (known : program ∈ programs) :
    (∀ name, (Code.forms program).Spares name → session.memory.Spares name →
      (∀ address, session.memory.IsCellOf name address →
        (session.evaluateProgram program).2.memory.store.read? address =
          session.memory.store.read? address) ∧
      (∀ point next address v, Reaches session.limit (session.start program) point →
        Creates session.limit point next name address v →
        (session.evaluateProgram program).2.memory.store.read? address = some v) ∧
      ∀ address, (session.evaluateProgram program).2.memory.IsCellOf name address →
        session.memory.IsCellOf name address ∨
          ∃ point next v, Reaches session.limit (session.start program) point ∧
            Creates session.limit point next name address v) ∧
    ((∀ name, (Code.forms program).Spares name ∧ session.memory.Spares name) →
      session.memory.store.cells.toList <+:
        (session.evaluateProgram program).2.memory.store.cells.toList) := by
  constructor
  · intro name spares closures
    have flow := driven.keepsCells known spares closures
    have account := (accounts session.limit (session.start program)).run .refl
    refine ⟨(flow.run .refl).same, ?_, account name⟩
    intro point next address v reached creates
    obtain ⟨cell, content⟩ := creates.made
    have kept := (flow.onwards (creates.next_reached reached)).same address cell
    exact kept.trans content
  · intro spares
    rw [List.prefix_iff_getElem?]
    intro address bound
    obtain ⟨owner, owned⟩ := driven.sound.memory.partitioned.owned bound
    have named : (session.memory.name? owner).isSome := by
      rw [Memory.name?_isSome_iff, owned]
      rfl
    obtain ⟨name, named⟩ := Option.isSome_iff_exists.mp named
    have flow := driven.keepsCells known (spares name).1 (spares name).2
    have kept : (session.evaluateProgram program).2.memory.store.read? address =
        session.memory.store.read? address :=
      (flow.run .refl).same address ⟨owner, named, owned⟩
    have here : session.memory.store.read? address =
        some session.memory.store.cells.toList[address] := by
      simp [Store.read?]
    rw [here] at kept
    simpa [Store.read?] using kept

/-- The counter assigns its parameter, and not the name under which it is known. -/
theorem counterStamped_spares : (Code.forms counterStamped).Spares "count" := by
  have tree : counterStamped =
      [.define "count"
          (.apply
            (.lambda 0 ["n"]
              [.expr (.lambda 1 []
                [.assign "n" (.apply (.primitive .add) [.variable "n", .number .one]),
                  .expr (.variable "n")])])
            [.number .zero]),
        .expr (.apply (.variable "count") [])] := rfl
  rw [tree]
  simp [Code.Spares, Code.everywhere_define, Code.everywhere_assign, Code.everywhere_element,
    Code.everywhere_apply, Code.everywhere_lambda]
  and_intros <;> exact (Code.everywhere_leaf fun _ => rfl).mpr (by simp)

theorem only_assignments_overwrite_counter :
    counterSession.memory.IsCellOf "count" 1 ∧
      (counterSession.evaluateProgram counterStamped).2.memory.store.read? 1 =
        counterSession.memory.store.read? 1 ∧
      (counterSession.evaluateProgram counterStamped).2.memory.IsCellOf "count" 3 ∧
      (counterSession.evaluateProgram counterStamped).2.memory.store.size = 4 := by
  have known : counterStamped ∈ [counterStamped] := List.mem_cons_self
  have closures : counterSession.memory.Spares "count" :=
    counterSession_textDriven.spares (by simpa using counterStamped_spares)
  have cell : counterSession.memory.IsCellOf "count" 1 := ⟨.entry 0, rfl, rfl⟩
  obtain ⟨kept, _⟩ := (only_assignments_overwrite counterSession_textDriven known).1 "count"
    counterStamped_spares closures
  exact ⟨cell, kept 1 cell, ⟨.entry 1, rfl, rfl⟩, rfl⟩

end Session

end CellScheme
