import CellScheme.Proofs.TextDriven

/-!
Conditions on code that no run can break. A policy asks something of every single piece of code, and
of the names that code binds. Programs that keep it leave a memory behind in which all closures and all
bound names keep it, however they end (`Policy.discipline`), and so do sessions that know only such
programs (`Session.TextDriven.covered`).
-/
namespace CellScheme

/-- The `lambda` that a closure was made by. -/
def Closure.code (c : Closure) : Code :=
  .expr (.lambda c.stamp c.params c.body)

namespace Memory

/-- All names that a memory binds are allowed: those of the global table and those of every frame
ever made. -/
structure BindsOnly (allowed : String → Prop) (memory : Memory) : Prop where
  globals : ∀ entry ∈ memory.globals.bindings, allowed entry.1
  frames : ∀ {index : Nat} {frame : Frame}, memory.frames[index]? = some frame →
    ∀ name ∈ frame.names, allowed name

variable {allowed : String → Prop} {memory : Memory}

theorem bindsOnly_empty (allowed : String → Prop) : ({} : Memory).BindsOnly allowed :=
  ⟨by simp, by simp⟩

theorem BindsOnly.define (binds : memory.BindsOnly allowed) {name : String} (may : allowed name)
    (v : Value) : (memory.define name v).BindsOnly allowed where
  globals entry member := by
    rcases List.mem_append.mp member with old | new
    · exact binds.globals entry old
    · obtain rfl := List.mem_singleton.mp new
      exact may
  frames := binds.frames

theorem BindsOnly.enter (binds : memory.BindsOnly allowed) {names : List String}
    (may : ∀ name ∈ names, allowed name) (values : List Value) :
    (memory.enter names values).BindsOnly allowed where
  globals := binds.globals
  frames {index frame} found := by
    simp only [Memory.enter, recordFrame, allocateAll, Array.getElem?_push] at found
    split at found
    · obtain rfl := Option.some.inj found
      rwa [names_newFrame]
    · exact binds.frames found

end Memory

/-- A condition on single pieces of code and one on names, such that all names bound by code that
keeps the one keep the other, and only data are quoted. -/
structure Policy where
  own : Code → Prop
  name : String → Prop
  quoted : ∀ {datum}, own (.expr (.quoted datum)) → datum.isDatum = true
  params : ∀ {stamp params body}, own (.expr (.lambda stamp params body)) →
    ∀ bound ∈ params, name bound
  bindings : ∀ {bindings body}, own (.expr (.letIn bindings body)) →
    ∀ bound ∈ bindings.map Prod.fst, name bound
  target : ∀ {target value rest}, own (.forms (.define target value :: rest)) → name target

namespace Policy

variable (policy : Policy)

/-- Code is covered when all of its places keep the policy. -/
def Covers (code : Code) : Prop :=
  code.Everywhere policy.own

/-- A value is covered when the closures inside it come from covered code. -/
def CoversValue (v : Value) : Prop :=
  ∀ c ∈ v.closures, policy.Covers c.code

/-- A memory is covered when all names that it binds are allowed and all values in its cells are
covered. -/
structure CoversMemory (memory : Memory) : Prop where
  names : memory.BindsOnly policy.name
  cells : ∀ {address v}, memory.store.read? address = some v → policy.CoversValue v

variable {policy} {memory : Memory} {v : Value}

theorem coversMemory_empty (policy : Policy) : policy.CoversMemory {} where
  names := Memory.bindsOnly_empty policy.name
  cells found := by simp [Store.read?] at found

theorem CoversValue.literal (literal : v.isLiteral = true) : policy.CoversValue v := by
  intro c member
  rw [Value.closures_literal literal] at member
  cases member

theorem CoversValue.closure {stamp : Nat} {params : List String} {body : List Form}
    {env : Environment} :
    policy.CoversValue (.closure stamp params body env) ↔
      policy.Covers (.expr (.lambda stamp params body)) := by
  simp [CoversValue, Value.closures, Closure.code]

theorem CoversMemory.write (covers : policy.CoversMemory memory) (address : Address)
    (covers' : policy.CoversValue v) : policy.CoversMemory (memory.write address v) where
  names := ⟨covers.names.globals, covers.names.frames⟩
  cells found := by
    rcases Memory.read?_write found with rfl | old
    · exact covers'
    · exact covers.cells old

theorem CoversMemory.define (covers : policy.CoversMemory memory) {name : String}
    (may : policy.name name) (covers' : policy.CoversValue v) :
    policy.CoversMemory (memory.define name v) where
  names := covers.names.define may v
  cells found := by
    rcases Memory.read?_define found with rfl | old
    · exact covers'
    · exact covers.cells old

theorem CoversMemory.enter (covers : policy.CoversMemory memory) {names : List String}
    {values : List Value} (may : ∀ name ∈ names, policy.name name)
    (covers' : ∀ v ∈ values, policy.CoversValue v) :
    policy.CoversMemory (memory.enter names values) where
  names := covers.names.enter may values
  cells found := by
    rcases Memory.read?_enter found with new | old
    · exact covers' _ new
    · exact covers.cells old

/-- Covered code run in a covered memory leaves a covered memory, and its results are covered. -/
def discipline (policy : Policy) : Discipline where
  memory := policy.CoversMemory
  moves _ _ := True
  value _ := policy.CoversValue
  place _ _ := policy.Covers
  error _ := True
  refl _ := trivial
  trans _ _ := trivial
  value_moves _ covers := covers
  place_moves _ covers := covers
  part covers member _ _ := covers.part member
  literal := .literal
  quoted {_ _ datum} covers c member := by
    rw [Value.closures_datum datum (policy.quoted covers.here)] at member
    cases member
  lambda covers := CoversValue.closure.mpr covers
  fetch covers _ _ read := covers.cells read
  assembled covers assembled c member := by
    obtain ⟨v, inside, member⟩ :=
      Value.mem_closuresAll.mp (Value.closures_of_isAssembled assembled member)
    exact covers v inside c member
  define covers placed covers' := ⟨covers.define (policy.target placed.here) covers', trivial⟩
  write _ covers _ _ _ covers' := ⟨covers.write _ covers', trivial⟩
  enterLet {m env bindings body values} covers placed _ covers' := by
    refine ⟨covers.enter (policy.bindings placed.here) covers', trivial, ?_⟩
    have inner : ([bindings.map Prod.fst], Code.forms body) ∈
        Code.parts [] (.expr (.letIn bindings body)) := by simp
    exact placed.part inner
  enterBody {m stamp params body captured values} covers fine _ covers' := by
    have placed := CoversValue.closure.mp fine
    refine ⟨covers.enter (policy.params placed.here) covers', trivial, ?_⟩
    have inner : ([params], Code.forms body) ∈
        Code.parts [] (.expr (.lambda stamp params body)) := by simp
    exact placed.part inner
  raised _ := trivial
  illegal _ _ _ _ := trivial

/-- Covered code about to run in a covered memory. -/
theorem holds {limit : Nat} {program : Program} (covers : policy.CoversMemory memory)
    (covered : policy.Covers (.forms program)) :
    policy.discipline.Holds ⟨limit, .global, .body program, memory⟩ :=
  .here covers covered fun _ _ task => nomatch task

end Policy

namespace Session

variable {session : Session} {programs : List Program} {program : Program} {policy : Policy}

/-- A session that knows covered programs only has a covered memory. -/
theorem TextDriven.covered (driven : session.TextDriven programs)
    (covers : ∀ program ∈ programs, policy.Covers (.forms program)) :
    policy.CoversMemory session.memory := by
  induction driven with
  | fresh => exact policy.coversMemory_empty
  | text _ converted ih =>
    obtain ⟨here, before⟩ := List.forall_mem_cons.mp covers
    rw [evaluateText_of_ok converted]
    exact (Discipline.ends _ (Policy.holds (ih before) here)).memory
  | faultyText _ converted ih =>
    rw [evaluateText_of_error converted]
    exact ih covers
  | convert _ _ _ ih => exact ih (List.forall_mem_cons.mp covers).2
  | run _ known ih => exact (Discipline.ends _ (Policy.holds (ih covers) (covers _ known))).memory
  | skip _ _ ih => exact ih covers

end Session

end CellScheme
