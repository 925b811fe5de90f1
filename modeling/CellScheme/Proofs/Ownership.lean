import CellScheme.Proofs.Call

/-!
Who owns a cell. A cell belongs to the global entry or to the frame slot that was made together with
it. `Memory.Partitioned` says that every cell has exactly one owner; definitions, new frames and
assignments keep that, since cells are made in order and each together with its owner.
-/
namespace CellScheme

/-- A variable instance: an entry of the global table, or a slot of a frame. -/
inductive Owner where
  | entry (index : Nat)
  | slot (frame position : Nat)
  deriving DecidableEq, Repr

namespace Memory

/-- The address of an owner, among all entries and all frames ever made. -/
def address? (memory : Memory) : Owner → Option Address
  | .entry index => (memory.globals.bindings[index]?).map Prod.snd
  | .slot frame position =>
    memory.frames[frame]?.bind fun frame => (frame.slots[position]?).map Prod.snd

/-- All frames of an environment have been made in this memory. -/
def Recorded (memory : Memory) (env : Environment) : Prop :=
  ∀ frame ∈ env, memory.frames[frame.serial]? = some frame

/-- Owners and cells match one to one: an owner has a cell of the store, every cell has an owner,
and no two owners have the same one. -/
structure Partitioned (memory : Memory) : Prop where
  inside : ∀ {owner} {address : Nat}, memory.address? owner = some address →
    address < memory.store.size
  owned : ∀ {address : Nat}, address < memory.store.size →
    ∃ owner, memory.address? owner = some address
  alone : ∀ {owner owner'} {address : Nat}, memory.address? owner = some address →
    memory.address? owner' = some address → owner = owner'

variable {memory : Memory}

theorem partitioned_empty : ({} : Memory).Partitioned where
  inside {owner _} found := by cases owner <;> simp [address?] at found
  owned bound := absurd bound (Nat.not_lt_zero _)
  alone {owner _ _} found := by cases owner <;> simp [address?] at found

/-- A name that is looked up in a list of pairs stands at some position of it. -/
theorem getElem?_of_lookup {pairs : List (String × Address)} {name : String} {address : Address}
    (found : pairs.lookup name = some address) :
    ∃ position : Nat, pairs[position]? = some (name, address) := by
  obtain ⟨before, after, rfl, _⟩ := List.lookup_eq_some_iff.mp found
  exact ⟨before.length, by simp⟩

theorem address?_of_slot {frame : Frame} (recorded : memory.frames[frame.serial]? = some frame)
    {name : String} {address : Address} {position : Nat}
    (found : frame.slots[position]? = some (name, address)) :
    memory.address? (.slot frame.serial position) = some address := by
  simp [address?, recorded, found]

/-- What a name resolves to has an owner. -/
theorem owner_of_find? {env : Environment} (recorded : memory.Recorded env) {name : String}
    {address : Address} (found : env.find? memory.globals name = some address) :
    ∃ owner, memory.address? owner = some address := by
  induction env with
  | nil =>
    obtain ⟨index, entry⟩ := getElem?_of_lookup found
    exact ⟨.entry index, by simp [address?, entry]⟩
  | cons frame outer ih =>
    rw [Environment.find?, Option.or_eq_some_iff] at found
    rcases found with here | ⟨_, further⟩
    · obtain ⟨position, slot⟩ := getElem?_of_lookup here
      exact ⟨_, address?_of_slot (recorded frame (by simp)) slot⟩
    · exact ih (fun frame member => recorded frame (by simp [member])) further

/-- New owners that come with as many new cells behind the old ones, in order, keep the partition. -/
theorem Partitioned.extend {after : Memory} (partitioned : memory.Partitioned) (count : Nat)
    (fresh : Nat → Owner) (size : after.store.size = memory.store.size + count)
    (old : ∀ owner (address : Nat), memory.address? owner = some address →
      after.address? owner = some address)
    (new : ∀ i < count, after.address? (fresh i) = some (memory.store.size + i))
    (only : ∀ owner (address : Nat), after.address? owner = some address →
      memory.address? owner = some address ∨
        ∃ i < count, owner = fresh i ∧ address = memory.store.size + i) :
    after.Partitioned where
  inside {owner address} found := by
    rcases only owner address found with before | ⟨i, bound, _, rfl⟩
    · have bound := partitioned.inside before
      omega
    · omega
  owned {address} bound := by
    by_cases before : address < memory.store.size
    · obtain ⟨owner, found⟩ := partitioned.owned before
      exact ⟨owner, old owner address found⟩
    · refine ⟨fresh (address - memory.store.size), ?_⟩
      rw [new _ (by omega)]
      congr 1
      omega
  alone {owner owner' address} found found' := by
    rcases only owner address found with before | ⟨i, bound, rfl, rfl⟩
    · rcases only owner' address found' with before' | ⟨i', bound', rfl, rfl⟩
      · exact partitioned.alone before before'
      · have bound := partitioned.inside before
        omega
    · rcases only owner' _ found' with before' | ⟨i', bound', rfl, same⟩
      · have bound' := partitioned.inside before'
        omega
      · obtain rfl : i = i' := by omega
        rfl

theorem address?_define (name : String) (v : Value) (owner : Owner) :
    (memory.define name v).address? owner =
      if owner = .entry memory.globals.size then some memory.store.size
      else memory.address? owner := by
  cases owner with
  | slot frame position => rfl
  | entry index =>
    simp only [address?, define, GlobalTable.bindings_define, GlobalTable.size, Owner.entry.injEq,
      List.getElem?_append]
    rcases Nat.lt_trichotomy index memory.globals.bindings.length with less | rfl | greater
    · simp [less, Nat.ne_of_lt less]
    · simp
    · have distinct := Nat.ne_of_gt greater
      simp [Nat.not_lt_of_gt greater, distinct, Nat.sub_ne_zero_of_lt greater]

theorem address?_enter_entry (names : List String) (values : List Value) (index : Nat) :
    (memory.enter names values).address? (.entry index) = memory.address? (.entry index) := rfl

theorem address?_enter_slot (names : List String) (values : List Value) (frame position : Nat) :
    (memory.enter names values).address? (.slot frame position) =
      if frame = memory.frames.size then
        if position < names.length then some (memory.store.size + position) else none
      else memory.address? (.slot frame position) := by
  simp only [address?, enter, recordFrame, allocateAll, newFrame, Array.getElem?_push]
  split
  · by_cases bound : position < names.length
    · simp [bound]
    · simp [bound]
  · rfl

theorem size_define (name : String) (v : Value) :
    (memory.define name v).store.size = memory.store.size + 1 :=
  Store.size_allocate memory.store v

theorem size_enter (names : List String) (values : List Value) :
    (memory.enter names values).store.size = memory.store.size + values.length :=
  Store.size_allocateAll memory.store values

@[simp] theorem size_write (address : Address) (v : Value) :
    (memory.write address v).store.size = memory.store.size :=
  Store.size_write memory.store address v

theorem Partitioned.write (partitioned : memory.Partitioned) (address : Address) (v : Value) :
    (memory.write address v).Partitioned where
  inside found := by
    rw [size_write]
    exact partitioned.inside found
  owned bound := by
    rw [size_write] at bound
    exact partitioned.owned bound
  alone := partitioned.alone

theorem Partitioned.define (partitioned : memory.Partitioned) (name : String) (v : Value) :
    (memory.define name v).Partitioned := by
  refine partitioned.extend 1 (fun _ => .entry memory.globals.size) (size_define name v)
    ?_ ?_ ?_
  · intro owner address found
    rw [address?_define, if_neg, found]
    rintro rfl
    simp [address?, GlobalTable.size] at found
  · intro i bound
    rw [address?_define, if_pos rfl]
    congr 1
    omega
  · intro owner address found
    rw [address?_define] at found
    split at found
    · rename_i same
      cases found
      exact .inr ⟨0, Nat.one_pos, same, rfl⟩
    · exact .inl found

theorem Partitioned.enter (partitioned : memory.Partitioned) {names : List String}
    {values : List Value} (aligned : names.length = values.length) :
    (memory.enter names values).Partitioned := by
  have unused : ∀ position, memory.address? (.slot memory.frames.size position) = none := by
    simp [address?]
  refine partitioned.extend names.length (.slot memory.frames.size)
    (by rw [size_enter, aligned]) ?_ ?_ ?_
  · intro owner address found
    cases owner with
    | entry index =>
      rw [address?_enter_entry]
      exact found
    | slot frame position =>
      rw [address?_enter_slot, if_neg, found]
      rintro rfl
      rw [unused] at found
      cases found
  · intro i bound
    rw [address?_enter_slot, if_pos rfl, if_pos bound]
  · intro owner address found
    cases owner with
    | entry index =>
      rw [address?_enter_entry] at found
      exact .inl found
    | slot frame position =>
      rw [address?_enter_slot] at found
      split at found
      · split at found <;> cases found
        rename_i same bound
        exact .inr ⟨position, bound, by rw [same], rfl⟩
      · exact .inl found

end Memory

end CellScheme
