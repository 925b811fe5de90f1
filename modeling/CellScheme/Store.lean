import CellScheme.Value

/-!
The store: a growing sequence of mutable cells. Addresses are handed out in order of allocation
and stay valid; cells are never reclaimed.
-/
namespace CellScheme

/-- The cells, indexed by address. -/
structure Store where
  cells : Array Value := #[]

namespace Store

def size (store : Store) : Nat :=
  store.cells.size

/-- Appends a cell. Its address is the former size of the store. -/
def allocate (store : Store) (value : Value) : Store :=
  ⟨store.cells.push value⟩

/-- Appends one cell for each value, in order. -/
def allocateAll (store : Store) (values : List Value) : Store :=
  values.foldl allocate store

/-- The content of a cell, absent outside the store. -/
def read? (store : Store) (address : Address) : Option Value :=
  store.cells[address]?

/-- Replaces the content of a cell. A write outside the store changes nothing. -/
def write (store : Store) (address : Address) (value : Value) : Store :=
  ⟨store.cells.setIfInBounds address value⟩

/-- Addresses and contents, in order of allocation. -/
def toList (store : Store) : List (Address × Value) :=
  store.cells.toList.zipIdx.map fun cell => (cell.2, cell.1)

@[simp] theorem size_allocate (store : Store) (value : Value) :
    (store.allocate value).size = store.size + 1 := by
  simp [allocate, size]

@[simp] theorem size_write (store : Store) (address : Address) (value : Value) :
    (store.write address value).size = store.size := by
  simp [write, size]

theorem size_allocateAll (store : Store) (values : List Value) :
    (store.allocateAll values).size = store.size + values.length := by
  induction values generalizing store with
  | nil => rfl
  | cons value rest ih =>
    have step := ih (store.allocate value)
    simp only [size_allocate] at step
    simp only [allocateAll, List.foldl_cons, List.length_cons] at step ⊢
    omega

theorem read?_allocate_new (store : Store) (value : Value) :
    (store.allocate value).read? store.size = some value := by
  simp [allocate, read?, size]

theorem read?_allocate_old (store : Store) (value : Value) (address : Address)
    (inside : address < store.size) :
    (store.allocate value).read? address = store.read? address := by
  simp only [size] at inside
  simp [allocate, read?, Array.getElem?_push_lt inside, Array.getElem?_eq_getElem inside]

theorem cells_allocateAll (store : Store) (values : List Value) :
    (store.allocateAll values).cells = store.cells ++ values.toArray := by
  simp only [allocateAll]
  induction values generalizing store with
  | nil => simp
  | cons value rest ih => simp [ih, allocate]

theorem read?_allocateAll_old (store : Store) (values : List Value) (address : Address)
    (inside : address < store.size) :
    (store.allocateAll values).read? address = store.read? address := by
  simp only [size] at inside
  simp [read?, cells_allocateAll, Array.getElem?_append_left inside]

theorem read?_allocateAll_new (store : Store) (values : List Value) (position : Nat) :
    (store.allocateAll values).read? (store.size + position) = values[position]? := by
  simp [read?, cells_allocateAll, size, Array.getElem?_append_right]

theorem read?_write_same (store : Store) (address : Address) (value : Value)
    (inside : address < store.size) :
    (store.write address value).read? address = some value := by
  simp only [size] at inside
  simp [write, read?, Array.getElem?_setIfInBounds_self_of_lt inside]

theorem read?_write_other (store : Store) (address queried : Address) (value : Value)
    (distinct : address ≠ queried) :
    (store.write address value).read? queried = store.read? queried := by
  simp [write, read?, Array.getElem?_setIfInBounds_ne distinct]

end Store

end CellScheme
