import CellScheme.Proofs.ClosureIdentity

/-!
What equality of values compares. A value has an identity: numbers, symbols, texts and truth values are
known by their content, primitives by their names, closures by their code and environment, and lists
item by item. Values are equal when their identities are and nothing unspecified is among them
(`Value.equal_iff`). Throughout the history of a session the identity tells the value: values that are
equal there are one and the same (`Value.toldApart_of_met`, `Value.ToldApart.equal_iff_eq`).
-/
namespace CellScheme

theorem Primitive.name_injective : Function.Injective Primitive.name := by
  intro p q names
  have same := (ofName?_name p).symm.trans (congrArg ofName? names |>.trans (ofName?_name q))
  exact Option.some.inj same

/-- What a value is known by. The code of a closure is known by its stamp, which stands for parameters
and body together, and the environment by its innermost frame, absent for the global one. -/
inductive Identity where
  | number (n : Fixnum)
  | symbol (name : String)
  | string (text : String)
  | boolean (truth : Bool)
  | list (items : List Identity)
  | primitive (name : String)
  | closure (code : Nat) (env : Option Nat)
  | unspecified

namespace Value

mutual

/-- The identity of a value. -/
def identity : Value → Identity
  | .number n => .number n
  | .symbol name => .symbol name
  | .string text => .string text
  | .boolean truth => .boolean truth
  | .list items => .list (identities items)
  | .primitive p => .primitive p.name
  | .closure stamp _ _ env => .closure stamp env.identity?
  | .unspecified => .unspecified

/-- The identities of several values, in order. -/
def identities : List Value → List Identity
  | [] => []
  | item :: rest => item.identity :: identities rest

end

mutual

/-- Values are equal when they have the same identity and nothing in them is unspecified. -/
theorem equal_iff : (a b : Value) → (a.equal b = true ↔
    a.identity = b.identity ∧ a.isSpecified = true ∧ b.isSpecified = true)
  | .list items, b => by
    cases b with
    | list items' => simpa [equal, identity, isSpecified] using equalAll_iff items items'
    | _ => simp [equal, identity]
  | .closure _ _ _ _, b => by cases b <;> simp [equal, identity, isSpecified, Environment.same]
  | .primitive _, b => by
    cases b <;> simp [equal, identity, isSpecified, Primitive.name_injective.eq_iff]
  | .number _, b | .symbol _, b | .string _, b | .boolean _, b => by
    cases b <;> simp [equal, identity, isSpecified]
  | .unspecified, b => by simp [equal, isSpecified]
termination_by structural a => a

theorem equalAll_iff : (items items' : List Value) → (equalAll items items' = true ↔
    identities items = identities items' ∧ allSpecified items = true ∧ allSpecified items' = true)
  | [], [] => by simp [equalAll, identities, allSpecified]
  | [], _ :: _ | _ :: _, [] => by simp [equalAll, identities]
  | item :: rest, item' :: rest' => by
    simp only [equalAll, identities, allSpecified, Bool.and_eq_true, List.cons.injEq,
      equal_iff item item', equalAll_iff rest rest']
    tauto
termination_by structural items => items

end

variable {a b c : Value}

theorem equal_comm (a b : Value) : a.equal b = b.equal a := by
  rw [Bool.eq_iff_iff, equal_iff, equal_iff, eq_comm, and_comm (a := a.isSpecified = true)]

theorem equal_trans (first : a.equal b = true) (second : b.equal c = true) : a.equal c = true := by
  obtain ⟨same, specified, _⟩ := (equal_iff a b).mp first
  obtain ⟨same', _, specified'⟩ := (equal_iff b c).mp second
  exact (equal_iff a c).mpr ⟨same.trans same', specified, specified'⟩

/-- A value equals itself unless something in it is unspecified. -/
theorem equal_self_iff (a : Value) : a.equal a = true ↔ a.isSpecified = true := by
  rw [equal_iff]
  exact ⟨fun both => both.2.1, fun specified => ⟨rfl, specified, specified⟩⟩

theorem equal_cons (a b : Value) (items items' : List Value) :
    (list (a :: items)).equal (list (b :: items')) =
      (a.equal b && (list items).equal (list items')) := by
  simp only [equal, equalAll]

/-- A list with at least one item. -/
def isPair : Value → Bool
  | .list (_ :: _) => true
  | _ => false

theorem isPair_of_equal (same : a.equal b = true) : a.isPair = b.isPair := by
  cases a with
  | list items =>
    cases b with
    | list items' => cases items <;> cases items' <;> first | rfl | simp [equal, equalAll] at same
    | _ => simp [equal] at same
  | _ => cases b <;> first | rfl | simp [equal] at same

/-- Identity is equality, except that no list with items is identical to another or to itself. -/
theorem identical_iff (a b : Value) :
    a.identical b = true ↔ a.equal b = true ∧ ¬ (a.isPair = true ∧ b.isPair = true) := by
  cases a with
  | list items =>
    cases b with
    | list items' => cases items <;> cases items' <;> simp [identical, equal, equalAll, isPair]
    | _ => simp [identical, isPair]
  | _ => simp [identical, isPair]

theorem identical_comm (a b : Value) : a.identical b = b.identical a := by
  rw [Bool.eq_iff_iff, identical_iff, identical_iff, equal_comm, and_comm (a := a.isPair = true)]

theorem identical_trans (first : a.identical b = true) (second : b.identical c = true) :
    a.identical c = true := by
  obtain ⟨same, notBoth⟩ := (identical_iff a b).mp first
  obtain ⟨same', _⟩ := (identical_iff b c).mp second
  refine (identical_iff a c).mpr ⟨equal_trans same same', fun pairs => notBoth ⟨pairs.1, ?_⟩⟩
  rw [← isPair_of_equal same]
  exact pairs.1

mutual

/-- Values of one identity are the same when their closures are. -/
theorem eq_of_identity : (a b : Value) →
    (∀ c ∈ a.closures, ∀ c' ∈ b.closures, c.value.identity = c'.value.identity → c = c') →
    a.identity = b.identity → a = b
  | .list items, b, told, same => by
    cases b with
    | list items' => rw [eq_of_identities items items' told (Identity.list.inj same)]
    | _ => cases same
  | .closure stamp params body env, b, told, same => by
    cases b with
    | closure stamp' params' body' env' =>
      have one := told _ (List.mem_singleton_self _) _ (List.mem_singleton_self _) same
      exact congrArg Closure.value one
    | _ => cases same
  | .primitive p, b, _, same => by
    cases b with
    | primitive q => rw [Primitive.name_injective (Identity.primitive.inj same)]
    | _ => cases same
  | .number _, b, _, same | .symbol _, b, _, same | .string _, b, _, same | .boolean _, b, _, same
  | .unspecified, b, _, same => by
    cases b <;> cases same
    rfl
termination_by structural a => a

theorem eq_of_identities : (items items' : List Value) →
    (∀ c ∈ closuresAll items, ∀ c' ∈ closuresAll items',
      c.value.identity = c'.value.identity → c = c') →
    identities items = identities items' → items = items'
  | [], [], _, _ => rfl
  | item :: rest, item' :: rest', told, same => by
    simp only [identities, List.cons.injEq] at same
    rw [eq_of_identity item item' (fun c member c' member' =>
        told c (List.mem_append_left _ member) c' (List.mem_append_left _ member')) same.1,
      eq_of_identities rest rest' (fun c member c' member' =>
        told c (List.mem_append_right _ member) c' (List.mem_append_right _ member')) same.2]
termination_by structural items => items

end

/-- Closures inside two values are the same if they have the same identity. So it is with values in which
a stamp stands for one piece of code and a serial number for one environment. -/
def ToldApart (a b : Value) : Prop :=
  ∀ c ∈ a.closures, ∀ c' ∈ b.closures, c.value.identity = c'.value.identity → c = c'

/-- Values are equal when they are one value without unspecified parts. -/
theorem ToldApart.equal_iff_eq (told : a.ToldApart b) :
    a.equal b = true ↔ a = b ∧ a.isSpecified = true := by
  rw [equal_iff]
  constructor
  · rintro ⟨same, specified, _⟩
    exact ⟨eq_of_identity a b told same, specified⟩
  · rintro ⟨rfl, specified⟩
    exact ⟨rfl, specified, specified⟩

/-- All closures inside a value have been met in some of these runs. So it is with the values that a run
finds or leaves in cells and with its results, with their items, and with what is built of such. -/
def Met (runs : List Run) (v : Value) : Prop :=
  ∀ c ∈ v.closures, c.Met runs

/-- Values that are met in the history of one session are told apart by their identities. -/
theorem toldApart_of_met {session : Session} {programs : List Program} {runs : List Run}
    (lived : session.Lived programs runs) (met : a.Met runs) (met' : b.Met runs) :
    a.ToldApart b := by
  intro c member c' member' same
  have parts := Closure.equal_iff.mpr (Identity.closure.inj same)
  exact lived.eq_of_equal (met c member) (met' c' member') parts

/-- Equality is identity except for unspecified values. Values are equal exactly when they are known by
the same identity and contain nothing unspecified; where identities tell closures apart, as they do
throughout the history of a session, this is to be one and the same value. So equality is symmetric and
transitive, it is reflexive on the values without unspecified parts and on no others, and it respects
the construction of lists. Identity in the sense of the language implies equality, is symmetric and
transitive itself, and differs from it only on two lists with items, which it always tells apart. -/
theorem equality_is_identity :
    (∀ a b : Value, Primitive.isEqual.apply [a, b] = .ok (.boolean (a.equal b)) ∧
      (a.equal b = true ↔
        a.identity = b.identity ∧ a.isSpecified = true ∧ b.isSpecified = true)) ∧
    (∀ a b : Value, a.ToldApart b → (a.equal b = true ↔ a = b ∧ a.isSpecified = true)) ∧
    (∀ session programs runs, Session.Lived session programs runs →
      ∀ a b : Value, a.Met runs → b.Met runs → a.ToldApart b) ∧
    (∀ a b : Value, a.equal b = b.equal a) ∧
    (∀ a b c : Value, a.equal b = true → b.equal c = true → a.equal c = true) ∧
    (∀ a : Value, a.equal a = true ↔ a.isSpecified = true) ∧
    (∀ (a b : Value) (items items' : List Value), ∃ left right,
      Primitive.cons.apply [a, .list items] = .ok left ∧
      Primitive.cons.apply [b, .list items'] = .ok right ∧
      (left.equal right = true ↔
        a.equal b = true ∧ (Value.list items).equal (.list items') = true)) ∧
    (∀ a b : Value, Primitive.isIdentical.apply [a, b] = .ok (.boolean (a.identical b)) ∧
      (a.identical b = true → a.equal b = true) ∧
      (a.isPair = true → b.isPair = true → a.identical b = false) ∧
      (a.identical b ≠ a.equal b → a.isPair = true ∧ b.isPair = true)) ∧
    (∀ a b : Value, a.identical b = b.identical a) ∧
    ∀ a b c : Value, a.identical b = true → b.identical c = true → a.identical c = true := by
  refine ⟨fun a b => ⟨rfl, equal_iff a b⟩, fun _ _ told => told.equal_iff_eq,
    fun _ _ _ lived _ _ => toldApart_of_met lived, equal_comm, fun _ _ _ => equal_trans,
    equal_self_iff, ?_, ?_, identical_comm, fun _ _ _ => identical_trans⟩
  · intro a b items items'
    exact ⟨_, _, rfl, rfl, by rw [equal_cons, Bool.and_eq_true]⟩
  · intro a b
    have iff := identical_iff a b
    refine ⟨rfl, fun same => (iff.mp same).1, fun pair pair' => ?_, fun differ => ?_⟩
    · exact Bool.eq_false_iff.mpr fun same => (iff.mp same).2 ⟨pair, pair'⟩
    · by_contra notBoth
      refine differ (Bool.eq_iff_iff.mpr (iff.trans (and_iff_left notBoth)))

end Value

namespace Session

/-- A list with a counter in it. The counters come from the two runs of one program. -/
def counterList (serial : Nat) (address : Address) : Value :=
  .list [(counterClosure serial address).value, .string "count"]

/-- Two lists with counters that differ in nothing but the activation that has made them, and the same
list with something unspecified in front. -/
theorem equality_is_identity_counters :
    (counterList 0 0).Met counterRuns ∧ (counterList 2 2).Met counterRuns ∧
      (counterList 0 0).ToldApart (counterList 2 2) ∧
      (counterList 0 0).equal (counterList 0 0) = true ∧
      (counterList 0 0).identical (counterList 0 0) = false ∧
      (counterList 0 0).equal (counterList 2 2) = false ∧
      (Value.list [.unspecified, counterList 0 0]).equal
        (.list [.unspecified, counterList 0 0]) = false := by
  have met : (counterClosure 0 0).Met counterRuns :=
    ⟨_, List.mem_cons_self, _, _, .refl, List.mem_singleton_self _, .inr (.inl ⟨1, rfl⟩)⟩
  have met' : (counterClosure 2 2).Met counterRuns :=
    ⟨_, List.mem_cons_self, _, _, .refl, List.mem_singleton_self _, .inr (.inl ⟨3, rfl⟩)⟩
  have inside : (counterList 0 0).Met counterRuns :=
    fun c member => List.mem_singleton.mp member ▸ met
  have inside' : (counterList 2 2).Met counterRuns :=
    fun c member => List.mem_singleton.mp member ▸ met'
  obtain ⟨_, one, apart, _, _, reflexive, _, identical, _⟩ := Value.equality_is_identity
  have told := apart _ _ _ counterRuns_lived _ _ inside inside'
  refine ⟨inside, inside', told, (reflexive _).mpr rfl, (identical _ _).2.2.1 rfl rfl, ?_, ?_⟩
  · refine Bool.eq_false_iff.mpr fun same => ?_
    have lists := ((one _ _ told).mp same).1
    simp [counterList, counterClosure, Closure.value] at lists
  · exact Bool.eq_false_iff.mpr fun same => Bool.noConfusion ((reflexive _).mp same)

end Session

end CellScheme
