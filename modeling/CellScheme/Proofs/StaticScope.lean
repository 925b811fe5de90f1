import CellScheme.Proofs.TextDriven
import Mathlib.Data.List.Pairwise

/-!
Lexical scoping is static. A visit follows a run through the program trees: into the parts of the
code that is evaluated, and to the body of a `lambda` when a closure of it is applied. Wherever a
visit stands, the environment in force binds exactly the names of the static scope there, so a name
is found in the frame and at the position that the tree alone tells, or else in the global table.
-/
namespace CellScheme

/-- Where a name is bound in a scope: the number of lists to pass and the position in the next. -/
def Scope.locate? : Scope → String → Option (Nat × Nat)
  | [], _ => none
  | names :: outer, name =>
    match names.idxOf? name with
    | some position => some (0, position)
    | none => (Scope.locate? outer name).map fun place => (place.1 + 1, place.2)

/-- The address in a slot of an environment, given the number of frames to pass and the position in
the next. -/
def Environment.slot? (env : Environment) (place : Nat × Nat) : Option Address :=
  env[place.1]?.bind fun frame => (frame.slots[place.2]?).map Prod.snd

/-- Looking a name up in pairs is finding its position among the names. -/
theorem lookup_eq_idxOf? (pairs : List (String × Address)) (name : String) :
    pairs.lookup name =
      ((pairs.map Prod.fst).idxOf? name).bind fun position => (pairs[position]?).map Prod.snd := by
  induction pairs with
  | nil => rfl
  | cons pair rest ih =>
    obtain ⟨key, address⟩ := pair
    by_cases same : name = key
    · subst same
      simp [List.idxOf?_cons]
    · have other : (key == name) = false := by simpa using Ne.symm same
      rw [List.lookup_cons, List.map_cons, List.idxOf?_cons]
      simp only [other, beq_eq_false_iff_ne.mpr same, ih]
      cases (rest.map Prod.fst).idxOf? name <;> simp

/-- Where a scope binds a name, an environment with these names has a slot. -/
theorem Environment.slot?_of_locate? {env : Environment} {name : String} {place : Nat × Nat}
    (located : env.names.locate? name = some place) : ∃ address, env.slot? place = some address := by
  induction env generalizing place with
  | nil => cases located
  | cons frame outer ih =>
    rw [Environment.names_cons, Scope.locate?] at located
    split at located
    · rename_i position found
      cases located
      have bound : position < frame.slots.length := by
        have inside := (List.findIdx?_eq_some_iff_findIdx_eq.mp found).1
        simpa [Frame.names] using inside
      exact ⟨frame.slots[position].2, by simp [slot?, bound]⟩
    · obtain ⟨inner, found, rfl⟩ := Option.map_eq_some_iff.mp located
      obtain ⟨address, slot⟩ := ih found
      exact ⟨address, by simpa [slot?] using slot⟩

/-- A name resolves to the slot where the scope binds it, or else to its global entry. -/
theorem Environment.find?_eq (globals : GlobalTable) (env : Environment) (name : String) :
    env.find? globals name =
      match env.names.locate? name with
      | some place => env.slot? place
      | none => globals.find? name := by
  induction env with
  | nil => rfl
  | cons frame outer ih =>
    rw [find?, lookup_eq_idxOf?, Environment.names_cons, Scope.locate?, ← Frame.names]
    cases found : frame.names.idxOf? name with
    | none =>
      rw [Option.bind_none, Option.none_or, ih]
      cases Scope.locate? (Environment.names outer) name <;> simp [slot?]
    | some position =>
      have located : Scope.locate? (Environment.names (frame :: outer)) name = some (0, position) := by
        simp [Scope.locate?, found]
      obtain ⟨address, slot⟩ := slot?_of_locate? located
      simp only [slot?, List.getElem?_cons_zero, Option.bind_some] at slot ⊢
      rw [slot, Option.some_or]

/-- A run of a program followed through the trees of the known programs. A visit leads to a point of
the run and to the place in a program where that point stands, given by a path of part numbers. -/
inductive Visits (session : Session) (programs : List Program) (program : Program) :
    Program → List Nat → Point → Prop
  | start : Visits session programs program program [] (session.start program)
  | part {home : Program} {path : List Nat} {point next : Point} {index : Nat} :
    Visits session programs program home path point →
    Calls session.limit point (.part index) next →
    Visits session programs program home (path ++ [index]) next
  | same {home : Program} {path : List Nat} {point next : Point} :
    Visits session programs program home path point → Calls session.limit point .same next →
    Visits session programs program home path next
  | body {home home' : Program} {path path' : List Nat} {point next : Point} {stamp : Nat}
    {scope : Scope} {params : List String} {body : List Form} :
    Visits session programs program home path point →
    Calls session.limit point (.body stamp) next → home' ∈ programs →
    home'.at? path' = some (scope, .expr (.lambda stamp params body)) →
    Visits session programs program home' (path' ++ [0]) next

theorem Visits.reaches {session : Session} {programs : List Program} {program home : Program}
    {path : List Nat} {point : Point} (visits : Visits session programs program home path point) :
    Reaches session.limit (session.start program) point := by
  induction visits with
  | start => exact .refl
  | part _ call ih | same _ call ih | body _ call _ _ ih => exact ih.tail ⟨_, call⟩

/-- A closure has the scope of the one `lambda` occurrence that has its stamp. -/
def Closure.HasStaticScope (programs : List Program) (c : Closure) : Prop :=
  ∃ home ∈ programs, ∃ path,
    home.at? path = some (c.env.names, .expr (.lambda c.stamp c.params c.body)) ∧
      ∀ home' ∈ programs, ∀ path' scope params body,
        home'.at? path' = some (scope, .expr (.lambda c.stamp params body)) →
        home' = home ∧ path' = path

/-- Static scoping at one moment, given the place in a program where it stands. -/
structure Point.InScope (limit : Nat) (programs : List Program) (home : Program) (path : List Nat)
    (point : Point) : Prop where
  known : home ∈ programs
  /-- The environment binds the names of the scope, and no others. -/
  scope : home.at? path = some (point.env.names, point.task.code)
  /-- A name that the scope binds resolves to the slot that the tree tells. -/
  bound : ∀ name place, point.env.names.locate? name = some place →
    ∃ address, point.env.slot? place = some address ∧
      point.env.find? point.memory.globals name = some address
  /-- A name that the scope does not bind goes to the global table. -/
  free : ∀ name, point.env.names.locate? name = none →
    point.env.find? point.memory.globals name = point.memory.globals.find? name
  /-- A variable that the scope binds has a value, unless no level is left. -/
  reference : ∀ name place, point.task = .expr (.variable name) →
    point.env.names.locate? name = some place →
    (point.outcome limit).1 ≠ .error (.unboundVariable name)
  /-- Closures in cells and in the result have the scope of the `lambda` that they come from. -/
  cells : ∀ address v, (point.outcome limit).2.store.read? address = some v →
    ∀ c ∈ v.closures, c.HasStaticScope programs
  result : ∀ v, (point.outcome limit).1 = .ok v → ∀ c ∈ v.closures, c.HasStaticScope programs

/-- A name that resolves is not reported as unbound. -/
theorem evaluate_variable_bound {limit budget : Nat} {env : Environment} {memory : Memory}
    {name : String} {address : Address} (found : env.find? memory.globals name = some address) :
    (Point.outcome limit ⟨budget, env, .expr (.variable name), memory⟩).1
      ≠ .error (.unboundVariable name) := by
  cases budget with
  | zero =>
    rintro ⟨⟩
  | succ budget =>
    have resolved :
        Evaluation.outcome (Evaluation.resolve env name) memory = (.ok address, memory) := by
      rw [Evaluation.outcome_resolve, found]
    simp only [Point.outcome, Point.evaluation, evaluate, Evaluation.outcome_bind, resolved,
      Evaluation.outcome_fetch]
    cases memory.store.read? address <;> simp

namespace Session

variable {session : Session} {programs : List Program} {program : Program}

/-- Among all known programs, a stamp belongs to one `lambda` occurrence. -/
theorem Sound.lambda_unique (sound : session.Sound programs) {home home' : Program}
    (known : home ∈ programs) (known' : home' ∈ programs) {path path' : List Nat}
    {scope scope' : Scope} {stamp : Nat} {params params' : List String} {body body' : List Form}
    (here : home.at? path = some (scope, .expr (.lambda stamp params body)))
    (there : home'.at? path' = some (scope', .expr (.lambda stamp params' body'))) :
    home' = home ∧ path' = path := by
  have member : stamp ∈ Form.stampsAll home :=
    Code.mem_stamps_of_at? here (by simp [Code.stamps, Expr.stamps])
  have member' : stamp ∈ Form.stampsAll home' :=
    Code.mem_stamps_of_at? there (by simp [Code.stamps, Expr.stamps])
  obtain ⟨each, apart⟩ := List.nodup_flatMap.mp sound.distinct
  have symmetric : Std.Symm (Function.onFun List.Disjoint Form.stampsAll) :=
    ⟨fun _ _ disjoint _ there here => disjoint here there⟩
  have same : home' = home := by
    by_contra distinct
    exact apart.forall known' known distinct member' member
  subst same
  have distinct : (Code.forms home').stamps.Nodup := each home' known
  exact ⟨rfl, (Code.path_eq_of_stamp distinct here there).symm⟩

theorem Sound.hasStaticScope (sound : session.Sound programs) {memory : Memory} {c : Closure}
    (fine : c.Sound programs memory) : c.HasStaticScope programs := by
  obtain ⟨_, home, known, path, here⟩ := fine
  refine ⟨home, known, path, here, ?_⟩
  intro home' known' path' scope params body there
  exact sound.lambda_unique known known' here there

/-- The closure whose body is about to run is sound: it is the value of an operator. -/
theorem TextDriven.applied (driven : session.TextDriven programs) (known : program ∈ programs)
    {point next : Point} (reached : Reaches session.limit (session.start program) point) {stamp : Nat}
    (call : Calls session.limit point (.body stamp) next) :
    ∃ params body captured memory, next.env.names = params :: Environment.names captured ∧
      next.task = .body body ∧ Closure.Sound programs memory ⟨stamp, params, body, captured⟩ := by
  obtain ⟨params, body, captured, operator, operands, left, task, inner, ended, names, _, next_task⟩ :=
    call.body_eq
  have value := (driven.ends known (reached.tail ⟨_, inner⟩)).value
  rw [ended] at value
  exact ⟨params, body, captured, left, names, next_task,
    value _ rfl ⟨stamp, params, body, captured⟩ (by simp [Value.closures])⟩

/-- Wherever a visit stands, the environment in force binds the names of the scope there. -/
theorem TextDriven.scope (driven : session.TextDriven programs) (member : program ∈ programs)
    {home : Program} {path : List Nat} {point : Point}
    (visits : Visits session programs program home path point) :
    home ∈ programs ∧ home.at? path = some (point.env.names, point.task.code) := by
  induction visits with
  | start => exact ⟨member, rfl⟩
  | part _ call ih =>
    refine ⟨ih.1, ?_⟩
    rw [Program.at?_part ih.2]
    exact call.part_eq
  | same _ call ih =>
    obtain ⟨env, code⟩ := call.same_eq
    rw [env, code]
    exact ih
  | body visits call known' there ih =>
    obtain ⟨params, body, captured, memory, names, task, _, home, known, path, here⟩ :=
      driven.applied member visits.reaches call
    obtain ⟨rfl, rfl⟩ := driven.sound.lambda_unique known known' here there
    refine ⟨known', ?_⟩
    rw [Program.at?_part here, names, task]
    rfl

/-- Every point that a run reaches is visited. -/
theorem TextDriven.visited (driven : session.TextDriven programs) (known : program ∈ programs)
    {point : Point} (reached : Reaches session.limit (session.start program) point) :
    ∃ home path, Visits session programs program home path point := by
  induction reached with
  | refl => exact ⟨program, [], .start⟩
  | tail reached call ih =>
    obtain ⟨home, path, visits⟩ := ih
    obtain ⟨turn, call⟩ := call
    cases turn with
    | part index => exact ⟨home, path ++ [index], .part visits call⟩
    | same => exact ⟨home, path, .same visits call⟩
    | body stamp =>
      obtain ⟨params, body, captured, memory, _, _, _, home', known', path', here⟩ :=
        driven.applied known reached call
      exact ⟨home', path' ++ [0], .body visits call known' here⟩

theorem TextDriven.inScope (driven : session.TextDriven programs) (known : program ∈ programs)
    {home : Program} {path : List Nat} {point : Point}
    (visits : Visits session programs program home path point) :
    point.InScope session.limit programs home path := by
  have reached := visits.reaches
  have ends := driven.ends known reached
  obtain ⟨inside, here⟩ := driven.scope known visits
  have bound : ∀ name place, point.env.names.locate? name = some place →
      ∃ address, point.env.slot? place = some address ∧
        point.env.find? point.memory.globals name = some address := by
    intro name place located
    obtain ⟨address, slot⟩ := Environment.slot?_of_locate? located
    refine ⟨address, slot, ?_⟩
    rw [Environment.find?_eq, located]
    exact slot
  refine ⟨inside, here, bound, ?_, ?_, ?_, ?_⟩
  · intro name unbound
    rw [Environment.find?_eq, unbound]
  · intro name place task located unbound
    obtain ⟨address, _, found⟩ := bound name place located
    obtain ⟨budget, env, _, memory⟩ := point
    obtain rfl := task
    exact evaluate_variable_bound found unbound
  · intro address v found c member
    exact driven.sound.hasStaticScope (ends.memory.cells found c member)
  · intro v ended c member
    exact driven.sound.hasStaticScope (ends.value v ended c member)

/-- In a text-driven session, the frames in force bind the names of the static scope, at every point
of every run of a known program; and all points of all runs are visited. -/
theorem scoping_is_static (driven : session.TextDriven programs) (known : program ∈ programs) :
    (∀ point, Reaches session.limit (session.start program) point →
      ∃ home path, Visits session programs program home path point) ∧
    ∀ home path point, Visits session programs program home path point →
      point.InScope session.limit programs home path := by
  constructor
  · intro point reached
    exact driven.visited known reached
  · intro home path point visits
    exact driven.inScope known visits

/-- Inside the body of the counter's outer `lambda`, its parameter is in force. -/
theorem counter_visits : ∃ point,
    Visits counterSession [counterStamped] counterStamped counterStamped [0, 0, 0] point ∧
      point.env.names = [["n"]] := by
  have begins : Visits counterSession [counterStamped] counterStamped counterStamped [] _ := .start
  have forms := Visits.same begins .forms
  have value := Visits.part forms .defined
  have place : counterStamped.at? [0, 0] = some (_, .expr (.lambda 0 ["n"] _)) := rfl
  have body := Visits.body value (.application rfl rfl rfl) List.mem_cons_self place
  exact ⟨_, body, rfl⟩

theorem scoping_is_static_counter :
    counterSession.TextDriven [counterStamped] ∧ counterStamped ∈ [counterStamped] ∧
      ∃ point : Point, point.env.names = [["n"]] ∧
        point.InScope 256 [counterStamped] counterStamped [0, 0, 0] := by
  obtain ⟨point, visits, names⟩ := counter_visits
  exact ⟨counterSession_textDriven, List.mem_cons_self, point, names,
    (scoping_is_static counterSession_textDriven List.mem_cons_self).2 _ _ _ visits⟩

end Session

end CellScheme
