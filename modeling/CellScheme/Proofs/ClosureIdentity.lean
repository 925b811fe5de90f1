import CellScheme.Proofs.History

/-!
What it means that two closures are equal. They are compared by the stamp of their code and by their
innermost frame. In a session that only text and converted data have changed, the one tells the
`lambda` occurrence and the other the activation, so equal closures are the same closure
(`Session.Lived.eq_of_equal`) and behave alike.

An activation is known by the frame that it has made. What stands behind a definition in a body is
evaluated in the global environment, so a closure that is made there belongs to no activation.
-/
namespace CellScheme

open Evaluation

namespace Environment

/-- The same instance of an environment: both are global, or both begin with the very same frame. -/
def SameInstance (env env' : Environment) : Prop :=
  (env = .global ∧ env' = .global) ∨ ∃ frame, env.head? = some frame ∧ env'.head? = some frame

variable {env env' : Environment}

theorem SameInstance.refl (env : Environment) : env.SameInstance env := by
  cases env with
  | nil => exact .inl ⟨rfl, rfl⟩
  | cons frame outer => exact .inr ⟨frame, rfl, rfl⟩

theorem SameInstance.identity?_eq (same : env.SameInstance env') :
    env.identity? = env'.identity? := by
  rcases same with ⟨rfl, rfl⟩ | ⟨frame, head, head'⟩
  · rfl
  · rw [identity?, identity?, head, head']

theorem eq_global_of_identity? (none : env.identity? = none) : env = .global := by
  cases env with
  | nil => rfl
  | cons frame outer => cases none

end Environment

namespace Closure

variable {c c' : Closure} {runs : List Run}

/-- The value that a closure is. -/
def value (c : Closure) : Value :=
  .closure c.stamp c.params c.body c.env

/-- One of several runs meets the closure. -/
def Met (runs : List Run) (c : Closure) : Prop :=
  ∃ run ∈ runs, run.Meets c

/-- Two closures were made by evaluating the same `lambda` occurrence of the same program in the same
environment instance. -/
structure MadeAlike (runs : List Run) (c c' : Closure) : Prop where
  place : ∃ home path, c.MadeAt runs home path ∧ c'.MadeAt runs home path
  env : c.env.SameInstance c'.env

theorem equal_iff : c.value.equal c'.value = true ↔
    c.stamp = c'.stamp ∧ c.env.identity? = c'.env.identity? := by
  simp [value, Value.equal, Environment.same]

theorem isEqual_eq (c c' : Closure) :
    Primitive.isEqual.apply [c.value, c'.value] = .ok (.boolean (c.value.equal c'.value)) := rfl

theorem isIdentical_eq (c c' : Closure) :
    Primitive.isIdentical.apply [c.value, c'.value] = .ok (.boolean (c.value.equal c'.value)) := rfl

end Closure

namespace Session

variable {session : Session} {programs : List Program} {runs : List Run} {c c' : Closure}
  {index index' : Nat} {moments moments' : List Nat} {env env' : Environment}

/-- A stamp belongs to one place among all programs. -/
theorem Lived.place_unique (lived : session.Lived programs runs) {home home' : Program}
    {path path' : List Nat} (made : c.MadeAt runs home path) (made' : c'.MadeAt runs home' path')
    (stamps : c.stamp = c'.stamp) : home' = home ∧ path' = path := by
  obtain ⟨known, here⟩ := lived.place made
  obtain ⟨known', here'⟩ := lived.place made'
  rw [stamps] at here
  exact lived.textDriven.sound.lambda_unique known known' here here'

/-- What is made at one place has the same code. -/
theorem Lived.code_eq (lived : session.Lived programs runs) {home : Program} {path : List Nat}
    (made : c.MadeAt runs home path) (made' : c'.MadeAt runs home path) :
    c.stamp = c'.stamp ∧ c.params = c'.params ∧ c.body = c'.body := by
  have same := (lived.place made).2.symm.trans (lived.place made').2
  simp only [Option.some.injEq, Prod.mk.injEq, Code.expr.injEq, Expr.lambda.injEq] at same
  exact same.2

/-- Where a closure that is met was made. -/
theorem Lived.existsUnique_place (lived : session.Lived programs runs) (met : c.Met runs) :
    ∃! place : Program × List Nat, c.MadeAt runs place.1 place.2 := by
  obtain ⟨run, member, meets⟩ := met
  obtain ⟨home, path, made⟩ := lived.made member meets
  refine ⟨(home, path), made, fun place made' => ?_⟩
  obtain ⟨same, same'⟩ := lived.place_unique made made' rfl
  exact Prod.ext same same'

/-- Which activation has made the environment of a closure that is met, if it is not the global one. -/
theorem Lived.existsUnique_activation (lived : session.Lived programs runs) (met : c.Met runs) :
    c.env = .global ∨
      ∃! activation : Nat × List Nat, ActivatesIn runs activation.1 activation.2 c.env := by
  obtain ⟨⟨home, path⟩, made, _⟩ := lived.existsUnique_place met
  rcases made.environment with global | ⟨index, moments, activates⟩
  · exact .inl global
  · refine .inr ⟨(index, moments), activates, fun activation activates' => ?_⟩
    obtain ⟨same, same', _⟩ := lived.activation_unique activates' activates rfl
    exact Prod.ext same same'

/-- Environments of closures that are met are the same if their innermost frames are. -/
theorem Lived.env_eq (lived : session.Lived programs runs) (met : c.Met runs) (met' : c'.Met runs)
    (same : c.env.identity? = c'.env.identity?) : c.env = c'.env := by
  rcases lived.existsUnique_activation met with global | ⟨_, activates, _⟩
  · rw [global] at same
    rw [global, Environment.eq_global_of_identity? same.symm]
  · rcases lived.existsUnique_activation met' with global' | ⟨_, activates', _⟩
    · rw [global'] at same
      rw [global', Environment.eq_global_of_identity? same]
    · exact (lived.activation_unique activates activates' same).2.2

/-- Closures that are met and equal are one closure: no part of them differs. -/
theorem Lived.eq_of_equal (lived : session.Lived programs runs) (met : c.Met runs)
    (met' : c'.Met runs) (equal : c.value.equal c'.value = true) : c = c' := by
  obtain ⟨stamps, frames⟩ := Closure.equal_iff.mp equal
  obtain ⟨⟨home, path⟩, made, _⟩ := lived.existsUnique_place met
  obtain ⟨⟨home', path'⟩, made', _⟩ := lived.existsUnique_place met'
  obtain ⟨rfl, rfl⟩ := lived.place_unique made made' stamps
  obtain ⟨_, params, body⟩ := lived.code_eq made made'
  have env := lived.env_eq met met' frames
  cases c
  cases c'
  simp only [Closure.mk.injEq]
  exact ⟨stamps, params, body, env⟩

/-- Closures that are met are equal when one `lambda` occurrence has made both in one environment
instance, and only then. -/
theorem Lived.equal_iff_madeAlike (lived : session.Lived programs runs) (met : c.Met runs)
    (met' : c'.Met runs) : c.value.equal c'.value = true ↔ c.MadeAlike runs c' := by
  constructor
  · intro equal
    obtain rfl := lived.eq_of_equal met met' equal
    obtain ⟨⟨home, path⟩, made, _⟩ := lived.existsUnique_place met
    exact ⟨⟨home, path, made, made⟩, .refl c.env⟩
  · rintro ⟨⟨home, path, made, made'⟩, same⟩
    obtain ⟨stamps, _⟩ := lived.code_eq made made'
    exact Closure.equal_iff.mpr ⟨stamps, same.identity?_eq⟩

/-- A body begins in a frame that no memory before has had. -/
theorem TextDriven.fresh_frame {program : Program} (driven : session.TextDriven programs)
    (known : program ∈ programs) {point next : Point} {turn : Turn} {body : List Form}
    (reached : Reaches session.limit (session.start program) point)
    (call : Calls session.limit point turn next) (task : next.task = .body body) :
    ∃ left names values outer, Stands session.limit point (turn.moment point.task) left ∧
      next.env = left.newFrame names :: outer ∧ next.memory = left.enter names values ∧
      ∀ frame ∈ left.frames, frame.serial ≠ (left.newFrame names).serial := by
  obtain ⟨left, names, values, outer, stands, env, memory⟩ := call.body_frame task
  refine ⟨left, names, values, outer, stands, env, memory, fun frame member same => ?_⟩
  obtain ⟨index, found⟩ := Array.mem_iff_getElem?.mp member
  have serial := (stands.holds (driven.holds known reached)).1.serials found
  have bound := (Array.getElem?_eq_some_iff.mp found).1
  exact Nat.ne_of_lt bound (serial.symm.trans same)

/-- The environment in which a body begins has been made by an activation. -/
theorem activatesIn_body {run : Run} (member : run ∈ runs) {point next : Point} {turn : Turn}
    {body : List Form} (reached : Reaches run.session.limit run.start point)
    (call : Calls run.session.limit point turn next) (task : next.task = .body body) :
    ∃ index moments, ActivatesIn runs index moments next.env := by
  obtain ⟨index, found⟩ := List.mem_iff_getElem?.mp member
  obtain ⟨moments, at_⟩ := reached.exists_at
  exact ⟨index, _, run, found, by simp, next, body, at_.append (.call call .here), task, rfl⟩

/-- Closures of different activations are not equal. -/
theorem Lived.not_equal (lived : session.Lived programs runs)
    (activates : ActivatesIn runs index moments c.env)
    (activates' : ActivatesIn runs index' moments' c'.env)
    (different : (index, moments) ≠ (index', moments')) : c.value.equal c'.value = false := by
  rw [Bool.eq_false_iff]
  intro equal
  obtain ⟨_, frames⟩ := Closure.equal_iff.mp equal
  obtain ⟨same, same', _⟩ := lived.activation_unique activates activates' frames
  exact different (Prod.ext same same')

/-- Equality of closures is identity of code and activation, throughout the history of a session that
only text and converted data have changed. Each closure that is met has been made at one place of one
program, in the global environment or in the one of a single activation. Two of them are equal exactly
when place and environment are the same, and then they are applied alike. The body of a `let` or of an
applied closure always begins in a frame that is new, whatever names it binds, so that closures of
different activations are never equal. -/
theorem closure_equality_is_identity (lived : session.Lived programs runs) :
    (∀ c : Closure, c.Met runs →
      (∃! place : Program × List Nat, c.MadeAt runs place.1 place.2) ∧
      (c.env = .global ∨
        ∃! activation : Nat × List Nat, ActivatesIn runs activation.1 activation.2 c.env)) ∧
    (∀ c c' : Closure, c.Met runs → c'.Met runs →
      (c.value.equal c'.value = true ↔ c.MadeAlike runs c') ∧
      (Primitive.isEqual.apply [c.value, c'.value] = .ok (.boolean true) ↔ c.MadeAlike runs c') ∧
      (Primitive.isIdentical.apply [c.value, c'.value] = .ok (.boolean true) ↔
        c.MadeAlike runs c') ∧
      (c.value.equal c'.value = true → ∀ limit budget arguments memory,
        outcome (applyProcedure (CellScheme.evaluateBody limit budget) c.value arguments) memory =
          outcome (applyProcedure (CellScheme.evaluateBody limit budget) c'.value arguments) memory)) ∧
    (∀ run ∈ runs, ∀ point turn next body, Reaches run.session.limit run.start point →
      Calls run.session.limit point turn next → next.task = .body body →
      (∃ index moments, ActivatesIn runs index moments next.env) ∧
      ∃ left names values outer, Stands run.session.limit point (turn.moment point.task) left ∧
        next.env = left.newFrame names :: outer ∧ next.memory = left.enter names values ∧
        ∀ frame ∈ left.frames, frame.serial ≠ (left.newFrame names).serial) ∧
    ∀ index moments env index' moments' env', ActivatesIn runs index moments env →
      ActivatesIn runs index' moments' env' → (index, moments) ≠ (index', moments') →
      env.identity? ≠ env'.identity? ∧
        ∀ c c' : Closure, c.env = env → c'.env = env' → c.value.equal c'.value = false := by
  refine ⟨?_, ?_, ?_, ?_⟩
  · intro c met
    exact ⟨lived.existsUnique_place met, lived.existsUnique_activation met⟩
  · intro c c' met met'
    have iff := lived.equal_iff_madeAlike met met'
    refine ⟨iff, ?_, ?_, ?_⟩
    · simp [Closure.isEqual_eq, iff]
    · simp [Closure.isIdentical_eq, iff]
    · intro equal limit budget arguments memory
      rw [lived.eq_of_equal met met' equal]
  · intro run member point turn next body reached call task
    have past := lived.past run member
    exact ⟨activatesIn_body member reached call task,
      past.driven.fresh_frame past.known reached call task⟩
  · intro index moments env index' moments' env' activates activates' different
    refine ⟨fun same => ?_, ?_⟩
    · obtain ⟨first, second, _⟩ := lived.activation_unique activates activates' same
      exact different (Prod.ext first second)
    · rintro c c' rfl rfl
      exact lived.not_equal activates activates' different

/-- The two runs of the counter program, the latest first. -/
def counterRuns : List Run :=
  [⟨counterSession, [counterStamped], counterStamped⟩,
    ⟨(Session.stamp {} counterProgram).2, [counterStamped], counterStamped⟩]

theorem counterRuns_lived :
    (counterSession.evaluateProgram counterStamped).2.Lived [counterStamped] counterRuns := by
  have converted : Program.ofData counterData = .ok counterProgram := rfl
  exact .run (.run (.convert (.fresh 256 0) rfl converted) List.mem_cons_self) List.mem_cons_self

/-- The counter whose frame has a serial number and whose variable is in a cell. -/
def counterClosure (serial : Nat) (address : Address) : Closure where
  stamp := 1
  params := []
  body := [.assign "n" (.apply (.primitive .add) [.variable "n", .number .one]),
    .expr (.variable "n")]
  env := [⟨serial, [("n", address)]⟩]

/-- Both runs have defined a counter. The two closures come from the same `lambda`, but from
different activations. -/
theorem closure_equality_is_identity_counter :
    (counterSession.evaluateProgram counterStamped).2.Lived [counterStamped] counterRuns ∧
      (counterClosure 0 0).Met counterRuns ∧ (counterClosure 2 2).Met counterRuns ∧
      (counterClosure 0 0).MadeAlike counterRuns (counterClosure 0 0) ∧
      ¬ (counterClosure 0 0).MadeAlike counterRuns (counterClosure 2 2) := by
  have met : (counterClosure 0 0).Met counterRuns :=
    ⟨_, List.mem_cons_self, _, _, .refl, List.mem_singleton_self _, .inr (.inl ⟨1, rfl⟩)⟩
  have met' : (counterClosure 2 2).Met counterRuns :=
    ⟨_, List.mem_cons_self, _, _, .refl, List.mem_singleton_self _, .inr (.inl ⟨3, rfl⟩)⟩
  obtain ⟨_, equality, _⟩ := closure_equality_is_identity counterRuns_lived
  have equal : (counterClosure 0 0).value.equal (counterClosure 0 0).value = true := rfl
  have different : (counterClosure 0 0).value.equal (counterClosure 2 2).value = false := rfl
  refine ⟨counterRuns_lived, met, met', (equality _ _ met met).1.mp equal, fun alike => ?_⟩
  exact Bool.eq_false_iff.mp different ((equality _ _ met met').1.mpr alike)

end Session

end CellScheme
