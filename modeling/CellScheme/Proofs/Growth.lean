import CellScheme.Proofs.Flow
import CellScheme.Proofs.TextDriven

/-!
State only grows. Whatever is evaluated, in whatever memory and environment and with whatever end, no
cell and no global entry goes away, so a name that resolves goes on to resolve to the same address.
That is why an assignment may look its target up before it computes the value.
-/
namespace CellScheme

open Evaluation

/-- What growth leaves in place: cells, global entries in their order, and the address of every name
that resolves, in any environment. -/
structure Memory.Persists (memory after : Memory) : Prop where
  store : memory.store.size ≤ after.store.size
  globals : memory.globals.bindings <+: after.globals.bindings
  resolves : ∀ (env : Environment) (name : String) (address : Address),
    env.find? memory.globals name = some address → env.find? after.globals name = some address

/-- A longer global table resolves the same names alike, whatever frames come first. -/
theorem Environment.find?_of_prefix {table after : GlobalTable}
    (longer : table.bindings <+: after.bindings) (env : Environment) {name : String}
    {address : Address} (found : env.find? table name = some address) :
    env.find? after name = some address := by
  induction env with
  | nil =>
    obtain ⟨more, equal⟩ := longer
    simp only [find?, GlobalTable.find?] at found ⊢
    rw [← equal, List.lookup_append, found, Option.some_or]
  | cons frame outer ih =>
    simp only [find?, Option.or_eq_some_iff] at found ⊢
    exact found.imp_right (And.imp_right ih)

theorem Memory.Grows.persists {memory after : Memory} (grows : memory.Grows after) :
    memory.Persists after :=
  ⟨grows.store, grows.globals, fun env _ _ found => env.find?_of_prefix grows.globals found⟩

theorem Memory.Persists.refl (memory : Memory) : memory.Persists memory :=
  (Memory.Grows.refl memory).persists

theorem Memory.Persists.trans {memory after last : Memory} (first : memory.Persists after)
    (second : after.Persists last) : memory.Persists last :=
  ⟨Nat.le_trans first.store second.store, first.globals.trans second.globals,
    fun env name address found => second.resolves env name address (first.resolves env name address found)⟩

/-- Two computations in a row leave in place what each of them does. -/
theorem Memory.persists_bind {α β : Type} {first : Evaluation α} {next : α → Evaluation β}
    {memory : Memory} (kept : memory.Persists (outcome first memory).2)
    (further : ∀ result (left : Memory), left.Persists (outcome (next result) left).2) :
    memory.Persists (outcome (first >>= next) memory).2 := by
  rw [outcome_bind]
  generalize outcome first memory = ended at kept ⊢
  rcases ended with ⟨_ | result, left⟩
  · exact kept
  · exact kept.trans (further result left)

/-- Making frames by hand adds nothing but frames. -/
theorem Memory.persists_extendAll (memory : Memory) (env : Environment)
    (frames : List (List String × List Address)) :
    memory.Persists (outcome (extendAll env frames) memory).2 := by
  induction frames generalizing env memory with
  | nil => exact .refl memory
  | cons frame rest ih =>
    rw [extendAll, List.foldlM_cons]
    refine Memory.persists_bind ?_ fun env left => ih left env
    unfold extend
    split
    · exact ⟨Nat.le_refl _, List.prefix_refl _, fun _ _ _ found => found⟩
    · exact .refl memory

namespace Point

variable {limit : Nat} {start point : Point}

theorem persists (limit : Nat) (point : Point) : point.memory.Persists (point.final limit) :=
  ((grows limit point).run .refl).persists

/-- What holds where an assignment has found its target and computed its value: the name still has
the same address, and there the value is written. -/
theorem assignment_target {budget : Nat} {env : Environment} {result content : Value}
    {name : String} {value : Expr} {rest : List Form} {memory left : Memory} {address : Address}
    (found : env.find? memory.globals name = some address)
    (ended : Point.outcome limit ⟨budget, env, .expr value, memory⟩ = (.ok content, left)) :
    env.find? left.globals name = some address ∧
      Calls limit ⟨budget, env, .rest result (.assign name value :: rest), memory⟩ (.part 1)
        ⟨budget, env, .rest .unspecified rest, left.write address content⟩ := by
  have grown := persists limit ⟨budget, env, .expr value, memory⟩
  rw [Point.final, ended] at grown
  exact ⟨grown.resolves env name address found, .afterAssign found ended⟩

end Point

namespace Session

/-- Whatever a session evaluates, its state only grows: to the end, whether a success or an error,
and from moment to moment on the way. In particular, when the value of an assignment has been
computed, its target still has the address that was looked up before, and is written there. -/
theorem state_only_grows (session : Session) :
    (∀ env expr, session.memory.Persists (session.evaluate env expr).2.memory) ∧
      (∀ env forms, session.memory.Persists (session.evaluateBody env forms).2.memory) ∧
      (∀ frames expr, session.memory.Persists (session.evaluateExprIn frames expr).2.memory) ∧
      (∀ frames forms, session.memory.Persists (session.evaluateFormsIn frames forms).2.memory) ∧
      (∀ comments text, session.memory.Persists (session.evaluateText comments text).2.memory) ∧
      ∀ budget env task point,
        Reaches session.limit ⟨budget, env, task, session.memory⟩ point →
        session.memory.Persists point.memory ∧
          point.memory.Persists
            (Point.final session.limit ⟨budget, env, task, session.memory⟩) ∧
          ∀ result name value rest address content left,
            point.task = .rest result (.assign name value :: rest) →
            point.env.find? point.memory.globals name = some address →
            Point.outcome session.limit ⟨point.budget, point.env, .expr value, point.memory⟩ =
              (.ok content, left) →
            point.env.find? left.globals name = some address ∧
              Calls session.limit point (.part 1)
                ⟨point.budget, point.env, .rest .unspecified rest, left.write address content⟩ := by
  refine ⟨?_, ?_, ?_, ?_, ?_, ?_⟩
  · intro env expr
    exact Point.persists session.limit ⟨session.limit, env, .expr expr, session.memory⟩
  · intro env forms
    exact Point.persists session.limit ⟨session.limit, env, .body forms, session.memory⟩
  · intro frames expr
    exact Memory.persists_bind (session.memory.persists_extendAll .global frames) fun env left =>
      Point.persists session.limit ⟨session.limit, env, .expr _, left⟩
  · intro frames forms
    exact Memory.persists_bind (session.memory.persists_extendAll .global frames) fun env left =>
      Point.persists session.limit ⟨session.limit, env, .body _, left⟩
  · intro comments text
    unfold evaluateText
    split
    · exact .refl _
    · exact Point.persists session.limit ⟨session.limit, .global, .body _, session.memory⟩
  · intro budget env task point reached
    have flow := grows session.limit ⟨budget, env, task, session.memory⟩
    refine ⟨(flow.reaches reached).1.persists, (flow.onwards reached).persists, ?_⟩
    rintro result name value rest address content left task found ended
    obtain ⟨budget, env, _, memory⟩ := point
    obtain rfl := task
    exact Point.assignment_target found ended

/-- The value of this assignment is computed by a closure that defines names, among them the target
once more. -/
def selfShadowing : Program :=
  [.assign "x" (.apply
    (.lambda 0 [] [.define "y" (.boolean false), .define "x" (.boolean false), .expr (.string "new")])
    [])]

/-- A session in which that target has been defined. -/
def shadowedSession : Session :=
  { memory := ({} : Memory).define "x" (.string "old") }

theorem state_only_grows_self_shadowing :
    shadowedSession.memory.Persists (shadowedSession.evaluateProgram selfShadowing).2.memory ∧
      ∃ (point : Point) (left : Memory),
        Reaches shadowedSession.limit (shadowedSession.start selfShadowing) point ∧
        left.globals.bindings = [("x", 0), ("y", 1), ("x", 2)] ∧
        point.env.find? left.globals "x" = some 0 ∧
        Calls shadowedSession.limit point (.part 1)
          ⟨point.budget, point.env, .rest .unspecified [], left.write 0 (.string "new")⟩ := by
  obtain ⟨_, bodies, _, _, _, moments⟩ := state_only_grows shadowedSession
  have reached : Reaches shadowedSession.limit (shadowedSession.start selfShadowing)
      ⟨255, .global, .rest .unspecified selfShadowing, shadowedSession.memory⟩ :=
    .single ⟨.same, .forms⟩
  obtain ⟨_, _, assigns⟩ := moments _ _ _ _ reached
  refine ⟨bodies .global selfShadowing, _, _, reached, ?_, assigns _ _ _ _ _ _ _ rfl rfl rfl⟩
  rfl

end Session

end CellScheme
