import CellScheme.Proofs.Discipline
import CellScheme.Proofs.Renaming
import Mathlib.Data.Set.Basic

/-!
Runs that differ by a renaming. A world says which cells and frames of one memory correspond to which
of another; memories are related in a world when the cells that it knows hold corresponding values
and global names resolve to corresponding cells. Evaluating corresponding code in related memories
gives corresponding answers, in a world that has only grown (`simulation`). Cells and frames that the
world does not know may differ in any way.
-/
namespace CellScheme

open Evaluation

/-- Corresponding cells and frames. The permutations matter only on the sets beside them; stamps
correspond by the same permutation in every world. -/
structure World (σ : Equiv.Perm Nat) where
  cell : Equiv.Perm Nat
  frame : Equiv.Perm Nat
  cells : Set Nat
  frames : Set Nat

namespace World

variable {σ : Equiv.Perm Nat}

/-- The renaming of a world. -/
def toRenaming (W : World σ) : Renaming :=
  ⟨W.cell, W.frame, σ⟩

/-- A world extends another when it knows more, and what the other knows is as it was. -/
structure Extends (W V : World σ) : Prop where
  cells : ∀ a ∈ W.cells, a ∈ V.cells ∧ V.cell a = W.cell a
  frames : ∀ f ∈ W.frames, f ∈ V.frames ∧ V.frame f = W.frame f

/-- A world knows an environment when it knows its frames and their cells. -/
def KnowsEnv (W : World σ) (env : Environment) : Prop :=
  ∀ frame ∈ env, frame.serial ∈ W.frames ∧ ∀ slot ∈ frame.slots, slot.2 ∈ W.cells

/-- A world knows a value when it knows the environments of all closures inside, and these have plain
bodies. -/
def Knows (W : World σ) (v : Value) : Prop :=
  ∀ c ∈ v.closures, W.KnowsEnv c.env ∧ Form.allPlain c.body = true

/-- Values that correspond. -/
def Match (W : World σ) (v w : Value) : Prop :=
  W.Knows v ∧ w = v.rename W.toRenaming

/-- Lists of values that correspond. -/
def MatchAll (W : World σ) (vs ws : List Value) : Prop :=
  (∀ v ∈ vs, W.Knows v) ∧ ws = vs.map (Value.rename W.toRenaming)

/-- Environments that correspond. -/
def MatchEnv (W : World σ) (env env' : Environment) : Prop :=
  W.KnowsEnv env ∧ env' = env.rename W.toRenaming

/-- Cells that correspond. -/
def MatchCell (W : World σ) (a b : Address) : Prop :=
  a ∈ W.cells ∧ b = W.cell a

/-- Memories that agree on what a world knows. Cells and frames not known are newer or of no
account. -/
structure Related (W : World σ) (m n : Memory) : Prop where
  globals : ∀ name, n.globals.find? name = (m.globals.find? name).map W.cell
  named : ∀ name a, m.globals.find? name = some a → a ∈ W.cells
  cells : ∀ a ∈ W.cells, ∃ v w, m.store.read? a = some v ∧ n.store.read? (W.cell a) = some w ∧
    W.Match v w
  frames : ∀ f ∈ W.frames, f < m.frames.size ∧ W.frame f < n.frames.size

variable {W V U : World σ} {m n : Memory}

theorem Extends.refl (W : World σ) : W.Extends W :=
  ⟨fun _ known => ⟨known, rfl⟩, fun _ known => ⟨known, rfl⟩⟩

theorem Extends.trans (first : W.Extends V) (second : V.Extends U) : W.Extends U := by
  constructor
  · intro a known
    obtain ⟨known', same⟩ := first.cells a known
    obtain ⟨known'', same'⟩ := second.cells a known'
    exact ⟨known'', same'.trans same⟩
  · intro f known
    obtain ⟨known', same⟩ := first.frames f known
    obtain ⟨known'', same'⟩ := second.frames f known'
    exact ⟨known'', same'.trans same⟩

theorem KnowsEnv.mono {env : Environment} (knows : W.KnowsEnv env) (extends_ : W.Extends V) :
    V.KnowsEnv env := by
  intro frame member
  obtain ⟨serial, slots⟩ := knows frame member
  exact ⟨(extends_.frames _ serial).1, fun slot inside => (extends_.cells _ (slots slot inside)).1⟩

/-- What a world knows is renamed in the same way in all worlds that extend it. -/
theorem KnowsEnv.rename_eq {env : Environment} (knows : W.KnowsEnv env) (extends_ : W.Extends V) :
    env.rename V.toRenaming = env.rename W.toRenaming := by
  refine Environment.rename_congr fun frame member => ?_
  obtain ⟨serial, slots⟩ := knows frame member
  exact ⟨(extends_.frames _ serial).2, fun slot inside => (extends_.cells _ (slots slot inside)).2⟩

theorem Knows.mono {v : Value} (knows : W.Knows v) (extends_ : W.Extends V) : V.Knows v :=
  fun c member => ⟨(knows c member).1.mono extends_, (knows c member).2⟩

theorem Knows.rename_eq {v : Value} (knows : W.Knows v) (extends_ : W.Extends V) :
    v.rename V.toRenaming = v.rename W.toRenaming := by
  refine Value.rename_congr v fun c member => ?_
  rw [Closure.rename, Closure.rename, (knows c member).1.rename_eq extends_]
  rfl

theorem MatchEnv.mono {env env' : Environment} (matches_ : W.MatchEnv env env')
    (extends_ : W.Extends V) : V.MatchEnv env env' :=
  ⟨matches_.1.mono extends_, matches_.2.trans (matches_.1.rename_eq extends_).symm⟩

theorem Match.mono {v w : Value} (matches_ : W.Match v w) (extends_ : W.Extends V) : V.Match v w :=
  ⟨matches_.1.mono extends_, matches_.2.trans (matches_.1.rename_eq extends_).symm⟩

theorem MatchCell.mono {a b : Address} (matches_ : W.MatchCell a b) (extends_ : W.Extends V) :
    V.MatchCell a b :=
  ⟨(extends_.cells a matches_.1).1, matches_.2.trans (extends_.cells a matches_.1).2.symm⟩

theorem MatchAll.mono {vs ws : List Value} (matches_ : W.MatchAll vs ws) (extends_ : W.Extends V) :
    V.MatchAll vs ws := by
  refine ⟨fun v member => (matches_.1 v member).mono extends_, matches_.2.trans ?_⟩
  exact List.map_congr_left fun v member => ((matches_.1 v member).rename_eq extends_).symm

theorem match_of_no_closures {v : Value} (none : v.closures = []) : W.Match v v := by
  refine ⟨?_, (Value.rename_of_no_closures _ v none).symm⟩
  intro c member
  rw [none] at member
  cases member

theorem match_literal {v : Value} (literal : v.isLiteral = true) : W.Match v v :=
  match_of_no_closures (Value.closures_literal literal)

theorem Related.bounds (related : W.Related m n) {a : Nat} (known : a ∈ W.cells) :
    a < m.store.size ∧ W.cell a < n.store.size := by
  obtain ⟨v, w, here, there, _⟩ := related.cells a known
  exact ⟨(Array.getElem?_eq_some_iff.mp here).1, (Array.getElem?_eq_some_iff.mp there).1⟩

/-- What a known environment resolves a name to is a known cell. -/
theorem Related.known_of_find? (related : W.Related m n) {env : Environment}
    (knows : W.KnowsEnv env) {name : String} {a : Address}
    (found : env.find? m.globals name = some a) : a ∈ W.cells := by
  induction env with
  | nil => exact related.named name a found
  | cons frame outer ih =>
    rw [Environment.find?, Option.or_eq_some_iff] at found
    rcases found with here | ⟨_, further⟩
    · obtain ⟨position, slot⟩ := Memory.getElem?_of_lookup here
      exact (knows frame (by simp)).2 _ (List.mem_of_getElem? slot)
    · exact ih (fun frame member => knows frame (by simp [member])) further

/-- New cells with corresponding values correspond in order, in a world that knows them too. -/
theorem Related.allocateAll (related : W.Related m n) {vs ws : List Value}
    (fine : W.MatchAll vs ws) :
    ∃ V, W.Extends V ∧ V.Related (m.allocateAll vs) (n.allocateAll ws) ∧
      ∀ i < vs.length, V.MatchCell (m.store.size + i) (n.store.size + i) := by
  obtain ⟨cell, same, new⟩ :=
    exists_extend W.cell (fun _ known => related.bounds known) vs.length
  let V : World σ :=
    ⟨cell, W.frame, { a | a ∈ W.cells ∨ ∃ i < vs.length, a = m.store.size + i }, W.frames⟩
  have extends_ : W.Extends V :=
    ⟨fun a known => ⟨.inl known, same a known⟩, fun f known => ⟨known, rfl⟩⟩
  have matched := fine.mono extends_
  refine ⟨V, extends_, ⟨?_, ?_, ?_, related.frames⟩, ?_⟩
  · intro name
    change n.globals.find? name = (m.globals.find? name).map cell
    rw [related.globals name]
    cases found : m.globals.find? name with
    | none => rfl
    | some a => exact congrArg some (same a (related.named name a found)).symm
  · intro name a found
    exact .inl (related.named name a found)
  · rintro a (known | ⟨i, bound, rfl⟩)
    · obtain ⟨v, w, here, there, corresponds⟩ := related.cells a known
      obtain ⟨inside, inside'⟩ := related.bounds known
      refine ⟨v, w, ?_, ?_, corresponds.mono extends_⟩
      · rw [Memory.allocateAll, Store.read?_allocateAll_old _ _ _ inside, here]
      · change (n.store.allocateAll ws).read? (cell a) = some w
        rw [same a known, Store.read?_allocateAll_old _ _ _ inside', there]
    · refine ⟨vs[i], vs[i].rename V.toRenaming, ?_, ?_, matched.1 _ (List.getElem_mem bound), rfl⟩
      · rw [Memory.allocateAll, Store.read?_allocateAll_new, List.getElem?_eq_getElem bound]
      · change (n.store.allocateAll ws).read? (cell (m.store.size + i)) = _
        rw [new i bound, Store.read?_allocateAll_new, matched.2, List.getElem?_map,
          List.getElem?_eq_getElem bound, Option.map_some]
  · intro i bound
    exact ⟨.inr ⟨i, bound, rfl⟩, (new i bound).symm⟩

/-- Defining a name with corresponding values. -/
theorem Related.define (related : W.Related m n) (name : String) {v w : Value} (fine : W.Match v w) :
    ∃ V, W.Extends V ∧ V.Related (m.define name v) (n.define name w) := by
  have all : W.MatchAll [v] [w] := ⟨by simpa using fine.1, by simp [fine.2]⟩
  obtain ⟨V, extends_, allocated, cells⟩ := related.allocateAll all
  obtain ⟨known, place⟩ := cells 0 Nat.one_pos
  refine ⟨V, extends_, ⟨?_, ?_, allocated.cells, allocated.frames⟩⟩
  · intro other
    have agree := allocated.globals other
    simp only [Memory.allocateAll] at agree
    simp only [Memory.define, GlobalTable.find?_define, agree]
    cases m.globals.find? other with
    | some a => rfl
    | none =>
      by_cases own : other = name
      · simp only [if_pos own, Option.map_none, Option.none_or, Option.map_some]
        exact congrArg some place
      · simp only [if_neg own, Option.map_none, Option.or_none]
  · intro other a found
    rw [Memory.define, GlobalTable.find?_define, Option.or_eq_some_iff] at found
    rcases found with old | ⟨_, own⟩
    · exact allocated.named other a old
    · split at own
      · cases own
        exact known
      · cases own

/-- Writing corresponding values into corresponding cells. Other cells keep their contents on both
sides, since different cells correspond to different ones. -/
theorem Related.write (related : W.Related m n) {a b : Address} (place : W.MatchCell a b)
    {v w : Value} (fine : W.Match v w) : W.Related (m.write a v) (n.write b w) := by
  obtain ⟨known, rfl⟩ := place
  obtain ⟨inside, inside'⟩ := related.bounds known
  refine ⟨related.globals, related.named, ?_, related.frames⟩
  intro c member
  by_cases same : a = c
  · subst same
    exact ⟨v, w, Store.read?_write_same _ _ _ inside, Store.read?_write_same _ _ _ inside', fine⟩
  · obtain ⟨v', w', here, there, corresponds⟩ := related.cells c member
    have apart : W.cell a ≠ W.cell c := fun equal => same (W.cell.injective equal)
    refine ⟨v', w', ?_, ?_, corresponds⟩
    · rw [Memory.write, Store.read?_write_other _ _ _ _ same, here]
    · rw [Memory.write, Store.read?_write_other _ _ _ _ apart, there]

/-- Frames made next for the same names correspond, when the cells and the serial numbers that come
next do. -/
theorem newFrame_rename (names : List String)
    (cells : ∀ i < names.length, W.cell (m.store.size + i) = n.store.size + i)
    (frame : W.frame m.frames.size = n.frames.size) :
    n.newFrame names = (m.newFrame names).rename W.toRenaming := by
  have places : (List.range' m.store.size names.length).map W.cell =
      List.range' n.store.size names.length := by
    refine List.ext_getElem (by simp) fun i bound _ => ?_
    simp only [List.length_map, List.length_range'] at bound
    simp only [List.getElem_map, List.getElem_range', Nat.one_mul]
    exact cells i bound
  rw [Frame.rename, Memory.newFrame, Memory.newFrame, ← places, List.zip_map_right]
  exact congrArg (Frame.mk · _) frame.symm

/-- New frames over corresponding environments correspond, when they bind the same names to
corresponding cells. -/
theorem Related.enter (related : W.Related m n) {env env' : Environment}
    (outer : W.MatchEnv env env') {names : List String} {vs ws : List Value}
    (aligned : names.length = vs.length) (fine : W.MatchAll vs ws) :
    ∃ V, W.Extends V ∧ V.Related (m.enter names vs) (n.enter names ws) ∧
      V.MatchEnv (m.newFrame names :: env) (n.newFrame names :: env') := by
  obtain ⟨U, extends_, allocated, cells⟩ := related.allocateAll fine
  obtain ⟨frame, same, new⟩ := exists_extend U.frame allocated.frames 1
  have here : frame m.frames.size = n.frames.size := new 0 Nat.one_pos
  let V : World σ := ⟨U.cell, frame, U.cells, { f | f ∈ U.frames ∨ f = m.frames.size }⟩
  have extends' : U.Extends V :=
    ⟨fun a known => ⟨known, rfl⟩, fun f known => ⟨.inl known, same f known⟩⟩
  refine ⟨V, extends_.trans extends', ⟨allocated.globals, allocated.named, ?_, ?_⟩, ?_, ?_⟩
  · intro a known
    obtain ⟨v, w, here, there, corresponds⟩ := allocated.cells a known
    exact ⟨v, w, here, there, corresponds.mono extends'⟩
  · simp only [Memory.enter, Memory.recordFrame, Array.size_push]
    rintro f (known | rfl)
    · obtain ⟨bound, bound'⟩ := allocated.frames f known
      have equal : V.frame f = U.frame f := same f known
      exact ⟨by omega, by omega⟩
    · have equal : V.frame m.frames.size = n.frames.size := here
      exact ⟨Nat.lt_succ_self _, by simp only [equal, Memory.allocateAll]; omega⟩
  · intro f member
    rcases List.mem_cons.mp member with rfl | inside
    · refine ⟨.inr rfl, ?_⟩
      intro slot slots
      obtain ⟨_, address⟩ := List.of_mem_zip (show (slot.1, slot.2) ∈ _ from slots)
      obtain ⟨i, bound, place⟩ := List.mem_range'.mp address
      rw [place, Nat.one_mul]
      exact (cells i (by omega)).1
    · exact (outer.1.mono (extends_.trans extends')) f inside
  · have top : n.newFrame names = (m.newFrame names).rename V.toRenaming :=
      newFrame_rename names (fun i bound => (cells i (by omega)).2.symm) here
    rw [top, (outer.mono (extends_.trans extends')).2]
    rfl

end World

/-- Answers that correspond: good results, or the same error. -/
inductive Answers {α β : Type} (good : α → β → Prop) : Except Error α → Except Error β → Prop
  | ok {a : α} {b : β} : good a b → Answers good (.ok a) (.ok b)
  | error {e : Error} : Answers good (.error e) (.error e)

theorem Answers.imp {α β : Type} {good better : α → β → Prop} {left : Except Error α}
    {right : Except Error β} (answers : Answers good left right)
    (fine : ∀ a b, good a b → better a b) : Answers better left right := by
  cases answers with
  | ok here => exact .ok (fine _ _ here)
  | error => exact .error

/-- From related memories, two computations end in memories that are related in a larger world, with
answers that correspond there. -/
def Simulates {σ : Equiv.Perm Nat} {α β : Type} (W : World σ) (m n : Memory) (left : Evaluation α)
    (right : Evaluation β) (good : World σ → α → β → Prop) : Prop :=
  ∃ V, W.Extends V ∧ V.Related (outcome left m).2 (outcome right n).2 ∧
    Answers (good V) (outcome left m).1 (outcome right n).1

namespace Simulates

variable {σ : Equiv.Perm Nat} {α β γ δ : Type} {W : World σ} {m n : Memory}

theorem pure {good : World σ → α → β → Prop} {a : α} {b : β} (related : W.Related m n)
    (fine : good W a b) : Simulates W m n (pure a) (pure b) good :=
  ⟨W, .refl W, related, .ok fine⟩

theorem throw {good : World σ → α → β → Prop} {e : Error} (related : W.Related m n) :
    Simulates W m n (throw e) (throw e) good :=
  ⟨W, .refl W, related, .error⟩

theorem bind {middle : World σ → α → β → Prop} {good : World σ → γ → δ → Prop}
    {left : Evaluation α} {right : Evaluation β} {next : α → Evaluation γ}
    {next' : β → Evaluation δ} (simulates : Simulates W m n left right middle)
    (simulates' : ∀ V a b m' n', W.Extends V → V.Related m' n' → middle V a b →
      Simulates V m' n' (next a) (next' b) good) :
    Simulates W m n (left >>= next) (right >>= next') good := by
  obtain ⟨V, extends_, related, answers⟩ := simulates
  unfold Simulates
  rw [outcome_bind, outcome_bind]
  generalize outcome left m = ended at related answers ⊢
  generalize outcome right n = ended' at related answers ⊢
  obtain ⟨answer, m'⟩ := ended
  obtain ⟨answer', n'⟩ := ended'
  cases answers with
  | error => exact ⟨V, extends_, related, .error⟩
  | ok fine =>
    obtain ⟨U, extends', related', answers'⟩ := simulates' V _ _ m' n' extends_ related fine
    exact ⟨U, extends_.trans extends', related', answers'⟩

/-- What is simulated for each item, in whatever memories the items before it leave, is simulated for
all. -/
theorem mapM {each each' : α → Evaluation Value} {change : α → α} {items : List α}
    (related : W.Related m n)
    (simulates : ∀ item ∈ items, ∀ V m' n', W.Extends V → V.Related m' n' →
      Simulates V m' n' (each item) (each' (change item)) World.Match) :
    Simulates W m n (items.mapM each) ((items.map change).mapM each')
      fun V vs ws => V.MatchAll vs ws ∧ vs.length = items.length := by
  induction items generalizing W m n with
  | nil => exact .pure related ⟨⟨by simp, rfl⟩, rfl⟩
  | cons head rest ih =>
    rw [List.map_cons, List.mapM_cons, List.mapM_cons]
    refine .bind (simulates head (by simp) W m n (.refl W) related) ?_
    intro V v w m' n' extends_ related' fine
    refine .bind (ih related' fun item member U m'' n'' extends' =>
      simulates item (by simp [member]) U m'' n'' (extends_.trans extends')) ?_
    rintro U vs ws m'' n'' extends' related'' ⟨fine', lengths⟩
    obtain ⟨knows, same⟩ := fine.mono extends'
    refine .pure related'' ⟨⟨?_, by rw [List.map_cons, same, fine'.2]⟩, by simp [lengths]⟩
    intro v' member
    rcases List.mem_cons.mp member with rfl | inside
    · exact knows
    · exact fine'.1 v' inside

theorem resolve (related : W.Related m n) {env env' : Environment} (matched : W.MatchEnv env env')
    (name : String) :
    Simulates W m n (resolve env name) (resolve env' name) World.MatchCell := by
  obtain ⟨knows, rfl⟩ := matched
  have agree := Environment.find?_rename W.toRenaming (related.globals name) env
  refine ⟨W, .refl W, ?_, ?_⟩
  · rw [outcome_resolve, outcome_resolve]
    exact related
  · rw [outcome_resolve, outcome_resolve, agree]
    cases found : env.find? m.globals name with
    | none => exact .error
    | some a => exact .ok ⟨related.known_of_find? knows found, rfl⟩

theorem fetch (related : W.Related m n) {a b : Address} (place : W.MatchCell a b) :
    Simulates W m n (fetch a) (fetch b) World.Match := by
  obtain ⟨known, rfl⟩ := place
  obtain ⟨v, w, here, there, fine⟩ := related.cells a known
  refine ⟨W, .refl W, ?_, ?_⟩
  · rw [outcome_fetch, outcome_fetch]
    exact related
  · rw [outcome_fetch, outcome_fetch, here, there]
    exact .ok fine

theorem modify {change change' : Memory → Memory}
    (changed : ∃ V, W.Extends V ∧ V.Related (change m) (change' n)) :
    Simulates W m n (modify change) (modify change') fun _ _ _ => True := by
  obtain ⟨V, extends_, related⟩ := changed
  exact ⟨V, extends_, related, .ok trivial⟩

theorem enter (related : W.Related m n) {env env' : Environment} (outer : W.MatchEnv env env')
    {names : List String} {vs ws : List Value} (aligned : names.length = vs.length)
    (fine : W.MatchAll vs ws) :
    Simulates W m n (enter env names vs) (enter env' names ws) World.MatchEnv := by
  obtain ⟨V, extends_, entered, inside⟩ := related.enter outer aligned fine
  have aligned' : names.length = ws.length := by rw [fine.2, List.length_map, aligned]
  refine ⟨V, extends_, ?_, ?_⟩
  · rw [outcome_enter_eq aligned, outcome_enter_eq aligned']
    exact entered
  · rw [outcome_enter_eq aligned, outcome_enter_eq aligned']
    exact .ok inside

/-- Corresponding expressions are simulated with a budget. -/
def Exprs (σ : Equiv.Perm Nat) (limit budget : Nat) : Prop :=
  ∀ {W : World σ} {m n env env' expr}, W.Related m n → W.MatchEnv env env' → expr.isPlain = true →
    Simulates W m n (evaluate limit budget env expr) (evaluate limit budget env' (expr.restamp σ))
      World.Match

/-- Corresponding bodies are simulated with a budget. -/
def Bodies (σ : Equiv.Perm Nat) (limit budget : Nat) : Prop :=
  ∀ {W : World σ} {m n env env' forms}, W.Related m n → W.MatchEnv env env' →
    Form.allPlain forms = true →
    Simulates W m n (evaluateBody limit budget env forms)
      (evaluateBody limit budget env' (Form.restampAll σ forms)) World.Match

variable {limit budget : Nat} {env env' : Environment}

theorem apply (bodies : Bodies σ limit budget) (related : W.Related m n) {v w : Value}
    (procedure : W.Match v w) {vs ws : List Value} (arguments : W.MatchAll vs ws) :
    Simulates W m n (applyProcedure (evaluateBody limit budget) v vs)
      (applyProcedure (evaluateBody limit budget) w ws) World.Match := by
  obtain ⟨knows, rfl⟩ := procedure
  obtain ⟨known, rfl⟩ := arguments
  have shown := Value.display_rename W.toRenaming v
  cases v with
  | primitive p =>
    refine ⟨W, .refl W, ?_, ?_⟩
    · simp only [Value.rename, applyProcedure, outcome_lift]
      exact related
    · simp only [Value.rename, applyProcedure, outcome_lift, Primitive.apply_rename]
      cases applied : p.apply vs with
      | error e => exact .error
      | ok v =>
        refine .ok ⟨fun c member => ?_, rfl⟩
        have inside := Value.closures_of_isAssembled (p.apply_assembles applied) member
        obtain ⟨argument, among, member⟩ := Value.mem_closuresAll.mp inside
        exact known argument among c member
  | closure stamp params body captured =>
    obtain ⟨inside, plain⟩ := knows ⟨stamp, params, body, captured⟩ (by simp [Value.closures])
    simp only [Value.rename, applyProcedure, List.length_map]
    split
    · rename_i aligned
      refine .bind (.enter related ⟨inside, rfl⟩ aligned ⟨known, rfl⟩) ?_
      intro V inner inner' m' n' _ related' matched
      exact bodies related' matched plain
    · exact .throw related
  | number _ | symbol _ | string _ | boolean _ | list _ | unspecified =>
    change Simulates W m n (MonadExcept.throw (Error.badProcedure (Value.display _)))
      (MonadExcept.throw (Error.badProcedure (Value.display (Value.rename W.toRenaming _)))) _
    rw [shown]
    exact .throw related

theorem forms (exprs : Exprs σ limit budget) {result result' : Value} {forms : List Form}
    (related : W.Related m n) (matched : W.MatchEnv env env') (fine : W.Match result result')
    (plain : Form.allPlain forms = true) :
    Simulates W m n (evaluateForms (evaluate limit budget) env result forms)
      (evaluateForms (evaluate limit budget) env' result' (Form.restampAll σ forms))
      World.Match := by
  have unspecified : ∀ U : World σ, U.Match .unspecified .unspecified :=
    fun U => World.match_literal rfl
  have global : ∀ U : World σ, U.MatchEnv .global .global := by
    intro U
    exact ⟨fun frame member => absurd member List.not_mem_nil, rfl⟩
  induction forms generalizing W m n env env' result result' with
  | nil => exact .pure related fine
  | cons form rest ih =>
    simp only [Form.allPlain, Bool.and_eq_true] at plain
    cases form with
    | define name value =>
      refine .bind (exprs related (global W) plain.1) ?_
      intro V v w m' n' _ related' content
      refine .bind (.modify (related'.define name content)) ?_
      intro U _ _ m'' n'' _ related'' _
      exact ih related'' (global U) (unspecified U) plain.2
    | assign name value =>
      refine .bind (.resolve related matched name) ?_
      intro V a b m' n' extends_ related' place
      refine .bind (exprs related' (matched.mono extends_) plain.1) ?_
      intro U v w m'' n'' extends' related'' content
      refine .bind (.modify ⟨U, .refl U, related''.write (place.mono extends') content⟩) ?_
      intro T _ _ m''' n''' extends'' related''' _
      exact ih related''' (matched.mono (extends_.trans (extends'.trans extends''))) (unspecified T)
        plain.2
    | expr body =>
      refine .bind (exprs related matched plain.1) ?_
      intro V v w m' n' extends_ related' content
      exact ih related' (matched.mono extends_) content plain.2

theorem exprs_succ (exprs : Exprs σ limit budget) (bodies : Bodies σ limit budget) :
    Exprs σ limit (budget + 1) := by
  intro W m n env env' expr related matched plain
  rw [evaluate.eq_def, evaluate.eq_def]
  cases expr with
  | number _ | boolean _ | string _ | primitive _ => exact .pure related (World.match_literal rfl)
  | quoted datum =>
    exact .pure related (World.match_of_no_closures (Value.closures_datum datum plain))
  | «variable» name =>
    refine .bind (.resolve related matched name) ?_
    intro V a b m' n' _ related' place
    exact .fetch related' place
  | conditional test consequent alternative =>
    simp only [Expr.isPlain, Bool.and_eq_true] at plain
    refine .bind (exprs related matched plain.1.1) ?_
    intro V v w m' n' extends_ related' fine
    rw [fine.2, Value.isTrue_rename]
    split
    · exact exprs related' (matched.mono extends_) plain.1.2
    · exact exprs related' (matched.mono extends_) plain.2
  | lambda stamp params body =>
    refine .pure related ⟨?_, ?_⟩
    · intro c member
      obtain rfl := List.mem_singleton.mp member
      exact ⟨matched.1, plain⟩
    · rw [matched.2]
      rfl
  | letIn bindings body =>
    simp only [Expr.isPlain, Bool.and_eq_true] at plain
    have same : (Expr.restampBindings σ bindings).map Prod.fst = bindings.map Prod.fst := by
      rw [Expr.restampBindings_eq, List.map_map]
      rfl
    simp only [Expr.restamp, same]
    rw [Expr.restampBindings_eq]
    refine .bind (.mapM related ?_) ?_
    · intro binding member V m' n' extends_ related'
      have inside := (List.all_eq_true.mp
        ((Expr.bindingsPlain_eq bindings).symm.trans plain.1)) binding member
      exact exprs related' (matched.mono extends_) inside
    · rintro V vs ws m' n' extends_ related' ⟨values, lengths⟩
      refine .bind (.enter related' (matched.mono extends_) (by simp [lengths]) values) ?_
      intro U inner inner' m'' n'' _ related'' entered
      exact bodies related'' entered plain.2
  | apply operator operands =>
    simp only [Expr.isPlain, Bool.and_eq_true] at plain
    refine .bind (exprs related matched plain.1) ?_
    intro V v w m' n' extends_ related' procedure
    rw [Expr.restampAll_eq]
    refine .bind (.mapM related' ?_) ?_
    · intro operand member U m'' n'' extends' related''
      have inside := (List.all_eq_true.mp
        ((Expr.allPlain_eq operands).symm.trans plain.2)) operand member
      exact exprs related'' (matched.mono (extends_.trans extends')) inside
    · rintro U vs ws m'' n'' extends' related'' ⟨arguments, _⟩
      exact apply bodies related'' (procedure.mono extends') arguments

theorem bodies_succ (exprs : Exprs σ limit budget) : Bodies σ limit (budget + 1) := by
  intro W m n env env' forms related matched plain
  cases forms with
  | nil => exact .throw related
  | cons form rest =>
    exact Simulates.forms exprs related matched (World.match_literal rfl) plain

/-- Corresponding plain code is simulated with any budget. -/
theorem simulation (σ : Equiv.Perm Nat) (limit budget : Nat) :
    Exprs σ limit budget ∧ Bodies σ limit budget := by
  induction budget with
  | zero =>
    constructor
    · intro W m n env env' expr related _ _
      rw [evaluate.eq_def, evaluate.eq_def]
      exact .throw related
    · intro W m n env env' forms related _ _
      rw [evaluateBody.eq_def, evaluateBody.eq_def]
      exact .throw related
  | succ budget ih => exact ⟨exprs_succ ih.1 ih.2, bodies_succ ih.1⟩

end Simulates

end CellScheme
