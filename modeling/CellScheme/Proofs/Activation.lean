import CellScheme.Proofs.Flow

/-!
Activations. A body begins only in a `let` or when a closure is applied, and each time in a frame of its
own. The number of frames made so far is a clock of the run: it tells when a body was begun, so no two
of them share a frame (`Activates.unique`), and the environment of every point of a run is the global
one or has been made by one activation, as it is (`Reaches.environment`).
-/
namespace CellScheme

variable {limit : Nat} {start point next : Point} {turn : Turn} {moments : List Nat}

/-- A point of a run, with the numbers of the nested evaluations that lead there. -/
inductive At (limit : Nat) : Point → List Nat → Point → Prop
  | here {point : Point} : At limit point [] point
  | call {start next point : Point} {turn : Turn} {moments : List Nat} :
    Calls limit start turn next → At limit next moments point →
    At limit start (turn.moment start.task :: moments) point

theorem At.reaches {moments : List Nat} (at_ : At limit start moments point) :
    Reaches limit start point := by
  induction at_ with
  | here => exact .refl
  | call call _ ih => exact ih.head ⟨_, call⟩

theorem Reaches.exists_at (reached : Reaches limit start point) :
    ∃ moments, At limit start moments point := by
  induction reached using Relation.ReflTransGen.head_induction_on with
  | refl => exact ⟨[], .here⟩
  | head call _ ih =>
    obtain ⟨moments, further⟩ := ih
    obtain ⟨turn, call⟩ := call
    exact ⟨_, .call call further⟩

/-- The moments tell the point. -/
theorem At.unique {moments : List Nat} {point' : Point} (at_ : At limit start moments point)
    (at' : At limit start moments point') : point = point' := by
  induction at_ generalizing point' with
  | here =>
    cases at'
    rfl
  | call call _ ih =>
    generalize same : _ :: _ = moments at at'
    cases at' with
    | here => cases same
    | call call' further =>
      obtain ⟨first, rfl⟩ := List.cons.inj same
      obtain rfl := call.unique call' first
      exact ih further

theorem At.eq_start (at_ : At limit start [] point) : point = start :=
  at_.unique .here

theorem At.append {between : Point} {more : List Nat} (at_ : At limit start moments between)
    (further : At limit between more point) : At limit start (moments ++ more) point := by
  induction at_ with
  | here => exact further
  | call call _ ih => exact .call call (ih further)

/-- The last call on the way to a point. -/
theorem At.last_call (at_ : At limit next moments point) (call : Calls limit start turn next) :
    ∃ last turn, Reaches limit start last ∧ Calls limit last turn point := by
  induction at_ generalizing start turn with
  | here => exact ⟨start, turn, .refl, call⟩
  | call call' _ ih =>
    obtain ⟨last, turn', reached, last_call⟩ := ih call'
    exact ⟨last, turn', reached.head ⟨_, call⟩, last_call⟩

/-- A body begins in a frame of its own, the last one made, above the environment of the code around
it or above one that a closure has captured. -/
theorem Calls.body_frame (call : Calls limit point turn next) {body : List Form}
    (task : next.task = .body body) :
    ∃ left names values outer, Stands limit point (turn.moment point.task) left ∧
      next.env = left.newFrame names :: outer ∧ next.memory = left.enter names values := by
  obtain ⟨left, stands, begins⟩ := call.begins
  cases begins with
  | kept _ other _ => exact absurd task (other body)
  | define _ _ | assign _ _ _ => cases task
  | enter _ _ _ => exact ⟨left, _, _, _, stands, rfl, rfl⟩

@[simp] theorem Memory.frames_size_enter (memory : Memory) (names : List String)
    (values : List Value) :
    (memory.enter names values).frames.size = memory.frames.size + 1 := by
  simp [enter, recordFrame, allocateAll]

/-- Frames have been made between a moment of an evaluation and the beginning of any body from then
on. -/
theorem Calls.frames_lt {left : Memory} (call : Calls limit start turn next)
    (stands : Stands limit start (turn.moment start.task) left) (at_ : At limit next moments point)
    {body : List Form} (task : point.task = .body body) :
    left.frames.size < point.memory.frames.size := by
  cases at_ with
  | here =>
    obtain ⟨left', _, _, _, stands', _, memory⟩ := call.body_frame task
    rw [memory, stands.unique stands', Memory.frames_size_enter]
    exact Nat.lt_succ_self _
  | call call' further =>
    obtain ⟨last, turn', reached, last_call⟩ := further.last_call call'
    obtain ⟨left', _, _, _, stands', _, memory⟩ := last_call.body_frame task
    have before := (grows limit start).call .refl call stands
    have between := ((grows limit next).reaches reached).1
    have behind := (grows limit next).stands reached stands'
    have grown := (before.trans (between.trans behind)).frames_size
    rw [memory, Memory.frames_size_enter]
    omega

/-- What begins at one moment of an evaluation has fewer frames than any body that begins at a later
one. -/
theorem Calls.frames_lt_of_lt {turn' : Turn} {next' point' : Point} {moments' : List Nat}
    (call : Calls limit start turn next) (at_ : At limit next moments point)
    (call' : Calls limit start turn' next') (at' : At limit next' moments' point')
    (less : turn.moment start.task < turn'.moment start.task) {body : List Form}
    (task : point'.task = .body body) : point.memory.frames.size < point'.memory.frames.size := by
  obtain ⟨left, stands, _⟩ := call'.begins
  have onwards := ((grows limit next).onwards at_.reaches).frames_size
  have ordered := ((grows limit start).ordered .refl call less stands).frames_size
  have begun := call'.frames_lt stands at' task
  omega

/-- A body that a run comes to begins with more frames than the run. -/
theorem At.frames_lt (at_ : At limit start moments point) (later : moments ≠ []) {body : List Form}
    (task : point.task = .body body) : start.memory.frames.size < point.memory.frames.size := by
  cases at_ with
  | here => exact absurd rfl later
  | call call further =>
    obtain ⟨left, stands, _⟩ := call.begins
    have before := ((grows limit start).stands .refl stands).frames_size
    have begun := call.frames_lt stands further task
    omega

/-- The number of frames tells the bodies of a run apart. -/
theorem At.unique_of_frames {moments' : List Nat} {point' : Point} {body body' : List Form}
    (at_ : At limit start moments point) (at' : At limit start moments' point')
    (later : moments ≠ []) (later' : moments' ≠ []) (task : point.task = .body body)
    (task' : point'.task = .body body')
    (same : point.memory.frames.size = point'.memory.frames.size) : moments = moments' := by
  induction at_ generalizing moments' with
  | here => exact absurd rfl later
  | @call start next point turn rest call further ih =>
    cases at' with
    | here => exact absurd rfl later'
    | @call _ next' _ turn' rest' call' further' =>
      rcases Nat.lt_trichotomy (turn.moment start.task) (turn'.moment start.task) with
        less | equal | greater
      · have apart := call.frames_lt_of_lt further call' further' less task'
        omega
      · obtain rfl := call.unique call' equal
        rw [equal]
        congr 1
        -- Below the common call, one of the bodies is begun first, or both are one of them.
        by_cases first : rest = []
        · by_cases first' : rest' = []
          · rw [first, first']
          · subst first
            obtain rfl := further.eq_start
            have apart := further'.frames_lt first' task'
            omega
        · by_cases first' : rest' = []
          · subst first'
            obtain rfl := further'.eq_start
            have apart := further.frames_lt first task
            omega
          · exact ih further' first first' task same
      · have apart := call'.frames_lt_of_lt further' call further greater task
        omega

/-- A `let` or an application of a closure that a run comes to: the moments that lead to the beginning
of its body, and the environment in which the body runs. -/
structure Activates (limit : Nat) (start : Point) (moments : List Nat) (env : Environment) :
    Prop where
  later : moments ≠ []
  begins : ∃ point body, At limit start moments point ∧ point.task = .body body ∧ point.env = env

namespace Activates

variable {env env' : Environment}

/-- The innermost frame is new: its serial number is the number of frames that were there before. -/
theorem frame (activates : Activates limit start moments env) :
    ∃ frame outer point, env = frame :: outer ∧ At limit start moments point ∧
      (∃ body, point.task = .body body) ∧ point.env = env ∧
      frame.serial + 1 = point.memory.frames.size := by
  obtain ⟨later, point, body, at_, task, rfl⟩ := activates
  have called : ∃ last turn, Calls limit last turn point := by
    cases at_ with
    | here => exact absurd rfl later
    | call call further =>
      obtain ⟨last, turn, _, call⟩ := further.last_call call
      exact ⟨last, turn, call⟩
  obtain ⟨last, turn, call⟩ := called
  obtain ⟨left, names, values, outer, _, env, memory⟩ := call.body_frame task
  refine ⟨_, outer, point, env, at_, ⟨body, task⟩, rfl, ?_⟩
  rw [memory, Memory.frames_size_enter]
  rfl

/-- Two activations of a run that share their innermost frame are the same. -/
theorem unique {moments' : List Nat} (activates : Activates limit start moments env)
    (activates' : Activates limit start moments' env')
    (same : env.identity? = env'.identity?) : moments = moments' ∧ env = env' := by
  obtain ⟨frame, outer, point, rfl, at_, ⟨body, task⟩, here, serial⟩ := activates.frame
  obtain ⟨frame', outer', point', rfl, at', ⟨body', task'⟩, here', serial'⟩ := activates'.frame
  have equal : frame.serial = frame'.serial := Option.some.inj same
  have frames : point.memory.frames.size = point'.memory.frames.size := by omega
  obtain rfl := at_.unique_of_frames at' activates.later activates'.later task task' frames
  obtain rfl := at_.unique at'
  exact ⟨rfl, here.symm.trans here'⟩

/-- The innermost frame is made while the run goes on. -/
theorem made_within (activates : Activates limit start moments env) :
    ∃ serial, env.identity? = some serial ∧ start.memory.frames.size ≤ serial ∧
      serial < (start.final limit).frames.size := by
  obtain ⟨frame, outer, point, rfl, at_, ⟨body, task⟩, _, serial⟩ := activates.frame
  have before := at_.frames_lt activates.later task
  have onwards := ((grows limit start).onwards at_.reaches).frames_size
  exact ⟨frame.serial, rfl, by omega, by omega⟩

end Activates

/-- The environment of every point of a run is that of its beginning, the global one, or one that an
activation has made. -/
theorem Reaches.environment (reached : Reaches limit start point) :
    point.env = start.env ∨ point.env = .global ∨
      ∃ moments, Activates limit start moments point.env := by
  induction reached with
  | refl => exact .inl rfl
  | @tail last point reached called ih =>
    obtain ⟨turn, call⟩ := called
    obtain ⟨moments, at_⟩ := Reaches.exists_at reached
    obtain ⟨left, stands, begins⟩ := call.begins
    cases begins with
    | kept env _ _ =>
      rcases env with rfl | rfl
      · exact ih
      · exact .inr (.inl rfl)
    | define _ _ => exact .inr (.inl rfl)
    | assign _ _ _ => exact ih
    | enter _ _ _ =>
      exact .inr (.inr ⟨_, by simp, _, _, at_.append (.call call .here), rfl, rfl⟩)

end CellScheme
