import CellScheme.Proofs.Reading

/-!
What one character does to the machine that reads, said once: `State.Takes` lists the states it can
lead to, `State.Refuses` the faults it can end in. Invariants of reading are proved over these lists
and carried along a text by `State.after_induction`; where a text cannot be read on,
`State.after_error` finds the character that is refused.
-/
namespace CellScheme.Reader.State

variable {extent : Extent} {state next ended : State} {c : Char} {text front back : List Char}
  {fault : Fault}

/-- The state with no token begun, once an atom has ended. A string literal must be closed first. -/
def pause (state : State) : Except Fault State :=
  match state.token with
  | .between => pure state
  | .atom start run => state.endAtom start run
  | .string _ | .escape .. => throw ⟨.unclosed, state.offset⟩

theorem pause_of_between (between : state.token = .between) : state.pause = .ok state := by
  rw [pause, between]
  rfl

theorem pause_eq_ok (paused : state.pause = .ok ended) :
    (state.token = .between ∧ ended = state) ∨
      ∃ start run datum, state.token = .atom start run ∧ atom? run.reverse = some datum ∧
        ended = state.deliver datum := by
  unfold pause at paused
  split at paused
  case h_1 between => exact .inl ⟨between, (Except.ok.inj paused).symm⟩
  case h_2 start run atom =>
    obtain ⟨datum, read, rfl⟩ := endAtom_eq_ok paused
    exact .inr ⟨start, run, datum, atom, read, rfl⟩
  case h_3 => cases paused
  case h_4 => cases paused

theorem token_of_pause (paused : state.pause = .ok ended) : ended.token = .between := by
  rcases pause_eq_ok paused with ⟨between, rfl⟩ | ⟨_, _, _, _, _, rfl⟩
  · exact between
  · rfl

theorem offset_of_pause (paused : state.pause = .ok ended) : ended.offset = state.offset := by
  rcases pause_eq_ok paused with ⟨_, rfl⟩ | ⟨_, _, _, _, _, rfl⟩ <;> rfl

theorem endAtom_eq_error {start : Nat} {run : List Char}
    (refused : state.endAtom start run = .error fault) :
    atom? run.reverse = none ∧ fault = missing start state.openings := by
  unfold endAtom at refused
  split at refused
  case h_1 => cases refused
  case h_2 none => exact ⟨none, (Except.error.inj refused).symm⟩

theorem finish_eq_pause : state.finish = state.pause >>= fun ended =>
    if ended.openings.isEmpty then pure ended.complete.reverse
    else throw (missing ended.offset ended.openings) := by
  unfold finish pause
  cases state.token <;> rfl

/-- Once its last token has ended, a text may end where nothing is open. -/
theorem exists_finish_iff (paused : state.pause = .ok ended) :
    (∃ data, state.finish = .ok data) ↔ ended.openings = [] := by
  have finished : state.finish = if ended.openings.isEmpty then pure ended.complete.reverse
      else throw (missing ended.offset ended.openings) := by
    rw [finish_eq_pause, paused]
    rfl
  rw [finished]
  cases ended.openings with
  | nil => exact ⟨fun _ => rfl, fun _ => ⟨_, rfl⟩⟩
  | cons opening outer =>
    constructor
    · rintro ⟨_, other⟩
      cases other
    · intro other
      cases other

/-- Where no token goes on, a character is taken by what it begins. -/
theorem take_eq_pause
    (begins : state.token = .between ∨
      ∃ start run, state.token = .atom start run ∧ Text.isSymbolChar c = false) :
    state.take extent c = state.pause >>= fun ended => ended.start extent c := by
  rcases begins with between | ⟨start, run, atom, other⟩
  · simp only [take, pause, between]
    rfl
  · simp only [take, pause, atom, other, Bool.false_eq_true, if_false]

/-- What a character begins between tokens. -/
inductive Starts (extent : Extent) (state : State) (c : Char) : State → Prop
  | skip : state.skips extent c = true →
    Starts extent state c { state with token := .between }
  | quote : c = '\'' → state.openings.length ≤ 62 → Starts extent state c
    { state with openings := .quote state.offset :: state.openings, token := .between }
  | opening : c = '(' → state.openings.length ≤ 62 → Starts extent state c
    { state with openings := .list [] :: state.openings, token := .between }
  | closing {items outer} : c = ')' → state.openings = .list items :: outer →
    Starts extent state c ({ state with openings := outer }.deliver (.list items.reverse))
  | string : c = '"' → Starts extent state c { state with token := .string [] }
  | atom : c = '#' ∨ Text.isSymbolChar c = true →
    Starts extent state c { state with token := .atom state.offset [c] }

theorem starts_of_start (started : state.start extent c = .ok next) :
    state.Starts extent c next := by
  unfold start at started
  split at started
  case isTrue skipped =>
    obtain rfl := Except.ok.inj started
    exact .skip skipped
  case isFalse =>
  split at started
  case isTrue => cases started
  case isFalse =>
  split at started
  case isTrue mark =>
    obtain ⟨room, rfl⟩ := enter_eq_ok started
    exact .quote mark room
  case isFalse =>
  split at started
  case isTrue mark =>
    obtain ⟨room, rfl⟩ := enter_eq_ok started
    exact .opening mark room
  case isFalse =>
  split at started
  case isTrue mark =>
    split at started
    case h_1 openings =>
      obtain rfl := Except.ok.inj started
      exact .closing mark openings
    case h_2 => cases started
  case isFalse =>
  split at started
  case isTrue mark =>
    obtain rfl := Except.ok.inj started
    exact .string mark
  case isFalse =>
  split at started
  case isTrue first =>
    obtain rfl := Except.ok.inj started
    exact .atom first
  case isFalse => cases started

/-- The ways in which a character is taken. -/
inductive Takes (extent : Extent) (state : State) (c : Char) : State → Prop
  | begins {ended next : State} : state.pause = .ok ended → ended.Starts extent c next →
    Takes extent state c next
  | letter {start run} : state.token = .atom start run → Text.isSymbolChar c = true →
    Takes extent state c { state with token := .atom start (c :: run) }
  | closing {chars} : state.token = .string chars → c = '"' →
    Takes extent state c (state.deliver (.string (String.ofList chars.reverse)))
  | backslash {chars} : state.token = .string chars → c = '\\' →
    Takes extent state c { state with token := .escape state.offset chars }
  | plain {chars} : state.token = .string chars → c ≠ '"' → c ≠ '\\' →
    Takes extent state c { state with token := .string (c :: chars) }
  | escaped {start chars d} : state.token = .escape start chars → Text.unescape? c = some d →
    Takes extent state c { state with token := .string (d :: chars) }

theorem takes_of_take (taken : state.take extent c = .ok next) : state.Takes extent c next := by
  have begun : (state.pause >>= fun ended => ended.start extent c) = .ok next →
      state.Takes extent c next := by
    intro success
    obtain ⟨ended, paused, started⟩ := bind_eq_ok.mp success
    exact .begins paused (starts_of_start started)
  match token : state.token with
  | .between => exact begun (take_eq_pause (.inl token) ▸ taken)
  | .atom start run =>
    cases letter : Text.isSymbolChar c with
    | false => exact begun (take_eq_pause (.inr ⟨start, run, token, letter⟩) ▸ taken)
    | true =>
      simp only [take, token, letter, if_true] at taken
      obtain rfl := Except.ok.inj taken
      exact .letter token letter
  | .string chars =>
    simp only [take, token] at taken
    split at taken
    case isTrue mark =>
      obtain rfl := Except.ok.inj taken
      exact .closing token mark
    case isFalse inside =>
    split at taken
    case isTrue mark =>
      obtain rfl := Except.ok.inj taken
      exact .backslash token mark
    case isFalse unescaped =>
      obtain rfl := Except.ok.inj taken
      exact .plain token inside unescaped
  | .escape start chars =>
    simp only [take, token] at taken
    split at taken
    case h_1 denotes =>
      obtain rfl := Except.ok.inj taken
      exact .escaped token denotes
    case h_2 => cases taken

/-- The ways in which a character is refused. What it would begin is refused once an atom before it
has ended. -/
inductive Refuses (extent : Extent) (state : State) (c : Char) : Fault → Prop
  | atom {start run} : state.token = .atom start run → atom? run.reverse = none →
    Refuses extent state c (missing start state.openings)
  | trailing {ended : State} : state.pause = .ok ended → extent = .datum → ended.complete ≠ [] →
    ended.skips extent c = false → Refuses extent state c ⟨.trailing, state.offset⟩
  | tooDeep {ended : State} : state.pause = .ok ended → c = '\'' ∨ c = '(' →
    63 ≤ ended.openings.length → Refuses extent state c ⟨.tooDeep, state.offset + 1⟩
  | stray {ended : State} : state.pause = .ok ended → ended.skips extent c = false →
    Refuses extent state c (missing state.offset ended.openings)
  | escape {start chars} : state.token = .escape start chars → Text.unescape? c = none →
    Refuses extent state c ⟨.badEscape, start⟩

theorem enter_eq_error {opening : Opening} (refused : state.enter opening = .error fault) :
    63 ≤ state.openings.length ∧ fault = ⟨.tooDeep, state.offset + 1⟩ := by
  unfold enter at refused
  split at refused
  case isTrue full =>
    unfold nestingLimit at full
    exact ⟨by omega, (Except.error.inj refused).symm⟩
  case isFalse => cases refused

theorem refuses_of_start (paused : state.pause = .ok ended)
    (refused : ended.start extent c = .error fault) : state.Refuses extent c fault := by
  have same : ended.offset = state.offset := offset_of_pause paused
  unfold start at refused
  rw [same] at refused
  split at refused
  case isTrue => cases refused
  case isFalse ink =>
  have ink : ended.skips extent c = false := Bool.eq_false_iff.mpr ink
  split at refused
  case isTrue trailing =>
    obtain rfl := Except.error.inj refused
    exact .trailing paused trailing.1 (by simpa using trailing.2) ink
  case isFalse =>
  split at refused
  case isTrue mark =>
    obtain ⟨full, rfl⟩ := enter_eq_error refused
    exact same ▸ .tooDeep paused (.inl mark) full
  case isFalse =>
  split at refused
  case isTrue mark =>
    obtain ⟨full, rfl⟩ := enter_eq_error refused
    exact same ▸ .tooDeep paused (.inr mark) full
  case isFalse =>
  split at refused
  case isTrue =>
    split at refused
    case h_1 => cases refused
    case h_2 =>
      obtain rfl := Except.error.inj refused
      exact .stray paused ink
  case isFalse =>
  split at refused
  case isTrue => cases refused
  case isFalse =>
  split at refused
  case isTrue => cases refused
  case isFalse =>
    obtain rfl := Except.error.inj refused
    exact .stray paused ink

theorem refuses_of_take (refused : state.take extent c = .error fault) :
    state.Refuses extent c fault := by
  have begun : (state.token = .between ∨
      ∃ start run, state.token = .atom start run ∧ Text.isSymbolChar c = false) →
      state.Refuses extent c fault := by
    intro begins
    rw [take_eq_pause begins] at refused
    cases paused : state.pause with
    | ok ended =>
      rw [paused] at refused
      exact refuses_of_start paused refused
    | error cause =>
      rw [paused] at refused
      obtain rfl := Except.error.inj refused
      rcases begins with between | ⟨start, run, atom, -⟩
      · simp [pause, between, pure, Except.pure] at paused
      · simp only [pause, atom] at paused
        obtain ⟨none, rfl⟩ := endAtom_eq_error paused
        exact .atom atom none
  match token : state.token with
  | .between => exact begun (.inl token)
  | .atom start run =>
    cases letter : Text.isSymbolChar c with
    | false => exact begun (.inr ⟨start, run, token, letter⟩)
    | true =>
      simp only [take, token, letter, if_true] at refused
      cases refused
  | .string chars =>
    simp only [take, token] at refused
    split at refused
    case isTrue => cases refused
    case isFalse => split at refused <;> cases refused
  | .escape start chars =>
    simp only [take, token] at refused
    split at refused
    case h_1 => cases refused
    case h_2 none =>
      obtain rfl := Except.error.inj refused
      exact .escape token none

/-- The state after a text, if all of it is taken. -/
def after (extent : Extent) (state : State) (text : List Char) : Except Fault State :=
  text.foldlM (State.step extent) state

theorem run_eq_after : state.run extent text = state.after extent text >>= finish := rfl

theorem after_append (front back : List Char) : state.after extent (front ++ back)
    = state.after extent front >>= fun middle => middle.after extent back :=
  List.foldlM_append

theorem run_append_of_after (reached : state.after extent front = .ok next) :
    state.run extent (front ++ back) = next.run extent back := by
  rw [run_eq_after, after_append, reached]
  rfl

/-- A text that is taken to its end leaves the rest to the state that it leads to. -/
theorem run_eq_finish (reached : state.after extent text = .ok next) :
    state.run extent text = next.finish := by
  rw [run_eq_after, reached]
  rfl

theorem after_cons : state.after extent (c :: text)
    = state.take extent c >>= fun next =>
      (next.moveTo (state.offset + c.utf8Size)).after extent text := by
  simp only [after, List.foldlM_cons, step, bind_assoc, pure_bind]
  rfl

/-- A text that is taken with its last character is taken without it. -/
theorem after_concat (reached : state.after extent (front ++ [c]) = .ok next) :
    ∃ middle taken, state.after extent front = .ok middle ∧ middle.take extent c = .ok taken ∧
      next = taken.moveTo (middle.offset + c.utf8Size) := by
  rw [after_append] at reached
  obtain ⟨middle, before, reached⟩ := bind_eq_ok.mp reached
  rw [after_cons] at reached
  obtain ⟨taken, last, reached⟩ := bind_eq_ok.mp reached
  exact ⟨middle, taken, before, last, (Except.ok.inj reached).symm⟩

theorem after_concat_of_take (reached : state.after extent front = .ok ended)
    (taken : ended.take extent c = .ok next) :
    state.after extent (front ++ [c]) = .ok (next.moveTo (ended.offset + c.utf8Size)) := by
  rw [after_append, reached]
  change ended.after extent [c] = _
  rw [after_cons, taken]
  rfl

/-- What each character keeps, given all that was read before it, holds after a text. -/
theorem after_induction {Inv : List Char → State → Prop} {read : List Char}
    (steps : ∀ {read state c next}, Inv read state → State.Takes extent state c next →
      Inv (read ++ [c]) (next.moveTo (state.offset + c.utf8Size)))
    (inv : Inv read state) (reached : state.after extent text = .ok next) :
    Inv (read ++ text) next := by
  induction text generalizing read state with
  | nil =>
    obtain rfl := Except.ok.inj reached
    rwa [List.append_nil]
  | cons c text ih =>
    rw [after_cons] at reached
    obtain ⟨taken, htaken, reached⟩ := bind_eq_ok.mp reached
    rw [List.append_cons]
    exact ih (steps inv (takes_of_take htaken)) reached

/-- A text that is not taken to its end has a first character that is refused. -/
theorem after_error (stopped : state.after extent text = .error fault) :
    ∃ front c back middle, text = front ++ c :: back ∧ state.after extent front = .ok middle ∧
      middle.take extent c = .error fault := by
  induction text generalizing state with
  | nil => cases stopped
  | cons c text ih =>
    rw [after_cons] at stopped
    cases taken : state.take extent c with
    | error cause =>
      rw [taken] at stopped
      obtain rfl := Except.error.inj stopped
      exact ⟨[], c, text, state, rfl, rfl, taken⟩
    | ok next =>
      rw [taken] at stopped
      obtain ⟨front, d, back, middle, rfl, reached, refused⟩ := ih stopped
      refine ⟨c :: front, d, back, middle, rfl, ?_, refused⟩
      rw [after_cons, taken]
      exact reached

/-- A line feed ends an atom and is skipped. -/
theorem take_line_feed (paused : state.pause = .ok ended) : state.take extent '\n' = .ok ended := by
  have begins : state.token = .between ∨
      ∃ start run, state.token = .atom start run ∧ Text.isSymbolChar '\n' = false := by
    rcases pause_eq_ok paused with ⟨between, -⟩ | ⟨start, run, _, atom, -, -⟩
    · exact .inl between
    · exact .inr ⟨start, run, atom, isSymbolChar_of_isLayout rfl⟩
  have skipped : ended.skips extent '\n' = true := skips_of_isLayout ended extent rfl
  have skip : ended.take extent '\n' = .ok ended := take_skip (token_of_pause paused) skipped
  rw [take_eq_pause begins, paused]
  rwa [take, token_of_pause paused] at skip

/-- No atom goes on behind a line feed. -/
theorem token_ne_atom_of_line_feed (reached : state.after extent (front ++ ['\n']) = .ok next) :
    ∀ start run, next.token ≠ .atom start run := by
  obtain ⟨middle, ended, -, taken, rfl⟩ := after_concat reached
  have noSymbol : Text.isSymbolChar '\n' = false := isSymbolChar_of_isLayout rfl
  have noFirst : ¬ ('\n' = '#' ∨ Text.isSymbolChar '\n' = true) := by simp [noSymbol]
  intro start run atom
  cases takes_of_take taken with
  | begins _ starts =>
    cases starts with
    | atom first => exact noFirst first
    | skip | quote | opening | closing | string => cases atom
  | letter _ symbol => exact noFirst (.inr symbol)
  | closing | backslash | plain | escaped => cases atom

end CellScheme.Reader.State
