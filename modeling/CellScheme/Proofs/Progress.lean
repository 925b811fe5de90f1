import CellScheme.Proofs.Agreement
import CellScheme.Proofs.Excerpt

/-!
Reading whole texts. Between the data of a program any blank is skipped, and behind the one datum of
a text only layout may follow; both readers report what the descent comes to, at the place that is
computed from what is left of the text (`readProgram_eq`, `readDatum_eq`).

So each step of reading works on suffixes and makes progress, the loops come to their ends, and the
computed places are true ones (`reading_progresses`).
-/
open CellScheme.Parser

namespace CellScheme.Descent

open Reader

variable {extent : Extent} {total : Nat} {state : State} {c : Char} {text rest : List Char}
  {stop : Stop}

/-- Outside all openings of a program, blanks are skipped. -/
theorem skips_program (outside : state.openings = []) (c : Char) :
    state.skips .program c = Text.isBlank c := by
  simp [State.skips, outside]

theorem dropWhile_isLayout (ink : ∀ c ∈ text.head?, Text.isBlank c = false) :
    text.dropWhile Text.isLayout = text := by
  cases text with
  | nil => rfl
  | cons c text => exact List.dropWhile_cons_of_neg (by simp [isLayout_of_isBlank (ink c rfl)])

/-- Outside all openings, what the descent refuses is the fault of the machine, unless the text has
come to its end. -/
theorem Agrees.fault_of_refused (agrees : Agrees extent total state text (.refused stop))
    (outside : state.openings = []) :
    stop.rest = [] ∨ state.run extent text = .error (fault total stop) := by
  obtain ⟨noDatum, -, closes | missed⟩ := agrees
  · cases rest : stop.rest with
    | nil => exact .inl rfl
    | cons c rest =>
      rw [rest, outside] at closes
      obtain ⟨-, items, outer, openings⟩ := closes
      cases openings
  · refine .inr (missed.trans ?_)
    rw [outside, fault, noDatum]
    rfl

/-- Outside all openings, a datum that is delivered is complete. -/
theorem deliver_outside (outside : state.openings = []) (value : Value) : state.deliver value
    = { state with openings := [], complete := value :: state.complete, token := .between } := by
  rw [State.deliver, outside]
  rfl

/-- The machine goes through the data of a program as the loop does. -/
theorem run_program (ready : state.Ready .program total 0 rest) :
    ∃ result, program state.complete rest = some result ∧
      state.run .program rest = result.mapError (fault total) := by
  induction size : rest.length using Nat.strong_induction_on generalizing state rest with
  | _ size ih =>
    subst size
    have outside : state.openings = [] := List.length_eq_zero_iff.mp ready.inside
    have trimmed : Text.trimStart rest <:+ rest := List.dropWhile_suffix _
    have ink : ∀ c ∈ (Text.trimStart rest).head?, Text.isBlank c = false :=
      (takeWhile_split Text.isBlank rest).2.2
    have skipped : state.run .program rest = (state.moveTo (total - Text.byteLength
        (Text.trimStart rest))).run .program (Text.trimStart rest) :=
      ready.before.run_dropWhile ready.between
        fun c blank => (skips_program outside c).trans blank
    have there := ready.of_suffix trimmed
    rw [skipped]
    cases begins : Text.trimStart rest with
    | nil =>
      exact ⟨_, program_of_blank begins, State.run_layout there.between outside (by simp)⟩
    | cons c text =>
      rw [begins] at trimmed ink there
      obtain ⟨outcome, read, agrees⟩ := agrees_begun (fun more => agreesAt .program total 1 more)
        (by decide) there fun c first => (skips_program outside c).trans (ink c first)
      have read : datum 0 (c :: text) = some outcome := by
        rw [datum_eq (by decide), dropWhile_isLayout ink, read]
      cases outcome with
      | accepted value behind =>
        obtain ⟨suffix, shorter⟩ := (moves_datum 0).leaves read
        have delivered := deliver_outside outside value
        have next : State.Ready .program total 0 ((state.deliver value).moveTo
            (total - Text.byteLength behind)) behind := by
          rw [delivered]
          exact ⟨rfl, rfl, .inl rfl, there.before.of_suffix suffix⟩
        obtain ⟨result, ended, ran⟩ := ih behind.length
          ((shorter rfl).trans_le trimmed.length_le) next rfl
        rw [delivered] at ended
        exact ⟨result, (program_of_accepted begins read).trans ended, Eq.trans agrees ran⟩
      | refused stop =>
        have here : stop.rest = c :: text := agrees.2.1.trans (dropWhile_isLayout ink)
        have more : stop.rest ≠ [] := by
          rw [here]
          exact List.cons_ne_nil c text
        exact ⟨_, program_of_refused begins read,
          (agrees.fault_of_refused outside).resolve_left more⟩
      | failed stop => exact ⟨_, program_of_failed begins read, agrees⟩

/-- What the report of a stop says: where it is computed from what is left of the text. -/
def reported (text : List Char) (stop : Stop) : SourceError :=
  report text (fault (Text.byteLength text) stop)

/-- The machine begins a text between tokens. -/
theorem ready_start (extent : Extent) (text : List Char) :
    State.Ready extent (Text.byteLength text) 0 {} text :=
  ⟨rfl, rfl, .inr rfl, Nat.zero_add _⟩

/-- The data of a program are read, or reported missing, as the descent has them. -/
theorem readProgram_eq (comments : Bool) (source : String) :
    ∃ result, program [] (prepare comments source) = some result ∧
      readProgram comments source = result.mapError (reported (prepare comments source)) := by
  obtain ⟨result, ended, ran⟩ := run_program (ready_start .program (prepare comments source))
  refine ⟨result, ended, ?_⟩
  have scanned : scan .program (prepare comments source) = _ := ran
  rw [readProgram, scanned]
  cases result <;> rfl

/-- Behind the one datum of a text, nothing but layout may follow. -/
theorem take_trailing (between : state.token = .between) (complete : state.complete ≠ [])
    (ink : Text.isLayout c = false) :
    state.take .datum c = .error ⟨.trailing, state.offset⟩ := by
  have noSkip : state.skips .datum c = false := (State.skips_eq_isLayout (.inl rfl) c).trans ink
  simp [State.take, between, State.start, noSkip, complete, throw, throwThe, MonadExceptOf.throw]

theorem run_behind (before : state.Before total rest) (between : state.token = .between)
    (outside : state.openings = []) (complete : state.complete ≠ []) :
    state.run .datum rest = match rest.dropWhile Text.isLayout with
      | [] => .ok state.complete.reverse
      | behind => .error (fault total ⟨behind, .trailing⟩) := by
  have skipped := before.run_dropWhile between
    fun c layout => State.skips_of_isLayout state .datum layout
  have ink : ∀ c ∈ (rest.dropWhile Text.isLayout).head?, Text.isLayout c = false :=
    (takeWhile_split Text.isLayout rest).2.2
  rw [skipped]
  cases behind : rest.dropWhile Text.isLayout with
  | nil => exact State.run_layout between outside (by simp)
  | cons c behind =>
    rw [behind] at ink
    exact State.run_cons_of_error (take_trailing between complete (ink c rfl))

theorem fault_of_ended (noDatum : trouble stop.cause = .noDatum) (ended : stop.rest = []) :
    fault total stop = ⟨.noDatum, total⟩ := by
  rw [fault, noDatum, ended]
  rfl

/-- The one datum of a text is read, or reported missing, as the descent has it. A blank text has no
data for the machine, and is refused at its end by the descent. -/
theorem readDatum_eq (comments : Bool) (source : String) :
    ∃ result, single (prepare comments source) = some result ∧
      readDatum comments source = result.mapError (reported (prepare comments source)) := by
  unfold readDatum
  generalize prepare comments source = text
  have start := ready_start .datum text
  obtain ⟨outcome, read, agrees⟩ := agreesAt .datum (Text.byteLength text) 0 (by decide) start
    (State.skips_eq_isLayout (.inl rfl))
  cases outcome with
  | accepted value rest =>
    obtain ⟨suffix, -⟩ := (moves_datum 0).leaves read
    have behind : scan .datum text = _ := Eq.trans agrees
      (run_behind (start.before.of_suffix suffix) rfl rfl (List.cons_ne_nil value []))
    have laid : (do layout; return value : Parser Value) rest
        = some (.accepted value (rest.dropWhile Text.isLayout)) := rfl
    simp only [single, bind_of_accepted read, laid, behind]
    cases rest.dropWhile Text.isLayout with
    | nil => exact ⟨.ok value, rfl, rfl⟩
    | cons c behind => exact ⟨.error ⟨c :: behind, .trailing⟩, rfl, rfl⟩
  | refused stop =>
    refine ⟨.error stop, ?_, ?_⟩
    · simp only [single, bind_of_refused read]
    · rcases agrees.fault_of_refused rfl with ended | missed
      · obtain ⟨noDatum, here, -⟩ := agrees
        have blank : ∀ c ∈ text, Text.isLayout c = true :=
          List.dropWhile_eq_nil_iff.mp (here.symm.trans ended)
        have nothing : scan .datum text = .ok [] := State.run_layout rfl rfl blank
        simp only [nothing, reported, Except.mapError, fault_of_ended noDatum ended]
        rfl
      · have missed : scan .datum text = _ := missed
        simp only [missed]
        rfl
  | failed stop =>
    refine ⟨.error stop, ?_, ?_⟩
    · simp only [single, bind_of_failed read]
    · have failed : scan .datum text = _ := agrees
      simp only [failed]
      rfl

/-- What is left of a text begins at a boundary between characters, and the byte offset of that is
the difference of the lengths. -/
structure Remains (text rest : List Char) : Prop where
  suffix : rest <:+ text
  boundary : Text.isBoundary text (Text.byteLength text - Text.byteLength rest) = true
  behind : Text.dropBytes (Text.byteLength text - Text.byteLength rest) text = rest

theorem remains_of_suffix (suffix : rest <:+ text) : Remains text rest := by
  obtain ⟨front, rfl⟩ := suffix
  have offset : Text.byteLength (front ++ rest) - Text.byteLength rest = Text.byteLength front := by
    rw [Text.byteLength_append, Nat.add_sub_cancel]
  refine ⟨List.suffix_append front rest, ?_, ?_⟩
  · rw [offset]
    exact Text.isBoundary_byteLength front rest
  · rw [offset]
    exact Text.dropBytes_byteLength front rest

/-- On every input, a parser ends. What it accepts takes at least one character, and wherever it
stops, the input remains from there. -/
def Progresses (p : Parser Value) : Prop :=
  ∀ input, ∃ outcome, p input = some outcome ∧
    match outcome with
    | .accepted _ rest => Remains input rest ∧ rest ≠ input
    | .refused stop | .failed stop => Remains input stop.rest

theorem progresses_of_moves {p : Parser Value} (moves : p.Moves true) : Progresses p := by
  intro input
  obtain ⟨outcome, ended, leaves⟩ := moves input
  refine ⟨outcome, ended, ?_⟩
  cases outcome with
  | accepted value rest =>
    refine ⟨remains_of_suffix leaves.1, ?_⟩
    rintro rfl
    exact absurd (leaves.2 rfl) (Nat.lt_irrefl _)
  | refused stop | failed stop => exact remains_of_suffix leaves

/-- A loop over a text ends, and the text is read as it ends: with what the loop has read, or with
the report of where it stopped, from where the text remains. -/
def ReadAs {α : Type} (text : List Char) (ended : Option (Except Stop α))
    (read : Except SourceError α) : Prop :=
  ∃ result, ended = some result ∧ read = result.mapError (reported text) ∧
    ∀ stop, result = .error stop → Remains text stop.rest

theorem readAs_of_stopsWithin {α : Type} {ended : Option (Except Stop α)}
    {read : Except SourceError α}
    (reads : ∃ result, ended = some result ∧ read = result.mapError (reported text))
    (stops : ∃ result, ended = some result ∧ StopsWithin text result) : ReadAs text ended read := by
  obtain ⟨result, ended, read⟩ := reads
  obtain ⟨result', ended', within⟩ := stops
  obtain rfl := Option.some.inj (ended.symm.trans ended')
  exact ⟨result, ended, read, fun stop stopped => remains_of_suffix (within stop stopped)⟩

/-- Every step of reading ends, leaves a suffix of its input and takes at least one character of what
it accepts. So no repetition meets an item that takes nothing, the loops over the characters of a
string and over the data of a program come to their ends, and a fault lies where the lengths of the
text and of what is left of it say, which is where the machine has counted it. -/
theorem reading_progresses :
    (∀ depth, Progresses (datum depth) ∧ Progresses (list depth) ∧ Progresses (quoted depth)) ∧
    (∀ p ∈ [hexadecimal, decimal, number, boolean, symbol, string, atom], Progresses p) ∧
    (∀ depth items input, ∃ outcome, (datum depth).many items input = some outcome ∧
      ∀ stop, outcome ≠ .refused stop) ∧
    (∀ chars, Progresses (stringBody chars)) ∧
    (∀ read rest, ∃ result, program read rest = some result) ∧
    (∀ text, ∃ result, program [] text = some result ∧
      scan .program text = result.mapError (fault (Text.byteLength text))) ∧
    ∀ comments source,
      ReadAs (prepare comments source) (single (prepare comments source))
        (readDatum comments source) ∧
      ReadAs (prepare comments source) (program [] (prepare comments source))
        (readProgram comments source) := by
  refine ⟨fun depth => ?_, ?_, fun depth items input => ?_, fun chars => ?_, fun read rest => ?_,
    fun text => run_program (ready_start .program text), fun comments source => ⟨?_, ?_⟩⟩
  · have inner := moves_datum (depth + 1)
    exact ⟨progresses_of_moves (moves_datum depth), progresses_of_moves (moves_list inner),
      progresses_of_moves (moves_quoted inner)⟩
  · simp only [List.forall_mem_cons, List.not_mem_nil, false_implies, implies_true, and_true]
    exact ⟨progresses_of_moves moves_hexadecimal, progresses_of_moves moves_decimal,
      progresses_of_moves moves_number, progresses_of_moves moves_boolean,
      progresses_of_moves moves_symbol, progresses_of_moves moves_string,
      progresses_of_moves moves_atom⟩
  · obtain ⟨outcome, ended, -, notIdle⟩ := (moves_datum depth).exists_many items input
    exact ⟨outcome, ended, notIdle⟩
  · exact progresses_of_moves (moves_stringBody chars)
  · obtain ⟨result, ended, -⟩ := exists_program read rest
    exact ⟨result, ended⟩
  · exact readAs_of_stopsWithin (readDatum_eq comments source) (exists_single _)
  · exact readAs_of_stopsWithin (readProgram_eq comments source) (exists_program [] _)

/-- Where a list should close, behind a character of two bytes, the program stops at the bracket: that
is at offset five in characters, and six in bytes. -/
theorem reading_progresses_behind_wide_char :
    ∃ stop, program [] "(\"é\" ]".toList = some (.error stop) ∧ stop.rest = [']'] ∧
      fault 7 stop = ⟨.unclosed, 6⟩ := by
  obtain ⟨-, -, -, -, -, machine, texts⟩ := reading_progresses
  obtain ⟨result, ended, scanned⟩ := machine "(\"é\" ]".toList
  obtain ⟨_, ended', -, remains⟩ := (texts false "(\"é\" ]").2
  obtain rfl := Option.some.inj (ended.symm.trans ended')
  have stopped : scan .program "(\"é\" ]".toList = .error ⟨.unclosed, 6⟩ := by
    set_option maxRecDepth 4000 in rfl
  cases result with
  | ok data => cases stopped.symm.trans scanned
  | error stop =>
    have place : fault 7 stop = ⟨.unclosed, 6⟩ :=
      (Except.error.inj (stopped.symm.trans scanned)).symm
    have offset : 7 - Text.byteLength stop.rest = 6 := congrArg Fault.offset place
    have behind : Text.dropBytes (7 - Text.byteLength stop.rest) "(\"é\" ]".toList = stop.rest :=
      (remains stop rfl).behind
    rw [offset] at behind
    exact ⟨stop, ended, behind.symm, place⟩

end CellScheme.Descent
