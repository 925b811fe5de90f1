import CellScheme.Proofs.Continuation

/-!
Where a text goes wrong. An error points at a place up to which nothing is wrong: some continuation
of the text before it reads, and what trails a datum is reported right where the datum may end
(`errors_point_behind_viable_prefixes`).

Up to a character that is refused this is plain, because the machine has taken the text before it,
and it can be brought to an end from any state that awaits data (`State.viable_of_pause`) or stands
in a string literal (`State.viable_of_string`). But a fault may lie further back, where an atom, an
escape or a quote mark began. Those places are followed along the text (`State.Remembers`).
-/
namespace CellScheme.Reader

variable {extent : Extent} {text front back read : List Char} {place : Nat}

/-- Some continuation of a text reads, and it holds data. -/
def Viable (extent : Extent) (front : List Char) : Prop :=
  ∃ more data, scan extent (front ++ more) = .ok data ∧ data ≠ []

theorem Viable.of_append (viable : Viable extent (front ++ back)) : Viable extent front := by
  obtain ⟨more, data, scanned, some⟩ := viable
  rw [List.append_assoc] at scanned
  exact ⟨back ++ more, data, scanned, some⟩

/-- A byte offset of a text is the end of a viable prefix. -/
def ViableAt (extent : Extent) (text : List Char) (place : Nat) : Prop :=
  ∃ front back, text = front ++ back ∧ Text.byteLength front = place ∧ Viable extent front

theorem ViableAt.append (viable : ViableAt extent text place) (more : List Char) :
    ViableAt extent (text ++ more) place := by
  obtain ⟨front, back, rfl, length, viable⟩ := viable
  exact ⟨front, back ++ more, List.append_assoc .., length, viable⟩

namespace State

variable {state next ended : State} {c : Char} {fault : Fault} {openings : List Opening}

/-- Where something is open or a token has begun, more data are awaited. So a text that is to hold
one datum has nothing open once that is complete. -/
def InOrder (extent : Extent) (state : State) : Prop :=
  state.token ≠ .between ∨ state.openings ≠ [] → state.Awaits extent

theorem settle_complete {datum : Value} {complete : List Value}
    (inside : (settle datum complete openings).1 ≠ []) :
    (settle datum complete openings).2 = complete := by
  induction openings generalizing datum with
  | nil => exact absurd rfl inside
  | cons opening outer ih =>
    cases opening with
    | list items => rfl
    | quote start => exact ih inside

theorem inOrder_deliver (awaits : state.Awaits extent) (datum : Value) :
    (state.deliver datum).InOrder extent := by
  rintro (token | inside)
  · exact absurd rfl token
  · exact awaits.imp_right fun empty => (settle_complete inside).trans empty

theorem InOrder.pause (inOrder : state.InOrder extent) (paused : state.pause = .ok ended) :
    ended.InOrder extent := by
  rcases pause_eq_ok paused with ⟨-, rfl⟩ | ⟨_, _, _, atom, -, rfl⟩
  · exact inOrder
  · exact inOrder_deliver (inOrder (.inl (by simp [atom]))) _

/-- Behind the one datum of a text, nothing may begin. -/
theorem start_of_not_awaits (full : ¬ state.Awaits extent)
    (ink : state.skips extent c = false) :
    state.start extent c = .error ⟨.trailing, state.offset⟩ := by
  obtain ⟨program, some⟩ := not_or.mp full
  have datum : extent = .datum := by
    cases extent with
    | datum => rfl
    | program => exact absurd rfl program
  rw [start, ink, if_neg Bool.false_ne_true, if_pos ⟨datum, by simpa using some⟩]
  rfl

theorem InOrder.start (inOrder : state.InOrder extent)
    (started : state.start extent c = .ok next) : next.InOrder extent := by
  by_cases awaits : state.Awaits extent
  · cases starts_of_start started with
    | @closing items outer =>
      exact @inOrder_deliver extent { state with openings := outer } awaits (.list items.reverse)
    | skip | quote | opening | string | atom => exact fun _ => awaits
  · cases skipped : state.skips extent c with
    | false =>
      rw [start_of_not_awaits awaits skipped] at started
      cases started
    | true =>
      rw [State.start, if_pos skipped] at started
      obtain rfl := Except.ok.inj started
      exact fun still => inOrder (still.imp_left fun token => absurd rfl token)

theorem InOrder.take (inOrder : state.InOrder extent)
    (taken : state.take extent c = .ok next) : next.InOrder extent := by
  by_cases begins : state.token = .between ∨
      ∃ start run, state.token = .atom start run ∧ Text.isSymbolChar c = false
  · rw [take_eq_pause begins] at taken
    obtain ⟨ended, paused, started⟩ := bind_eq_ok.mp taken
    exact (inOrder.pause paused).start started
  · -- The character goes on with a token, or it ends a string literal.
    have awaits : state.Awaits extent := inOrder (.inl fun between => begins (.inl between))
    unfold State.take at taken
    split at taken
    case h_1 between => exact absurd (.inl between) begins
    case h_2 start run atom =>
      split at taken
      case isTrue =>
        obtain rfl := Except.ok.inj taken
        exact fun _ => awaits
      case isFalse other => exact absurd (.inr ⟨start, run, atom, by simpa using other⟩) begins
    case h_3 =>
      split at taken
      case isTrue =>
        obtain rfl := Except.ok.inj taken
        exact inOrder_deliver awaits _
      case isFalse =>
      split at taken <;>
      · obtain rfl := Except.ok.inj taken
        exact fun _ => awaits
    case h_4 =>
      split at taken
      case h_1 =>
        obtain rfl := Except.ok.inj taken
        exact fun _ => awaits
      case h_2 => cases taken

theorem inOrder_after (reached : State.after extent {} text = .ok state) :
    state.InOrder extent := by
  induction text using List.reverseRecOn generalizing state with
  | nil =>
    obtain rfl := Except.ok.inj reached
    exact fun _ => .inr rfl
  | append_singleton read c ih =>
    obtain ⟨middle, taken, before, last, rfl⟩ := after_concat reached
    have kept : taken.InOrder extent := (ih before).take last
    exact kept

/-- A string literal is ended by a quotation mark, and the lists around it after that. -/
theorem viable_of_string {chars : List Char} (reached : State.after extent {} front = .ok state)
    (token : state.token = .string chars) : Viable extent front := by
  have awaits : state.Awaits extent := inOrder_after reached (.inl (by simp [token]))
  obtain ⟨count, data, ran, some⟩ := @exists_run_deliver extent
    (state.moveTo (state.offset + '"'.utf8Size)) (.string (String.ofList chars.reverse)) awaits
  refine ⟨'"' :: List.replicate count ')', data, ?_, some⟩
  change State.run extent {} _ = _
  rw [run_append_of_after reached, run_cons_of_take (take_end_of_string token)]
  exact ran

theorem viable_of_escape {start : Nat} {chars : List Char}
    (reached : State.after extent {} front = .ok state)
    (token : state.token = .escape start chars) : Viable extent front := by
  have escaped : state.take extent 'n' = .ok { state with token := .string ('\n' :: chars) } := by
    rw [take, token]
    rfl
  exact (viable_of_string (after_concat_of_take reached escaped) rfl).of_append

/-- Where data are awaited, a string literal may begin. -/
theorem viable_of_pause (reached : State.after extent {} front = .ok state)
    (paused : state.pause = .ok ended) (awaits : ended.Awaits extent) : Viable extent front := by
  let behind := ended.moveTo (state.offset + '\n'.utf8Size)
  have feed : State.after extent {} (front ++ ['\n']) = .ok behind :=
    after_concat_of_take reached (take_line_feed paused)
  have between : ended.token = .between := token_of_pause paused
  have opened : behind.take extent '"' = .ok { behind with token := .string [] } :=
    @take_string extent behind between awaits
  exact (viable_of_string (after_concat_of_take feed opened) rfl).of_append.of_append

/-- Every place that a state remembers is the end of a viable prefix. -/
structure Remembers (extent : Extent) (read : List Char) (state : State) : Prop where
  atom : ∀ {start run}, state.token = .atom start run → ViableAt extent read start
  escape : ∀ {start chars}, state.token = .escape start chars → ViableAt extent read start
  quotes : ∀ {start}, Opening.quote start ∈ state.openings → ViableAt extent read start

theorem Remembers.take (remembers : Remembers extent read state)
    (reached : State.after extent {} read = .ok state) (taken : state.take extent c = .ok next) :
    Remembers extent (read ++ [c]) (next.moveTo (state.offset + c.utf8Size)) := by
  have inOrder : next.InOrder extent := (inOrder_after reached).take taken
  have here (viable : Viable extent read) : ViableAt extent (read ++ [c]) state.offset :=
    ⟨read, [c], rfl, (tells_after reached).offset.symm, viable⟩
  have before {start : Nat} (known : Opening.quote start ∈ state.openings) :
      ViableAt extent (read ++ [c]) start := (remembers.quotes known).append [c]
  -- A quote mark, an atom and a backslash add their own place; no other character adds one.
  cases takes_of_take taken with
  | @begins ended _ paused starts =>
    have begun (awaits : ended.Awaits extent) : ViableAt extent (read ++ [c]) ended.offset :=
      offset_of_pause paused ▸ here (viable_of_pause reached paused awaits)
    have kept {start : Nat} (known : Opening.quote start ∈ ended.openings) :
        ViableAt extent (read ++ [c]) start := before (quotes_of_pause paused known)
    cases starts with
    | skip | string => exact ⟨nofun, nofun, kept⟩
    | quote =>
      have awaits : ended.Awaits extent := inOrder (.inr (List.cons_ne_nil _ _))
      refine ⟨nofun, nofun, fun within => ?_⟩
      rcases List.mem_cons.mp within with new | old
      · obtain rfl := Opening.quote.inj new
        exact begun awaits
      · exact kept old
    | opening =>
      refine ⟨nofun, nofun, fun within => kept ?_⟩
      exact (List.mem_cons.mp within).resolve_left nofun
    | closing _ openings =>
      refine ⟨nofun, nofun, fun within => kept ?_⟩
      rw [openings]
      exact List.mem_cons_of_mem _ (mem_of_mem_settle within)
    | atom =>
      have awaits : ended.Awaits extent := inOrder (.inl nofun)
      refine ⟨fun atom => ?_, nofun, kept⟩
      obtain ⟨rfl, -⟩ := Token.atom.inj atom
      exact begun awaits
  | letter token =>
    refine ⟨fun atom => ?_, nofun, before⟩
    obtain ⟨rfl, -⟩ := Token.atom.inj atom
    exact (remembers.atom token).append [c]
  | closing => exact ⟨nofun, nofun, fun within => before (mem_of_mem_settle within)⟩
  | backslash token =>
    refine ⟨nofun, fun escape => ?_, before⟩
    obtain ⟨rfl, -⟩ := Token.escape.inj escape
    exact here (viable_of_string reached token)
  | plain | escaped => exact ⟨nofun, nofun, before⟩

theorem remembers_after (reached : State.after extent {} text = .ok state) :
    Remembers extent text state := by
  induction text using List.reverseRecOn generalizing state with
  | nil =>
    obtain rfl := Except.ok.inj reached
    exact ⟨nofun, nofun, nofun⟩
  | append_singleton read c ih =>
    obtain ⟨middle, taken, before, last, rfl⟩ := after_concat reached
    exact (ih before).take before last

theorem Remembers.missing (remembers : Remembers extent text state)
    (known : ∀ {start}, Opening.quote start ∈ openings → Opening.quote start ∈ state.openings)
    (viable : ViableAt extent text place) :
    ViableAt extent text (missing place openings).offset :=
  missing_offset_of_marks (ViableAt extent text)
    (fun within => remembers.quotes (known within)) viable

/-- Where the atom before it can end, a character is refused for what it begins. -/
theorem start_of_refused (paused : state.pause = .ok ended)
    (refused : state.take extent c = .error fault) : ended.start extent c = .error fault := by
  have begins : state.token = .between ∨
      ∃ start run, state.token = .atom start run ∧ Text.isSymbolChar c = false := by
    rcases pause_eq_ok paused with ⟨between, -⟩ | ⟨start, run, _, atom, -, -⟩
    · exact .inl between
    · refine .inr ⟨start, run, atom, Bool.eq_false_iff.mpr fun letter => ?_⟩
      rw [take, atom] at refused
      simp only [letter, if_true] at refused
      cases refused
  rw [take_eq_pause begins, paused] at refused
  exact refused

theorem viableAt_of_refused (reached : State.after extent {} read = .ok state)
    (refused : state.take extent c = .error fault) (notDeep : fault.trouble ≠ .tooDeep)
    (notTrailing : fault.trouble ≠ .trailing) : ViableAt extent read fault.offset := by
  have remembers : Remembers extent read state := remembers_after reached
  cases refuses_of_take refused with
  | atom atom => exact remembers.missing id (remembers.atom atom)
  | trailing => exact absurd rfl notTrailing
  | tooDeep => exact absurd rfl notDeep
  | escape token => exact remembers.escape token
  | @stray ended paused ink =>
    have awaits : ended.Awaits extent := by
      by_contra full
      have trailing := start_of_not_awaits full ink
      rw [start_of_refused paused refused] at trailing
      rw [Except.error.inj trailing] at notTrailing
      exact notTrailing rfl
    have viable : Viable extent read := viable_of_pause reached paused awaits
    exact remembers.missing (quotes_of_pause paused)
      ⟨read, [], (List.append_nil read).symm, (tells_after reached).offset.symm, viable⟩

theorem viableAt_of_finish (reached : State.after extent {} text = .ok state)
    (failed : state.finish = .error fault) : ViableAt extent text fault.offset := by
  have remembers : Remembers extent text state := remembers_after reached
  have atEnd (viable : Viable extent text) : ViableAt extent text state.offset :=
    ⟨text, [], (List.append_nil text).symm, (tells_after reached).offset.symm, viable⟩
  rw [finish_eq_pause] at failed
  cases paused : state.pause with
  | error cause =>
    rw [paused] at failed
    obtain rfl : cause = fault := Except.error.inj failed
    rcases pause_eq_error paused with ⟨inside, rfl⟩ | ⟨start, run, atom, rfl⟩
    · cases token : state.token with
      | between | atom => exact absurd (by rw [token]; rfl) inside
      | string => exact atEnd (viable_of_string reached token)
      | escape => exact atEnd (viable_of_escape reached token)
    · exact remembers.missing id (remembers.atom atom)
  | ok ended =>
    rw [paused] at failed
    change (if ended.openings.isEmpty then _ else _) = _ at failed
    split at failed
    case isTrue => cases failed
    case isFalse opened =>
      obtain rfl := Except.error.inj failed
      have awaits : ended.Awaits extent :=
        (inOrder_after reached).pause paused (.inr (by simpa using opened))
      rw [offset_of_pause paused]
      exact remembers.missing (quotes_of_pause paused)
        (atEnd (viable_of_pause reached paused awaits))

end State

/-- A fault comes up at a character that is refused, or at the end of the text. -/
theorem scan_eq_error {fault : Fault} (scanned : scan extent text = .error fault) :
    (∃ state, State.after extent {} text = .ok state ∧ state.finish = .error fault) ∨
      ∃ front c back state, text = front ++ c :: back ∧
        State.after extent {} front = .ok state ∧ state.take extent c = .error fault := by
  have ran : State.after extent {} text >>= State.finish = .error fault := scanned
  cases reached : State.after extent {} text with
  | ok state =>
    rw [reached] at ran
    exact .inl ⟨state, rfl, ran⟩
  | error cause =>
    rw [reached] at ran
    obtain rfl : cause = fault := Except.error.inj ran
    exact .inr (State.after_error reached)

/-- Every fault lies at the end of a viable prefix, unless data nest too deep or are too many. -/
theorem viableAt_of_scan {fault : Fault} (scanned : scan extent text = .error fault)
    (notDeep : fault.trouble ≠ .tooDeep) (notTrailing : fault.trouble ≠ .trailing) :
    ViableAt extent text fault.offset := by
  rcases scan_eq_error scanned with ⟨state, reached, failed⟩ |
    ⟨front, c, back, state, rfl, reached, refused⟩
  · exact State.viableAt_of_finish reached failed
  · exact (State.viableAt_of_refused reached refused notDeep notTrailing).append (c :: back)

/-- What trails the one datum of a text is refused where that datum may end. -/
theorem scan_of_trailing {fault : Fault} (scanned : scan extent text = .error fault)
    (trails : (report text fault).kind = .trailingContent) :
    ∃ front back data, text = front ++ back ∧ Text.byteLength front = fault.offset ∧
      scan extent front = .ok data ∧ data ≠ [] := by
  rcases scan_eq_error scanned with ⟨state, reached, failed⟩ |
    ⟨front, c, back, state, rfl, reached, refused⟩
  · rcases (State.tells_after reached).kind_of_finish failed with ⟨other, -⟩ | ⟨other, -⟩ <;>
      cases trails.symm.trans other
  · rw [kind_report] at trails
    cases State.refuses_of_take refused with
    | atom | stray =>
      rw [kind_missing] at trails
      split at trails <;> cases trails
    | tooDeep | escape => cases trails
    | @trailing ended paused datum some =>
      have outside : ended.openings = [] := by
        by_contra inside
        rcases (State.inOrder_after reached).pause paused (.inr inside) with program | none
        · cases datum.symm.trans program
        · exact some none
      have scanned : scan extent front = .ok ended.complete.reverse := by
        refine (State.run_eq_finish reached).trans ?_
        rw [State.finish_eq_pause, paused]
        change (if ended.openings.isEmpty then _ else _) = _
        rw [outside]
        rfl
      exact ⟨front, c :: back, _, rfl, (State.tells_after reached).offset.symm, scanned,
        by simpa using some⟩

section Errors

variable {source : String} {error : SourceError} {fault : Fault}

/-- An error points behind a beginning of a text: that is where the fault lies, and what the report
shows as its position and its context. -/
structure PointsBehind (extent : Extent) (source : String) (error : SourceError)
    (front : String) : Prop where
  within : ∃ rest, source = front ++ rest
  fault : ∃ fault, scan extent source.toList = .error fault ∧
    error = report source.toList fault ∧ fault.offset = Text.byteLength front.toList
  context : error.context
    = some (SourceError.excerpt source.toList (Text.byteLength front.toList))

/-- A report shows the text around the place of the fault. -/
theorem context_report (text : List Char) (fault : Fault) :
    (report text fault).context = some (SourceError.excerpt text fault.offset) := by
  simp only [report]
  cases fault.trouble with
  | tooDeep | badEscape | trailing => rfl
  | unclosed | noDatum =>
    dsimp only
    split <;> rfl

theorem pointsBehind_report (scanned : scan extent source.toList = .error fault)
    (cut : source.toList = front ++ back) (place : Text.byteLength front = fault.offset) :
    PointsBehind extent source (report source.toList fault) (String.ofList front) where
  within := ⟨String.ofList back, String.toList_inj.mp (by simpa using cut)⟩
  fault := ⟨fault, scanned, rfl, by rw [String.toList_ofList, place]⟩
  context := by rw [context_report, String.toList_ofList, place]

theorem readDatum_of_scan {data : List Value} (scanned : scan .datum source.toList = .ok data)
    (some : data ≠ []) : ∃ datum, readDatum false source = .ok datum := by
  cases data with
  | nil => exact absurd rfl some
  | cons datum more => exact ⟨datum, readDatum_eq_ok_iff.mpr (oneDatum_of_scan scanned)⟩

/-- A text that is refused as one datum has a fault, unless it holds nothing at all. -/
theorem readDatum_eq_error (failed : readDatum false source = .error error)
    (other : error.kind ≠ .incomplete) :
    ∃ fault, scan .datum source.toList = .error fault ∧ error = report source.toList fault := by
  simp only [readDatum] at failed
  split at failed
  case h_1 => cases failed
  case h_2 =>
    obtain rfl := Except.error.inj failed
    exact absurd (State.kind_report_at_end rfl) other
  case h_3 fault scanned =>
    exact ⟨fault, scanned, (Except.error.inj failed).symm⟩

theorem readProgram_eq_error (failed : readProgram false source = .error error) :
    ∃ fault, scan .program source.toList = .error fault ∧ error = report source.toList fault := by
  simp only [readProgram] at failed
  split at failed
  case h_1 => cases failed
  case h_2 fault scanned =>
    exact ⟨fault, scanned, (Except.error.inj failed).symm⟩

/-- Invalid syntax is reported behind a viable prefix. -/
theorem exists_viable (scanned : scan extent source.toList = .error fault)
    (invalid : (report source.toList fault).kind = .invalidSyntax) :
    ∃ front, PointsBehind extent source (report source.toList fault) front ∧
      ∃ more data, scan extent (front ++ more).toList = .ok data ∧ data ≠ [] := by
  have notDeep : fault.trouble ≠ .tooDeep := by
    intro deep
    rw [kind_report, deep] at invalid
    cases invalid
  have notTrailing : fault.trouble ≠ .trailing := by
    intro trailing
    rw [kind_report, trailing] at invalid
    cases invalid
  obtain ⟨front, back, cut, place, more, data, continued, some⟩ :=
    viableAt_of_scan scanned notDeep notTrailing
  have continued : scan extent (String.ofList front ++ String.ofList more).toList = .ok data := by
    rwa [String.toList_append, String.toList_ofList, String.toList_ofList]
  exact ⟨_, pointsBehind_report scanned cut place, _, data, continued, some⟩

/-- Errors point at the first bad place. With comments off, the text before the place of an error of
syntax is a beginning of some text that reads in the same way, be it as one datum or as a program.
Where content trails a datum, the text before its place reads as that datum. -/
theorem errors_point_behind_viable_prefixes (source : String) :
    (∀ error, readDatum false source = .error error → error.kind = .invalidSyntax →
      ∃ front, PointsBehind .datum source error front ∧
        ∃ more datum, readDatum false (front ++ more) = .ok datum) ∧
    (∀ error, readProgram false source = .error error → error.kind = .invalidSyntax →
      ∃ front, PointsBehind .program source error front ∧
        ∃ more data, readProgram false (front ++ more) = .ok data) ∧
    ∀ error, readDatum false source = .error error → error.kind = .trailingContent →
      ∃ front, PointsBehind .datum source error front ∧
        ∃ datum, readDatum false front = .ok datum := by
  refine ⟨fun error failed invalid => ?_, fun error failed invalid => ?_,
    fun error failed trails => ?_⟩
  · obtain ⟨fault, scanned, rfl⟩ := readDatum_eq_error failed (by rw [invalid]; decide)
    obtain ⟨front, points, more, data, continued, some⟩ := exists_viable scanned invalid
    exact ⟨front, points, more, readDatum_of_scan continued some⟩
  · obtain ⟨fault, scanned, rfl⟩ := readProgram_eq_error failed
    obtain ⟨front, points, more, data, continued, -⟩ := exists_viable scanned invalid
    exact ⟨front, points, more, data, readProgram_eq_ok_iff.mpr (scan_program_iff.mp continued)⟩
  · obtain ⟨fault, scanned, rfl⟩ := readDatum_eq_error failed (by rw [trails]; decide)
    obtain ⟨front, back, data, cut, place, read, some⟩ := scan_of_trailing scanned trails
    have read : scan .datum (String.ofList front).toList = .ok data := by
      rwa [String.toList_ofList]
    exact ⟨_, pointsBehind_report scanned cut place, readDatum_of_scan read some⟩

/-- The kind of the error that reading ends in. -/
def errorKind? {α : Type} : Except SourceError α → Option SourceErrorKind
  | .ok _ => none
  | .error error => some error.kind

theorem exists_of_errorKind? {α : Type} {result : Except SourceError α} {kind : SourceErrorKind}
    (fails : errorKind? result = some kind) :
    ∃ error, result = .error error ∧ error.kind = kind := by
  cases result with
  | ok datum => cases fails
  | error error => exact ⟨error, rfl, Option.some.inj fails⟩

/-- Behind a character of two bytes, a quote mark waits for something that is no atom; and content
trails a quoted symbol. -/
theorem errors_point_behind_viable_prefixes_in_list :
    let inList := "(f \"é\" '#q)"
    (∃ error, readDatum false inList = .error error ∧ error.kind = .invalidSyntax ∧
      ∃ front, PointsBehind .datum inList error front ∧
        ∃ more datum, readDatum false (front ++ more) = .ok datum) ∧
    (∃ error, readProgram false inList = .error error ∧ error.kind = .invalidSyntax ∧
      ∃ front, PointsBehind .program inList error front ∧
        ∃ more data, readProgram false (front ++ more) = .ok data) ∧
    ∃ error, readDatum false "'a \"b\\q" = .error error ∧ error.kind = .trailingContent ∧
      ∃ front, PointsBehind .datum "'a \"b\\q" error front ∧
        ∃ datum, readDatum false front = .ok datum := by
  intro inList
  obtain ⟨error, failed, kind⟩ := @exists_of_errorKind? _ (readDatum false inList) .invalidSyntax
    (by decide +kernel)
  obtain ⟨error', failed', kind'⟩ := @exists_of_errorKind? _ (readProgram false inList)
    .invalidSyntax (by decide +kernel)
  obtain ⟨trails, failed'', kind''⟩ := @exists_of_errorKind? _ (readDatum false "'a \"b\\q")
    .trailingContent (by decide +kernel)
  have points := errors_point_behind_viable_prefixes inList
  exact ⟨⟨error, failed, kind, points.1 error failed kind⟩,
    ⟨error', failed', kind', points.2.1 error' failed' kind'⟩, trails, failed'', kind'',
    (errors_point_behind_viable_prefixes _).2.2 trails failed'' kind''⟩

end Errors

end CellScheme.Reader
