import CellScheme.Proofs.Zones

/-!
Where faults lie, and which of them are reported as incomplete. A fault is reported as incomplete
when nothing but blanks stands from its place to the end of the text. The places that a state
remembers, of quote marks and of the atom that has begun, are places of ink (`State.Tells`). So a
fault at one of them is never reported as incomplete, and of the states that a whole text leads to,
just the ones that wait inside a string literal or a list are.
-/
namespace CellScheme.Reader

variable {text read : List Char} {offset : Nat} {c : Char} {fault : Fault}
  {openings : List Opening}

/-- A character that is no blank begins at a byte offset of a text. -/
def InkAt (text : List Char) (offset : Nat) : Prop :=
  ∃ front c back, text = front ++ c :: back ∧ Text.byteLength front = offset ∧
    Text.isBlank c = false

theorem InkAt.append (ink : InkAt text offset) (more : List Char) :
    InkAt (text ++ more) offset := by
  obtain ⟨front, c, back, rfl, place, notBlank⟩ := ink
  exact ⟨front, c, back ++ more, List.append_assoc front (c :: back) more, place, notBlank⟩

theorem inkAt_end (notBlank : Text.isBlank c = false) :
    InkAt (read ++ [c]) (Text.byteLength read) :=
  ⟨read, c, [], rfl, rfl, notBlank⟩

/-- From a place of ink on, a text is not blank. -/
theorem InkAt.allBlank_eq_false (ink : InkAt text offset) :
    Text.allBlank (Text.dropBytes offset text) = false := by
  obtain ⟨front, c, back, rfl, rfl, notBlank⟩ := ink
  rw [Text.dropBytes_byteLength, Text.allBlank, List.all_cons, notBlank, Bool.false_and]

/-- A text ends in a marked character outside string literals and comments, with nothing but
characters of a class behind it. -/
def EndsIn (mark behind : Char → Bool) (text : List Char) : Prop :=
  ∃ front c rest, text = front ++ c :: rest ∧ Zone.code.behind front = .code ∧ mark c = true ∧
    rest.all behind = true

theorem not_endsIn_nil (mark behind : Char → Bool) : ¬ EndsIn mark behind [] := by
  rintro ⟨front, c, rest, same, -⟩
  simp at same

theorem endsIn_append_iff {mark behind : Char → Bool} : EndsIn mark behind (read ++ [c]) ↔
    (mark c = true ∧ Zone.code.behind read = .code) ∨
      (behind c = true ∧ EndsIn mark behind read) := by
  constructor
  · rintro ⟨front, d, rest, same, code, marked, others⟩
    rcases List.eq_nil_or_concat rest with rfl | ⟨rest, last, rfl⟩
    · obtain ⟨rfl, tail⟩ := List.append_inj' same rfl
      obtain rfl : c = d := (List.cons.inj tail).1
      exact .inl ⟨marked, code⟩
    · rw [List.concat_eq_append] at same others
      rw [← List.cons_append, ← List.append_assoc] at same
      obtain ⟨rfl, tail⟩ := List.append_inj' same rfl
      obtain rfl : c = last := (List.cons.inj tail).1
      rw [List.all_append, Bool.and_eq_true] at others
      exact .inr ⟨by simpa using others.2, front, d, rest, rfl, code, marked, others.1⟩
  · rintro (⟨marked, code⟩ | ⟨last, front, d, rest, rfl, code, marked, others⟩)
    · exact ⟨read, c, [], rfl, code, marked, rfl⟩
    · refine ⟨front, d, rest ++ [c], List.append_assoc front (d :: rest) [c], code, marked, ?_⟩
      simp [List.all_append, others, last]

/-- The end of a text is decided from its last character backwards. -/
def decideEndsIn (mark behind : Char → Bool) :
    (backwards : List Char) → Decidable (EndsIn mark behind backwards.reverse)
  | [] => isFalse (not_endsIn_nil mark behind)
  | _ :: before =>
    have := decideEndsIn mark behind before
    decidable_of_iff _ (List.reverse_cons ▸ endsIn_append_iff.symm)

instance (mark behind : Char → Bool) (text : List Char) : Decidable (EndsIn mark behind text) :=
  have := decideEndsIn mark behind text.reverse
  decidable_of_iff (EndsIn mark behind text.reverse.reverse) (by rw [List.reverse_reverse])

/-- A text ends in a quote mark outside string literals and comments, with layout behind it. -/
def EndsInQuote (text : List Char) : Prop :=
  EndsIn (· == '\'') Text.isLayout text

/-- A blank that is no layout stands outside string literals and comments, and nothing but blanks
behind it. -/
def EndsInStrayBlank (text : List Char) : Prop :=
  EndsIn (fun c => Text.isBlank c && !Text.isLayout c) Text.isBlank text

instance (text : List Char) : Decidable (EndsInQuote text) :=
  inferInstanceAs (Decidable (EndsIn ..))

instance (text : List Char) : Decidable (EndsInStrayBlank text) :=
  inferInstanceAs (Decidable (EndsIn ..))

/-- The innermost opening is a quote mark. -/
def Quoting : List Opening → Prop
  | .quote _ :: _ => True
  | _ => False

/-- A datum closes the quote marks before it. -/
theorem not_quoting_settle (datum : Value) (complete : List Value) :
    ¬ Quoting (settle datum complete openings).1 := by
  induction openings generalizing datum with
  | nil => exact id
  | cons opening outer ih =>
    cases opening with
    | list items => exact id
    | quote start => exact ih _

theorem mem_of_mem_settle {datum : Value} {complete : List Value} {start : Nat}
    (within : Opening.quote start ∈ (settle datum complete openings).1) :
    Opening.quote start ∈ openings := by
  induction openings generalizing datum with
  | nil => cases within
  | cons opening outer ih =>
    cases opening with
    | list items =>
      rcases List.mem_cons.mp within with same | outside
      · cases same
      · exact List.mem_cons_of_mem _ outside
    | quote start' => exact List.mem_cons_of_mem _ (ih within)

/-- A missing datum is reported where it is missed or at a quote mark. -/
theorem missing_offset (offset : Nat) (openings : List Opening) :
    (missing offset openings).offset = offset ∨
      ∃ start, Opening.quote start ∈ openings ∧ (missing offset openings).offset = start := by
  induction openings generalizing offset with
  | nil => exact .inl rfl
  | cons opening outer ih =>
    cases opening with
    | list items => exact .inl rfl
    | quote start =>
      refine .inr ?_
      rcases ih start with here | ⟨start', within, place⟩
      · exact ⟨start, List.mem_cons_self, here⟩
      · exact ⟨start', List.mem_cons_of_mem _ within, place⟩

/-- What holds of the place where a datum is missed, and of every quote mark, holds of the place that
is reported. -/
theorem missing_offset_of_marks (P : Nat → Prop)
    (marks : ∀ {start}, Opening.quote start ∈ openings → P start) (here : P offset) :
    P (missing offset openings).offset := by
  rcases missing_offset offset openings with same | ⟨start, within, there⟩
  · rwa [same]
  · rw [there]
    exact marks within

/-- A fault at a place of ink or at one of the quote marks lies at a place of ink. -/
theorem inkAt_missing (marks : ∀ {start}, Opening.quote start ∈ openings → InkAt text start)
    (ink : InkAt text offset) : InkAt text (missing offset openings).offset :=
  missing_offset_of_marks (InkAt text) marks ink

/-- What is missing behind a quote mark is reported at a quote mark. -/
theorem inkAt_missing_of_quoting (offset : Nat)
    (marks : ∀ {start}, Opening.quote start ∈ openings → InkAt text start)
    (quoting : Quoting openings) : InkAt text (missing offset openings).offset := by
  cases openings with
  | nil => cases quoting
  | cons opening outer =>
    cases opening with
    | list items => cases quoting
    | quote start =>
      have ink : InkAt text start := marks List.mem_cons_self
      change InkAt text (missing start outer).offset
      exact inkAt_missing (fun within => marks (List.mem_cons_of_mem _ within)) ink

/-- The kind under which trouble is reported, given whether nothing but blanks stands from its place
to the end of the text. -/
def Trouble.kind (trouble : Trouble) (atEnd : Bool) : SourceErrorKind :=
  match trouble with
  | .tooDeep => .tooDeeplyNested
  | .badEscape => .invalidSyntax
  | .trailing => .trailingContent
  | .unclosed | .noDatum => if atEnd then .incomplete else .invalidSyntax

theorem kind_report (text : List Char) (fault : Fault) : (report text fault).kind
    = fault.trouble.kind (Text.allBlank (Text.dropBytes fault.offset text)) := by
  simp only [report]
  cases fault.trouble with
  | tooDeep | badEscape | trailing => rfl
  | unclosed | noDatum =>
    simp only [Trouble.kind]
    split <;> rfl

/-- A missing datum or closing character is reported as incomplete at the end of a text only. -/
theorem kind_missing (offset : Nat) (openings : List Opening) (atEnd : Bool) :
    (missing offset openings).trouble.kind atEnd
      = if atEnd then .incomplete else .invalidSyntax := by
  induction openings generalizing offset with
  | nil => rfl
  | cons opening outer ih =>
    cases opening with
    | list items => rfl
    | quote start => exact ih start

/-- What is missed at a place of ink is no lack of text. -/
theorem kind_report_missing_of_inkAt (ink : InkAt text (missing offset openings).offset) :
    (report text (missing offset openings)).kind = .invalidSyntax := by
  rw [kind_report, ink.allBlank_eq_false, kind_missing]
  rfl

namespace State

variable {extent : Extent} {state next ended : State}

/-- What a state tells about the text that led to it. -/
structure Tells (read : List Char) (state : State) : Prop where
  offset : state.offset = Text.byteLength read
  zone : state.token.zone = Zone.code.behind read
  atom : ∀ {start run}, state.token = .atom start run → InkAt read start
  quotes : ∀ {start}, Opening.quote start ∈ state.openings → InkAt read start
  quoting : state.token = .between ∧ Quoting state.openings ↔ EndsInQuote read

theorem quotes_of_pause (paused : state.pause = .ok ended) {start : Nat}
    (within : Opening.quote start ∈ ended.openings) : Opening.quote start ∈ state.openings := by
  rcases pause_eq_ok paused with ⟨-, rfl⟩ | ⟨_, _, _, -, -, rfl⟩
  · exact within
  · exact mem_of_mem_settle within

/-- An atom that has ended is the datum of the quote marks before it. -/
theorem quoting_of_pause (paused : state.pause = .ok ended) (quoting : Quoting ended.openings) :
    state.token = .between ∧ ended = state := by
  rcases pause_eq_ok paused with here | ⟨_, _, _, -, -, rfl⟩
  · exact here
  · exact absurd quoting (not_quoting_settle _ _)

/-- Behind a character, a quote mark waits for its datum in just two cases: it is the character, or
it has waited before and the character is layout. -/
theorem Takes.quoting_iff (takes : state.Takes extent c next) :
    next.token = .between ∧ Quoting next.openings ↔
      (c = '\'' ∧ state.token.zone = .code) ∨
        (Text.isLayout c = true ∧ state.token = .between ∧ Quoting state.openings) := by
  cases takes with
  | @begins ended _ paused starts =>
    have code : state.token.zone = .code := zone_of_pause paused
    cases starts with
    | skip skipped =>
      have ne : c ≠ '\'' := by
        rintro rfl
        cases isBlank_of_skips skipped
      constructor
      · rintro ⟨-, quoting⟩
        obtain ⟨between, same⟩ := quoting_of_pause paused quoting
        subst same
        have layout : Text.isLayout c = true := by
          match openings : ended.openings with
          | .quote _ :: _ => simpa [skips, openings] using skipped
          | [] | .list _ :: _ =>
            rw [openings] at quoting
            cases quoting
        exact .inr ⟨layout, between, quoting⟩
      · rintro (⟨rfl, -⟩ | ⟨-, between, quoting⟩)
        · exact absurd rfl ne
        · rcases pause_eq_ok paused with ⟨-, rfl⟩ | ⟨_, _, _, atom, -, -⟩
          · exact ⟨rfl, quoting⟩
          · rw [between] at atom
            cases atom
    | quote mark => exact ⟨fun _ => .inl ⟨mark, code⟩, fun _ => ⟨rfl, trivial⟩⟩
    | opening mark =>
      subst mark
      simp [Quoting, Text.isLayout]
    | closing mark =>
      subst mark
      simp [Text.isLayout, deliver_openings, not_quoting_settle]
    | string mark =>
      subst mark
      simp [Text.isLayout]
    | atom first =>
      have ink : Text.isLayout c = false := isLayout_of_isBlank (isBlank_of_wordStart first)
      have ne : c ≠ '\'' := ne_of_wordStart first _ (by decide)
      simp [ink, ne]
  | letter token symbol =>
    have ne : c ≠ '\'' := ne_of_wordStart (.inr symbol) _ (by decide)
    simp [token, ne]
  | closing token => simp [token, Token.zone, deliver_openings, not_quoting_settle]
  | backslash token | plain token | escaped token => simp [token, Token.zone]

theorem Tells.take (tells : Tells read state) (takes : state.Takes extent c next) :
    Tells (read ++ [c]) (next.moveTo (state.offset + c.utf8Size)) where
  offset := by
    have before : state.offset = Text.byteLength read := tells.offset
    simp [moveTo, before]
  zone := by
    rw [moveTo_token, ← takes.zone, tells.zone, Zone.behind_append]
    rfl
  atom := by
    intro start run atom
    rw [moveTo_token] at atom
    cases takes with
    | begins paused starts =>
      cases starts with
      | atom first =>
        obtain ⟨rfl, -⟩ := Token.atom.inj atom
        rw [offset_of_pause paused, tells.offset]
        exact inkAt_end (isBlank_of_wordStart first)
      | skip | quote | opening | closing | string => cases atom
    | letter token =>
      obtain ⟨rfl, -⟩ := Token.atom.inj atom
      exact (tells.atom token).append [c]
    | closing | backslash | plain | escaped => cases atom
  quotes := by
    intro start within
    rw [moveTo_openings] at within
    have before : Opening.quote start ∈ state.openings → InkAt (read ++ [c]) start :=
      fun old => (tells.quotes old).append [c]
    cases takes with
    | @begins ended _ paused starts =>
      have kept : Opening.quote start ∈ ended.openings → InkAt (read ++ [c]) start :=
        fun old => before (quotes_of_pause paused old)
      cases starts with
      | skip | string | atom => exact kept within
      | quote mark =>
        rcases List.mem_cons.mp within with new | old
        · obtain rfl := Opening.quote.inj new
          rw [offset_of_pause paused, tells.offset]
          exact inkAt_end (mark ▸ rfl)
        · exact kept old
      | opening =>
        rcases List.mem_cons.mp within with new | old
        · cases new
        · exact kept old
      | closing _ openings =>
        refine kept ?_
        rw [openings]
        exact List.mem_cons_of_mem _ (mem_of_mem_settle within)
    | letter | backslash | plain | escaped => exact before within
    | closing => exact before (mem_of_mem_settle within)
  quoting := by
    have appended : EndsInQuote (read ++ [c]) ↔ (c = '\'' ∧ Zone.code.behind read = .code) ∨
        (Text.isLayout c = true ∧ EndsInQuote read) := by
      simp only [EndsInQuote, endsIn_append_iff, beq_iff_eq]
    rw [moveTo_token, moveTo_openings, takes.quoting_iff, appended, tells.quoting, tells.zone]

/-- A state that a text leads to tells about that text. -/
theorem tells_after (reached : State.after extent {} text = .ok state) : Tells text state := by
  have start : Tells [] {} := {
    offset := rfl
    zone := rfl
    atom := fun atom => by cases atom
    quotes := fun within => by cases within
    quoting := iff_of_false (fun quoted => quoted.2) (not_endsIn_nil _ _) }
  exact after_induction Tells.take start reached

/-- A state that waits for the end of a string literal or of a list. -/
inductive Waits (state : State) : Prop
  | inString : state.token.zone ≠ .code → Waits state
  | inList {ended items outer} : state.pause = .ok ended → ended.openings = .list items :: outer →
    Waits state

theorem not_waits_of_quoting (paused : state.pause = .ok ended) (quoting : Quoting ended.openings) :
    ¬ state.Waits := by
  intro waits
  cases waits with
  | inString inside => exact inside (zone_of_pause paused)
  | inList paused' openings =>
    obtain rfl : ended = _ := Except.ok.inj (paused.symm.trans paused')
    rw [openings] at quoting
    exact quoting

theorem kind_report_at_end (last : fault.offset = Text.byteLength text) :
    (report text fault).kind = fault.trouble.kind true := by
  have rest : Text.dropBytes fault.offset text = [] := by
    have dropped := Text.dropBytes_byteLength text []
    rwa [List.append_nil, ← last] at dropped
  rw [kind_report, rest]
  rfl

/-- When a text ends too early, just those states are reported as incomplete that wait for the end
of a string literal or of a list. The other ones miss a datum at a place that the text does fill. -/
theorem Tells.kind_of_finish (tells : Tells text state) (failed : state.finish = .error fault) :
    ((report text fault).kind = .incomplete ∧ state.Waits) ∨
      ((report text fault).kind = .invalidSyntax ∧ ¬ state.Waits) := by
  rw [finish_eq_pause] at failed
  cases paused : state.pause with
  | error cause =>
    rw [paused] at failed
    obtain rfl : cause = fault := Except.error.inj failed
    rcases pause_eq_error paused with ⟨inside, rfl⟩ | ⟨start, run, atom, rfl⟩
    · exact .inl ⟨kind_report_at_end tells.offset, .inString inside⟩
    · have ink := inkAt_missing tells.quotes (tells.atom atom)
      refine .inr ⟨kind_report_missing_of_inkAt ink, fun waits => ?_⟩
      cases waits with
      | inString inside => simp [atom, Token.zone] at inside
      | inList ended => cases paused.symm.trans ended
  | ok ended =>
    rw [paused] at failed
    change (if ended.openings.isEmpty then _ else _) = _ at failed
    split at failed
    case isTrue => cases failed
    case isFalse some =>
    obtain rfl := Except.error.inj failed
    rcases openings : ended.openings with _ | ⟨items | start, outer⟩
    · exact absurd (List.isEmpty_iff.mpr openings) some
    · have last : (missing ended.offset (.list items :: outer)).offset = Text.byteLength text :=
        (offset_of_pause paused).trans tells.offset
      exact .inl ⟨kind_report_at_end last, .inList paused openings⟩
    · have quoting : Quoting ended.openings := openings ▸ trivial
      have ink := inkAt_missing_of_quoting ended.offset
        (fun within => tells.quotes (quotes_of_pause paused within)) quoting
      exact .inr ⟨openings ▸ kind_report_missing_of_inkAt ink, not_waits_of_quoting paused quoting⟩

/-- A text that ends in a quote mark is refused. -/
theorem Tells.finish_of_endsInQuote (tells : Tells text state) (ends : EndsInQuote text) :
    ∃ fault, state.finish = .error fault ∧ (report text fault).kind = .invalidSyntax := by
  obtain ⟨between, quoting⟩ := tells.quoting.mpr ends
  have paused : state.pause = .ok state := pause_of_between between
  cases finished : state.finish with
  | ok data =>
    rw [(exists_finish_iff paused).mp ⟨data, finished⟩] at quoting
    cases quoting
  | error fault =>
    rcases tells.kind_of_finish finished with ⟨-, waits⟩ | ⟨invalid, -⟩
    · exact absurd waits (not_waits_of_quoting paused quoting)
    · exact ⟨fault, rfl, invalid⟩

/-- A text that ends in no quote mark, and in no atom, is not refused for its end. -/
theorem Tells.kind_of_not_endsInQuote (tells : Tells text state)
    (noAtom : ∀ start run, state.token ≠ .atom start run) (other : ¬ EndsInQuote text)
    (failed : state.finish = .error fault) : (report text fault).kind = .incomplete := by
  rcases tells.kind_of_finish failed with ⟨incomplete, -⟩ | ⟨-, noWait⟩
  · exact incomplete
  · refine absurd ?_ noWait
    cases token : state.token with
    | string | escape => exact .inString (by simp [token, Token.zone])
    | atom start run => exact absurd token (noAtom start run)
    | between =>
      have paused : state.pause = .ok state := pause_of_between token
      rcases openings : state.openings with _ | ⟨items | start, outer⟩
      · obtain ⟨data, ended⟩ := (exists_finish_iff paused).mpr openings
        cases ended.symm.trans failed
      · exact .inList paused openings
      · exact absurd (tells.quoting.mp ⟨token, openings ▸ trivial⟩) other

end State

end CellScheme.Reader
