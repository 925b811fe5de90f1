import CellScheme.Proofs.Composition

/-!
What comments mean for reading. A text that reads with comments off holds no comment: its semicolons
stand inside string literals, for the reader and for the blanking alike (`turning_comments_on`).
With comments on, a comment is a gap: spaces outside string literals, behind which no symbol goes
on. The machine comes out of a gap in the state in which it went in, but for the places, which lie
further on by the width of the gap (`State.relocate_widen`). So a gap of any width, none included,
leads to the same data or to a fault of the same kind, and what a comment says does not matter
(`comments_do_not_matter`).
-/
namespace CellScheme.Reader

variable {extent : Extent} {text front body back : List Char} {data : List Value} {fault : Fault}

/-- Behind a character of a comment, and behind no other, stands a comment. -/
theorem Zone.after_eq_comment_iff {zone : Zone} {c : Char} :
    zone.after c = .comment ↔ zone.covers c = true := by
  cases zone with
  | code =>
    simp only [after, covers, beq_iff_eq]
    split_ifs with semicolon quote <;> simp [semicolon]
  | comment => simp [after, covers]
  | string =>
    simp only [after, covers]
    split_ifs <;> simp
  | escape => simp [after, covers]

namespace State

variable {state next : State} {c : Char}

/-- No character that is taken belongs to a comment. -/
theorem Takes.not_covered (takes : state.Takes extent c next) :
    state.token.zone.covers c = false := by
  refine Bool.eq_false_iff.mpr fun covered => next.token.zone_ne_comment ?_
  rw [← takes.zone, Zone.after_eq_comment_iff.mpr covered]

/-- Blanking the comments of a text that is taken changes nothing. -/
theorem blankFrom_of_after (reached : state.after extent text = .ok next) :
    blankFrom state.token.zone text = text := by
  induction text generalizing state with
  | nil => rfl
  | cons c text ih =>
    rw [after_cons] at reached
    obtain ⟨middle, taken, reached⟩ := bind_eq_ok.mp reached
    have takes : state.Takes extent c middle := takes_of_take taken
    have rest : blankFrom middle.token.zone text = text :=
      @ih (middle.moveTo (state.offset + c.utf8Size)) reached
    rw [blankFrom, takes.not_covered, takes.zone, rest]
    rfl

end State

theorem prepare_of_scan {source : String} (scanned : scan extent source.toList = .ok data) :
    prepare true source = prepare false source := by
  obtain ⟨state, reached, -⟩ := bind_eq_ok.mp scanned
  exact State.blankFrom_of_after reached

/-- Turning comments on does not change a text that reads without them, be it as one datum or as a
program. -/
theorem turning_comments_on (text : String) :
    (∀ datum, readDatum false text = .ok datum → readDatum true text = .ok datum) ∧
    ∀ data, readProgram false text = .ok data → readProgram true text = .ok data := by
  constructor
  · intro datum read
    rw [readDatum_eq_ok_iff] at read ⊢
    rwa [prepare_of_scan (scan_datum_of_oneDatum read)]
  · intro data read
    rw [readProgram_eq_ok_iff] at read ⊢
    rwa [prepare_of_scan (scan_program_iff.mpr read)]

/-- Semicolons behind an escaped quote mark, and behind a string that ends in a backslash. -/
theorem turning_comments_on_quoted_semicolons :
    let text := "(f \"a\\\";b\" \"\\\\\" \"; c\n\")"
    (∃ datum, readDatum false text = .ok datum ∧ readDatum true text = .ok datum) ∧
      ∃ data, readProgram false text = .ok data ∧ readProgram true text = .ok data := by
  intro text
  obtain ⟨data, program⟩ : Reads false text := by decide +kernel
  obtain ⟨datum, read⟩ : ∃ datum, readDatum false text = .ok datum := by
    have fine : (readDatum false text).isOk = true := by decide +kernel
    cases read : readDatum false text with
    | ok datum => exact ⟨datum, rfl⟩
    | error fault =>
      rw [read] at fine
      cases fine
  exact ⟨⟨datum, read, (turning_comments_on text).1 datum read⟩,
    data, program, (turning_comments_on text).2 data program⟩

/-- The data of a text, or the kind of the fault in it. -/
def verdict (extent : Extent) (text : List Char) : Except SourceErrorKind (List Value) :=
  (scan extent text).mapError fun fault => (report text fault).kind

/-- The one datum of a text that was read for one. -/
def soleDatum : List Value → Except SourceErrorKind Value
  | [] => .error .incomplete
  | datum :: _ => .ok datum

theorem readProgram_verdict (comments : Bool) (source : String) :
    (readProgram comments source).mapError SourceError.kind
      = verdict .program (prepare comments source) := by
  simp only [readProgram, verdict]
  cases scan .program (prepare comments source) <;> rfl

theorem readDatum_verdict (comments : Bool) (source : String) :
    (readDatum comments source).mapError SourceError.kind
      = verdict .datum (prepare comments source) >>= soleDatum := by
  simp only [readDatum, verdict]
  rcases scan .datum (prepare comments source) with fault | ⟨_ | ⟨datum, more⟩⟩
  · rfl
  · exact congrArg Except.error (State.kind_report_at_end rfl)
  · rfl

theorem InkAt.lt {offset : Nat} (ink : InkAt text offset) : offset < Text.byteLength text := by
  obtain ⟨before, c, behind, rfl, rfl, -⟩ := ink
  have wide := Char.utf8Size_pos c
  rw [Text.byteLength_append, Text.byteLength_cons]
  omega

theorem dropBytes_append_of_le {limit : Nat} (inside : limit ≤ Text.byteLength front) :
    Text.dropBytes limit (front ++ back) = Text.dropBytes limit front ++ back := by
  induction front generalizing limit with
  | nil =>
    obtain rfl : limit = 0 := Nat.le_zero.mp inside
    exact Text.dropBytes_byteLength [] back
  | cons c front ih =>
    rw [Text.byteLength_cons] at inside
    rw [List.cons_append, Text.dropBytes, Text.dropBytes]
    split
    · exact ih (by omega)
    · rfl

/-- The spaces of a gap. -/
def gap (width : Nat) : List Char :=
  List.replicate width ' '

/-- The place of each character behind a gap that is opened at some place. -/
def widen (start width : Nat) (place : Nat) : Nat :=
  if place < start then place else place + width

theorem widen_of_lt {start width place : Nat} (before : place < start) :
    widen start width place = place :=
  if_pos before

theorem slides_widen (start width : Nat) : Slides (widen start width) start := by
  intro further
  simp only [widen, if_neg (Nat.not_lt.mpr (Nat.le_add_right start further)), lt_irrefl, if_false]
  omega

theorem allBlank_append (front back : List Char) :
    Text.allBlank (front ++ back) = (Text.allBlank front && Text.allBlank back) :=
  List.all_append

theorem allBlank_gap (width : Nat) (text : List Char) :
    Text.allBlank (gap width ++ text) = Text.allBlank text := by
  induction width with
  | zero => rfl
  | succ width ih => exact ih

theorem byteLength_gap (width : Nat) : Text.byteLength (gap width) = width := by
  induction width with
  | zero => rfl
  | succ width ih =>
    change 1 + Text.byteLength (gap width) = width + 1
    omega

/-- A fault before a gap, or right at it, is reported under the same kind without the gap. -/
theorem kind_report_gap (width : Nat) (before : fault.offset ≤ Text.byteLength front) :
    (report (front ++ (gap width ++ back)) fault).kind = (report (front ++ back) fault).kind := by
  have same : Text.allBlank (Text.dropBytes fault.offset front ++ (gap width ++ back))
      = Text.allBlank (Text.dropBytes fault.offset front ++ back) := by
    rw [allBlank_append, allBlank_gap, allBlank_append]
  rw [kind_report, kind_report, dropBytes_append_of_le before, dropBytes_append_of_le before, same]

/-- A fault is reported under the same kind when a gap is closed. -/
theorem kind_report_widen (width : Nat) :
    (report (front ++ (gap width ++ back))
        (fault.relocate (widen (Text.byteLength front) width))).kind
      = (report (front ++ back) fault).kind := by
  rcases Nat.lt_or_ge fault.offset (Text.byteLength front) with before | behind
  · have same : fault.relocate (widen (Text.byteLength front) width) = fault := by
      rw [Fault.relocate, widen_of_lt before]
    rw [same, kind_report_gap width before.le]
  · obtain ⟨further, place⟩ := Nat.exists_eq_add_of_le behind
    have moved : widen (Text.byteLength front) width fault.offset
        = Text.byteLength (front ++ gap width) + further := by
      rw [place, slides_widen, widen, if_neg (lt_irrefl _), Text.byteLength_append, byteLength_gap]
    rw [kind_report, kind_report, Fault.relocate, moved, place, dropBytes_append,
      ← List.append_assoc, dropBytes_append]

namespace State

variable {state ended : State} {c : Char} {openings : List Opening} {offset : Nat}

/-- Outside string literals, a token ends where no symbol goes on. -/
theorem run_eq_pause (code : state.token.zone = .code) (ends : Grammar.RunEnds text) :
    state.run extent text = state.pause >>= fun ended => ended.run extent text := by
  have begins : ∀ c ∈ text.head?, state.token = .between ∨
      ∃ start run, state.token = .atom start run ∧ Text.isSymbolChar c = false := by
    intro c first
    cases token : state.token with
    | between => exact .inl rfl
    | atom start run => exact .inr ⟨start, run, rfl, ends c first⟩
    | string | escape =>
      rw [token] at code
      cases code
  cases paused : state.pause with
  | error fault =>
    cases text with
    | nil =>
      rw [run_nil, finish_eq_pause, paused]
      rfl
    | cons c text =>
      rw [run_cons, take_eq_pause (begins c rfl), paused]
      rfl
  | ok ended =>
    have again : ended.pause = .ok ended := pause_of_between (token_of_pause paused)
    change _ = ended.run extent text
    cases text with
    | nil => rw [run_nil, run_nil, finish_eq_pause, finish_eq_pause, paused, again]
    | cons c text =>
      rw [run_cons, run_cons, take_eq_pause (begins c rfl),
        take_eq_pause (.inl (token_of_pause paused)), paused, again, offset_of_pause paused]

/-- The spaces of a gap are skipped. -/
theorem run_gap (between : state.token = .between) (width : Nat) :
    state.run extent (gap width ++ text)
      = (state.moveTo (state.offset + width)).run extent text := by
  induction width generalizing state with
  | zero => rfl
  | succ width ih =>
    have skipped : state.skips extent ' ' = true := skips_of_isLayout state extent rfl
    change state.run extent (' ' :: (gap width ++ text)) = _
    rw [run_cons_of_take (take_skip between skipped)]
    refine (@ih (state.moveTo (state.offset + 1)) between).trans ?_
    change (state.moveTo (state.offset + 1 + width)).run extent text = _
    rw [Nat.add_assoc, Nat.add_comm 1 width]

/-- The machine comes out of a gap as it went in, but for the places. -/
theorem relocate_widen {width : Nat} (between : ended.token = .between)
    (before : ∀ {start}, Opening.quote start ∈ ended.openings → start < ended.offset) :
    ended.relocate (widen ended.offset width) [] = ended.moveTo (ended.offset + width) := by
  have here : widen ended.offset width ended.offset = ended.offset + width :=
    if_neg (lt_irrefl _)
  have same : ended.openings.map (Opening.relocate (widen ended.offset width))
      = ended.openings := by
    refine (List.map_congr_left fun opening within => ?_).trans (List.map_id _)
    cases opening with
    | list items => rfl
    | quote start => exact congrArg Opening.quote (widen_of_lt (before within))
  simp only [relocate, moveTo, here, same, between, List.append_nil, Token.relocate]

/-- The state behind a text whose last token ends with it. -/
def pausedAfter (extent : Extent) (text : List Char) : Except Fault State :=
  State.after extent {} text >>= pause

/-- Outside string literals, where no symbol goes on, the rest of a text is left to that state. -/
theorem scan_append (code : Zone.code.behind front = .code) (ends : Grammar.RunEnds back) :
    scan extent (front ++ back)
      = pausedAfter extent front >>= fun ended => ended.run extent back := by
  change State.run extent {} (front ++ back) = _
  rw [run_eq_after, after_append, pausedAfter]
  cases reached : State.after extent {} front with
  | error fault => rfl
  | ok state => exact run_eq_pause ((zone_after reached).symm.trans code) ends

/-- A missing datum is missed inside the text that has been read, or at its end. -/
theorem Tells.missing_offset_le (tells : Tells text state) (here : offset ≤ Text.byteLength text)
    (known : ∀ {start}, .quote start ∈ openings → .quote start ∈ state.openings) :
    (missing offset openings).offset ≤ Text.byteLength text :=
  missing_offset_of_marks (· ≤ Text.byteLength text)
    (fun within => (tells.quotes (known within)).lt.le) here

/-- A character is refused for what was read before it, or for itself. Escapes are set apart: where
the backslash stands is no matter for the report. -/
theorem Tells.offset_le_of_refuses (tells : Tells text state)
    (refuses : state.Refuses extent c fault) :
    fault.trouble = .badEscape ∨ fault.offset ≤ Text.byteLength text + c.utf8Size := by
  have wide := Char.utf8Size_pos c
  have here : state.offset = Text.byteLength text := tells.offset
  cases refuses with
  | escape => exact .inl rfl
  | atom atom =>
    have before := tells.missing_offset_le (tells.atom atom).lt.le id
    exact .inr (by omega)
  | trailing =>
    refine .inr ?_
    change state.offset ≤ _
    omega
  | tooDeep =>
    refine .inr ?_
    change state.offset + 1 ≤ _
    omega
  | stray paused =>
    have before := tells.missing_offset_le here.le (quotes_of_pause paused)
    exact .inr (by omega)

/-- A text that is refused, or ends in an atom that denotes nothing, is so for what stands in it. -/
theorem offset_le_of_pausedAfter (code : Zone.code.behind text = .code)
    (stopped : pausedAfter extent text = .error fault) :
    fault.trouble = .badEscape ∨ fault.offset ≤ Text.byteLength text := by
  unfold pausedAfter at stopped
  cases reached : State.after extent {} text with
  | ok state =>
    have tells : Tells text state := tells_after reached
    rw [reached] at stopped
    rcases pause_eq_error stopped with ⟨inside, -⟩ | ⟨start, run, atom, rfl⟩
    · exact absurd (tells.zone.trans code) inside
    · exact .inr (tells.missing_offset_le (tells.atom atom).lt.le id)
  | error cause =>
    rw [reached] at stopped
    obtain rfl : cause = fault := Except.error.inj stopped
    obtain ⟨read, c, rest, state, rfl, taken, refused⟩ := after_error reached
    have tells : Tells read state := tells_after taken
    refine (tells.offset_le_of_refuses (refuses_of_take refused)).imp_right fun place => ?_
    rw [Text.byteLength_append, Text.byteLength_cons]
    omega

end State

/-- Outside string literals, where no symbol goes on, the width of a gap does not matter. -/
theorem verdict_gap (width : Nat) (code : Zone.code.behind front = .code)
    (ends : Grammar.RunEnds back) :
    verdict extent (front ++ (gap width ++ back)) = verdict extent (front ++ back) := by
  have ends' : Grammar.RunEnds (gap width ++ back) := by
    cases width with
    | zero => exact ends
    | succ width =>
      intro c first
      obtain rfl : ' ' = c := Option.some.inj first
      exact isSymbolChar_of_isLayout rfl
  unfold verdict
  rw [State.scan_append code ends', State.scan_append code ends]
  cases reached : State.pausedAfter extent front with
  | error fault =>
    refine congrArg Except.error ?_
    change (report (front ++ (gap width ++ back)) fault).kind = (report (front ++ back) fault).kind
    rcases State.offset_le_of_pausedAfter code reached with escape | before
    · rw [kind_report, kind_report, escape]
      rfl
    · exact kind_report_gap width before
  | ok ended =>
    obtain ⟨state, reached, paused⟩ := bind_eq_ok.mp reached
    have tells : State.Tells front state := State.tells_after reached
    have between : ended.token = .between := State.token_of_pause paused
    have here : ended.offset = Text.byteLength front :=
      (State.offset_of_pause paused).trans tells.offset
    have before : ∀ {start}, Opening.quote start ∈ ended.openings → start < ended.offset := by
      intro start within
      rw [here]
      exact (tells.quotes (State.quotes_of_pause paused within)).lt
    -- Behind the gap all places lie further on; those remembered from before it stay.
    change (ended.run extent (gap width ++ back)).mapError _ = (ended.run extent back).mapError _
    rw [State.run_gap between, ← State.relocate_widen between before,
      State.run_relocate (slides_widen _ _) (.inr rfl), here]
    cases ended.run extent back with
    | ok data => rfl
    | error fault => exact congrArg Except.error (kind_report_widen width)

/-- A text ends its first line at once: it is empty or begins with a line feed. -/
def EndsLine (text : List Char) : Prop :=
  ∀ c ∈ text.head?, c = '\n'

theorem EndsLine.runEnds (ends : EndsLine text) : Grammar.RunEnds text := by
  intro c first
  rw [ends c first]
  exact isSymbolChar_of_isLayout rfl

/-- A comment ends with its line. -/
theorem EndsLine.blankFrom_comment (ends : EndsLine text) :
    blankFrom .comment text = blankFrom .code text := by
  cases text with
  | nil => rfl
  | cons c text =>
    obtain rfl : c = '\n' := ends c rfl
    rfl

theorem EndsLine.blankComments (ends : EndsLine text) : EndsLine (blankComments text) := by
  cases text with
  | nil => exact ends
  | cons c text =>
    obtain rfl : c = '\n' := ends c rfl
    intro c first
    exact (Option.some.inj first).symm

theorem blankFrom_comment (oneLine : '\n' ∉ body) :
    blankFrom .comment body = gap (Text.byteLength body) ∧ Zone.comment.behind body = .comment := by
  induction body with
  | nil => exact ⟨rfl, rfl⟩
  | cons c body ih =>
    have inside : c ≠ '\n' := fun same => oneLine (same ▸ List.mem_cons_self)
    obtain ⟨blanked, behind⟩ := ih fun within => oneLine (List.mem_cons_of_mem _ within)
    have stays : Zone.comment.after c = .comment := if_neg inside
    have covered : Zone.comment.covers c = true := Zone.after_eq_comment_iff.mp stays
    constructor
    · rw [blankFrom, covered, stays, blanked, Text.byteLength_cons]
      exact (List.replicate_add ..).symm
    · change (Zone.comment.after c).behind body = .comment
      rwa [stays]

/-- Behind code, a comment is blanked to a gap. -/
theorem blankComments_comment (code : Zone.code.behind front = .code) (oneLine : '\n' ∉ body)
    (ends : EndsLine back) : blankComments (front ++ ';' :: (body ++ back))
      = blankComments front ++ (gap (Text.byteLength body + 1) ++ blankComments back) := by
  obtain ⟨blanked, behind⟩ := blankFrom_comment oneLine
  have comment : blankFrom .code (';' :: (body ++ back))
      = ' ' :: blankFrom .comment (body ++ back) := rfl
  unfold blankComments
  rw [blankFrom_append, code, comment, blankFrom_append, blanked, behind, ends.blankFrom_comment]
  rfl

/-- A comment can be left out. -/
theorem verdict_comment (code : Zone.code.behind front = .code) (oneLine : '\n' ∉ body)
    (ends : EndsLine back) : verdict extent (blankComments (front ++ ';' :: (body ++ back)))
      = verdict extent (blankComments (front ++ back)) := by
  have code' : Zone.code.behind (blankComments front) = .code := by
    have kept := Zone.behind_blankFrom .code front
    rwa [code] at kept
  have split : blankComments (front ++ back) = blankComments front ++ blankComments back := by
    rw [blankComments, blankFrom_append, code]
    rfl
  rw [blankComments_comment code oneLine ends, split]
  exact verdict_gap _ code' ends.blankComments.runEnds

/-- A text without the characters of its comments, from a zone on. -/
def uncommentFrom (zone : Zone) : List Char → List Char
  | [] => []
  | c :: rest =>
    if zone.covers c then uncommentFrom (zone.after c) rest
    else c :: uncommentFrom (zone.after c) rest

/-- A text without its comments. The line feeds behind them stay. -/
def uncomment (text : String) : String :=
  String.ofList (uncommentFrom .code text.toList)

theorem uncommentFrom_comment (oneLine : '\n' ∉ body) (ends : EndsLine back) :
    uncommentFrom .comment (body ++ back) = uncommentFrom .code back := by
  induction body with
  | nil =>
    cases back with
    | nil => rfl
    | cons c back =>
      obtain rfl : c = '\n' := ends c rfl
      rfl
  | cons c body ih =>
    have inside : c ≠ '\n' := fun same => oneLine (same ▸ List.mem_cons_self)
    have stays : Zone.comment.after c = .comment := if_neg inside
    have covered : Zone.comment.covers c = true := Zone.after_eq_comment_iff.mp stays
    rw [List.cons_append, uncommentFrom, if_pos covered, stays]
    exact ih fun within => oneLine (List.mem_cons_of_mem _ within)

/-- The rest of a line and what follows it. -/
theorem exists_line (text : List Char) :
    ∃ body back, text = body ++ back ∧ '\n' ∉ body ∧ EndsLine back := by
  induction text with
  | nil => exact ⟨[], [], rfl, List.not_mem_nil, fun _ first => nomatch first⟩
  | cons c text ih =>
    by_cases feed : c = '\n'
    · exact ⟨[], c :: text, rfl, List.not_mem_nil, fun d first => Option.some.inj first ▸ feed⟩
    · obtain ⟨body, back, rfl, oneLine, ends⟩ := ih
      refine ⟨c :: body, back, rfl, fun within => ?_, ends⟩
      rcases List.mem_cons.mp within with same | later
      · exact feed same.symm
      · exact oneLine later

/-- All comments can be left out, one after the other. -/
theorem verdict_uncommentFrom (other : Zone.code.behind front ≠ .comment) :
    verdict extent (blankComments (front ++ text)) = verdict extent
      (blankComments (front ++ uncommentFrom (Zone.code.behind front) text)) := by
  -- A comment goes as a whole, so the induction is on the length.
  induction length : text.length using Nat.strongRecOn generalizing front text with
  | ind size ih =>
  match text with
  | [] => rfl
  | c :: rest =>
    have behind : Zone.code.behind (front ++ [c]) = (Zone.code.behind front).after c :=
      Zone.behind_append ..
    cases covered : (Zone.code.behind front).covers c with
    | true =>
      obtain ⟨code, rfl⟩ : Zone.code.behind front = .code ∧ c = ';' := by
        cases zone : Zone.code.behind front with
        | code => simpa [zone, Zone.covers] using covered
        | comment => exact absurd zone other
        | string | escape => simp [zone, Zone.covers] at covered
      obtain ⟨body, back, rfl, oneLine, ends⟩ := exists_line rest
      have left : uncommentFrom .code (';' :: (body ++ back)) = uncommentFrom .code back :=
        uncommentFrom_comment oneLine ends
      have shorter : back.length < size := by
        simp only [← length, List.length_cons, List.length_append]
        omega
      rw [verdict_comment code oneLine ends, code, left, ← code]
      exact ih _ shorter other rfl
    | false =>
      have other' : Zone.code.behind (front ++ [c]) ≠ .comment := by
        rw [behind, Ne, Zone.after_eq_comment_iff, covered]
        exact Bool.false_ne_true
      have shorter : rest.length < size := length ▸ Nat.lt_succ_self _
      rw [uncommentFrom, covered, if_neg Bool.false_ne_true, ← behind, List.append_cons,
        List.append_cons front c (uncommentFrom _ rest)]
      exact ih _ shorter other' rfl

/-- Two texts are read alike with comments on, as one datum and as a program: to the same data, or
with faults of the same kind. -/
structure ReadAlike (first second : String) : Prop where
  datum : (readDatum true first).mapError SourceError.kind
    = (readDatum true second).mapError SourceError.kind
  program : (readProgram true first).mapError SourceError.kind
    = (readProgram true second).mapError SourceError.kind

namespace ReadAlike

variable {first second third : String}

theorem symm (alike : ReadAlike first second) : ReadAlike second first :=
  ⟨alike.datum.symm, alike.program.symm⟩

theorem trans (alike : ReadAlike first second) (alike' : ReadAlike second third) :
    ReadAlike first third :=
  ⟨alike.datum.trans alike'.datum, alike.program.trans alike'.program⟩

theorem of_verdict (same : ∀ extent, verdict extent (blankComments first.toList)
    = verdict extent (blankComments second.toList)) : ReadAlike first second where
  datum := by
    rw [readDatum_verdict, readDatum_verdict]
    exact congrArg (· >>= soleDatum) (same .datum)
  program := by
    rw [readProgram_verdict, readProgram_verdict]
    exact same .program

theorem uncomment (text : String) : ReadAlike text (uncomment text) := by
  refine of_verdict fun extent => ?_
  have same := @verdict_uncommentFrom extent text.toList [] (by decide)
  rwa [Reader.uncomment, String.toList_ofList]

theorem comment {front body back : String} (code : Zone.code.behind front.toList = .code)
    (oneLine : '\n' ∉ body.toList) (ends : EndsLine back.toList) :
    ReadAlike (front ++ ";" ++ body ++ back) (front ++ back) := by
  refine of_verdict fun extent => ?_
  have whole : (front ++ ";" ++ body ++ back).toList
      = front.toList ++ ';' :: (body.toList ++ back.toList) := by simp
  rw [whole, String.toList_append]
  exact verdict_comment code oneLine ends

end ReadAlike

/-- Comments do not matter. When a comment is replaced by another one, or is deleted up to the end
of its line, a text is read alike; and so it is when any number of comments change. -/
theorem comments_do_not_matter :
    (∀ front body other back : String, Zone.code.behind front.toList = .code →
      '\n' ∉ body.toList → '\n' ∉ other.toList → EndsLine back.toList →
      ReadAlike (front ++ ";" ++ body ++ back) (front ++ ";" ++ other ++ back) ∧
        ReadAlike (front ++ ";" ++ body ++ back) (front ++ back)) ∧
    ∀ first second, uncomment first = uncomment second → ReadAlike first second := by
  constructor
  · intro front body other back code oneLine oneLine' ends
    have deleted := ReadAlike.comment code oneLine ends
    exact ⟨deleted.trans (ReadAlike.comment code oneLine' ends).symm, deleted⟩
  · intro first second same
    have alike := ReadAlike.uncomment first
    rw [same] at alike
    exact alike.trans (ReadAlike.uncomment second).symm

/-- A comment stands between a quote mark and its datum, behind a string with a semicolon. -/
theorem comments_do_not_matter_behind_quote_mark :
    (ReadAlike ("(f \";\" '" ++ ";" ++ " \"(\\; é" ++ "\nx)")
        ("(f \";\" '" ++ ";" ++ "" ++ "\nx)") ∧
      ReadAlike ("(f \";\" '" ++ ";" ++ " \"(\\; é" ++ "\nx)") ("(f \";\" '" ++ "\nx)")) ∧
    ReadAlike "#;t\n'( ; )\n\";\";" "#\n'( \n\";\"" := by
  have code : Zone.code.behind "(f \";\" '".toList = .code := rfl
  have oneLine : '\n' ∉ " \"(\\; é".toList := by simp
  have ends : EndsLine "\nx)".toList := by simp [EndsLine]
  have same : uncomment "#;t\n'( ; )\n\";\";" = uncomment "#\n'( \n\";\"" := rfl
  exact ⟨comments_do_not_matter.1 _ _ _ _ code oneLine (by simp) ends,
    comments_do_not_matter.2 _ _ same⟩

end CellScheme.Reader
