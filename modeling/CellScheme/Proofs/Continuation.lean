import CellScheme.Proofs.FaultPlaces

/-!
When more text helps. A text whose beginning is read line by line is never refused for being
unfinished, unless the beginning ends in a quote mark (`front_may_go_on_iff`). A text that is
reported as incomplete becomes readable by some text behind it, unless it ends in a blank inside a
list that is no layout (`completable_iff`).
-/
namespace CellScheme.Reader

variable {comments : Bool} {text : String} {kind : SourceErrorKind}

/-- A text reads as a program. -/
def Reads (comments : Bool) (text : String) : Prop :=
  ∃ data, readProgram comments text = .ok data

/-- A text does not read as a program, for a reason of some kind. -/
def FailsWith (kind : SourceErrorKind) (comments : Bool) (text : String) : Prop :=
  ∃ fault, readProgram comments text = .error fault ∧ fault.kind = kind

/-- A text reads as a program, or it is reported as the beginning of one. -/
def MayGoOn (comments : Bool) (text : String) : Prop :=
  Reads comments text ∨ FailsWith .incomplete comments text

instance : Decidable (Reads comments text) :=
  match read : readProgram comments text with
  | .ok data => isTrue ⟨data, read⟩
  | .error _ => isFalse fun ⟨_, other⟩ => nomatch read.symm.trans other

instance : Decidable (FailsWith kind comments text) :=
  match read : readProgram comments text with
  | .ok _ => isFalse fun ⟨_, other, _⟩ => nomatch read.symm.trans other
  | .error fault => decidable_of_iff (fault.kind = kind)
    ⟨fun same => ⟨fault, read, same⟩,
      fun ⟨_, other, same⟩ => Except.error.inj (read.symm.trans other) ▸ same⟩

instance : Decidable (MayGoOn comments text) :=
  inferInstanceAs (Decidable (_ ∨ _))

/-- Every beginning of a text that ends behind a line feed may go on. -/
def GoesOnByLine (comments : Bool) (text : String) : Prop :=
  ∀ front rest, text = front ++ "\n" ++ rest → MayGoOn comments (front ++ "\n")

theorem goesOnByLine_iff : GoesOnByLine comments text ↔
    ∀ i < text.toList.length, text.toList[i]? = some '\n' →
      MayGoOn comments (String.ofList (text.toList.take i) ++ "\n") := by
  constructor
  · intro goesOn i inside feed
    obtain ⟨_, feed⟩ := List.getElem?_eq_some_iff.mp feed
    refine goesOn _ (String.ofList (text.toList.drop (i + 1))) (String.toList_inj.mp ?_)
    have whole : text.toList
        = text.toList.take i ++ text.toList[i] :: text.toList.drop (i + 1) := by
      rw [← List.drop_eq_getElem_cons, List.take_append_drop]
    rw [feed] at whole
    simpa using whole
  · intro goesOn front rest same
    have whole : text.toList = front.toList ++ '\n' :: rest.toList := by simp [same]
    have front' : String.ofList (text.toList.take front.toList.length) = front := by
      rw [whole, List.take_left, String.ofList_toList]
    have goesOn := goesOn front.toList.length (by simp [whole]) (by simp [whole])
    rwa [front'] at goesOn

instance : Decidable (GoesOnByLine comments text) :=
  decidable_of_iff _ goesOnByLine_iff.symm

theorem FailsWith.not_reads (fails : FailsWith kind comments text) : ¬ Reads comments text := by
  rintro ⟨_, read⟩
  obtain ⟨_, failed, -⟩ := fails
  cases read.symm.trans failed

theorem FailsWith.kind_eq {other : SourceErrorKind} (fails : FailsWith kind comments text)
    (fails' : FailsWith other comments text) : kind = other := by
  obtain ⟨fault, failed, rfl⟩ := fails
  obtain ⟨fault', failed', rfl⟩ := fails'
  rw [Except.error.inj (failed.symm.trans failed')]

theorem FailsWith.not_mayGoOn (fails : FailsWith kind comments text) (other : kind ≠ .incomplete) :
    ¬ MayGoOn comments text := by
  intro goesOn
  rcases goesOn with reads | incomplete
  · exact fails.not_reads reads
  · exact other (fails.kind_eq incomplete)

theorem reads_iff :
    Reads comments text ↔ ∃ data, scan .program (prepare comments text) = .ok data := by
  simp only [Reads, readProgram]
  cases scan .program (prepare comments text) with
  | ok data => exact iff_of_true ⟨data, rfl⟩ ⟨data, rfl⟩
  | error fault =>
    constructor
    · rintro ⟨_, read⟩
      cases read
    · rintro ⟨_, scanned⟩
      cases scanned

theorem failsWith_iff : FailsWith kind comments text ↔
    ∃ fault, scan .program (prepare comments text) = .error fault ∧
      (report (prepare comments text) fault).kind = kind := by
  simp only [FailsWith, readProgram]
  cases scan .program (prepare comments text) with
  | ok data =>
    constructor
    · rintro ⟨_, read, -⟩
      cases read
    · rintro ⟨_, scanned, -⟩
      cases scanned
  | error fault =>
    constructor
    · rintro ⟨_, read, same⟩
      obtain rfl := Except.error.inj read
      exact ⟨fault, rfl, same⟩
    · rintro ⟨_, scanned, same⟩
      obtain rfl := Except.error.inj scanned
      exact ⟨_, rfl, same⟩

section Lines

variable {first second : String}

/-- The machine takes every beginning of a text that reads. -/
theorem exists_after_of_reads (reads : Reads comments (first ++ second)) :
    ∃ state, State.after .program {} (prepare comments first) = .ok state := by
  obtain ⟨data, scanned⟩ := reads_iff.mp reads
  obtain ⟨more, prepared⟩ := exists_prepare_append comments first second
  have ran : State.run .program {} (prepare comments first ++ more) = .ok data :=
    prepared ▸ scanned
  rw [State.run_eq_after, State.after_append, bind_assoc] at ran
  obtain ⟨state, reached, -⟩ := bind_eq_ok.mp ran
  exact ⟨state, reached⟩

/-- The line feed behind a line is never part of a comment. -/
theorem prepare_line (comments : Bool) (line : String) :
    prepare comments (line ++ "\n") = prepare comments line ++ ['\n'] := by
  have feed (zone : Zone) : blankFrom zone ['\n'] = ['\n'] := by cases zone <;> rfl
  unfold prepare
  rw [String.toList_append]
  split
  · rw [blankComments, blankFrom_append]
    exact congrArg (blankComments line.toList ++ ·) (feed _)
  · rfl

/-- A beginning of a program that ends behind a line feed reads or is reported as incomplete, unless
a quote mark still waits for its datum there: then it is refused. -/
theorem front_may_go_on_iff (front rest : String) (reads : Reads true (front ++ "\n" ++ rest)) :
    (MayGoOn true (front ++ "\n") ↔ ¬ EndsInQuote (prepare true (front ++ "\n"))) ∧
      (EndsInQuote (prepare true (front ++ "\n")) →
        FailsWith .invalidSyntax true (front ++ "\n")) := by
  obtain ⟨state, reached⟩ := exists_after_of_reads reads
  have tells : State.Tells (prepare true (front ++ "\n")) state := State.tells_after reached
  have noAtom : ∀ start run, state.token ≠ .atom start run :=
    State.token_ne_atom_of_line_feed (prepare_line true front ▸ reached)
  have scanned : scan .program (prepare true (front ++ "\n")) = state.finish :=
    State.run_eq_finish reached
  have quoted : EndsInQuote (prepare true (front ++ "\n")) →
      FailsWith .invalidSyntax true (front ++ "\n") := by
    intro ends
    obtain ⟨fault, failed, invalid⟩ := tells.finish_of_endsInQuote ends
    exact failsWith_iff.mpr ⟨fault, scanned.trans failed, invalid⟩
  have goesOn : ¬ EndsInQuote (prepare true (front ++ "\n")) → MayGoOn true (front ++ "\n") := by
    intro other
    cases finished : state.finish with
    | ok data => exact .inl (reads_iff.mpr ⟨data, scanned.trans finished⟩)
    | error fault =>
      have incomplete := tells.kind_of_not_endsInQuote noAtom other finished
      exact .inr (failsWith_iff.mpr ⟨fault, scanned.trans finished, incomplete⟩)
  exact ⟨⟨fun front ends => (quoted ends).not_mayGoOn (by decide) front, goesOn⟩, quoted⟩

theorem front_may_go_on_iff_after_list :
    Reads true ("(list 'a ; one\n" ++ "  (b \"c" ++ "\n" ++ "d\"))") ∧
      MayGoOn true ("(list 'a ; one\n" ++ "  (b \"c" ++ "\n") :=
  have reads : Reads true ("(list 'a ; one\n" ++ "  (b \"c" ++ "\n" ++ "d\"))") := by
    decide +kernel
  ⟨reads, (front_may_go_on_iff _ _ reads).1.mpr (by decide +kernel)⟩

/-- Behind a quote mark, the end of a line is reported as an error. -/
theorem quote_mark_ends_no_line :
    ¬ ∀ front rest, Reads true (front ++ "\n" ++ rest) → MayGoOn true (front ++ "\n") := by
  intro goesOn
  have reads : Reads true ("'" ++ "\n" ++ "a") := by decide
  have refused : ¬ MayGoOn true ("'" ++ "\n") := by decide
  exact refused (goesOn "'" "a" reads)

end Lines

section Completion

open State

variable {extent : Extent} {state next ended : State} {first source : String}

/-- Ends a string literal or a comment, given what stands at the end of a text. -/
def closer : Zone → List Char
  | .string => ['"']
  | .escape => ['n', '"']
  | .code | .comment => ['\n']

theorem closer_blanked (zone : Zone) : closer zone.blanked = closer zone := by
  cases zone <;> rfl

theorem blankFrom_closing (count : Nat) :
    blankFrom .code (List.replicate count ')') = List.replicate count ')' := by
  refine blankFrom_eq_self fun c within => ?_
  rw [List.eq_of_mem_replicate within]
  decide

/-- A completion is code, and nothing in it is blanked. -/
theorem blankFrom_closer (zone : Zone) (count : Nat) :
    blankFrom zone (closer zone ++ List.replicate count ')')
      = closer zone ++ List.replicate count ')' := by
  cases zone <;>
    simp [closer, blankFrom, Zone.covers, Zone.after, blankFrom_closing]

theorem prepare_closer (count : Nat) :
    prepare comments (first ++ String.ofList
        (closer (Zone.code.behind first.toList) ++ List.replicate count ')'))
      = prepare comments first
        ++ (closer (Zone.code.behind first.toList) ++ List.replicate count ')') := by
  unfold prepare
  rw [String.toList_append, String.toList_ofList]
  split
  · rw [blankComments, blankFrom_append, blankFrom_closer]
    rfl
  · rfl

theorem take_end_of_string {chars : List Char} (token : state.token = .string chars) :
    state.take extent '"' = .ok (state.deliver (.string (String.ofList chars.reverse))) := by
  rw [take, token]
  rfl

theorem exists_after_string {chars : List Char} (token : state.token = .string chars) :
    ∃ next, state.after extent ['"'] = .ok next ∧ next.token = .between ∧
      ¬ Quoting next.openings := by
  let closed := state.deliver (.string (String.ofList chars.reverse))
  refine ⟨closed.moveTo (state.offset + '"'.utf8Size), ?_, rfl, not_quoting_settle _ _⟩
  rw [after_cons, take_end_of_string token]
  rfl

/-- Behind its closer, a token that waits has ended. -/
theorem exists_after_closer (extent : Extent) (waits : state.Waits) :
    ∃ next, state.after extent (closer state.token.zone) = .ok next ∧ next.token = .between ∧
      ¬ Quoting next.openings := by
  cases waits with
  | inString inside =>
    match token : state.token with
    | .between | .atom .. => exact absurd (by rw [token]; rfl) inside
    | .string chars => exact exists_after_string token
    | .escape start chars =>
      let escaped := { state with token := .string ('\n' :: chars) }
      have taken : state.take extent 'n' = .ok escaped := by
        rw [take, token]
        rfl
      obtain ⟨next, closed, ended⟩ :=
        @exists_after_string extent (escaped.moveTo (state.offset + 'n'.utf8Size)) _ rfl
      refine ⟨next, ?_, ended⟩
      rw [Token.zone, closer, after_cons, taken]
      exact closed
  | @inList ended items outer paused openings =>
    have settled : ¬ Quoting ended.openings := by
      rw [openings]
      exact id
    have between : ended.token = .between := token_of_pause paused
    refine ⟨ended.moveTo (state.offset + '\n'.utf8Size), ?_, between, settled⟩
    rw [zone_of_pause paused, closer, after_cons, take_line_feed paused]
    rfl

/-- Behind a datum, the lists that are still open are closed by closing parentheses. -/
theorem exists_run_deliver (datum : Value) (awaits : state.Awaits extent) :
    ∃ count data, (state.deliver datum).run extent (List.replicate count ')') = .ok data ∧
      data ≠ [] := by
  induction openings : state.openings generalizing state datum with
  | nil =>
    have outside : (state.deliver datum).openings = [] := by
      rw [deliver_openings, openings]
      rfl
    refine ⟨0, _, run_layout rfl outside (by simp), ?_⟩
    rw [deliver_complete, openings]
    simp [settle]
  | cons opening outer ih =>
    cases opening with
    | list items =>
      have listed := @deliver_list state datum _ _ openings
      let inside : State :=
        { state with openings := .list (datum :: items) :: outer, token := .between }
      have taken : inside.take extent ')'
          = .ok ({ inside with openings := outer }.deliver (.list (datum :: items).reverse)) :=
        take_close rfl awaits rfl
      obtain ⟨count, data, ran, some⟩ :=
        @ih ({ inside with openings := outer }.moveTo (inside.offset + ')'.utf8Size))
          (.list (datum :: items).reverse) awaits rfl
      refine ⟨count + 1, data, ?_, some⟩
      rw [listed, List.replicate_succ, run_cons_of_take taken]
      exact ran
    | quote start =>
      have handed : state.deliver datum
          = { state with openings := outer }.deliver (.list [.symbol "quote", datum]) := by
        rw [deliver, openings]
        rfl
      rw [handed]
      exact ih _ awaits rfl

/-- Open lists are closed by closing parentheses. -/
theorem exists_run_closing (between : state.token = .between) (other : ¬ Quoting state.openings) :
    ∃ count data, state.run .program (List.replicate count ')') = .ok data := by
  match openings : state.openings with
  | [] => exact ⟨0, _, run_layout between openings (by simp)⟩
  | .quote _ :: _ => exact absurd (openings ▸ trivial) other
  | .list items :: outer =>
    have taken := take_close between (.inl rfl) openings
    obtain ⟨count, data, ran, -⟩ := @exists_run_deliver .program
      (({ state with openings := outer } : State).moveTo (state.offset + ')'.utf8Size))
      (.list items.reverse) (.inl rfl)
    refine ⟨count + 1, data, ?_⟩
    rw [List.replicate_succ, run_cons_of_take taken]
    exact ran

/-- A beginning of a text that ends in a string literal or a list can be completed. -/
theorem exists_completion (reached : State.after .program {} (prepare comments source) = .ok state)
    (waits : state.Waits) : ∃ more, Reads comments (source ++ more) := by
  obtain ⟨ended, closed, between, other⟩ := exists_after_closer .program waits
  obtain ⟨count, data, ran⟩ := exists_run_closing between other
  have zone : closer state.token.zone = closer (Zone.code.behind source.toList) := by
    rw [zone_prepare reached, closer_blanked]
  let more := closer (Zone.code.behind source.toList) ++ List.replicate count ')'
  have completed : scan .program (prepare comments (source ++ String.ofList more)) = .ok data := by
    rw [prepare_closer count]
    change State.run .program {} _ = _
    rw [run_append_of_after reached, ← zone, run_append_of_after closed, ran]
  exact ⟨String.ofList more, reads_iff.mpr ⟨data, completed⟩⟩

/-- Outside string literals, a blank that is no layout is taken only outside all lists. -/
theorem State.Takes.outside (takes : state.Takes extent c next) (code : state.token.zone = .code)
    (blank : Text.isBlank c = true) (stray : Text.isLayout c = false) :
    next.token = .between ∧ next.openings = [] := by
  have apart (d : Char) (ink : Text.isBlank d = false) : c ≠ d := by
    rintro rfl
    cases ink.symm.trans blank
  cases takes with
  | @begins ended _ paused starts =>
    cases starts with
    | skip skipped =>
      refine ⟨rfl, ?_⟩
      match openings : ended.openings with
      | [] => rfl
      | _ :: _ => simp [skips, openings, stray] at skipped
    | quote mark | opening mark | closing mark | string mark => exact absurd mark (apart _ rfl)
    | atom first => cases (isBlank_of_wordStart first).symm.trans blank
  | letter _ symbol => cases (isBlank_of_isSymbolChar symbol).symm.trans blank
  | closing token | backslash token | plain token | escaped token =>
    rw [token] at code
    cases code

theorem data_of_allBlank {rest : List Char} (blank : Text.allBlank rest = true) :
    Grammar.Data rest [] := by
  induction rest with
  | nil => exact .done
  | cons c rest ih =>
    obtain ⟨first, others⟩ := Bool.and_eq_true_iff.mp blank
    exact .blank first (ih others)

/-- A text that is taken to its end, and ends in such a blank, is complete. -/
theorem exists_finish_of_stray {text : List Char}
    (reached : State.after .program {} text = .ok state) (ends : EndsInStrayBlank text) :
    ∃ data, state.finish = .ok data := by
  obtain ⟨front, c, rest, rfl, code, stray, others⟩ := ends
  obtain ⟨blank, stray⟩ := Bool.and_eq_true_iff.mp stray
  rw [after_append] at reached
  obtain ⟨middle, toMiddle, reached⟩ := bind_eq_ok.mp reached
  rw [after_cons] at reached
  obtain ⟨behind, taken, reached⟩ := bind_eq_ok.mp reached
  have inCode : middle.token.zone = .code := (zone_after toMiddle).symm.trans code
  obtain ⟨between, outside⟩ :=
    (takes_of_take taken).outside inCode blank (by simpa using stray)
  have ran := @run_data (behind.moveTo (middle.offset + c.utf8Size)) _ _ between outside
    (data_of_allBlank others)
  exact ⟨_, (run_eq_finish reached).symm.trans ran⟩

/-- A text that is refused although it is reported as incomplete ends in such a blank. -/
theorem endsInStrayBlank_of_refused {text : List Char} {fault : Fault}
    (stopped : State.after .program {} text = .error fault)
    (incomplete : (report text fault).kind = .incomplete) : EndsInStrayBlank text := by
  obtain ⟨front, c, rest, middle, rfl, reached, refused⟩ := after_error stopped
  have tells : State.Tells front middle := tells_after reached
  have noInk {offset openings} : InkAt front (missing offset openings).offset →
      (report (front ++ c :: rest) (missing offset openings)).kind ≠ .incomplete := by
    intro ink other
    rw [kind_report_missing_of_inkAt (ink.append (c :: rest))] at other
    cases other
  cases refuses_of_take refused with
  | @atom start run atom =>
    exact absurd incomplete (noInk (inkAt_missing tells.quotes (tells.atom atom)))
  | trailing _ datum => cases datum
  | tooDeep | escape =>
    rw [kind_report] at incomplete
    cases incomplete
  | @stray ended paused ink =>
    rcases missing_offset middle.offset ended.openings with here | ⟨mark, within, there⟩
    · rw [kind_report, kind_missing, here, tells.offset, Text.dropBytes_byteLength] at incomplete
      have blank : Text.allBlank (c :: rest) = true := by
        by_contra notBlank
        rw [if_neg notBlank] at incomplete
        cases incomplete
      obtain ⟨first, others⟩ := Bool.and_eq_true_iff.mp blank
      have code : Zone.code.behind front = .code := tells.zone.symm.trans (zone_of_pause paused)
      have noLayout : Text.isLayout c = false := by
        refine Bool.eq_false_iff.mpr fun layout => ?_
        rw [skips_of_isLayout ended _ layout] at ink
        cases ink
      exact ⟨front, c, rest, rfl, code, by simp [first, noLayout], others⟩
    · refine absurd incomplete (noInk ?_)
      rw [there]
      exact tells.quotes (quotes_of_pause paused within)

/-- A text that is reported as incomplete can be completed, unless it ends in a blank that no list
admits. No text behind such a blank helps. -/
theorem completable_iff (comments : Bool) (source : String)
    (incomplete : FailsWith .incomplete comments source) :
    (∃ more, Reads comments (source ++ more)) ↔ ¬ EndsInStrayBlank (prepare comments source) := by
  obtain ⟨fault, scanned, kind⟩ := failsWith_iff.mp incomplete
  cases reached : State.after .program {} (prepare comments source) with
  | ok state =>
    have failed : state.finish = .error fault := (run_eq_finish reached).symm.trans scanned
    have waits : state.Waits := by
      rcases (tells_after reached).kind_of_finish failed with ⟨-, waits⟩ | ⟨invalid, -⟩
      · exact waits
      · cases kind.symm.trans invalid
    refine iff_of_true (exists_completion reached waits) fun ends => ?_
    obtain ⟨data, finished⟩ := exists_finish_of_stray reached ends
    cases failed.symm.trans finished
  | error cause =>
    have same : cause = fault := by
      have stopped : scan .program (prepare comments source) = .error cause := by
        change State.run .program {} _ = _
        rw [run_eq_after, reached]
        rfl
      exact Except.error.inj (stopped.symm.trans scanned)
    have ends := endsInStrayBlank_of_refused reached (same ▸ kind)
    refine iff_of_false ?_ (not_not_intro ends)
    rintro ⟨more, reads⟩
    obtain ⟨state, taken⟩ := exists_after_of_reads reads
    cases reached.symm.trans taken

theorem completable_iff_in_string :
    FailsWith .incomplete true "(f \"a ; b" ∧ ∃ more, Reads true ("(f \"a ; b" ++ more) :=
  have incomplete : FailsWith .incomplete true "(f \"a ; b" := by decide +kernel
  ⟨incomplete, (completable_iff true "(f \"a ; b" incomplete).mpr (by decide +kernel)⟩

/-- A list that ends in a no-break space is reported as incomplete, and nothing completes it. -/
theorem no_break_space_completed_by_nothing :
    ¬ ∀ comments source, FailsWith .incomplete comments source →
      ∃ more, Reads comments (source ++ more) := by
  intro completed
  have incomplete : FailsWith .incomplete false "(\u00a0" := by decide +kernel
  obtain ⟨more, reads⟩ := completed false "(\u00a0" incomplete
  obtain ⟨state, taken⟩ := exists_after_of_reads reads
  have refused : (State.after .program {} (prepare false "(\u00a0")).isOk = false := by
    decide +kernel
  rw [taken] at refused
  cases refused

end Completion

end CellScheme.Reader
