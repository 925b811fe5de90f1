import CellScheme.Proofs.Relocation

/-!
Texts in a row. Behind a line that ends a program the machine is back in its first state, but for
the places, which lie further on, and for the data that are complete already. So a text behind such
a line is read as it is on its own (`State.run_relocate`): with the same data
(`readProgram_append_iff`), or with a fault of the same kind (`failsWith_append_iff`).
-/
namespace CellScheme.Reader

variable {comments : Bool} {front second : String} {data more : List Value} {text : List Char}
  {kind : SourceErrorKind} {fault : Fault}

theorem dropBytes_append (front back : List Char) (limit : Nat) :
    Text.dropBytes (Text.byteLength front + limit) (front ++ back) = Text.dropBytes limit back := by
  induction front with
  | nil => rw [Text.byteLength_nil, Nat.zero_add, List.nil_append]
  | cons c front ih =>
    rw [Text.byteLength_cons, List.cons_append, Text.dropBytes, if_pos (by omega)]
    have left : c.utf8Size + Text.byteLength front + limit - c.utf8Size
        = Text.byteLength front + limit := by omega
    rw [left, ih]

theorem kind_report_further (front text : List Char) :
    (report (front ++ text) (fault.relocate (Text.byteLength front + ·))).kind
      = (report text fault).kind := by
  rw [kind_report, kind_report, Fault.relocate, dropBytes_append]

theorem readProgram_eq_ok_iff_scan {text : String} :
    readProgram comments text = .ok data ↔ scan .program (prepare comments text) = .ok data :=
  readProgram_eq_ok_iff.trans scan_program_iff.symm

/-- A line feed behind a program changes nothing. -/
theorem readProgram_line_feed (read : readProgram comments front = .ok data) :
    readProgram comments (front ++ "\n") = .ok data := by
  have scanned := readProgram_eq_ok_iff_scan.mp read
  obtain ⟨state, reached, finished⟩ := bind_eq_ok.mp scanned
  obtain ⟨ended, paused, ends⟩ := bind_eq_ok.mp (State.finish_eq_pause ▸ finished)
  have nothing : ended.openings = [] := (State.exists_finish_iff paused).mp ⟨data, finished⟩
  rw [nothing] at ends
  rw [readProgram_eq_ok_iff_scan, prepare_line]
  change State.run .program {} _ = _
  rw [State.run_append_of_after reached, State.run_cons_of_take (State.take_line_feed paused)]
  have between : ended.token = .between := State.token_of_pause paused
  exact Eq.trans (State.run_layout between nothing (by simp)) ends

/-- Behind a line that ends a program, the machine is in its first state, further on. -/
theorem after_line (read : readProgram comments (front ++ "\n") = .ok data) :
    State.after .program {} (prepare comments (front ++ "\n"))
      = .ok (({} : State).relocate
          (Text.byteLength (prepare comments (front ++ "\n")) + ·) data.reverse) := by
  have scanned := readProgram_eq_ok_iff_scan.mp read
  have taken : Reads comments (front ++ "\n" ++ "") := by
    rw [String.append_empty]
    exact ⟨data, read⟩
  obtain ⟨state, reached⟩ := exists_after_of_reads taken
  have tells : State.Tells (prepare comments (front ++ "\n")) state := State.tells_after reached
  have noAtom := State.token_ne_atom_of_line_feed (prepare_line comments front ▸ reached)
  have finished : state.finish = .ok data := (State.run_eq_finish reached).symm.trans scanned
  obtain ⟨ended, paused, ends⟩ := bind_eq_ok.mp (State.finish_eq_pause ▸ finished)
  have nothing : ended.openings = [] := (State.exists_finish_iff paused).mp ⟨data, finished⟩
  rcases State.pause_eq_ok paused with ⟨between, rfl⟩ | ⟨start, run, _, atom, -, -⟩
  · rw [nothing] at ends
    have complete : ended.complete.reverse = data := Except.ok.inj ends
    have first : ended = ({} : State).relocate (ended.offset + ·) data.reverse := by
      rw [← complete, List.reverse_reverse]
      match ended, nothing, between with
      | ⟨_, [], .between, _⟩, rfl, rfl => rfl
    rw [reached, ← tells.offset]
    exact congrArg Except.ok first
  · exact absurd atom (noAtom start run)

theorem code_behind_line (read : readProgram comments (front ++ "\n") = .ok data) :
    Zone.code.behind (front ++ "\n").toList = .code := by
  have zone := State.zone_prepare (after_line read)
  have noComment : Zone.code.behind (front ++ "\n").toList ≠ .comment := by
    rw [String.toList_append, Zone.behind_append]
    exact Zone.after_line_feed_ne_comment _
  cases behind : Zone.code.behind (front ++ "\n").toList with
  | code => rfl
  | comment => exact absurd behind noComment
  | string | escape =>
    rw [behind] at zone
    cases zone

theorem scan_line_append (read : readProgram comments (front ++ "\n") = .ok data) :
    scan .program (prepare comments (front ++ "\n" ++ second))
      = relocated (Text.byteLength (prepare comments (front ++ "\n")) + ·) (data ++ ·)
          (scan .program (prepare comments second)) := by
  rw [prepare_append (code_behind_line read)]
  change State.run .program {} _ = _
  rw [State.run_append_of_after (after_line read),
    State.run_relocate (slides_add _ _) (.inl rfl), List.reverse_reverse]
  rfl

/-- A program behind a line that ends a program: its data come behind the data of that one. -/
theorem readProgram_append_iff (read : readProgram comments (front ++ "\n") = .ok data)
    {all : List Value} : readProgram comments (front ++ "\n" ++ second) = .ok all ↔
      ∃ more, readProgram comments second = .ok more ∧ all = data ++ more := by
  simp only [readProgram_eq_ok_iff_scan, scan_line_append read]
  cases scan .program (prepare comments second) with
  | ok more =>
    constructor
    · intro same
      exact ⟨more, rfl, (Except.ok.inj same).symm⟩
    · rintro ⟨more, same, rfl⟩
      obtain rfl := Except.ok.inj same
      rfl
  | error fault =>
    constructor
    · intro same
      cases same
    · rintro ⟨_, same, -⟩
      cases same

/-- A text behind a line that ends a program fails as it does on its own. -/
theorem failsWith_append_iff (read : readProgram comments (front ++ "\n") = .ok data) :
    FailsWith kind comments (front ++ "\n" ++ second) ↔ FailsWith kind comments second := by
  rw [failsWith_iff, failsWith_iff, scan_line_append read, prepare_append (code_behind_line read)]
  cases scan .program (prepare comments second) with
  | ok more =>
    constructor
    · rintro ⟨_, same, -⟩
      cases same
    · rintro ⟨_, same, -⟩
      cases same
  | error fault =>
    constructor
    · rintro ⟨later, same, kinds⟩
      obtain rfl := Except.error.inj same
      exact ⟨fault, rfl, (kind_report_further _ _).symm.trans kinds⟩
    · rintro ⟨sooner, same, kinds⟩
      obtain rfl := Except.error.inj same
      exact ⟨_, rfl, (kind_report_further _ _).trans kinds⟩

/-- A text may go on behind a line that ends a program just when it may go on by itself. -/
theorem mayGoOn_append_iff (reads : Reads comments (front ++ "\n")) :
    MayGoOn comments (front ++ "\n" ++ second) ↔ MayGoOn comments second := by
  obtain ⟨data, read⟩ := reads
  unfold MayGoOn Reads
  rw [failsWith_append_iff read]
  simp only [readProgram_append_iff read]
  constructor
  · rintro (⟨_, more, readMore, -⟩ | incomplete)
    · exact .inl ⟨more, readMore⟩
    · exact .inr incomplete
  · rintro (⟨more, readMore⟩ | incomplete)
    · exact .inl ⟨data ++ more, more, readMore, rfl⟩
    · exact .inr incomplete

/-- Reading is compositional. Behind a text that reads, and a line feed, a text reads to the data
that it reads to by itself, which come behind the data of the first, or it fails with a fault of the
kind that it fails with by itself. -/
theorem reading_is_compositional (comments : Bool) (first second : String) (data : List Value)
    (read : readProgram comments first = .ok data) :
    (∀ more, readProgram comments second = .ok more →
      readProgram comments (first ++ "\n" ++ second) = .ok (data ++ more)) ∧
    ∀ kind, FailsWith kind comments second →
      FailsWith kind comments (first ++ "\n" ++ second) := by
  have line : readProgram comments (first ++ "\n") = .ok data := readProgram_line_feed read
  constructor
  · intro more readMore
    exact (readProgram_append_iff line).mpr ⟨more, readMore, rfl⟩
  · intro kind fails
    exact (failsWith_append_iff line).mpr fails

/-- The first text ends in a comment with a quote in it; there are semicolons and line feeds in the
strings of all texts. -/
theorem reading_is_compositional_behind_comment :
    let first := "(f \"a;b\nc\") ; don't \"stop"
    (∃ data more, readProgram true first = .ok data ∧ readProgram true "'(\"x ;\" y)" = .ok more ∧
      readProgram true (first ++ "\n" ++ "'(\"x ;\" y)") = .ok (data ++ more)) ∧
    FailsWith .incomplete true (first ++ "\n" ++ "(g \"z;\n") ∧
    FailsWith .invalidSyntax true (first ++ "\n" ++ "\";\" #x") := by
  intro first
  obtain ⟨data, read⟩ : Reads true first := by decide +kernel
  obtain ⟨more, readMore⟩ : Reads true "'(\"x ;\" y)" := by decide +kernel
  have unfinished : FailsWith .incomplete true "(g \"z;\n" := by decide +kernel
  have invalid : FailsWith .invalidSyntax true "\";\" #x" := by decide +kernel
  exact ⟨⟨data, more, read, readMore,
      (reading_is_compositional true first _ data read).1 more readMore⟩,
    (reading_is_compositional true first _ data read).2 _ unfinished,
    (reading_is_compositional true first _ data read).2 _ invalid⟩

end CellScheme.Reader
