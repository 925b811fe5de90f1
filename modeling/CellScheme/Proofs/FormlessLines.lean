import CellScheme.Proofs.Comments
import CellScheme.Proofs.LineByLine

/-!
Lines of an input that hold no form. While no form is pending, a dialogue passes over a blank line. A
line that holds nothing but a comment is submitted: it reads as a program without forms, which is an
error, and the error is printed. Nothing else changes: what the lines before and behind it make the
dialogue print is what they do without it (`Dialogue.formless_line_inserted`).
-/
namespace CellScheme

open Reader

namespace Session

variable {session : Session} {comments : Bool} {text : String}

/-- Unless the very first level is missing, the empty program is refused for being empty. -/
theorem evaluateProgram_empty (levels : session.limit ≠ 0) :
    session.evaluateProgram [] = (.error .emptyProgram, session) := by
  obtain ⟨budget, enough⟩ : ∃ budget, session.limit = budget + 1 :=
    Nat.exists_eq_succ_of_ne_zero levels
  refine perform_of_unchanged ?_
  rw [enough, CellScheme.evaluateBody.eq_def]
  rfl

theorem evaluateText_no_data (levels : session.limit ≠ 0)
    (read : readProgram comments text = .ok []) :
    session.evaluateText comments text = (.error .emptyProgram, session) := by
  have converted : Program.ofText comments text = .ok [] :=
    Program.ofText_eq_ok_iff.mpr ⟨[], read, rfl⟩
  rw [evaluateText_of_ok converted]
  exact evaluateProgram_empty levels

theorem limit_evaluateText : (session.evaluateText comments text).2.limit = session.limit := by
  cases converted : Program.ofText comments text with
  | error fault => rw [evaluateText_of_error converted]
  | ok program =>
    rw [evaluateText_of_ok converted]
    rfl

end Session

namespace Dialogue

section Lines

variable {front back line : List Char}

/-- A text of whole lines: it is empty or ends with a line feed. -/
def WholeLines (text : List Char) : Prop :=
  text = [] ∨ ∃ before, text = before ++ ['\n']

/-- A line feed ends the line that has been collected. -/
theorem go_feed (seen : List Char) :
    ∃ line, ∀ rest, lines.go seen ('\n' :: rest) = line :: lines rest :=
  ⟨_, fun _ => rfl⟩

theorem go_append_feed (seen : List Char) :
    lines.go seen (front ++ '\n' :: back) = lines.go seen (front ++ ['\n']) ++ lines back := by
  induction front generalizing seen with
  | nil => rfl
  | cons c front ih =>
    by_cases feed : c = '\n'
    · subst feed
      obtain ⟨line, ended⟩ := go_feed seen
      rw [List.cons_append, List.cons_append, ended, ended, List.cons_append]
      exact congrArg (line :: ·) (ih [])
    · rw [List.cons_append, List.cons_append, lines.go, lines.go, ih]
      · exact feed
      · exact feed

/-- Behind whole lines, the lines of a text are those that it has on its own. -/
theorem lines_append (whole : WholeLines front) :
    lines (front ++ back) = lines front ++ lines back := by
  rcases whole with rfl | ⟨before, rfl⟩
  · rfl
  · rw [List.append_assoc, List.singleton_append]
    exact go_append_feed []

/-- A line ends before its line feed, and before a carriage return in front of that. -/
theorem lines_cons (noFeed : '\n' ∉ line) :
    ∃ ended, lines (line ++ '\n' :: back) = ended :: lines back ∧
      (line = ended ∨ line = ended ++ ['\r']) := by
  have collected : lines (line ++ '\n' :: back) = lines.go line.reverse ('\n' :: back) := by
    rw [lines, go_append noFeed, List.append_nil]
  by_cases mark : ∃ shorter, line.reverse = '\r' :: shorter
  · obtain ⟨shorter, seen⟩ := mark
    refine ⟨shorter.reverse, by rw [collected, seen]; rfl, .inr ?_⟩
    rw [← List.reverse_cons, ← seen, List.reverse_reverse]
  · refine ⟨line, ?_, .inl rfl⟩
    rw [collected, lines.go, List.reverse_reverse]
    · rfl
    · exact fun shorter same => mark ⟨shorter, same⟩

end Lines

section Following

variable {dialogue next : Dialogue} {first second printed : List String}

/-- Lines are followed one by one. -/
theorem follow_cons_eq {line : String}
    (followed : dialogue.follow (line :: first) = .proceed next printed) :
    ∃ middle answers more, dialogue.take line = .proceed middle answers ∧
      middle.follow first = .proceed next more ∧ printed = answers ++ more := by
  rw [follow] at followed
  cases taken : dialogue.take line with
  | leave answers =>
    rw [taken] at followed
    cases followed
  | proceed middle answers =>
    rw [taken] at followed
    dsimp only at followed
    cases later : middle.follow first with
    | leave more =>
      rw [later] at followed
      cases followed
    | proceed last more =>
      rw [later] at followed
      obtain ⟨rfl, rfl⟩ := Reply.proceed.inj followed
      exact ⟨middle, answers, more, rfl, later, rfl⟩

theorem converse_append (followed : dialogue.follow first = .proceed next printed) :
    dialogue.converse (first ++ second) = printed ++ next.converse second := by
  induction first generalizing dialogue printed with
  | nil =>
    obtain ⟨rfl, rfl⟩ := Reply.proceed.inj followed
    rfl
  | cons line rest ih =>
    obtain ⟨middle, answers, more, taken, later, rfl⟩ := follow_cons_eq followed
    rw [List.cons_append, converse, taken, List.append_assoc]
    exact congrArg (answers ++ ·) (ih later)

/-- A line that is taken leaves the session or hands it the text that has been collected. -/
theorem session_of_take {line : String} (taken : dialogue.take line = .proceed next printed) :
    next.session = dialogue.session ∨ next.session = (dialogue.submission line).2 := by
  rcases take_cases dialogue line with submitted | ⟨-, aside⟩
  · refine .inr ?_
    rw [submitted] at taken
    by_cases waits : ∃ fault : SourceError,
        (dialogue.submission line).1 = .error (.source fault) ∧ fault.kind = .incomplete
    · obtain ⟨fault, ends, incomplete⟩ := waits
      rw [submit_incomplete ends incomplete] at taken
      obtain ⟨rfl, -⟩ := Reply.proceed.inj taken
      rfl
    · obtain ⟨_, submitted⟩ := submit_complete fun fault ends incomplete =>
        waits ⟨fault, ends, incomplete⟩
      rw [submitted] at taken
      obtain ⟨rfl, -⟩ := Reply.proceed.inj taken
      rfl
  · refine .inl ?_
    rw [taken] at aside
    cases aside with
    | blank => rfl
    | command _ reply =>
      obtain ⟨_, same | left⟩ := reply
      · rw [(Reply.proceed.inj same).1]
      · cases left

/-- No line changes the depth limit. -/
theorem limit_of_follow (followed : dialogue.follow first = .proceed next printed) :
    next.session.limit = dialogue.session.limit := by
  induction first generalizing dialogue printed with
  | nil =>
    obtain ⟨rfl, -⟩ := Reply.proceed.inj followed
    rfl
  | cons line rest ih =>
    obtain ⟨middle, answers, more, taken, later, -⟩ := follow_cons_eq followed
    rw [ih later]
    rcases session_of_take taken with kept | submitted
    · rw [kept]
    · rw [submitted]
      exact Session.limit_evaluateText

end Following

section Formless

variable {session : Session} {line : List Char}

theorem code_behind_of_apart (apart : ∀ c ∈ line, c ≠ ';' ∧ c ≠ '"') :
    Zone.code.behind line = .code := by
  induction line with
  | nil => rfl
  | cons c line ih =>
    obtain ⟨first, others⟩ := List.forall_mem_cons.mp apart
    change (Zone.code.after c).behind line = .code
    rw [State.after_code first]
    exact ih others

/-- A line that holds a comment with nothing but blanks before it. -/
def IsComment (line : List Char) : Prop :=
  ∃ blanks body, line = blanks ++ ';' :: body ∧ Text.allBlank blanks = true

theorem trim_of_allBlank (blank : Text.allBlank line = true) : Text.trim line = [] := by
  have start : Text.trimStart line = [] :=
    List.dropWhile_eq_nil_iff.mpr (List.all_eq_true.mp blank)
  rw [Text.trim, start]
  rfl

theorem trimStart_append {blanks rest : List Char} {c : Char}
    (blank : ∀ d ∈ blanks, Text.isBlank d = true) (ink : Text.isBlank c = false) :
    Text.trimStart (blanks ++ c :: rest) = c :: rest := by
  rw [Text.trimStart, List.dropWhile_append_of_pos blank, List.dropWhile_cons_of_neg]
  simp [ink]

/-- A blank line is passed over. -/
theorem take_of_allBlank (blank : Text.allBlank line = true) :
    take ⟨session, ""⟩ (String.ofList line) = .proceed ⟨session, ""⟩ [] := by
  simp only [take, String.toList_ofList, trim_of_allBlank blank]
  rfl

theorem IsComment.readProgram (comment : IsComment line) (oneLine : '\n' ∉ line) :
    readProgram true (String.ofList line ++ "\n") = .ok [] := by
  obtain ⟨blanks, body, rfl, blank⟩ := comment
  have apart : ∀ c ∈ blanks, c ≠ ';' ∧ c ≠ '"' :=
    fun c within => State.apart_of_isBlank (List.all_eq_true.mp blank c within)
  have code : Zone.code.behind (String.ofList blanks).toList = .code := by
    rw [String.toList_ofList]
    exact code_behind_of_apart apart
  have inBody : '\n' ∉ (String.ofList body).toList := by
    simp only [List.mem_append, List.mem_cons, not_or] at oneLine
    rw [String.toList_ofList]
    exact oneLine.2.2
  have ends : EndsLine "\n".toList := by simp [EndsLine]
  have alike := (ReadAlike.comment code inBody ends).program
  have whole : String.ofList (blanks ++ ';' :: body) ++ "\n"
      = String.ofList blanks ++ ";" ++ String.ofList body ++ "\n" := String.toList_inj.mp (by simp)
  have nothing : Reader.readProgram true (String.ofList blanks ++ "\n") = .ok [] :=
    readProgram_blank (by rw [String.toList_ofList]; exact trim_of_allBlank blank)
  rw [← whole, nothing] at alike
  cases read : Reader.readProgram true (String.ofList (blanks ++ ';' :: body) ++ "\n") with
  | ok data =>
    rw [read] at alike
    exact congrArg _ (Except.ok.inj alike)
  | error fault =>
    rw [read] at alike
    cases alike

/-- A comment is submitted, for it is neither blank nor a command. -/
theorem IsComment.take_eq (comment : IsComment line) :
    take ⟨session, ""⟩ (String.ofList line) = submit ⟨session, ""⟩ (String.ofList line) := by
  obtain ⟨blanks, body, rfl, blank⟩ := comment
  have blank : ∀ c ∈ blanks, Text.isBlank c = true := List.all_eq_true.mp blank
  rcases take_cases ⟨session, ""⟩ (String.ofList (blanks ++ ';' :: body)) with submitted | ⟨-, aside⟩
  · exact submitted
  generalize take ⟨session, ""⟩ _ = reply at aside
  cases aside with
  | blank trimmed =>
    rw [String.toList_ofList] at trimmed
    have all := all_of_trim_eq_nil trimmed ';' (by simp)
    cases all
  | command trimmed =>
    rw [String.toList_ofList] at trimmed
    obtain ⟨blanks', rest, same, blank'⟩ := exists_of_trim_eq_cons trimmed
    have first := @trimStart_append blanks body ';' blank rfl
    rw [same, trimStart_append blank' rfl] at first
    cases first

/-- Such a line is answered with an error, and leaves the dialogue as it was. -/
theorem take_of_isComment (levels : session.limit ≠ 0) (comment : IsComment line)
    (oneLine : '\n' ∉ line) : take ⟨session, ""⟩ (String.ofList line)
      = .proceed ⟨session, ""⟩ ["Error: Empty program"] := by
  have ended : session.evaluateText true ("" ++ String.ofList line ++ "\n")
      = (.error .emptyProgram, session) := by
    rw [String.empty_append]
    exact Session.evaluateText_no_data levels (comment.readProgram oneLine)
  rw [comment.take_eq, submit]
  dsimp only
  rw [ended]
  rfl

/-- A carriage return before the line feed makes no difference to a comment. -/
theorem IsComment.of_append (comment : IsComment (line ++ ['\r'])) : IsComment line := by
  obtain ⟨blanks, body, same, blank⟩ := comment
  rcases List.eq_nil_or_concat body with rfl | ⟨body, last, rfl⟩
  · have mark := (List.append_inj' same rfl).2
    cases mark
  · rw [List.concat_eq_append, ← List.cons_append, ← List.append_assoc] at same
    exact ⟨blanks, body, (List.append_inj' same rfl).1, blank⟩

end Formless

section Transcript

variable {session : Session} {front back line : List Char} {answers : List String}

/-- Lines as they are printed, each followed by a line feed. -/
def printout (lines : List String) : String :=
  String.join (lines.map fun line => line ++ "\n")

theorem transcript_append (whole : WholeLines front)
    (followed : follow {} ((lines front).map String.ofList) = .proceed ⟨session, ""⟩ answers) :
    transcript (String.ofList (front ++ back))
      = printout (greeting ++ answers
          ++ converse ⟨session, ""⟩ ((lines back).map String.ofList)) := by
  have conversed : ({} : Dialogue).converse ((lines (front ++ back)).map String.ofList)
      = answers ++ converse ⟨session, ""⟩ ((lines back).map String.ofList) := by
    rw [lines_append whole, List.map_append]
    exact converse_append followed
  rw [transcript, String.toList_ofList, conversed, List.append_assoc]
  rfl

/-- A line that the dialogue takes without a change adds its answer to the transcript, and nothing
else. -/
theorem transcript_insert {added : List String} (whole : WholeLines front)
    (followed : follow {} ((lines front).map String.ofList) = .proceed ⟨session, ""⟩ answers)
    (noFeed : '\n' ∉ line)
    (taken : ∀ ended, line = ended ∨ line = ended ++ ['\r'] →
      take ⟨session, ""⟩ (String.ofList ended) = .proceed ⟨session, ""⟩ added) :
    transcript (String.ofList (front ++ line ++ '\n' :: back))
      = printout (greeting ++ answers ++ added
          ++ converse ⟨session, ""⟩ ((lines back).map String.ofList)) := by
  obtain ⟨ended, split, same⟩ := @lines_cons back line noFeed
  rw [List.append_assoc, transcript_append whole followed, split, List.map_cons, converse,
    taken ended same]
  simp only [List.append_assoc]

end Transcript

/-- A line without a form that is inserted between two lines of an input, where no form is pending.
A blank line leaves all that is printed as it was. A comment, with any blanks before it, adds one
line to it, which reports an empty program; the answers to the lines before and behind it stay. -/
theorem formless_line_inserted (front back : List Char) (session : Session) (answers : List String)
    (whole : WholeLines front)
    (followed : follow {} ((lines front).map String.ofList) = .proceed ⟨session, ""⟩ answers) :
    ∃ more,
      transcript (String.ofList (front ++ back)) = printout (greeting ++ answers ++ more) ∧
      (∀ line, '\n' ∉ line → Text.allBlank line = true →
        transcript (String.ofList (front ++ line ++ '\n' :: back))
          = printout (greeting ++ answers ++ more)) ∧
      ∀ line, '\n' ∉ line → IsComment line →
        transcript (String.ofList (front ++ line ++ '\n' :: back))
          = printout (greeting ++ answers ++ ["Error: Empty program"] ++ more) := by
  refine ⟨_, transcript_append whole followed, ?_, ?_⟩
  · intro line noFeed blank
    have passed : ∀ ended, line = ended ∨ line = ended ++ ['\r'] →
        take ⟨session, ""⟩ (String.ofList ended) = .proceed ⟨session, ""⟩ [] := by
      rintro ended (rfl | rfl)
      · exact take_of_allBlank blank
      · rw [allBlank_append, Bool.and_eq_true] at blank
        exact take_of_allBlank blank.1
    rw [transcript_insert whole followed noFeed passed, List.append_nil]
  · intro line noFeed comment
    have levels : session.limit ≠ 0 := by
      have kept : session.limit = 256 := limit_of_follow followed
      omega
    refine transcript_insert whole followed noFeed ?_
    rintro ended (rfl | rfl)
    · exact take_of_isComment levels comment noFeed
    · refine take_of_isComment levels comment.of_append fun within => noFeed ?_
      exact List.mem_append_left _ within

theorem formless_line_inserted_behind_definition :
    ∃ answers more : List String,
      transcript "(define x 1)\n:env\nx" = printout (greeting ++ answers ++ more) ∧
      transcript "(define x 1)\n:env\n \t\nx" = printout (greeting ++ answers ++ more) ∧
      transcript "(define x 1)\n:env\n ; (set! x 2)\nx"
        = printout (greeting ++ answers ++ ["Error: Empty program"] ++ more) := by
  have proceeds : Reply.casesOn (motive := fun _ => Bool)
      (follow {} ((lines "(define x 1)\n:env\n".toList).map String.ofList))
      (fun next _ => next.pending == "") (fun _ => false) = true := by decide +kernel
  have whole : WholeLines "(define x 1)\n:env\n".toList :=
    .inr ⟨"(define x 1)\n:env".toList, rfl⟩
  cases followed : follow {} ((lines "(define x 1)\n:env\n".toList).map String.ofList) with
  | leave answers =>
    rw [followed] at proceeds
    cases proceeds
  | proceed next answers =>
    rw [followed] at proceeds
    obtain ⟨session, pending⟩ := next
    obtain rfl : pending = "" := eq_of_beq proceeds
    obtain ⟨more, without, blank, comment⟩ :=
      formless_line_inserted "(define x 1)\n:env\n".toList "x".toList session answers whole followed
    refine ⟨answers, more, without, ?_, ?_⟩
    · exact blank " \t".toList (by simp) rfl
    · exact comment " ; (set! x 2)".toList (by simp)
        ⟨[' '], " (set! x 2)".toList, rfl, rfl⟩

/-- A comment on a line of its own is not passed over as a blank line is. -/
theorem comment_line_is_answered :
    ¬ ∀ (front line back : List Char) (session : Session) (answers : List String),
      WholeLines front →
      follow {} ((lines front).map String.ofList) = .proceed ⟨session, ""⟩ answers →
      '\n' ∉ line → IsComment line →
      transcript (String.ofList (front ++ line ++ '\n' :: back))
        = transcript (String.ofList (front ++ back)) := by
  intro silent
  have same := silent [] [';'] [] {} [] (.inl rfl) rfl (by decide) ⟨[], [], rfl, rfl⟩
  have differ : transcript (String.ofList [';', '\n']) ≠ transcript (String.ofList []) := by
    decide +kernel
  exact differ same

end Dialogue

end CellScheme
