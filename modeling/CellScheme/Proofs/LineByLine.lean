import CellScheme.Proofs.Composition
import CellScheme.Proofs.ProgramSequence
import CellScheme.Proofs.StaticErrors
import Mathlib.Data.List.DropRight

/-!
A program that is given to a dialogue line by line has the effect that it has as one text
(`Dialogue.line_by_line`). As long as the lines that wait are the beginning of a form, nothing is
evaluated. Once they read, the text so far reads, and what is behind it is read as it is on its own;
so the forms of the text are evaluated in parts, in order and each of them once.
-/
namespace CellScheme

open Reader

namespace Session

variable {session next last : Session} {comments : Bool} {text front second : String}

/-- A session becomes another one by evaluating the forms of a text without an error. A text without
forms changes nothing. -/
def Completes (session : Session) (comments : Bool) (text : String) (next : Session) : Prop :=
  ∃ program, Program.ofText comments text = .ok program ∧ session.Runs program next

/-- The empty program is an error, and changes nothing. -/
theorem evaluateProgram_nil (session : Session) :
    ∃ error, error.isDynamic = true ∧ session.evaluateProgram [] = (.error error, session) := by
  have ended : ∃ error, error.isDynamic = true ∧
      Evaluation.outcome (CellScheme.evaluateBody session.limit session.limit .global [])
        session.memory = (.error error, session.memory) := by
    rw [CellScheme.evaluateBody.eq_def]
    cases session.limit with
    | zero => exact ⟨.run (.depthLimit 0), rfl, rfl⟩
    | succ budget => exact ⟨.emptyProgram, rfl, rfl⟩
  obtain ⟨error, dynamic, ended⟩ := ended
  exact ⟨error, dynamic, perform_of_unchanged ended⟩

theorem completes_of_evaluateText {value : Value}
    (ends : (session.evaluateText comments text).1 = .ok value) :
    session.Completes comments text (session.evaluateText comments text).2 := by
  cases converted : Program.ofText comments text with
  | error fault =>
    rw [evaluateText_of_error converted] at ends
    cases ends
  | ok program =>
    refine ⟨program, converted, ?_⟩
    rw [evaluateText_of_ok converted] at ends ⊢
    by_cases empty : program = []
    · subst empty
      obtain ⟨error, -, failed⟩ := evaluateProgram_nil (session.stamp []).2
      have failed : (session.stamp []).2.evaluateProgram (session.stamp []).1
        = (.error error, session) := failed
      rw [failed] at ends
      cases ends
    · rw [Runs, if_neg empty]
      exact ⟨value, Prod.ext ends rfl⟩

/-- The evaluation of such a text leaves the session that it becomes. It has no fault of reading,
though a text without forms is an error. -/
theorem Completes.evaluateText (completes : session.Completes comments text next) :
    (session.evaluateText comments text).2 = next ∧
      ∀ fault, (session.evaluateText comments text).1 ≠ .error (.source fault) := by
  obtain ⟨program, converted, runs⟩ := completes
  rw [evaluateText_of_ok converted]
  by_cases empty : program = []
  · subst empty
    obtain ⟨error, dynamic, failed⟩ := evaluateProgram_nil (session.stamp []).2
    have failed : (session.stamp []).2.evaluateProgram (session.stamp []).1
      = (.error error, session) := failed
    rw [failed]
    refine ⟨(runs_nil.mp runs).symm, fun fault same => ?_⟩
    obtain rfl := Except.error.inj same
    cases dynamic
  · rw [Runs, if_neg empty] at runs
    obtain ⟨value, ended⟩ := runs
    rw [ended]
    refine ⟨rfl, fun fault same => ?_⟩
    cases same

/-- A text is evaluated in parts when it is cut behind a line at which its beginning reads. -/
theorem Completes.of_append (reads : Reads comments (front ++ "\n"))
    (completes : session.Completes comments (front ++ "\n" ++ second) last) :
    ∃ next, session.Completes comments (front ++ "\n") next ∧
      next.Completes comments second last := by
  obtain ⟨data, read⟩ := reads
  obtain ⟨program, converted, runs⟩ := completes
  obtain ⟨all, readAll, converted⟩ := Program.ofText_eq_ok_iff.mp converted
  obtain ⟨more, readMore, rfl⟩ := (readProgram_append_iff read).mp readAll
  obtain ⟨forms, others, first, second, rfl⟩ := Program.ofData_append converted
  obtain ⟨next, runs, runs'⟩ := runs.of_append
  exact ⟨next, ⟨forms, Program.ofText_eq_ok_iff.mpr ⟨data, read, first⟩, runs⟩,
    ⟨others, Program.ofText_eq_ok_iff.mpr ⟨more, readMore, second⟩, runs'⟩⟩

theorem Completes.line_feed (completes : session.Completes comments text next) :
    session.Completes comments (text ++ "\n") next := by
  obtain ⟨program, converted, runs⟩ := completes
  obtain ⟨data, read, converted⟩ := Program.ofText_eq_ok_iff.mp converted
  exact ⟨program, Program.ofText_eq_ok_iff.mpr ⟨data, readProgram_line_feed read, converted⟩, runs⟩

theorem Completes.reads (completes : session.Completes comments text next) :
    Reads comments text := by
  obtain ⟨_, converted, -⟩ := completes
  obtain ⟨data, read, -⟩ := Program.ofText_eq_ok_iff.mp converted
  exact ⟨data, read⟩

theorem Completes.eq_of_no_data (completes : session.Completes comments text next)
    (read : readProgram comments text = .ok []) : next = session := by
  obtain ⟨program, converted, runs⟩ := completes
  have none : Program.ofText comments text = .ok [] :=
    Program.ofText_eq_ok_iff.mpr ⟨[], read, rfl⟩
  obtain rfl : program = [] := Except.ok.inj (converted.symm.trans none)
  exact runs_nil.mp runs

end Session

namespace Dialogue

section Lines

variable {line rest text : List Char}

/-- The characters of a line are collected. -/
theorem go_append {seen : List Char} (noFeed : '\n' ∉ line) :
    lines.go seen (line ++ rest) = lines.go (line.reverse ++ seen) rest := by
  induction line generalizing seen with
  | nil => rfl
  | cons c line ih =>
    have other : c ≠ '\n' := fun feed => noFeed (feed ▸ List.mem_cons_self)
    have others : '\n' ∉ line := fun within => noFeed (List.mem_cons_of_mem _ within)
    rw [List.cons_append, lines.go, ih others, List.reverse_cons, List.append_assoc]
    · rfl
    · exact other

theorem lines_line (noFeed : '\n' ∉ line) (noReturn : '\r' ∉ line) :
    lines (line ++ '\n' :: rest) = line :: lines rest := by
  rw [lines, go_append noFeed, List.append_nil, lines.go]
  · rw [List.reverse_reverse]
    rfl
  · intro shorter same
    have within : '\r' ∈ line.reverse := same ▸ List.mem_cons_self
    exact noReturn (List.mem_reverse.mp within)

theorem lines_last (noFeed : '\n' ∉ line) (some : line ≠ []) : lines line = [line] := by
  have collected := @go_append line [] [] noFeed
  rw [List.append_nil, List.append_nil] at collected
  rw [lines, collected, lines.go]
  simp [some]

/-- A text is empty, or it is a last line, or it begins with a line and its line feed. -/
theorem lines_induction {P : List Char → Prop} (nil : P [])
    (last : ∀ line, '\n' ∉ line → line ≠ [] → P line)
    (line : ∀ line rest, '\n' ∉ line → P rest → P (line ++ '\n' :: rest)) (text : List Char) :
    P text := by
  induction size : text.length using Nat.strongRecOn generalizing text with
  | ind count ih =>
  by_cases feed : '\n' ∈ text
  · obtain ⟨first, rest, rfl, noFeed⟩ := List.eq_append_cons_of_mem feed
    have shorter : rest.length < count := by
      rw [List.length_append, List.length_cons] at size
      omega
    exact line first rest noFeed (ih _ shorter rest rfl)
  · by_cases empty : text = []
    · exact empty ▸ nil
    · exact last text feed empty

theorem append_line (pending : String) (line rest : List Char) :
    pending ++ String.ofList (line ++ '\n' :: rest)
      = pending ++ String.ofList line ++ "\n" ++ String.ofList rest :=
  String.toList_inj.mp (by simp)

end Lines

section Aside

variable {line rest blanks : List Char}

theorem all_of_trim_eq_nil (trimmed : Text.trim line = []) :
    ∀ c ∈ line, Text.isBlank c = true := by
  have behind : ∀ c ∈ Text.trimStart line, Text.isBlank c = true :=
    List.rdropWhile_eq_nil_iff.mp trimmed
  intro c within
  rw [← @List.takeWhile_append_dropWhile _ Text.isBlank line] at within
  rcases List.mem_append.mp within with front | back
  · exact List.mem_takeWhile_imp front
  · exact behind c back

theorem exists_of_trim_eq_cons {c : Char} {more : List Char}
    (trimmed : Text.trim line = c :: more) :
    ∃ blanks rest, line = blanks ++ c :: rest ∧ ∀ d ∈ blanks, Text.isBlank d = true := by
  have front : Text.trim line <+: Text.trimStart line := List.rdropWhile_prefix Text.isBlank _
  rw [trimmed] at front
  obtain ⟨tail, same⟩ := front
  refine ⟨line.takeWhile Text.isBlank, more ++ tail, ?_, fun d => List.mem_takeWhile_imp⟩
  calc
    line = line.takeWhile Text.isBlank ++ Text.trimStart line :=
      List.takeWhile_append_dropWhile.symm
    _ = line.takeWhile Text.isBlank ++ c :: (more ++ tail) := by rw [← same, List.cons_append]

/-- A blank line holds no data. -/
theorem readProgram_blank {line : String} (trimmed : Text.trim line.toList = []) :
    readProgram true (line ++ "\n") = .ok [] := by
  have blank := all_of_trim_eq_nil trimmed
  have kept : prepare true (line ++ "\n") = line.toList ++ ['\n'] := by
    rw [prepare_line, prepare, if_pos rfl, blankComments,
      blankFrom_eq_self fun c within => State.apart_of_isBlank (blank c within)]
  rw [readProgram_eq_ok_iff, kept]
  refine data_of_allBlank (List.all_eq_true.mpr fun c within => ?_)
  rcases List.mem_append.mp within with front | feed
  · exact blank c front
  · exact List.mem_singleton.mp feed ▸ rfl

theorem after_blanks {state : State} (between : state.token = .between)
    (outside : state.openings = []) (blank : ∀ c ∈ blanks, Text.isBlank c = true) :
    state.after .program blanks = .ok (state.moveTo (state.offset + Text.byteLength blanks)) := by
  induction blanks generalizing state with
  | nil => rfl
  | cons c blanks ih =>
    obtain ⟨first, others⟩ := List.forall_mem_cons.mp blank
    have skipped : state.skips .program c = true := by simp [State.skips, outside, first]
    have later := @ih (state.moveTo (state.offset + c.utf8Size)) between outside others
    rw [State.after_cons, State.take_skip between skipped, Text.byteLength_cons, ← Nat.add_assoc]
    exact later

/-- A command is no beginning of a program. -/
theorem failsWith_command {line : String} {more : List Char}
    (trimmed : Text.trim line.toList = ':' :: more) :
    FailsWith .invalidSyntax true (line ++ "\n") := by
  obtain ⟨blanks, rest, same, blank⟩ := exists_of_trim_eq_cons trimmed
  have kept : prepare true (line ++ "\n") = blanks ++ ':' :: (blankFrom .code rest ++ ['\n']) := by
    have apart : ∀ c ∈ blanks, c ≠ ';' ∧ c ≠ '"' :=
      fun c within => State.apart_of_isBlank (blank c within)
    rw [prepare_line, prepare, if_pos rfl, blankComments, same, blankFrom_apart _ apart,
      blankFrom_cons _ (by decide), List.append_assoc, List.cons_append]
  have symbol : Text.isSymbolChar ':' = false :=
    (Grammar.isSymbolChar_ascii (by decide)).trans (by decide)
  have refused (state : State) (between : state.token = .between) (outside : state.openings = []) :
      state.take .program ':' = .error (missing state.offset []) := by
    have ink : state.skips .program ':' = false := State.skips_of_isBlank state .program rfl
    simp only [State.take, between, State.start, ink, outside, symbol]
    rfl
  have scanned : scan .program (prepare true (line ++ "\n"))
      = .error (missing (0 + Text.byteLength blanks) []) := by
    rw [kept]
    change State.run .program {} _ = _
    rw [State.run_append_of_after (after_blanks rfl rfl blank), State.run_cons, refused _ rfl rfl]
    rfl
  have ink : InkAt (prepare true (line ++ "\n")) (missing (0 + Text.byteLength blanks) []).offset :=
    ⟨blanks, ':', _, kept, (Nat.zero_add _).symm, rfl⟩
  exact failsWith_iff.mpr ⟨_, scanned, kind_report_missing_of_inkAt ink⟩

end Aside

section Take

variable {dialogue : Dialogue} {session last : Session} {line pending text : String}

/-- Lines that read, together with those that wait, are evaluated, and no line waits any more. -/
theorem take_of_completes
    (completes : dialogue.session.Completes true (dialogue.pending ++ line ++ "\n") last) :
    ∃ printed, dialogue.take line = .proceed ⟨last, ""⟩ printed := by
  rcases take_cases dialogue line with submitted | ⟨empty, aside⟩
  · obtain ⟨left, noFault⟩ := completes.evaluateText
    obtain ⟨printed, same⟩ := submit_complete fun fault ends => absurd ends (noFault fault)
    rw [submission, left] at same
    exact ⟨printed, submitted.trans same⟩
  · rw [empty, String.empty_append] at completes
    generalize dialogue.take line = reply at aside
    cases aside with
    | blank trimmed =>
      have same : last = dialogue.session := completes.eq_of_no_data (readProgram_blank trimmed)
      rw [same, ← empty]
      exact ⟨[], rfl⟩
    | command trimmed => exact absurd completes.reads (failsWith_command trimmed).not_reads

/-- Lines that are the beginning of a form, together with those that wait, wait too. -/
theorem take_of_incomplete
    (incomplete : FailsWith .incomplete true (dialogue.pending ++ line ++ "\n")) :
    dialogue.take line =
      .proceed ⟨dialogue.session, dialogue.pending ++ line ++ "\n"⟩ [] := by
  have submitted : dialogue.take line = dialogue.submit line := by
    rcases take_cases dialogue line with submitted | ⟨empty, aside⟩
    · exact submitted
    · rw [empty, String.empty_append] at incomplete
      generalize dialogue.take line = reply at aside
      cases aside with
      | blank trimmed => exact absurd ⟨[], readProgram_blank trimmed⟩ incomplete.not_reads
      | command trimmed => cases incomplete.kind_eq (failsWith_command trimmed)
  obtain ⟨fault, failed, kind⟩ := incomplete
  have converted : Program.ofText true (dialogue.pending ++ line ++ "\n")
      = .error (.source fault) := by
    rw [Program.ofText, failed]
    rfl
  have ends : dialogue.submission line = (.error (.source fault), dialogue.session) :=
    Session.evaluateText_of_error converted
  rw [submitted, submit_incomplete (congrArg Prod.fst ends) kind, ends]

/-- What becomes of a dialogue after several lines, with all that it prints. -/
def follow (dialogue : Dialogue) : List String → Reply
  | [] => .proceed dialogue []
  | line :: rest =>
    match dialogue.take line with
    | .leave printed => .leave printed
    | .proceed next printed =>
      match next.follow rest with
      | .proceed last more => .proceed last (printed ++ more)
      | .leave more => .leave (printed ++ more)

theorem follow_cons {next : Dialogue} {printed : List String} {rest : List String}
    (taken : dialogue.take line = .proceed next printed) : dialogue.follow (line :: rest) =
      match next.follow rest with
      | .proceed last more => .proceed last (printed ++ more)
      | .leave more => .leave (printed ++ more) := by
  rw [follow, taken]

/-- A dialogue whose input ends after some lines prints what they make it print, and takes its
leave. -/
theorem converse_eq (dialogue : Dialogue) (lines : List String) : dialogue.converse lines =
    match dialogue.follow lines with
    | .proceed _ printed => printed ++ farewell
    | .leave printed => printed := by
  induction lines generalizing dialogue with
  | nil => rfl
  | cons line rest ih =>
    rw [converse, follow]
    cases dialogue.take line with
    | leave printed => rfl
    | proceed next printed =>
      dsimp only
      rw [ih]
      cases next.follow rest with
      | proceed last more => exact (List.append_assoc printed more farewell).symm
      | leave more => rfl

/-- The lines of a text that completes the lines that wait. -/
theorem follow_lines (text : List Char) (noReturn : '\r' ∉ text)
    (waits : pending = "" ∨ FailsWith .incomplete true pending)
    (goesOn : ∀ front rest, text = front ++ '\n' :: rest →
      MayGoOn true (pending ++ String.ofList front ++ "\n"))
    (completes : session.Completes true (pending ++ String.ofList text) last) :
    ∃ printed, follow ⟨session, pending⟩ ((lines text).map String.ofList)
      = .proceed ⟨last, ""⟩ printed := by
  induction text using lines_induction generalizing session pending with
  | nil =>
    have same : pending ++ String.ofList [] = pending := String.append_empty
    rw [same] at completes
    rcases waits with rfl | incomplete
    · have nothing : readProgram true "" = .ok [] := readProgram_eq_ok_iff.mpr .done
      rw [completes.eq_of_no_data nothing]
      exact ⟨[], rfl⟩
    · exact absurd completes.reads incomplete.not_reads
  | last line noFeed some =>
    obtain ⟨printed, taken⟩ := @take_of_completes ⟨session, pending⟩ _ _ completes.line_feed
    rw [lines_last noFeed some, List.map_singleton, follow_cons taken]
    exact ⟨printed ++ [], rfl⟩
  | line line rest noFeed ih =>
    have noReturns : '\r' ∉ line ∧ '\r' ∉ rest := by simpa using noReturn
    have goesOnLater {front back : List Char} (same : rest = front ++ '\n' :: back) :
        MayGoOn true (pending ++ String.ofList line ++ "\n" ++ String.ofList front ++ "\n") := by
      have whole : line ++ '\n' :: rest = (line ++ '\n' :: front) ++ '\n' :: back := by
        rw [same, List.append_assoc, List.cons_append]
      rw [← append_line]
      exact goesOn _ _ whole
    rw [append_line] at completes
    rw [lines_line noFeed noReturns.1, List.map_cons]
    rcases goesOn line rest rfl with reads | incomplete
    · -- The lines that wait, with this one, are evaluated; the rest goes on from there by itself.
      obtain ⟨next, first, others⟩ := completes.of_append reads
      obtain ⟨printed, taken⟩ := @take_of_completes ⟨session, pending⟩ _ _ first
      have goesOn' : ∀ front back, rest = front ++ '\n' :: back →
          MayGoOn true ("" ++ String.ofList front ++ "\n") := by
        intro front back same
        have goesOn := goesOnLater same
        rw [String.append_assoc, mayGoOn_append_iff reads] at goesOn
        rwa [String.empty_append]
      rw [← @String.empty_append (String.ofList rest)] at others
      obtain ⟨more, followed⟩ := ih noReturns.2 (.inl rfl) goesOn' others
      rw [follow_cons taken, followed]
      exact ⟨printed ++ more, rfl⟩
    · have taken := @take_of_incomplete ⟨session, pending⟩ _ incomplete
      obtain ⟨more, followed⟩ :=
        ih noReturns.2 (.inr incomplete) (fun _ _ => goesOnLater) completes
      rw [follow_cons taken, followed]
      exact ⟨[] ++ more, rfl⟩

end Take

/-- A program that is given to a dialogue line by line has the effect that it has as one text: when
the text is evaluated without an error, and each beginning of it that ends with a line may go on,
the lines leave behind the session that the whole text does, and no line waits. -/
theorem line_by_line (session : Session) (text : String) (noReturn : '\r' ∉ text.toList)
    (goesOn : GoesOnByLine true text)
    (succeeds : ∃ value, (session.evaluateText true text).1 = .ok value) :
    ∃ printed,
      follow ⟨session, ""⟩ ((lines text.toList).map String.ofList)
        = .proceed ⟨(session.evaluateText true text).2, ""⟩ printed ∧
      converse ⟨session, ""⟩ ((lines text.toList).map String.ofList) = printed ++ farewell := by
  obtain ⟨value, ends⟩ := succeeds
  have completes : session.Completes true ("" ++ String.ofList text.toList)
      (session.evaluateText true text).2 := by
    rw [String.empty_append, String.ofList_toList]
    exact Session.completes_of_evaluateText ends
  have goesOn' : ∀ front rest, text.toList = front ++ '\n' :: rest →
      MayGoOn true ("" ++ String.ofList front ++ "\n") := by
    intro front rest same
    have whole : text = String.ofList front ++ "\n" ++ String.ofList rest :=
      String.toList_inj.mp (by simp [same])
    rw [String.empty_append]
    exact goesOn _ _ whole
  obtain ⟨printed, followed⟩ := follow_lines text.toList noReturn (.inl rfl) goesOn' completes
  refine ⟨printed, followed, ?_⟩
  rw [converse_eq, followed]

theorem line_by_line_several_forms :
    let text := "(define x ; a name\n\n 1) (define s \"a\nb\")\n(set! x 's)"
    ∃ printed, follow {} ((lines text.toList).map String.ofList)
      = .proceed ⟨(Session.evaluateText {} true text).2, ""⟩ printed := by
  intro text
  have noReturn : '\r' ∉ text.toList := by simp [text]
  have goesOn : GoesOnByLine true text := by decide +kernel
  have succeeds : ∃ value, (Session.evaluateText {} true text).1 = .ok value := by
    have fine : (Session.evaluateText {} true text).1.isOk = true := by decide +kernel
    cases ended : (Session.evaluateText {} true text).1 with
    | ok value => exact ⟨value, rfl⟩
    | error error =>
      rw [ended] at fine
      cases fine
  obtain ⟨printed, followed, -⟩ := line_by_line {} text noReturn goesOn succeeds
  exact ⟨printed, followed⟩

end Dialogue

end CellScheme
