import CellScheme.Proofs.ReadBack
import CellScheme.Proofs.ReadingStep

/-!
Zones along a text, and the zones that the machine is in. Blanking the comments of two texts in a
row blanks the second from the zone in which the first ends (`blankFrom_append`), and turns comments
into code without touching any other zone (`Zone.behind_blankFrom`). The machine that reads tells
the same zones apart by its token (`State.zone_after`), so what has been read says how the
comments of a text that follows are blanked.
-/
namespace CellScheme.Reader

namespace Zone

/-- The zone behind a text that begins in a zone. -/
def behind (zone : Zone) (text : List Char) : Zone :=
  text.foldl after zone

theorem behind_append (zone : Zone) (front back : List Char) :
    zone.behind (front ++ back) = (zone.behind front).behind back :=
  List.foldl_append

/-- The zone that takes the place of another one when comments are blanked. -/
def blanked : Zone → Zone
  | .comment => .code
  | .code => .code
  | .string => .string
  | .escape => .escape

theorem behind_spaces (count : Nat) : Zone.code.behind (List.replicate count ' ') = .code := by
  induction count with
  | zero => rfl
  | succ count ih => exact ih

/-- A line feed ends a comment. -/
theorem after_line_feed_ne_comment (zone : Zone) : zone.after '\n' ≠ .comment := by
  cases zone <;> decide

/-- Blanked comments count as code; nothing else changes its zone. -/
theorem behind_blankFrom (zone : Zone) (text : List Char) :
    zone.blanked.behind (blankFrom zone text) = (zone.behind text).blanked := by
  induction text generalizing zone with
  | nil => rfl
  | cons c text ih =>
    have first : zone.blanked.behind
        (if zone.covers c then List.replicate c.utf8Size ' ' else [c])
          = (zone.after c).blanked := by
      cases covered : zone.covers c with
      | true =>
        simp only [if_true]
        cases zone with
        | code =>
          obtain rfl : c = ';' := by simpa [covers] using covered
          exact behind_spaces _
        | comment =>
          have inside : c ≠ '\n' := by simpa [covers] using covered
          simp only [blanked, after, inside, if_false]
          exact behind_spaces _
        | string | escape => cases covered
      | false =>
        simp only [Bool.false_eq_true, if_false]
        cases zone with
        | code =>
          have other : c ≠ ';' := by simpa [covers] using covered
          simp only [blanked, behind, List.foldl_cons, List.foldl_nil, after, other, if_false]
          split <;> rfl
        | comment =>
          obtain rfl : c = '\n' := by simpa [covers] using covered
          rfl
        | string =>
          simp only [blanked, behind, List.foldl_cons, List.foldl_nil, after]
          split
          · rfl
          · split <;> rfl
        | escape => rfl
    rw [blankFrom, behind_append, first]
    exact ih (zone.after c)

end Zone

theorem blankFrom_append (zone : Zone) (front back : List Char) :
    blankFrom zone (front ++ back)
      = blankFrom zone front ++ blankFrom (zone.behind front) back := by
  induction front generalizing zone with
  | nil => rfl
  | cons c front ih =>
    rw [List.cons_append, blankFrom, blankFrom, ih, List.append_assoc]
    rfl

/-- Code without semicolons and string literals stays. -/
theorem blankFrom_apart {front : List Char} (back : List Char)
    (apart : ∀ c ∈ front, c ≠ ';' ∧ c ≠ '"') :
    blankFrom .code (front ++ back) = front ++ blankFrom .code back := by
  induction front with
  | nil => rfl
  | cons c front ih =>
    obtain ⟨first, others⟩ := List.forall_mem_cons.mp apart
    rw [List.cons_append, blankFrom_cons _ first, ih others, List.cons_append]

theorem blankFrom_eq_self {text : List Char} (apart : ∀ c ∈ text, c ≠ ';' ∧ c ≠ '"') :
    blankFrom .code text = text := by
  have kept := blankFrom_apart [] apart
  rwa [blankFrom, List.append_nil] at kept

variable {comments : Bool} {first second : String}

/-- The text that is read of two texts in a row begins with the text that is read of the first. -/
theorem exists_prepare_append (comments : Bool) (first second : String) :
    ∃ more, prepare comments (first ++ second) = prepare comments first ++ more := by
  unfold prepare
  rw [String.toList_append]
  split
  · exact ⟨_, blankFrom_append _ _ _⟩
  · exact ⟨_, rfl⟩

/-- Behind code, a text is read as it is on its own. -/
theorem prepare_append (code : Zone.code.behind first.toList = .code) :
    prepare comments (first ++ second) = prepare comments first ++ prepare comments second := by
  unfold prepare
  rw [String.toList_append]
  split
  · rw [blankComments, blankFrom_append, code]
    rfl
  · rfl

/-- The zone in which a token stands. -/
def Token.zone : Token → Zone
  | .between | .atom .. => .code
  | .string _ => .string
  | .escape .. => .escape

/-- No token stands in a comment. -/
theorem Token.zone_ne_comment (token : Token) : token.zone ≠ .comment := by
  cases token <;> simp [Token.zone]

namespace State

variable {extent : Extent} {state next ended : State} {c : Char} {text : List Char}
  {fault : Fault}

theorem zone_of_pause (paused : state.pause = .ok ended) : state.token.zone = .code := by
  rcases pause_eq_ok paused with ⟨between, -⟩ | ⟨_, _, _, atom, -, -⟩
  · rw [between]
    rfl
  · rw [atom]
    rfl

/-- The last token of a text cannot end when it is an open string literal or an atom that denotes
nothing. -/
theorem pause_eq_error (refused : state.pause = .error fault) :
    (state.token.zone ≠ .code ∧ fault = ⟨.unclosed, state.offset⟩) ∨
      ∃ start run, state.token = .atom start run ∧ fault = missing start state.openings := by
  unfold pause at refused
  split at refused
  case h_1 => cases refused
  case h_2 start run atom => exact .inr ⟨start, run, atom, (endAtom_eq_error refused).2⟩
  case h_3 string => exact .inl ⟨by simp [string, Token.zone], (Except.error.inj refused).symm⟩
  case h_4 escape => exact .inl ⟨by simp [escape, Token.zone], (Except.error.inj refused).symm⟩

theorem isBlank_of_skips (skipped : state.skips extent c = true) : Text.isBlank c = true := by
  unfold skips at skipped
  split at skipped
  · exact skipped
  · exact Text.isBlank_of_isLayout skipped

/-- Characters that neither begin a comment nor a string literal leave code as it is. -/
theorem after_code (apart : c ≠ ';' ∧ c ≠ '"') : Zone.code.after c = .code := by
  simp [Zone.after, apart]

theorem apart_of_isBlank (blank : Text.isBlank c = true) : c ≠ ';' ∧ c ≠ '"' := by
  constructor <;> rintro rfl <;> revert blank <;> decide

/-- A character that is taken leads to the zone that its place in the text says. -/
theorem Takes.zone (takes : state.Takes extent c next) :
    state.token.zone.after c = next.token.zone := by
  cases takes with
  | begins paused starts =>
    rw [zone_of_pause paused]
    cases starts with
    | skip skipped => exact after_code (apart_of_isBlank (isBlank_of_skips skipped))
    | quote mark | opening mark | closing mark | string mark =>
      rw [mark]
      rfl
    | atom first =>
      rcases first with rfl | symbol
      · rfl
      · exact after_code (apart_of_isSymbolChar symbol)
  | letter token symbol =>
    rw [token]
    exact after_code (apart_of_isSymbolChar symbol)
  | closing token mark | backslash token mark =>
    rw [token, mark]
    rfl
  | plain token inside unescaped =>
    rw [token]
    simp [Token.zone, Zone.after, inside, unescaped]
  | escaped token =>
    rw [token]
    rfl

/-- Behind a text that is taken, the machine is in the zone of that place. It meets no comment:
outside string literals it takes no semicolon. -/
theorem zone_after (reached : state.after extent text = .ok next) :
    state.token.zone.behind text = next.token.zone := by
  refine @after_induction extent state next text
    (fun read middle => state.token.zone.behind read = middle.token.zone) [] ?_ rfl reached
  intro read middle c taken inv takes
  rw [Zone.behind_append, inv]
  exact takes.zone

/-- The same for the text that is read of a source, whose comments may have been blanked. -/
theorem zone_prepare (reached : State.after extent {} (prepare comments first) = .ok next) :
    next.token.zone = (Zone.code.behind first.toList).blanked := by
  have zone : Zone.code.behind (prepare comments first) = next.token.zone := zone_after reached
  rw [← zone]
  cases comments with
  | true => exact Zone.behind_blankFrom .code first.toList
  | false =>
    have same : Zone.code.behind first.toList = next.token.zone := zone
    rw [prepare, if_neg Bool.false_ne_true, same]
    cases token : next.token.zone with
    | comment => exact absurd token next.token.zone_ne_comment
    | code | string | escape => rfl

end State

end CellScheme.Reader
