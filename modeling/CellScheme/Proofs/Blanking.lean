import CellScheme.Proofs.Comments

/-!
What blanking does to a text, place by place. A comment is told here by what stands before it: it
begins at a semicolon behind a text of whole string literals, whole comments and other characters,
and it ends before the next line feed. Such a place is just one where the code that blanks is in its
zone for comments (`endsInComment_iff`), so blanking puts spaces there and leaves every other
character where it was (`blanking_keeps_places`).
-/
namespace CellScheme.Reader

/-- What may stand inside a string literal. A double quote ends the literal, unless a backslash
hides it; the backslash hides any other character too. -/
inductive LiteralBody : List Char → Prop
  | nil : LiteralBody []
  | plain {c body} : c ≠ '"' → c ≠ '\\' → LiteralBody body → LiteralBody (c :: body)
  | hidden {c body} : LiteralBody body → LiteralBody ('\\' :: c :: body)

/-- A text behind which neither a string literal nor a comment is open. A comment is over with its
line feed. -/
inductive Settled : List Char → Prop
  | nil : Settled []
  | code {front c} : Settled front → c ≠ ';' → c ≠ '"' → Settled (front ++ [c])
  | literal {front body} : Settled front → LiteralBody body →
    Settled (front ++ '"' :: body ++ ['"'])
  | comment {front body} : Settled front → '\n' ∉ body → Settled (front ++ ';' :: body ++ ['\n'])

/-- A text whose last character belongs to a comment: a semicolon stands outside of string literals
and other comments, and no line feed has come since. -/
def EndsInComment (text : List Char) : Prop :=
  ∃ front body, text = front ++ ';' :: body ∧ Settled front ∧ '\n' ∉ body

variable {text front back body : List Char} {zone : Zone} {c : Char}

theorem LiteralBody.append {more : List Char} (literal : LiteralBody body)
    (literal' : LiteralBody more) : LiteralBody (body ++ more) := by
  induction literal with
  | nil => exact literal'
  | plain inside unescaped _ ih => exact .plain inside unescaped ih
  | hidden _ ih => exact .hidden ih

theorem LiteralBody.behind (literal : LiteralBody body) : Zone.string.behind body = .string := by
  induction literal with
  | nil => rfl
  | @plain c body inside unescaped _ ih =>
    have goesOn : Zone.string.after c = .string := by simp [Zone.after, inside, unescaped]
    change (Zone.string.after c).behind body = .string
    rw [goesOn, ih]
  | hidden _ ih => exact ih

theorem Settled.behind (settled : Settled text) : Zone.code.behind text = .code := by
  induction settled with
  | nil => rfl
  | @code front c _ semicolon quote ih =>
    rw [Zone.behind_append, ih]
    exact State.after_code ⟨semicolon, quote⟩
  | literal _ literal ih =>
    rw [Zone.behind_append, Zone.behind_append, ih]
    change (Zone.string.behind _).behind ['"'] = .code
    rw [literal.behind]
    rfl
  | comment _ oneLine ih =>
    rw [Zone.behind_append, Zone.behind_append, ih]
    change (Zone.comment.behind _).behind ['\n'] = .code
    rw [(blankFrom_comment oneLine).2]
    rfl

/-- What a text is like when the character behind it stands in a zone. -/
def Zone.Fits : Zone → List Char → Prop
  | .code, text => Settled text
  | .string, text => ∃ front body, text = front ++ '"' :: body ∧ Settled front ∧ LiteralBody body
  | .escape, text =>
    ∃ front body, text = front ++ '"' :: body ++ ['\\'] ∧ Settled front ∧ LiteralBody body
  | .comment, text => EndsInComment text

/-- One more character. -/
theorem Zone.Fits.after (fits : zone.Fits text) (c : Char) : (zone.after c).Fits (text ++ [c]) := by
  cases zone with
  | code =>
    have settled : Settled text := fits
    simp only [Zone.after]
    split_ifs with semicolon quote
    · exact ⟨text, [], by rw [semicolon], settled, List.not_mem_nil⟩
    · exact ⟨text, [], by rw [quote], settled, .nil⟩
    · exact .code settled semicolon quote
  | string =>
    obtain ⟨front, body, rfl, settled, literal⟩ := fits
    simp only [Zone.after]
    split_ifs with backslash quote
    · exact ⟨front, body, by rw [backslash], settled, literal⟩
    · rw [quote]
      exact .literal settled literal
    · refine ⟨front, body ++ [c], by simp, settled, ?_⟩
      exact literal.append (.plain quote backslash .nil)
  | escape =>
    obtain ⟨front, body, rfl, settled, literal⟩ := fits
    exact ⟨front, body ++ ['\\', c], by simp, settled, literal.append (.hidden .nil)⟩
  | comment =>
    obtain ⟨front, body, rfl, settled, oneLine⟩ := fits
    simp only [Zone.after]
    split_ifs with feed
    · rw [feed]
      exact .comment settled oneLine
    · refine ⟨front, body ++ [c], by simp, settled, ?_⟩
      simp [oneLine, Ne.symm feed]

theorem fits_behind (text : List Char) : (Zone.code.behind text).Fits text := by
  induction text using List.reverseRecOn with
  | nil => exact Settled.nil
  | append_singleton text c ih =>
    rw [Zone.behind_append]
    exact ih.after c

/-- The zones that the blanking goes through tell comments apart from all else. -/
theorem endsInComment_iff : EndsInComment text ↔ Zone.code.behind text = .comment := by
  constructor
  · rintro ⟨front, body, rfl, settled, oneLine⟩
    rw [Zone.behind_append, settled.behind]
    exact (blankFrom_comment oneLine).2
  · intro comment
    have fits := fits_behind text
    rwa [comment] at fits

/-- A character is blanked when it belongs to a comment. -/
theorem covers_behind_iff :
    (Zone.code.behind front).covers c = true ↔ EndsInComment (front ++ [c]) := by
  rw [endsInComment_iff, Zone.behind_append]
  exact Zone.after_eq_comment_iff.symm

/-- A character stands at a byte offset of a text. -/
def StandsAt (text : List Char) (offset : Nat) (c : Char) : Prop :=
  ∃ front back, text = front ++ c :: back ∧ Text.byteLength front = offset

theorem StandsAt.mem {offset : Nat} (stands : StandsAt text offset c) : c ∈ text := by
  obtain ⟨front, back, rfl, -⟩ := stands
  exact List.mem_append_right front List.mem_cons_self

/-- A character of two texts in a row stands in one of them, at its offset there. -/
theorem standsAt_append_iff {offset : Nat} : StandsAt (front ++ back) offset c ↔
    StandsAt front offset c ∨
      ∃ further, offset = Text.byteLength front + further ∧ StandsAt back further c := by
  constructor
  · rintro ⟨before, behind, same, rfl⟩
    rcases List.append_eq_append_iff.mp same with ⟨middle, rfl, rest⟩ | ⟨middle, rfl, rest⟩
    · exact .inr ⟨Text.byteLength middle, Text.byteLength_append _ _, middle, behind, rest, rfl⟩
    · cases middle with
      | nil => exact .inr ⟨0, by simp, [], behind, rest.symm, rfl⟩
      | cons d middle =>
        obtain ⟨rfl, -⟩ := List.cons.inj rest
        exact .inl ⟨before, middle, rfl, rfl⟩
  · rintro (⟨before, behind, rfl, rfl⟩ | ⟨further, rfl, before, behind, rfl, rfl⟩)
    · exact ⟨before, behind ++ back, by simp, rfl⟩
    · exact ⟨front ++ before, behind, by simp, by simp⟩

/-- What stands in the place of one character once comments are blanked. -/
def Zone.patch (zone : Zone) (c : Char) : List Char :=
  if zone.covers c then List.replicate c.utf8Size ' ' else [c]

theorem blankFrom_cons_eq (zone : Zone) (c : Char) (text : List Char) :
    blankFrom zone (c :: text) = zone.patch c ++ blankFrom (zone.after c) text := rfl

theorem Zone.byteLength_patch (zone : Zone) (c : Char) :
    Text.byteLength (zone.patch c) = c.utf8Size := by
  unfold patch
  split
  · exact byteLength_gap c.utf8Size
  · rfl

/-- A line feed is never blanked, and no other character becomes one. -/
theorem Zone.standsAt_patch_iff {offset : Nat} :
    StandsAt (zone.patch c) offset '\n' ↔ StandsAt [c] offset '\n' := by
  unfold patch
  split
  case isFalse => exact Iff.rfl
  case isTrue covered =>
    have other : c ≠ '\n' := by
      rintro rfl
      cases zone <;> cases covered
    refine iff_of_false (fun stands => ?_) fun stands => ?_
    · exact absurd (List.eq_of_mem_replicate stands.mem) (by decide)
    · exact other (List.mem_singleton.mp stands.mem).symm

theorem byteLength_blankFrom (zone : Zone) (text : List Char) :
    Text.byteLength (blankFrom zone text) = Text.byteLength text := by
  induction text generalizing zone with
  | nil => rfl
  | cons c text ih =>
    rw [blankFrom_cons_eq, Text.byteLength_append, zone.byteLength_patch, ih, Text.byteLength_cons]

theorem standsAt_blankFrom_line_feed (zone : Zone) (text : List Char) (offset : Nat) :
    StandsAt (blankFrom zone text) offset '\n' ↔ StandsAt text offset '\n' := by
  induction text generalizing zone offset with
  | nil => exact Iff.rfl
  | cons c text ih =>
    have width : Text.byteLength (zone.patch c) = Text.byteLength [c] := zone.byteLength_patch c
    rw [blankFrom_cons_eq, ← List.singleton_append, standsAt_append_iff, standsAt_append_iff,
      Zone.standsAt_patch_iff, width]
    simp only [ih]

/-- The text around the place of one character, once comments are blanked. -/
theorem blankComments_append_cons : blankComments (front ++ c :: back) =
    blankComments front ++ ((Zone.code.behind front).patch c
      ++ blankFrom ((Zone.code.behind front).after c) back) :=
  blankFrom_append _ _ _

theorem Zone.blanked_of_covers (covered : zone.covers c = true) : zone.blanked = .code := by
  cases zone with
  | code | comment => rfl
  | string | escape => cases covered

/-- Where blanking leaves a character, blanking again leaves it too. -/
theorem Zone.patch_blanked (kept : zone.covers c = false) :
    zone.blanked.patch c = [c] ∧ zone.blanked.after c = (zone.after c).blanked := by
  have after : zone.blanked.behind (blankFrom zone [c]) = (zone.after c).blanked :=
    zone.behind_blankFrom [c]
  have alone : blankFrom zone [c] = [c] := by simp [blankFrom, kept]
  rw [alone] at after
  refine ⟨?_, after⟩
  unfold patch
  cases zone with
  | comment =>
    obtain rfl : c = '\n' := by simpa [covers] using kept
    rfl
  | code | string | escape =>
    rw [blanked, kept]
    rfl

theorem blankFrom_blankFrom (zone : Zone) (text : List Char) :
    blankFrom zone.blanked (blankFrom zone text) = blankFrom zone text := by
  induction text generalizing zone with
  | nil => rfl
  | cons c text ih =>
    have later := ih (zone.after c)
    rw [blankFrom_cons_eq]
    cases covered : zone.covers c with
    | true =>
      have spaces : ∀ d ∈ zone.patch c, d ≠ ';' ∧ d ≠ '"' := by
        intro d member
        rw [Zone.patch, if_pos covered] at member
        rw [List.eq_of_mem_replicate member]
        decide
      rw [Zone.after_eq_comment_iff.mpr covered] at later ⊢
      rw [Zone.blanked_of_covers covered, blankFrom_apart _ spaces]
      exact congrArg (zone.patch c ++ ·) later
    | false =>
      obtain ⟨kept, after⟩ := Zone.patch_blanked covered
      have same : zone.patch c = [c] := by rw [Zone.patch, covered, if_neg Bool.false_ne_true]
      rw [same, List.singleton_append, blankFrom_cons_eq, kept, after, later, List.singleton_append]

/-- A text without semicolons has no comments. -/
theorem blankComments_eq_self (none : ';' ∉ text) : blankComments text = text := by
  have kept (zone : Zone) (other : zone ≠ .comment) : blankFrom zone text = text := by
    induction text generalizing zone with
    | nil => rfl
    | cons c text ih =>
      obtain ⟨first, others⟩ := not_or.mp (mt List.mem_cons.mpr none)
      have plain : zone.covers c = false := by
        cases zone with
        | code => simpa [Zone.covers] using Ne.symm first
        | comment => exact absurd rfl other
        | string | escape => rfl
      have other' : zone.after c ≠ .comment := by
        rw [Ne, Zone.after_eq_comment_iff, plain]
        exact Bool.false_ne_true
      rw [blankFrom_cons_eq, Zone.patch, plain, ih others _ other']
      rfl
  exact kept .code (by decide)

/-- Blanking the comments of a text preserves places. The text is as long as before, in bytes; line
feeds stand where they stood; a character outside comments stands where it stood; and every byte of
a character in a comment has become a space. To blank the comments of a text again changes nothing,
and a text without a semicolon stays as it is. -/
theorem blanking_keeps_places (text : List Char) :
    Text.byteLength (blankComments text) = Text.byteLength text ∧
      (∀ offset, StandsAt (blankComments text) offset '\n' ↔ StandsAt text offset '\n') ∧
      (∀ front c back, text = front ++ c :: back → ¬ EndsInComment (front ++ [c]) →
        StandsAt (blankComments text) (Text.byteLength front) c) ∧
      (∀ front c back, text = front ++ c :: back → EndsInComment (front ++ [c]) →
        ∀ byte < c.utf8Size, StandsAt (blankComments text) (Text.byteLength front + byte) ' ') ∧
      blankComments (blankComments text) = blankComments text ∧
      (';' ∉ text → blankComments text = text) := by
  refine ⟨byteLength_blankFrom .code text, standsAt_blankFrom_line_feed .code text, ?_, ?_,
    blankFrom_blankFrom .code text, blankComments_eq_self⟩
  · rintro front c back rfl outside
    have kept : (Zone.code.behind front).patch c = [c] :=
      if_neg fun covered => outside (covers_behind_iff.mp covered)
    rw [blankComments_append_cons, kept]
    exact ⟨blankComments front, _, rfl, byteLength_blankFrom .code front⟩
  · rintro front c back rfl inside byte bound
    have spaces : (Zone.code.behind front).patch c = gap c.utf8Size :=
      if_pos (covers_behind_iff.mpr inside)
    obtain ⟨further, width⟩ := Nat.exists_eq_add_of_lt bound
    have split : gap c.utf8Size = gap byte ++ ' ' :: gap further := by
      rw [width, gap, Nat.add_assoc, List.replicate_add]
      rfl
    rw [blankComments_append_cons, spaces, split]
    refine ⟨blankComments front ++ gap byte,
      gap further ++ blankFrom ((Zone.code.behind front).after c) back, by simp, ?_⟩
    rw [Text.byteLength_append, byteLength_gap]
    exact congrArg (· + byte) (byteLength_blankFrom .code front)

/-- The semicolon of the literal stays; the two bytes of the second comment's letter go. -/
example : blankComments "\";\\\"\" ;é\nb;".toList = "\";\\\"\"    \nb ".toList := by
  decide +kernel

end CellScheme.Reader
