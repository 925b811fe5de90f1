import CellScheme.SourceError
import Mathlib.Data.List.Basic

/-!
The excerpt around a fault as it is found by byte offsets: two offsets are moved back to a boundary
between characters, and the text between them is sliced out. Stepping back in front of the text,
leaving the machine word and slicing through a character are failures here (`cuts?`, `slice?`). None
of them occurs, and the slice is the part that `SourceError.window` shows (`excerpt_window`).
-/
namespace CellScheme

namespace Text

variable {text front back : List Char} {c : Char}

/-- Whether a byte offset is at the start of a character or at the end of the text. -/
def isBoundary : List Char → Nat → Bool
  | [], offset => offset == 0
  | c :: rest, offset =>
    offset == 0 || decide (c.utf8Size ≤ offset) && isBoundary rest (offset - c.utf8Size)

theorem isBoundary_iff {offset : Nat} : isBoundary text offset = true ↔
    ∃ front back, text = front ++ back ∧ byteLength front = offset := by
  induction text generalizing offset with
  | nil =>
    rw [isBoundary, beq_iff_eq]
    constructor
    · rintro rfl
      exact ⟨[], [], rfl, rfl⟩
    · rintro ⟨front, back, same, rfl⟩
      rw [(List.append_eq_nil_iff.mp same.symm).1, byteLength_nil]
  | cons c text ih =>
    simp only [isBoundary, Bool.or_eq_true, beq_iff_eq, Bool.and_eq_true, decide_eq_true_eq, ih]
    constructor
    · rintro (rfl | ⟨fits, front, back, rfl, width⟩)
      · exact ⟨[], c :: text, rfl, rfl⟩
      · exact ⟨c :: front, back, rfl, by rw [byteLength_cons, width]; omega⟩
    · rintro ⟨front, back, same, rfl⟩
      cases front with
      | nil => exact .inl rfl
      | cons d front =>
        obtain ⟨rfl, rfl⟩ := List.cons.inj same
        exact .inr ⟨by simp, front, back, rfl, by simp⟩

theorem isBoundary_byteLength (front back : List Char) :
    isBoundary (front ++ back) (byteLength front) = true :=
  isBoundary_iff.mpr ⟨front, back, rfl, rfl⟩

theorem takeBytes_append (front back : List Char) (more : Nat) :
    takeBytes (byteLength front + more) (front ++ back) = front ++ takeBytes more back := by
  induction front with
  | nil => simp
  | cons c front ih =>
    rw [List.cons_append, byteLength_cons, Nat.add_assoc, takeBytes, if_pos (Nat.le_add_right ..),
      Nat.add_sub_cancel_left, ih, List.cons_append]

theorem takeBytes_zero (text : List Char) : takeBytes 0 text = [] := by
  cases text with
  | nil => rfl
  | cons c text => exact if_neg (Nat.not_le.mpr c.utf8Size_pos)

theorem takeBytes_byteLength (front back : List Char) :
    takeBytes (byteLength front) (front ++ back) = front := by
  simpa [takeBytes_zero] using takeBytes_append front back 0

theorem takeBytes_eq_self {limit : Nat} (within : byteLength text ≤ limit) :
    takeBytes limit text = text := by
  obtain ⟨more, rfl⟩ := Nat.exists_eq_add_of_le within
  simpa [takeBytes] using takeBytes_append text [] more

/-- A cut between two offsets that lead to the same cut leads to it as well. -/
theorem takeBytes_eq_of_le {limit lower : Nat} (above : byteLength (takeBytes limit text) ≤ lower)
    (below : lower ≤ limit) : takeBytes lower text = takeBytes limit text := by
  induction text generalizing limit lower with
  | nil => rfl
  | cons c text ih =>
    unfold takeBytes at above ⊢
    by_cases fits : c.utf8Size ≤ limit
    · rw [if_pos fits, byteLength_cons] at above
      rw [if_pos fits, if_pos (by omega)]
      exact congrArg (c :: ·) (ih (by omega) (by omega))
    · rw [if_neg fits, if_neg (by omega)]

theorem takeBytes_min (limit : Nat) (text : List Char) :
    takeBytes (min limit (byteLength text)) text = takeBytes limit text := by
  have short := byteLength_takeBytes_le limit text
  have part := congrArg byteLength (takeBytes_append_dropBytes limit text)
  rw [byteLength_append] at part
  exact takeBytes_eq_of_le (by omega) (Nat.min_le_left ..)

/-- The first character behind a cut did not fit in front of it. -/
theorem lt_of_dropBytes_eq_cons {limit : Nat} (behind : dropBytes limit text = c :: back) :
    limit < byteLength (takeBytes limit text) + c.utf8Size := by
  induction text generalizing limit with
  | nil => cases behind
  | cons d text ih =>
    unfold takeBytes
    unfold dropBytes at behind
    split_ifs at behind ⊢ with fits
    · have later := ih behind
      rw [byteLength_cons]
      omega
    · cases behind
      rw [byteLength_nil]
      omega

/-- At every offset inside of a text there is a character. -/
theorem exists_char_at {offset : Nat} (inside : offset < byteLength text) :
    ∃ before c after, text = before ++ c :: after ∧
      byteLength before ≤ offset ∧ offset < byteLength before + c.utf8Size := by
  have whole := takeBytes_append_dropBytes offset text
  have short := byteLength_takeBytes_le offset text
  cases behind : dropBytes offset text with
  | nil =>
    rw [behind, List.append_nil] at whole
    rw [whole] at short
    omega
  | cons c after =>
    rw [behind] at whole
    exact ⟨takeBytes offset text, c, after, whole.symm, short, lt_of_dropBytes_eq_cons behind⟩

/-- A character takes up to four bytes, so a cut inside of a text is moved back by at most three. -/
theorem le_byteLength_takeBytes_add {limit : Nat} (inside : limit ≤ byteLength text) :
    limit ≤ byteLength (takeBytes limit text) + 3 := by
  rcases Nat.eq_or_lt_of_le inside with rfl | inside
  · rw [takeBytes_eq_self (Nat.le_refl _)]
    omega
  · obtain ⟨before, c, after, rfl, low, high⟩ := exists_char_at inside
    obtain ⟨more, rfl⟩ := Nat.exists_eq_add_of_le low
    have wide := c.utf8Size_le_four
    rw [takeBytes_append, byteLength_append]
    omega

/-- Steps back to a boundary, a byte at a time. There is no step back from offset zero. -/
def stepBack? (text : List Char) : Nat → Option Nat
  | 0 => if isBoundary text 0 then some 0 else none
  | offset + 1 => if isBoundary text (offset + 1) then some (offset + 1) else stepBack? text offset

/-- The part of a text between two byte offsets, if they are in order and both are boundaries. -/
def slice? (text : List Char) (start stop : Nat) : Option (List Char) :=
  if start ≤ stop ∧ isBoundary text start ∧ isBoundary text stop then
    some (takeBytes (stop - start) (dropBytes start text))
  else none

theorem stepBack?_eq (text : List Char) (limit : Nat) :
    stepBack? text limit = some (byteLength (takeBytes limit text)) := by
  have cut (limit : Nat) : isBoundary text (byteLength (takeBytes limit text)) = true :=
    isBoundary_iff.mpr ⟨_, _, (takeBytes_append_dropBytes limit text).symm, rfl⟩
  induction limit with
  | zero =>
    have front := cut 0
    rw [takeBytes_zero] at front ⊢
    exact if_pos front
  | succ limit ih =>
    unfold stepBack?
    split
    case isTrue boundary =>
      obtain ⟨front, back, rfl, width⟩ := isBoundary_iff.mp boundary
      rw [← width, takeBytes_byteLength]
    case isFalse inside =>
      have short := byteLength_takeBytes_le (limit + 1) text
      have other : byteLength (takeBytes (limit + 1) text) ≠ limit + 1 :=
        fun same => inside (same ▸ cut (limit + 1))
      have same : takeBytes limit text = takeBytes (limit + 1) text :=
        takeBytes_eq_of_le (by omega) (by omega)
      rw [ih, same]

theorem slice?_append (front shown back : List Char) :
    slice? (front ++ shown ++ back) (byteLength front) (byteLength (front ++ shown)) =
      some shown := by
  have start : isBoundary (front ++ shown ++ back) (byteLength front) = true := by
    rw [List.append_assoc]
    exact isBoundary_byteLength front (shown ++ back)
  rw [slice?, if_pos ⟨by simp, start, isBoundary_byteLength (front ++ shown) back⟩,
    List.append_assoc, dropBytes_byteLength, byteLength_append, Nat.add_sub_cancel_left,
    takeBytes_byteLength]

end Text

namespace SourceError

variable {text : List Char} {offset : Nat}

/-- The offsets between which an excerpt is sliced out, in machine words of `word` values. -/
def cuts? (word : Nat) (text : List Char) (offset : Nat) : Option (Nat × Nat) := do
  let start ← Text.stepBack? text (min (offset - leadIn) (Text.byteLength text))
  guard (start + excerptBytes < word)
  let stop ← Text.stepBack? text (min (start + excerptBytes) (Text.byteLength text))
  return (start, stop)

theorem window_append {front shown back : List Char}
    (parts : window text offset = (front, shown, back)) : text = front ++ shown ++ back := by
  cases parts
  rw [List.append_assoc, Text.takeBytes_append_dropBytes, Text.takeBytes_append_dropBytes]

/-- The two cuts are the ends of the part that is shown. -/
theorem cuts?_eq {word : Nat} {front shown back : List Char}
    (parts : window text offset = (front, shown, back))
    (room : Text.byteLength front + excerptBytes < word) :
    cuts? word text offset = some (Text.byteLength front, Text.byteLength (front ++ shown)) := by
  have start := Text.stepBack?_eq text (min (offset - leadIn) (Text.byteLength text))
  have stop := Text.stepBack?_eq text
    (min (Text.byteLength front + excerptBytes) (Text.byteLength text))
  rw [Text.takeBytes_min] at start stop
  cases parts
  have whole := Text.takeBytes_append_dropBytes (offset - leadIn) text
  have shown := Text.takeBytes_append (Text.takeBytes (offset - leadIn) text)
    (Text.dropBytes (offset - leadIn) text) excerptBytes
  rw [whole] at shown
  rw [shown] at stop
  simp only [cuts?, start, stop, guard, if_pos room, Option.bind_eq_bind, Option.bind_some,
    Option.pure_def]

theorem window_near {front shown back : List Char}
    (parts : window text offset = (front, shown, back)) (inside : offset ≤ Text.byteLength text) :
    offset ≤ Text.byteLength front + 23 ∧ Text.byteLength front ≤ offset := by
  have least := Text.le_byteLength_takeBytes_add (Nat.le_trans (Nat.sub_le offset leadIn) inside)
  have most := Text.byteLength_takeBytes_le (offset - leadIn) text
  have lead : leadIn = 20 := rfl
  cases parts
  omega

/-- The character at an offset is shown, since a hundred bytes are shown from at most twenty-three
in front of it. -/
theorem window_holds {front shown back : List Char}
    (parts : window text offset = (front, shown, back)) (inside : offset < Text.byteLength text) :
    ∃ before c after, shown = before ++ c :: after ∧
      Text.byteLength front + Text.byteLength before ≤ offset ∧
      offset < Text.byteLength front + Text.byteLength before + c.utf8Size := by
  obtain ⟨low, high⟩ := window_near parts (Nat.le_of_lt inside)
  cases parts
  have whole := congrArg Text.byteLength (Text.takeBytes_append_dropBytes (offset - leadIn) text)
  rw [Text.byteLength_append] at whole
  set start := Text.byteLength (Text.takeBytes (offset - leadIn) text)
  have further : offset - start < Text.byteLength (Text.dropBytes (offset - leadIn) text) := by
    omega
  obtain ⟨before, c, after, rest, least, most⟩ := Text.exists_char_at further
  have wide := c.utf8Size_le_four
  have room : ∃ more, excerptBytes = Text.byteLength (before ++ [c]) + more := by
    refine Nat.exists_eq_add_of_le ?_
    rw [Text.byteLength_append, Text.byteLength_cons, Text.byteLength_nil, excerptBytes]
    omega
  obtain ⟨more, room⟩ := room
  refine ⟨before, c, Text.takeBytes more after, ?_, by omega, by omega⟩
  have shown := Text.takeBytes_append (before ++ [c]) after more
  rwa [← room, List.append_assoc, List.append_assoc, List.singleton_append, List.singleton_append,
    ← rest] at shown

theorem ne_of_mem_oneLine {c : Char} (member : c ∈ oneLine text) : c ≠ '\n' ∧ c ≠ '\r' := by
  obtain ⟨d, -, shown⟩ := List.mem_flatMap.mp member
  split_ifs at shown with feed back
  · rcases List.mem_pair.mp shown with rfl | rfl <;> decide
  · cases shown
  · cases List.mem_singleton.mp shown
    exact ⟨feed, back⟩

theorem oneLine_append (front back : List Char) :
    oneLine (front ++ back) = oneLine front ++ oneLine back :=
  List.flatMap_append

/-- The mark at one end of an excerpt, if text was cut away there. -/
def cutMark (cut : Prop) [Decidable cut] : List Char :=
  if cut then ellipsis else []

theorem oneLine_cutMark (cut : Prop) [Decidable cut] : oneLine (cutMark cut) = cutMark cut := by
  unfold cutMark
  split <;> rfl

/-- An excerpt is marked where bytes were cut away. -/
theorem excerpt_eq {front shown back : List Char}
    (parts : window text offset = (front, shown, back)) :
    (excerpt text offset).toList =
      cutMark (0 < Text.byteLength front) ++ oneLine shown ++
        cutMark (Text.byteLength (front ++ shown) < Text.byteLength text) := by
  have cutMark_eq (cut : List Char) (least : Nat) :
      cutMark (least < least + Text.byteLength cut) = if cut.isEmpty then [] else ellipsis := by
    cases cut with
    | nil => exact if_neg (Nat.lt_irrefl least)
    | cons c rest =>
      have wide := c.utf8Size_pos
      exact if_pos (by rw [Text.byteLength_cons]; omega)
  have first := cutMark_eq front 0
  have last := cutMark_eq back (Text.byteLength (front ++ shown))
  rw [Nat.zero_add] at first
  rw [← Text.byteLength_append, ← window_append parts] at last
  rw [excerpt, parts, String.toList_ofList, ← first, ← last, oneLine_append, oneLine_append,
    oneLine_cutMark, oneLine_cutMark]

theorem ne_of_mem_excerpt {c : Char} (member : c ∈ (excerpt text offset).toList) :
    c ≠ '\n' ∧ c ≠ '\r' := by
  rw [excerpt, String.toList_ofList] at member
  exact ne_of_mem_oneLine member

/-- The context of a fault is a window around its offset. The two cuts are found without leaving the
machine word, for a text that takes up at most half of its values; both are boundaries, so the text
between them can be sliced out. It has at most a hundred bytes, it starts at most twenty-three bytes
in front of the offset and not behind it, and it holds the character at the offset. It is shown on
one line, with a mark at each end where the text goes on. -/
theorem excerpt_window (kind : SourceErrorKind) (message : String) (text : List Char) (offset : Nat)
    (found : Option String) :
    ∃ start stop shown,
      (∀ word, 256 ≤ word → 2 * Text.byteLength text ≤ word →
        cuts? word text offset = some (start, stop)) ∧
      Text.slice? text start stop = some shown ∧
      (∃ front back, text = front ++ shown ++ back ∧
        Text.byteLength front = start ∧ Text.byteLength (front ++ shown) = stop) ∧
      stop ≤ start + 100 ∧
      (offset ≤ Text.byteLength text → offset ≤ start + 23 ∧ start ≤ offset) ∧
      (offset < Text.byteLength text → ∃ before c after, shown = before ++ c :: after ∧
        start + Text.byteLength before ≤ offset ∧
        offset < start + Text.byteLength before + c.utf8Size) ∧
      ∃ line, (located kind message text offset found).context = some line ∧
        line.toList =
          cutMark (0 < start) ++ oneLine shown ++ cutMark (stop < Text.byteLength text) ∧
        '\n' ∉ line.toList ∧ '\r' ∉ line.toList := by
  obtain ⟨front, shown, back, parts⟩ :
      ∃ front shown back, window text offset = (front, shown, back) := ⟨_, _, _, rfl⟩
  have whole := window_append parts
  have line := excerpt_eq parts
  refine ⟨Text.byteLength front, Text.byteLength (front ++ shown), shown, ?_, ?_,
    ⟨front, back, whole, rfl, rfl⟩, ?_, ?_, ?_, excerpt text offset, rfl, line, ?_, ?_⟩
  · intro word room half
    have part := congrArg Text.byteLength whole
    rw [Text.byteLength_append, Text.byteLength_append] at part
    have size : excerptBytes = 100 := rfl
    exact cuts?_eq parts (by omega)
  · rw [whole]
    exact Text.slice?_append front shown back
  · have short := Text.byteLength_takeBytes_le excerptBytes (Text.dropBytes (offset - leadIn) text)
    cases parts
    rw [Text.byteLength_append]
    exact Nat.add_le_add_left short _
  · exact window_near parts
  · exact window_holds parts
  · exact fun member => (ne_of_mem_excerpt member).1 rfl
  · exact fun member => (ne_of_mem_excerpt member).2 rfl

/-- Twenty bytes in front of the parenthesis is inside of a character, which begins at byte 24. -/
example :
    let text := List.replicate 15 '€' ++ "(bad".toList
    cuts? 256 text 45 = some (24, 49) ∧ excerpt text 45 = "[...]€€€€€€€(bad" := by
  decide +kernel

end SourceError

end CellScheme
