import CellScheme.Text.Blank
import CellScheme.Text.Bytes
import Mathlib.Data.List.Infix
import Mathlib.Data.List.TakeWhile
import Mathlib.Data.PFun

/-!
Parsers that take a front of a text and leave the rest. A parser may refuse its input, and then
another one may be tried on it, or fail for good; either way it says what is left of the text where
it stopped. A loop takes turns for as long as there are any (`loop`), and not along the text, so a
parser that never comes to an end is one without an outcome, and that a parser ends is something to
prove.

`Moves` says that a parser ends on every input and works on suffixes; when it moves strictly, what it
accepts is not empty. Each way to combine parsers keeps this, and `many` needs the strict form.
-/
namespace CellScheme.Parser

/-- What a parser looked for in vain, or what it found instead. -/
inductive Cause where
  | character
  | word
  /-- A character of a class. -/
  | member
  /-- A run of characters of a class, at least one. -/
  | run
  /-- Something else than what follows. -/
  | other
  /-- A number that is in range. -/
  | range
  | name
  /-- An item of a repetition that takes nothing would be repeated for ever. -/
  | idle
  | escape
  | depth
  | trailing
  deriving DecidableEq, Repr

/-- Where a parser stopped: what is left of the text there, and why. -/
structure Stop where
  rest : List Char
  cause : Cause
  deriving DecidableEq, Repr

/-- How a parser ends. -/
inductive Outcome (α : Type) where
  | accepted (value : α) (rest : List Char)
  /-- Another parser may be tried on the same input. -/
  | refused (stop : Stop)
  /-- No other parser may be tried. -/
  | failed (stop : Stop)

end Parser

/-- A parser takes a text to an outcome, or to none when it runs for ever. -/
def Parser (α : Type) : Type :=
  List Char → Option (Parser.Outcome α)

namespace Parser

variable {α β : Type} {p q : Parser α} {next : α → Parser β} {input rest : List Char} {value : α}
  {stop : Stop} {strictly : Bool} {c : Char}

instance : Monad Parser where
  pure value := fun input => some (.accepted value input)
  bind p next := fun input =>
    match p input with
    | some (.accepted value rest) => next value rest
    | some (.refused stop) => some (.refused stop)
    | some (.failed stop) => some (.failed stop)
    | none => none

/-- The second parser is tried where the first one refuses the input. -/
instance : OrElse (Parser α) where
  orElse p q := fun input =>
    match p input with
    | some (.refused _) => q () input
    | outcome => outcome

def refuse (cause : Cause) : Parser α := fun input => some (.refused ⟨input, cause⟩)

def fail (cause : Cause) : Parser α := fun input => some (.failed ⟨input, cause⟩)

/-- One character of a class. -/
def one (belongs : Char → Bool) (cause : Cause) : Parser Char
  | [] => some (.refused ⟨[], cause⟩)
  | c :: rest => some (if belongs c then .accepted c rest else .refused ⟨c :: rest, cause⟩)

/-- A given character. -/
def char (c : Char) : Parser Char := one (· == c) .character

def satisfy (belongs : Char → Bool) : Parser Char := one belongs .member

/-- A given word. -/
def tag (word : List Char) : Parser Unit := fun input =>
  some (if word.isPrefixOf input then .accepted () (input.drop word.length)
    else .refused ⟨input, .word⟩)

/-- The longest run of characters of a class, which must not be empty. -/
def takeWhile1 (belongs : Char → Bool) : Parser (List Char) := fun input =>
  match input.takeWhile belongs with
  | [] => some (.refused ⟨input, .run⟩)
  | run => some (.accepted run (input.dropWhile belongs))

/-- Any amount of layout. -/
def layout : Parser Unit := fun input => some (.accepted () (input.dropWhile Text.isLayout))

/-- A parser whose refusal is no obstacle. -/
def opt (p : Parser α) : Parser (Option α) := fun input =>
  match p input with
  | some (.accepted value rest) => some (.accepted (some value) rest)
  | some (.refused _) => some (.accepted none input)
  | some (.failed stop) => some (.failed stop)
  | none => none

/-- The characters that a parser takes, in place of what they denote. -/
def recognize (p : Parser α) : Parser (List Char) := fun input =>
  match p input with
  | some (.accepted _ rest) => some (.accepted (input.take (input.length - rest.length)) rest)
  | some (.refused stop) => some (.refused stop)
  | some (.failed stop) => some (.failed stop)
  | none => none

/-- Takes nothing, and refuses what the parser would accept. -/
def notNext (p : Parser α) : Parser Unit := fun input =>
  match p input with
  | some (.accepted _ _) => some (.refused ⟨input, .other⟩)
  | some (.refused _) => some (.accepted () input)
  | some (.failed stop) => some (.failed stop)
  | none => none

/-- Refuses, where the parser began, the values that do not pass a test. -/
def verify (p : Parser α) (test : α → Bool) (cause : Cause) : Parser α := fun input =>
  match p input with
  | some (.accepted value rest) =>
    some (if test value then .accepted value rest else .refused ⟨input, cause⟩)
  | outcome => outcome

/-- A parser whose refusal is final. -/
def cut (p : Parser α) : Parser α := fun input =>
  match p input with
  | some (.refused stop) => some (.failed stop)
  | outcome => outcome

open Classical in
/-- Takes turns, each of which ends the loop or goes on from another state. There is no result when a
turn has none, and when the turns never end. -/
noncomputable def loop {σ ρ : Type} (turn : σ → Option (ρ ⊕ σ)) (start : σ) : Option ρ :=
  (PFun.fix (fun state => (turn state : Part (ρ ⊕ σ))) start).toOption

theorem loop_eq_some_iff {σ ρ : Type} {turn : σ → Option (ρ ⊕ σ)} {start : σ} {result : ρ} :
    loop turn start = some result ↔ turn start = some (.inl result) ∨
      ∃ further, turn start = some (.inr further) ∧ loop turn further = some result := by
  simp only [loop, Part.toOption_eq_some_iff]
  refine PFun.mem_fix_iff.trans ?_
  simp only [Part.mem_coe, Option.mem_def]

/-- A loop takes its first turn, and then the others. -/
theorem loop_eq {σ ρ : Type} (turn : σ → Option (ρ ⊕ σ)) (start : σ) :
    loop turn start = match turn start with
      | some (.inl result) => some result
      | some (.inr further) => loop turn further
      | none => none := by
  refine Option.ext fun result => ?_
  rw [loop_eq_some_iff]
  cases turn start with
  | none => simp
  | some next => cases next <;> simp

/-- Takes one more item of a repetition. An item that takes nothing is refused, because it would be
repeated for ever. -/
def manyTurn (p : Parser α) : List α × List Char →
    Option (Outcome (List α) ⊕ (List α × List Char))
  | (items, input) =>
    match p input with
    | some (.accepted item rest) =>
      if Text.byteLength rest = Text.byteLength input then some (.inl (.refused ⟨input, .idle⟩))
      else some (.inr (item :: items, rest))
    | some (.refused _) => some (.inl (.accepted items.reverse input))
    | some (.failed stop) => some (.inl (.failed stop))
    | none => none

/-- Repeats a parser until it refuses the input, behind the items read so far, the newest first. -/
noncomputable def many (p : Parser α) (items : List α) : Parser (List α) := fun input =>
  loop p.manyTurn (items, input)

theorem bind_of_accepted (accepted : p input = some (.accepted value rest)) :
    (p >>= next) input = next value rest := by
  simp only [bind, accepted]

theorem bind_of_refused (refused : p input = some (.refused stop)) :
    (p >>= next) input = some (.refused stop) := by
  simp only [bind, refused]

theorem bind_of_failed (failed : p input = some (.failed stop)) :
    (p >>= next) input = some (.failed stop) := by
  simp only [bind, failed]

/-- What comes behind depends on the outcome of the first parser only. -/
theorem bind_congr_apply (same : p input = q rest) : (p >>= next) input = (q >>= next) rest := by
  simp only [bind, same]

theorem bind_eq_accepted {result : β} (accepted : (p >>= next) input = some (.accepted result rest)) :
    ∃ value middle, p input = some (.accepted value middle) ∧
      next value middle = some (.accepted result rest) := by
  match first : p input with
  | some (.accepted value middle) =>
    exact ⟨value, middle, rfl, (bind_of_accepted first).symm.trans accepted⟩
  | some (.refused _) => cases (bind_of_refused first).symm.trans accepted
  | some (.failed _) => cases (bind_of_failed first).symm.trans accepted
  | none =>
    simp only [bind, first] at accepted
    cases accepted

theorem orElse_of_refused (refused : p input = some (.refused stop)) :
    (p <|> q) input = q input := by
  simp only [HOrElse.hOrElse, OrElse.orElse, refused]

theorem orElse_of_accepted (accepted : p input = some (.accepted value rest)) :
    (p <|> q) input = some (.accepted value rest) := by
  simp only [HOrElse.hOrElse, OrElse.orElse, accepted]

theorem orElse_of_failed (failed : p input = some (.failed stop)) :
    (p <|> q) input = some (.failed stop) := by
  simp only [HOrElse.hOrElse, OrElse.orElse, failed]

/-- What is accepted is accepted by the first parser or, when that refuses, by the second. -/
theorem orElse_eq_accepted (accepted : (p <|> q) input = some (.accepted value rest)) :
    p input = some (.accepted value rest) ∨ q input = some (.accepted value rest) := by
  match first : p input with
  | some (.accepted _ _) => exact .inl ((orElse_of_accepted first).symm.trans accepted)
  | some (.refused _) => exact .inr ((orElse_of_refused first).symm.trans accepted)
  | some (.failed _) => cases (orElse_of_failed first).symm.trans accepted
  | none =>
    simp only [HOrElse.hOrElse, OrElse.orElse, first] at accepted
    cases accepted

theorem one_eq_accepted {belongs : Char → Bool} {cause : Cause}
    (accepted : one belongs cause input = some (.accepted c rest)) :
    input = c :: rest ∧ belongs c = true := by
  unfold one at accepted
  split at accepted
  case h_1 => cases accepted
  case h_2 =>
    split at accepted
    case isTrue member =>
      cases accepted
      exact ⟨rfl, member⟩
    case isFalse => cases accepted

theorem char_self (c : Char) (rest : List Char) :
    char c (c :: rest) = some (.accepted c rest) := by
  simp [char, one]

theorem char_refuses {first : Char} (other : first ≠ c) (rest : List Char) :
    char c (first :: rest) = some (.refused ⟨first :: rest, .character⟩) := by
  simp [char, one, other]

theorem char_eq_accepted {first : Char} (accepted : char c input = some (.accepted first rest)) :
    first = c ∧ input = c :: rest := by
  obtain ⟨begins, same⟩ := one_eq_accepted accepted
  obtain rfl := beq_iff_eq.mp same
  exact ⟨rfl, begins⟩

theorem tag_eq_accepted {word : List Char} {taken : Unit}
    (accepted : tag word input = some (.accepted taken rest)) : input = word ++ rest := by
  have accepted := Option.some.inj accepted
  split at accepted
  case isTrue begins =>
    obtain ⟨behind, rfl⟩ := List.isPrefixOf_iff_prefix.mp begins
    cases accepted
    rw [List.drop_left]
  case isFalse => cases accepted

theorem tag_append (word rest : List Char) :
    tag word (word ++ rest) = some (.accepted () rest) := by
  have begins : word.isPrefixOf (word ++ rest) = true :=
    List.isPrefixOf_iff_prefix.mpr (List.prefix_append word rest)
  simp only [tag, begins, if_true, List.drop_left]

/-- A text is its longest run of characters of a class, and what another character begins. -/
theorem takeWhile_split (belongs : Char → Bool) (input : List Char) :
    input = input.takeWhile belongs ++ input.dropWhile belongs ∧
      (∀ c ∈ input.takeWhile belongs, belongs c = true) ∧
      ∀ c ∈ (input.dropWhile belongs).head?, belongs c = false := by
  refine ⟨List.takeWhile_append_dropWhile.symm, fun c member => List.mem_takeWhile_imp member, ?_⟩
  intro c first
  have notMember := List.head?_dropWhile_not belongs input
  rwa [Option.mem_def.mp first] at notMember

theorem takeWhile1_eq_accepted {belongs : Char → Bool} {run : List Char}
    (accepted : takeWhile1 belongs input = some (.accepted run rest)) :
    input = run ++ rest ∧ (∀ c ∈ run, belongs c = true) ∧ ∀ c ∈ rest.head?, belongs c = false := by
  unfold takeWhile1 at accepted
  split at accepted
  case h_1 => cases accepted
  case h_2 =>
    cases accepted
    exact takeWhile_split belongs input

theorem many_of_accepted {items : List α} (accepted : p input = some (.accepted value rest))
    (busy : Text.byteLength rest ≠ Text.byteLength input) :
    p.many items input = p.many (value :: items) rest := by
  unfold many
  rw [loop_eq]
  simp only [manyTurn, accepted, busy, if_false]

theorem many_of_refused {items : List α} (refused : p input = some (.refused stop)) :
    p.many items input = some (.accepted items.reverse input) := by
  unfold many
  rw [loop_eq]
  simp only [manyTurn, refused]

theorem many_of_failed {items : List α} (failed : p input = some (.failed stop)) :
    p.many items input = some (.failed stop) := by
  unfold many
  rw [loop_eq]
  simp only [manyTurn, failed]

theorem takeWhile1_cases (belongs : Char → Bool) (input : List Char) :
    takeWhile1 belongs input = some (.refused ⟨input, .run⟩) ∨
      ∃ run rest, takeWhile1 belongs input = some (.accepted run rest) := by
  unfold takeWhile1
  split
  · exact .inl rfl
  · exact .inr ⟨_, _, rfl⟩

/-- A run is taken whole where another character, or none, follows. -/
theorem takeWhile1_append {belongs : Char → Bool} {run : List Char} (some : run ≠ [])
    (members : ∀ c ∈ run, belongs c = true) (ends : ∀ c ∈ rest.head?, belongs c = false) :
    takeWhile1 belongs (run ++ rest) = .some (.accepted run rest) := by
  have noMore : rest.takeWhile belongs = [] ∧ rest.dropWhile belongs = rest := by
    cases rest with
    | nil => exact ⟨rfl, rfl⟩
    | cons c rest => simp [ends c rfl]
  unfold takeWhile1
  rw [List.takeWhile_append_of_pos members, List.dropWhile_append_of_pos members, noMore.1,
    noMore.2, List.append_nil]
  cases run with
  | nil => exact absurd rfl some
  | cons c run => rfl

theorem opt_of_refused (refused : p input = some (.refused stop)) :
    p.opt input = some (.accepted none input) := by
  simp only [opt, refused]

theorem opt_of_accepted (accepted : p input = some (.accepted value rest)) :
    p.opt input = some (.accepted (some value) rest) := by
  simp only [opt, accepted]

theorem recognize_append {front : List Char}
    (accepted : p (front ++ rest) = some (.accepted value rest)) :
    p.recognize (front ++ rest) = some (.accepted front rest) := by
  simp only [recognize, accepted, List.length_append, Nat.add_sub_cancel, List.take_left]

theorem verify_eq_accepted {test : α → Bool} {cause : Cause}
    (accepted : p.verify test cause input = some (.accepted value rest)) :
    p input = some (.accepted value rest) ∧ test value = true := by
  unfold verify at accepted
  split at accepted
  case h_1 ended =>
    have accepted := Option.some.inj accepted
    split at accepted
    case isTrue passes =>
      cases accepted
      exact ⟨ended, passes⟩
    case isFalse => cases accepted
  case h_2 other => exact absurd accepted (other _ _)

theorem verify_of_accepted {test : α → Bool} (cause : Cause)
    (accepted : p input = some (.accepted value rest)) (passes : test value = true) :
    p.verify test cause input = some (.accepted value rest) := by
  simp only [verify, accepted, passes, if_true]

theorem cut_of_accepted (accepted : p input = some (.accepted value rest)) :
    p.cut input = some (.accepted value rest) := by
  simp only [cut, accepted]

theorem cut_of_refused (refused : p input = some (.refused stop)) :
    p.cut input = some (.failed stop) := by
  simp only [cut, refused]

/-- An outcome leaves a suffix of the input wherever the parser stopped, and a shorter one if it
accepts strictly. -/
def Outcome.Leaves (strictly : Bool) (input : List Char) : Outcome α → Prop
  | .accepted _ rest => rest <:+ input ∧ (strictly = true → rest.length < input.length)
  | .refused stop | .failed stop => stop.rest <:+ input

theorem Outcome.Leaves.weaken {outcome : Outcome α} (leaves : outcome.Leaves strictly input) :
    outcome.Leaves false input := by
  cases outcome with
  | accepted value rest => exact ⟨leaves.1, by simp⟩
  | refused stop | failed stop => exact leaves

/-- An outcome on a suffix is one on the whole. -/
theorem Outcome.Leaves.of_suffix {outcome : Outcome α} (leaves : outcome.Leaves strictly rest)
    (suffix : rest <:+ input) : outcome.Leaves strictly input := by
  cases outcome with
  | accepted value further =>
    exact ⟨leaves.1.trans suffix, fun strict => (leaves.2 strict).trans_le suffix.length_le⟩
  | refused stop | failed stop => exact List.IsSuffix.trans leaves suffix

/-- Behind a strict step, every outcome is strict. -/
theorem Outcome.Leaves.of_shorter {outcome : Outcome α} (leaves : outcome.Leaves false rest)
    (suffix : rest <:+ input) (shorter : strictly = true → rest.length < input.length) :
    outcome.Leaves strictly input := by
  cases outcome with
  | accepted value further =>
    exact ⟨leaves.1.trans suffix, fun strict => leaves.1.length_le.trans_lt (shorter strict)⟩
  | refused stop | failed stop => exact List.IsSuffix.trans leaves suffix

/-- Whatever the input, the parser ends, and leaves a suffix of the input. -/
def Moves (strictly : Bool) (p : Parser α) : Prop :=
  ∀ input, ∃ outcome, p input = some outcome ∧ outcome.Leaves strictly input

theorem Moves.leaves (moves : p.Moves strictly) {outcome : Outcome α}
    (ended : p input = some outcome) : outcome.Leaves strictly input := by
  obtain ⟨outcome', ended', leaves⟩ := moves input
  obtain rfl := Option.some.inj (ended.symm.trans ended')
  exact leaves

theorem Moves.weaken (moves : p.Moves strictly) : p.Moves false := by
  intro input
  obtain ⟨outcome, ends, leaves⟩ := moves input
  exact ⟨outcome, ends, leaves.weaken⟩

theorem moves_pure (value : α) : (pure value : Parser α).Moves false :=
  fun input => ⟨_, rfl, List.suffix_refl input, by simp⟩

theorem moves_refuse (cause : Cause) : (refuse cause : Parser α).Moves strictly :=
  fun input => ⟨_, rfl, List.suffix_refl input⟩

theorem moves_fail (cause : Cause) : (fail cause : Parser α).Moves strictly :=
  fun input => ⟨_, rfl, List.suffix_refl input⟩

/-- Behind a step, strict or not, parsers may go on that leave suffixes. -/
theorem Moves.bind (first : p.Moves strictly) (others : ∀ value, (next value).Moves false) :
    (p >>= next).Moves strictly := by
  intro input
  obtain ⟨outcome, ends, leaves⟩ := first input
  cases outcome with
  | accepted value rest =>
    obtain ⟨outcome, ends', leaves'⟩ := others value rest
    exact ⟨outcome, (bind_of_accepted ends).trans ends', leaves'.of_shorter leaves.1 leaves.2⟩
  | refused stop => exact ⟨_, bind_of_refused ends, leaves⟩
  | failed stop => exact ⟨_, bind_of_failed ends, leaves⟩

/-- Behind a step that may take nothing, a strict one makes both strict. -/
theorem Moves.before (first : p.Moves false) (others : ∀ value, (next value).Moves strictly) :
    (p >>= next).Moves strictly := by
  intro input
  obtain ⟨outcome, ends, leaves⟩ := first input
  cases outcome with
  | accepted value rest =>
    obtain ⟨outcome, ends', leaves'⟩ := others value rest
    exact ⟨outcome, (bind_of_accepted ends).trans ends', leaves'.of_suffix leaves.1⟩
  | refused stop => exact ⟨_, bind_of_refused ends, leaves⟩
  | failed stop => exact ⟨_, bind_of_failed ends, leaves⟩

theorem Moves.orElse (first : p.Moves strictly) (other : q.Moves strictly) :
    (p <|> q).Moves strictly := by
  intro input
  obtain ⟨outcome, ends, leaves⟩ := first input
  cases outcome with
  | accepted value rest => exact ⟨_, orElse_of_accepted ends, leaves⟩
  | refused stop =>
    obtain ⟨outcome, ends', leaves'⟩ := other input
    exact ⟨outcome, (orElse_of_refused ends).trans ends', leaves'⟩
  | failed stop => exact ⟨_, orElse_of_failed ends, leaves⟩

theorem moves_one (belongs : Char → Bool) (cause : Cause) : (one belongs cause).Moves true := by
  intro input
  cases input with
  | nil => exact ⟨_, rfl, List.suffix_refl []⟩
  | cons c rest =>
    refine ⟨_, rfl, ?_⟩
    split
    · exact ⟨List.suffix_cons c rest, fun _ => Nat.lt_succ_self _⟩
    · exact List.suffix_refl (c :: rest)

theorem moves_char (c : Char) : (char c).Moves true := moves_one _ _

/-- A word that is not empty is a strict step. -/
theorem moves_tag (c : Char) (word : List Char) : (tag (c :: word)).Moves true := by
  intro input
  refine ⟨_, rfl, ?_⟩
  split
  case isTrue begins =>
    obtain ⟨behind, rfl⟩ := List.isPrefixOf_iff_prefix.mp begins
    refine ⟨List.drop_suffix _ _, fun _ => ?_⟩
    rw [List.length_drop, List.length_append, List.length_cons]
    omega
  case isFalse => exact List.suffix_refl input

theorem moves_takeWhile1 (belongs : Char → Bool) : (takeWhile1 belongs).Moves true := by
  intro input
  have whole := congrArg List.length (List.takeWhile_append_dropWhile (p := belongs) (l := input))
  rw [List.length_append] at whole
  unfold takeWhile1
  split
  case h_1 => exact ⟨_, rfl, List.suffix_refl input⟩
  case h_2 some =>
    refine ⟨_, rfl, List.dropWhile_suffix _, fun _ => ?_⟩
    have positive := List.length_pos_of_ne_nil some
    omega

theorem moves_layout : layout.Moves false :=
  fun _ => ⟨_, rfl, List.dropWhile_suffix _, by simp⟩

theorem Moves.opt (moves : p.Moves strictly) : p.opt.Moves false := by
  intro input
  obtain ⟨outcome, ends, leaves⟩ := moves input
  unfold Parser.opt
  rw [ends]
  cases outcome with
  | accepted value rest => exact ⟨_, rfl, leaves.weaken⟩
  | refused stop => exact ⟨_, rfl, List.suffix_refl input, by simp⟩
  | failed stop => exact ⟨_, rfl, leaves⟩

theorem Moves.recognize (moves : p.Moves strictly) : p.recognize.Moves strictly := by
  intro input
  obtain ⟨outcome, ends, leaves⟩ := moves input
  unfold Parser.recognize
  rw [ends]
  cases outcome with
  | accepted value rest => exact ⟨_, rfl, leaves⟩
  | refused stop | failed stop => exact ⟨_, rfl, leaves⟩

theorem Moves.notNext (moves : p.Moves strictly) : p.notNext.Moves false := by
  intro input
  obtain ⟨outcome, ends, leaves⟩ := moves input
  unfold Parser.notNext
  rw [ends]
  cases outcome with
  | accepted value rest => exact ⟨_, rfl, List.suffix_refl input⟩
  | refused stop => exact ⟨_, rfl, List.suffix_refl input, by simp⟩
  | failed stop => exact ⟨_, rfl, leaves⟩

theorem Moves.verify (moves : p.Moves strictly) (test : α → Bool) (cause : Cause) :
    (p.verify test cause).Moves strictly := by
  intro input
  obtain ⟨outcome, ends, leaves⟩ := moves input
  unfold Parser.verify
  rw [ends]
  cases outcome with
  | accepted value rest =>
    refine ⟨_, rfl, ?_⟩
    split
    · exact leaves
    · exact List.suffix_refl input
  | refused stop | failed stop => exact ⟨_, rfl, leaves⟩

theorem Moves.cut (moves : p.Moves strictly) : p.cut.Moves strictly := by
  intro input
  obtain ⟨outcome, ends, leaves⟩ := moves input
  unfold Parser.cut
  rw [ends]
  cases outcome with
  | accepted value rest => exact ⟨_, rfl, leaves⟩
  | refused stop | failed stop => exact ⟨_, rfl, leaves⟩

/-- What is recognized is what stood in front of the rest. -/
theorem Moves.recognize_eq_accepted (moves : p.Moves strictly) {chars : List Char}
    (accepted : p.recognize input = some (.accepted chars rest)) : input = chars ++ rest := by
  obtain ⟨outcome, ends, leaves⟩ := moves input
  unfold Parser.recognize at accepted
  rw [ends] at accepted
  cases outcome with
  | accepted value behind =>
    cases accepted
    obtain ⟨front, rfl⟩ := leaves.1
    rw [List.length_append, Nat.add_sub_cancel, List.take_left]
  | refused stop | failed stop => cases accepted

/-- A parser that moves strictly can be repeated: the repetition ends, and never meets an item that
takes nothing, which is the one thing that it would refuse. -/
theorem Moves.exists_many (moves : p.Moves true) (items : List α) (input : List Char) :
    ∃ outcome, p.many items input = some outcome ∧ outcome.Leaves false input ∧
      ∀ stop, outcome ≠ .refused stop := by
  induction size : input.length using Nat.strong_induction_on generalizing items input with
  | _ size ih =>
    obtain ⟨outcome, ends, leaves⟩ := moves input
    cases outcome with
    | accepted item rest =>
      obtain ⟨suffix, shorter⟩ := leaves
      have shorter := shorter rfl
      have busy := (Text.byteLength_lt_of_suffix suffix shorter).ne
      obtain ⟨outcome, ends', leaves', notIdle⟩ :=
        ih rest.length (size ▸ shorter) (item :: items) rest rfl
      exact ⟨outcome, (many_of_accepted ends busy).trans ends', leaves'.of_suffix suffix, notIdle⟩
    | refused stop =>
      exact ⟨_, many_of_refused ends, ⟨List.suffix_refl input, by simp⟩, by simp⟩
    | failed stop => exact ⟨_, many_of_failed ends, leaves, by simp⟩

theorem Moves.many (moves : p.Moves true) (items : List α) : Moves false (p.many items) := by
  intro input
  obtain ⟨outcome, ends, leaves, -⟩ := moves.exists_many items input
  exact ⟨outcome, ends, leaves⟩

/-- A parser that leaves every input it does not accept to the parsers behind it. -/
def Tentative (p : Parser α) : Prop :=
  ∀ input stop, p input ≠ some (.failed stop)

theorem tentative_pure (value : α) : (pure value : Parser α).Tentative := by
  rintro input stop ⟨⟩

theorem tentative_refuse (cause : Cause) : (refuse cause : Parser α).Tentative := by
  rintro input stop ⟨⟩

theorem tentative_one (belongs : Char → Bool) (cause : Cause) :
    (one belongs cause).Tentative := by
  intro input stop failed
  unfold one at failed
  split at failed
  case h_1 => cases failed
  case h_2 => split at failed <;> cases failed

theorem tentative_tag (word : List Char) : (tag word).Tentative := by
  intro input stop failed
  have failed := Option.some.inj failed
  split at failed <;> cases failed

theorem tentative_takeWhile1 (belongs : Char → Bool) : (takeWhile1 belongs).Tentative := by
  intro input stop failed
  unfold takeWhile1 at failed
  split at failed <;> cases failed

theorem Tentative.bind (first : p.Tentative) (others : ∀ value, (next value).Tentative) :
    (p >>= next).Tentative := by
  intro input stop failed
  match ended : p input with
  | some (.accepted value rest) =>
    exact others value rest stop ((bind_of_accepted ended).symm.trans failed)
  | some (.refused _) => cases (bind_of_refused ended).symm.trans failed
  | some (.failed stop') => exact first input stop' ended
  | none =>
    simp only [Bind.bind, ended] at failed
    cases failed

theorem Tentative.orElse (first : p.Tentative) (other : q.Tentative) : (p <|> q).Tentative := by
  intro input stop failed
  match ended : p input with
  | some (.accepted _ _) => cases (orElse_of_accepted ended).symm.trans failed
  | some (.refused _) => exact other input stop ((orElse_of_refused ended).symm.trans failed)
  | some (.failed stop') => exact first input stop' ended
  | none =>
    simp only [HOrElse.hOrElse, OrElse.orElse, ended] at failed
    cases failed

theorem Tentative.opt (tentative : p.Tentative) : p.opt.Tentative := by
  intro input stop failed
  unfold Parser.opt at failed
  split at failed
  case h_3 ended => exact tentative input _ ended
  all_goals cases failed

theorem Tentative.recognize (tentative : p.Tentative) : p.recognize.Tentative := by
  intro input stop failed
  unfold Parser.recognize at failed
  split at failed
  case h_3 ended => exact tentative input _ ended
  all_goals cases failed

theorem Tentative.notNext (tentative : p.Tentative) : p.notNext.Tentative := by
  intro input stop failed
  unfold Parser.notNext at failed
  split at failed
  case h_3 ended => exact tentative input _ ended
  all_goals cases failed

theorem Tentative.verify (tentative : p.Tentative) (test : α → Bool) (cause : Cause) :
    (p.verify test cause).Tentative := by
  intro input stop failed
  unfold Parser.verify at failed
  split at failed
  case h_1 =>
    have failed := Option.some.inj failed
    split at failed <;> cases failed
  case h_2 => exact tentative input stop failed

/-- A parser that ends, and not for good, accepts its input or refuses it. -/
theorem Moves.accepts_or_refuses (moves : p.Moves strictly) (tentative : p.Tentative)
    (input : List Char) : (∃ value rest, p input = some (.accepted value rest)) ∨
      ∃ stop, p input = some (.refused stop) := by
  obtain ⟨outcome, ends, -⟩ := moves input
  cases outcome with
  | accepted value rest => exact .inl ⟨value, rest, ends⟩
  | refused stop => exact .inr ⟨stop, ends⟩
  | failed stop => exact absurd ends (tentative input stop)

/-- Where whatever the first parser accepts is the same, an alternative accepts it when one of the two
does. -/
theorem Moves.orElse_accepts (moves : p.Moves strictly) (tentative : p.Tentative)
    (alone : ∀ value' rest', p input = some (.accepted value' rest') → value' = value ∧ rest' = rest)
    (accepted : p input = some (.accepted value rest) ∨ q input = some (.accepted value rest)) :
    (p <|> q) input = some (.accepted value rest) := by
  rcases moves.accepts_or_refuses tentative input with ⟨value', rest', first⟩ | ⟨stop, first⟩
  · obtain ⟨rfl, rfl⟩ := alone value' rest' first
    exact orElse_of_accepted first
  · rw [orElse_of_refused first]
    rcases accepted with other | accepted
    · cases first.symm.trans other
    · exact accepted

end Parser

end CellScheme
