import CellScheme.Proofs.Combinator
import CellScheme.Reader

/-!
Reading by recursive descent: one parser for each kind of datum, alternatives that go back to where
they began, and loops for the characters of a string, the items of a list and the data of a program.
Every parser ends on every text, works on suffixes and takes at least one character of what it
accepts (`moves_datum` and its companions). That the machine reads the same is shown in
`CellScheme.Proofs.Agreement`.
-/
open CellScheme.Parser

namespace CellScheme.Descent

open Reader

variable {text rest behind : List Char} {stop : Stop}

/-- No symbol character follows, so a word is over. -/
def wordEnd : Parser Unit := (satisfy Text.isSymbolChar).notNext

/-- The number that digits denote. It is refused when it is out of range. -/
def inRange : Option Fixnum → Parser Value
  | some n => pure (.number n)
  | none => refuse .range

/-- A hexadecimal number. -/
def hexadecimal : Parser Value := do
  let _ ← char '#'
  let _ ← char 'x' <|> char 'X'
  let digits ← takeWhile1 fun c => (Fixnum.hexDigit? c).isSome
  inRange (Fixnum.ofHex? digits)

/-- The characters of a decimal number: digits behind an optional minus sign. -/
def numeral : Parser (List Char) := do
  let _ ← (char '-').opt
  takeWhile1 Char.isDigit

/-- A decimal number. -/
def decimal : Parser Value := do
  let digits ← numeral.recognize
  inRange (Fixnum.ofDecimal? digits)

/-- What ends with the word that it stands in. -/
def wholeWord (p : Parser Value) : Parser Value := do
  let value ← p
  wordEnd
  return value

def number : Parser Value := wholeWord (hexadecimal <|> decimal)

/-- A truth value, by its word. -/
def truth (word : List Char) (value : Bool) : Parser Value := do
  tag word
  return .boolean value

def boolean : Parser Value :=
  wholeWord (truth ['#', 't'] true <|> truth ['#', 'f'] false)

/-- A symbol. What is spelled like none is refused where it begins. -/
def symbol : Parser Value := do
  let name ← (takeWhile1 Text.isSymbolChar).verify Text.isSymbolName .name
  return .symbol (String.ofList name)

/-- Takes one character of a string literal, or two where an escape begins, behind the characters
read so far, the newest first. A fault is final: nothing else begins like a string. -/
def stringTurn (chars : List Char) : List Char → Outcome Value ⊕ (List Char × List Char)
  | '"' :: rest => .inl (.accepted (.string (String.ofList chars.reverse)) rest)
  | '\\' :: letter :: rest =>
    match Text.unescape? letter with
    | some c => .inr (c :: chars, rest)
    | none => .inl (.failed ⟨'\\' :: letter :: rest, .escape⟩)
  | ['\\'] => .inl (.failed ⟨[], .character⟩)
  | c :: rest => .inr (c :: chars, rest)
  | [] => .inl (.failed ⟨[], .character⟩)

/-- The rest of a string literal. -/
noncomputable def stringBody (chars : List Char) : Parser Value := fun input =>
  loop (fun state => some (stringTurn state.1 state.2)) (chars, input)

theorem stringBody_eq (chars input : List Char) :
    stringBody chars input = match stringTurn chars input with
      | .inl outcome => some outcome
      | .inr further => stringBody further.1 further.2 := by
  unfold stringBody
  rw [loop_eq]
  dsimp only
  cases stringTurn chars input <;> rfl

noncomputable def string : Parser Value := do
  let _ ← char '"'
  stringBody []

/-- What may stand where a datum begins, apart from lists and quotes. -/
noncomputable def atom : Parser Value := number <|> boolean <|> string <|> symbol

mutual

/-- One datum behind any layout, inside a number of levels. -/
noncomputable def datum (depth : Nat) : Parser Value :=
  if nestingLimit ≤ depth then fail .depth
  else do
    layout
    quoted depth <|> list depth <|> atom
termination_by 3 * (nestingLimit - depth)
decreasing_by all_goals omega

/-- Once a list is open, a missing parenthesis is final, so it is reported where the list ends. -/
noncomputable def list (depth : Nat) : Parser Value := do
  let _ ← char '('
  let items ← (datum (depth + 1)).many []
  layout
  let _ ← (char ')').cut
  return .list items
termination_by 3 * (nestingLimit - depth - 1) + 1

noncomputable def quoted (depth : Nat) : Parser Value := do
  let _ ← char '\''
  let quotation ← datum (depth + 1)
  return .list [.symbol "quote", quotation]
termination_by 3 * (nestingLimit - depth - 1) + 1

end

/-- The trouble that a cause is reported as. -/
def trouble : Cause → Trouble
  | .depth => .tooDeep
  | .escape => .badEscape
  | .character => .unclosed
  | .trailing => .trailing
  | .word | .member | .run | .other | .range | .name | .idle => .noDatum

/-- The fault that a stop is reported as, in a text of a number of bytes. Its offset is computed from
what is left: all the bytes less those that are left. -/
def fault (total : Nat) (stop : Stop) : Fault :=
  ⟨trouble stop.cause, total - Text.byteLength stop.rest⟩

/-- Takes one datum of what is left of a program, behind the data read so far, the newest first. -/
noncomputable def programTurn (read : List Value) (rest : List Char) :
    Option (Except Stop (List Value) ⊕ (List Value × List Char)) :=
  match Text.trimStart rest with
  | [] => some (.inl (.ok read.reverse))
  | ink =>
    match datum 0 ink with
    | some (.accepted value rest) => some (.inr (value :: read, rest))
    | some (.refused stop) => some (.inl (.error stop))
    | some (.failed stop) => some (.inl (.error stop))
    | none => none

/-- The data of what is left of a program. -/
noncomputable def program (read : List Value) (rest : List Char) :
    Option (Except Stop (List Value)) :=
  loop (fun state => programTurn state.1 state.2) (read, rest)

/-- One turn of the loop, and then the others. -/
theorem program_eq (read : List Value) (rest : List Char) :
    program read rest = match programTurn read rest with
      | some (.inl result) => some result
      | some (.inr further) => program further.1 further.2
      | none => none := by
  unfold program
  rw [loop_eq]
  rcases programTurn read rest with _ | _ | _ <;> rfl

theorem program_of_blank {read : List Value} (blank : Text.trimStart rest = []) :
    program read rest = some (.ok read.reverse) := by
  simp only [program_eq, programTurn, blank]

theorem program_of_accepted {read : List Value} {value : Value} {c : Char}
    (ink : Text.trimStart rest = c :: text)
    (accepted : datum 0 (c :: text) = some (.accepted value behind)) :
    program read rest = program (value :: read) behind := by
  rw [program_eq]
  simp only [programTurn, ink, accepted]

theorem program_of_refused {read : List Value} {c : Char} (ink : Text.trimStart rest = c :: text)
    (refused : datum 0 (c :: text) = some (.refused stop)) :
    program read rest = some (.error stop) := by
  simp only [program_eq, programTurn, ink, refused]

theorem program_of_failed {read : List Value} {c : Char} (ink : Text.trimStart rest = c :: text)
    (failed : datum 0 (c :: text) = some (.failed stop)) :
    program read rest = some (.error stop) := by
  simp only [program_eq, programTurn, ink, failed]

/-- The one datum of a text. -/
noncomputable def single (text : List Char) : Option (Except Stop Value) :=
  match (do let value ← datum 0; layout; return value : Parser Value) text with
  | some (.accepted value []) => some (.ok value)
  | some (.accepted _ rest) => some (.error ⟨rest, .trailing⟩)
  | some (.refused stop) => some (.error stop)
  | some (.failed stop) => some (.error stop)
  | none => none

theorem moves_wordEnd : wordEnd.Moves false := (moves_one _ _).notNext

theorem moves_inRange (found : Option Fixnum) : (inRange found).Moves false := by
  cases found with
  | some n => exact moves_pure _
  | none => exact moves_refuse _

theorem moves_hexadecimal : hexadecimal.Moves true := by
  refine (moves_char '#').bind fun _ => ?_
  refine ((moves_char 'x').orElse (moves_char 'X')).weaken.bind fun _ => ?_
  exact (moves_takeWhile1 _).weaken.bind fun digits => moves_inRange _

theorem moves_numeral : numeral.Moves true :=
  (moves_char '-').opt.before fun _ => moves_takeWhile1 _

theorem moves_decimal : decimal.Moves true :=
  moves_numeral.recognize.bind fun _ => moves_inRange _

theorem moves_wholeWord {p : Parser Value} (moves : p.Moves true) : (wholeWord p).Moves true :=
  moves.bind fun _ => moves_wordEnd.bind fun _ => moves_pure _

theorem moves_number : number.Moves true :=
  moves_wholeWord (moves_hexadecimal.orElse moves_decimal)

theorem moves_truth (c : Char) (word : List Char) (value : Bool) :
    (truth (c :: word) value).Moves true :=
  (moves_tag c word).bind fun _ => moves_pure _

theorem moves_boolean : boolean.Moves true :=
  moves_wholeWord ((moves_truth '#' ['t'] true).orElse (moves_truth '#' ['f'] false))

theorem moves_symbol : symbol.Moves true :=
  ((moves_takeWhile1 _).verify _ _).bind fun _ => moves_pure _

/-- The loop over the characters of a string ends, because each turn takes one or two. -/
theorem moves_stringBody (chars : List Char) : Moves true (stringBody chars) := by
  intro input
  induction size : input.length using Nat.strong_induction_on generalizing chars input with
  | _ size ih =>
    subst size
    have turn : ∀ {chars rest}, rest <:+ input → rest.length < input.length →
        ∃ outcome, stringBody chars rest = some outcome ∧ outcome.Leaves true input := by
      intro chars rest suffix shorter
      obtain ⟨outcome, ends, leaves⟩ := ih rest.length shorter chars rest rfl
      exact ⟨outcome, ends, leaves.of_suffix suffix⟩
    rw [stringBody_eq]
    fun_cases stringTurn chars input
    case case1 rest => exact ⟨_, rfl, List.suffix_cons _ _, fun _ => Nat.lt_succ_self _⟩
    case case2 letter rest c _ =>
      refine turn ((List.suffix_cons _ _).trans (List.suffix_cons _ _)) ?_
      simp only [List.length_cons]
      omega
    case case3 => exact ⟨_, rfl, List.suffix_refl _⟩
    case case4 => exact ⟨_, rfl, List.nil_suffix⟩
    case case5 c rest _ _ _ => exact turn (List.suffix_cons c rest) (Nat.lt_succ_self _)
    case case6 => exact ⟨_, rfl, List.nil_suffix⟩

theorem moves_string : string.Moves true :=
  (moves_char '"').bind fun _ => (moves_stringBody []).weaken

theorem moves_atom : atom.Moves true :=
  moves_number.orElse <| moves_boolean.orElse <| moves_string.orElse moves_symbol

theorem moves_list {depth : Nat} (inner : (datum (depth + 1)).Moves true) :
    (list depth).Moves true := by
  rw [list]
  refine (moves_char '(').bind fun _ => ?_
  refine (inner.many []).bind fun items => ?_
  refine moves_layout.bind fun _ => ?_
  exact (moves_char ')').cut.weaken.bind fun _ => moves_pure _

theorem moves_quoted {depth : Nat} (inner : (datum (depth + 1)).Moves true) :
    (quoted depth).Moves true := by
  rw [quoted]
  refine (moves_char '\'').bind fun _ => ?_
  exact inner.weaken.bind fun _ => moves_pure _

/-- From the limit down: a datum is made of data one level deeper. -/
theorem moves_datum (depth : Nat) : (datum depth).Moves true := by
  induction room : nestingLimit - depth generalizing depth with
  | zero =>
    rw [datum, if_pos (by omega)]
    exact moves_fail _
  | succ room ih =>
    have inner : (datum (depth + 1)).Moves true := ih (depth + 1) (by omega)
    rw [datum, if_neg (by omega)]
    refine moves_layout.before fun _ => ?_
    exact (moves_quoted inner).orElse ((moves_list inner).orElse moves_atom)

/-- What is left where a parser stopped is a suffix of a text. -/
def StopsWithin {α : Type} (text : List Char) (result : Except Stop α) : Prop :=
  ∀ stop, result = .error stop → stop.rest <:+ text

theorem stopsWithin_ok {α : Type} (value : α) : StopsWithin text (.ok value) :=
  fun _ other => by cases other

theorem stopsWithin_error {α : Type} (suffix : stop.rest <:+ text) :
    StopsWithin text (.error stop : Except Stop α) := by
  rintro _ ⟨⟩
  exact suffix

/-- The loop over the data of a program ends, because each turn takes a datum. -/
theorem exists_program (read : List Value) (rest : List Char) :
    ∃ result, program read rest = some result ∧ StopsWithin rest result := by
  induction size : rest.length using Nat.strong_induction_on generalizing read rest with
  | _ size ih =>
    subst size
    have trimmed : Text.trimStart rest <:+ rest := List.dropWhile_suffix _
    cases ink : Text.trimStart rest with
    | nil => exact ⟨_, program_of_blank ink, stopsWithin_ok _⟩
    | cons c text =>
      rw [ink] at trimmed
      obtain ⟨outcome, ends, leaves⟩ := moves_datum 0 (c :: text)
      cases outcome with
      | accepted value behind =>
        obtain ⟨suffix, shorter⟩ := leaves
        have shorter := (shorter rfl).trans_le trimmed.length_le
        obtain ⟨result, ends', within⟩ := ih _ shorter (value :: read) behind rfl
        exact ⟨result, (program_of_accepted ink ends).trans ends', fun stop stopped =>
          (within stop stopped).trans (suffix.trans trimmed)⟩
      | refused stop =>
        exact ⟨_, program_of_refused ink ends, stopsWithin_error (List.IsSuffix.trans leaves trimmed)⟩
      | failed stop =>
        exact ⟨_, program_of_failed ink ends, stopsWithin_error (List.IsSuffix.trans leaves trimmed)⟩

theorem exists_single (text : List Char) :
    ∃ result, single text = some result ∧ StopsWithin text result := by
  have moves : (do let value ← datum 0; layout; return value : Parser Value).Moves true :=
    (moves_datum 0).bind fun _ => moves_layout.bind fun _ => moves_pure _
  obtain ⟨outcome, ends, leaves⟩ := moves text
  unfold single
  rw [ends]
  cases outcome with
  | accepted value rest =>
    cases rest with
    | nil => exact ⟨_, rfl, stopsWithin_ok _⟩
    | cons c rest => exact ⟨_, rfl, stopsWithin_error leaves.1⟩
  | refused stop | failed stop => exact ⟨_, rfl, stopsWithin_error leaves⟩

end CellScheme.Descent
