import Mathlib.Logic.Function.Iterate
import CellScheme.Proofs.Reading
import CellScheme.Value.Print

/-!
What is printed reads back. The printed form of a value made of numbers, booleans, strings, symbols
and lists is in the grammar, as that value, provided that its lists nest no deeper than the grammar
allows; the reader therefore gives the value back, and a program of such values, too, when they are
printed one to a line (`Reader.readProgram_lines`). Where the lists nest deeper, the machine comes
to an opening parenthesis that it may not enter before anything else can go wrong.

Blanking comments leaves a printed form alone, because a semicolon can stand only inside one of its
string literals.
-/
namespace CellScheme

open Grammar

namespace Value

mutual

/-- A value that a text can hold: data whose symbols are symbol names. -/
def isReadable : Value → Bool
  | .number _ | .string _ | .boolean _ => true
  | .symbol name => Text.isSymbolName name.toList
  | .list items => allReadable items
  | .primitive _ | .closure .. | .unspecified => false

/-- Several values that a text can hold. -/
def allReadable : List Value → Bool
  | [] => true
  | item :: rest => item.isReadable && allReadable rest

end

mutual

/-- How many lists stand inside one another in a value, itself included. -/
def nest : Value → Nat
  | .list items => 1 + nestAll items
  | _ => 0

/-- The most that one of several values nests. -/
def nestAll : List Value → Nat
  | [] => 0
  | item :: rest => max item.nest (nestAll rest)

end

end Value

theorem runEnds_of_delimiter {c : Char} {rest : List Char}
    (delimiter : Text.isSymbolChar c = false) : RunEnds (c :: rest) := by
  rintro _ ⟨⟩
  exact delimiter

theorem runEnds_of_isLayout {c : Char} {rest : List Char} (layout : Text.isLayout c = true) :
    RunEnds (c :: rest) :=
  runEnds_of_delimiter (Reader.isSymbolChar_of_isLayout layout)

theorem isSymbolChar_of_isDigit {c : Char} (digit : c.isDigit = true) :
    Text.isSymbolChar c = true := by
  have low : c.toNat ≤ 57 := (Char.isDigit_iff_toNat.mp digit).2
  rw [isSymbolChar_ascii (by omega), Char.isAlphanum, digit, Bool.or_true, Bool.true_or]

theorem isSymbolChar_digits (n : Fixnum) : ∀ c ∈ n.digits, Text.isSymbolChar c = true := by
  have magnitude : ∀ c ∈ Nat.toDigits 10 n.val.natAbs, Text.isSymbolChar c = true :=
    fun _ within =>
      isSymbolChar_of_isDigit (Nat.isDigit_of_mem_toDigits (by decide) (by decide) within)
  unfold Fixnum.digits
  split
  · exact List.forall_mem_cons.mpr ⟨isSymbolChar_minus, magnitude⟩
  · exact magnitude

theorem isSymbolChar_of_isSymbolName {name : List Char} (symbol : Text.isSymbolName name = true) :
    ∀ c ∈ name, Text.isSymbolChar c = true :=
  List.all_eq_true.mp (Bool.and_eq_true_iff.mp symbol).2

/-- The printed form of a number denotes it. -/
theorem denotes_digits (n : Fixnum) : Denotes n.digits (.number n) := by
  rcases Fixnum.ofDecimal?_eq_some_iff.mp n.ofDecimal?_digits with
    ⟨size, numeral, value⟩ | ⟨digits, size, signed, numeral, value⟩
  · exact .decimal numeral value
  · rw [signed]
    exact .negative numeral value

theorem stringBody_escape (chars rest : List Char) :
    StringBody (chars.flatMap Text.escape ++ '"' :: rest) chars rest := by
  induction chars with
  | nil => exact .close
  | cons c chars ih =>
    rw [List.flatMap_cons, List.append_assoc]
    rcases Text.escape_cases c with ⟨letter, written, denotes⟩ | ⟨written, inside, unescaped⟩
    · rw [written]
      exact .escape (Reader.mem_escapes_iff.mpr denotes) ih
    · rw [written]
      exact .plain inside unescaped ih

/-- A number sign and one letter are a word. -/
theorem word_sign {letter : Char} {rest : List Char} (mark : letter = 't' ∨ letter = 'f')
    (ends : RunEnds rest) : Word ('#' :: letter :: rest) ['#', letter] rest := by
  have symbol : Text.isSymbolChar letter = true := by
    rcases mark with rfl | rfl <;> exact (isSymbolChar_ascii (by decide)).trans (by decide)
  have symbols : ∀ c ∈ [letter], Text.isSymbolChar c = true := by simpa using symbol
  exact .signed symbols ends

namespace Value

theorem nest_list (items : List Value) : (Value.list items).nest = 1 + nestAll items := rfl

theorem nestAll_cons (item : Value) (items : List Value) :
    nestAll (item :: items) = max item.nest (nestAll items) := rfl

theorem allReadable_cons {item : Value} {items : List Value} :
    allReadable (item :: items) = true ↔ item.isReadable = true ∧ allReadable items = true := by
  rw [allReadable, Bool.and_eq_true]

theorem written_list (items : List Value) (rest : List Char) :
    (Value.list items).written ++ rest = '(' :: (writtenAll items ++ ')' :: rest) := by
  have printed : (Value.list items).written = '(' :: writtenAll items ++ [')'] := rfl
  rw [printed, List.append_assoc]
  rfl

theorem written_string (text : String) (rest : List Char) :
    (Value.string text).written ++ rest
      = '"' :: (text.toList.flatMap Text.escape ++ '"' :: rest) := by
  have printed : (Value.string text).written = Text.literal text.toList := rfl
  rw [printed, Text.literal, List.append_assoc]
  rfl

theorem writtenAll_cons_cons (item next : Value) (items : List Value) (rest : List Char) :
    writtenAll (item :: next :: items) ++ rest
      = item.written ++ ' ' :: (writtenAll (next :: items) ++ rest) := by
  simp [writtenAll]

theorem runEnds_close (rest : List Char) : RunEnds (')' :: rest) :=
  runEnds_of_delimiter (Reader.isSymbolChar_delimiter ')' (by decide))

mutual

/-- A printed value is a datum of the grammar, where its lists nest no deeper than allowed and
nothing that could belong to its last word follows. -/
theorem datum_written : ∀ (v : Value) {depth : Nat} {rest : List Char}, v.isReadable = true →
    depth + v.nest ≤ 63 → RunEnds rest → Datum depth (v.written ++ rest) v rest
  | .number n, _, _, _, _, ends => .word (.plain (isSymbolChar_digits n) ends) (denotes_digits n)
  | .symbol name, _, _, readable, _, ends => by
    have symbol : Text.isSymbolName name.toList = true := readable
    have denotes := Denotes.symbol symbol
    rw [String.ofList_toList] at denotes
    exact .word (.plain (isSymbolChar_of_isSymbolName symbol) ends) denotes
  | .string text, depth, rest, _, _, _ => by
    have literal : Datum depth _ _ rest := .string (stringBody_escape text.toList rest)
    rw [String.ofList_toList] at literal
    rw [written_string]
    exact literal
  | .boolean true, _, _, _, _, ends => .word (word_sign (.inl rfl) ends) .true
  | .boolean false, _, _, _, _, ends => .word (word_sign (.inr rfl) ends) .false
  | .list items, _, _, readable, shallow, _ => by
    rw [nest_list] at shallow
    rw [written_list]
    exact .list (by omega) (items_written items readable (by omega))
  | .primitive _, _, _, readable, _, _ => by cases readable
  | .closure .., _, _, readable, _, _ => by cases readable
  | .unspecified, _, _, readable, _, _ => by cases readable

/-- The printed items of a list, up to its closing parenthesis, are items of the grammar. -/
theorem items_written : ∀ (items : List Value) {depth : Nat} {rest : List Char},
    allReadable items = true → depth + nestAll items ≤ 63 →
    Items depth (writtenAll items ++ ')' :: rest) items rest
  | [], _, _, _, _ => .close
  | [item], _, _, readable, shallow => by
    rw [allReadable_cons] at readable
    rw [nestAll_cons] at shallow
    exact .item (datum_written item readable.1 (by omega) (runEnds_close _)) .close
  | item :: next :: items, _, _, readable, shallow => by
    rw [allReadable_cons] at readable
    rw [nestAll_cons] at shallow
    rw [writtenAll_cons_cons]
    refine .item (datum_written item readable.1 (by omega) (runEnds_of_isLayout rfl)) ?_
    exact .layout rfl (items_written (next :: items) readable.2 (by omega))

end

end Value

namespace Reader.State

/-- No list or quote mark can be entered inside sixty-three openings. -/
theorem take_tooDeep {extent : Extent} {state : State} {c : Char} (mark : c = '\'' ∨ c = '(')
    (between : state.token = .between) (awaits : state.Awaits extent)
    (full : 63 ≤ state.openings.length) :
    state.take extent c = .error ⟨.tooDeep, state.offset + 1⟩ := by
  have noRoom : nestingLimit ≤ state.openings.length + 1 := by unfold nestingLimit; omega
  have ink : Text.isBlank c = false := by rcases mark with rfl | rfl <;> rfl
  rw [take_of_awaits between awaits ink]
  rcases mark with rfl | rfl <;>
    simp [take, between, start, skips_of_isBlank state _ ink, enter, noRoom, throw, throwThe,
      MonadExceptOf.throw]

mutual

/-- The machine stops at a printed value that nests too deep where it stands. -/
theorem run_written_tooDeep {extent : Extent} (state : State) : ∀ (v : Value) {rest : List Char},
    v.isReadable = true → state.token = .between → state.Awaits extent →
    state.openings.length ≤ 63 → 63 < state.openings.length + v.nest →
    ∃ offset, state.run extent (v.written ++ rest) = .error ⟨.tooDeep, offset⟩
  | .list items, rest, readable, between, awaits, _, deep => by
    rw [Value.nest_list] at deep
    rw [Value.written_list]
    by_cases room : state.openings.length ≤ 62
    · rw [run_cons_of_take (take_open between awaits room)]
      have inside : (Opening.list [] :: state.openings).length = state.openings.length + 1 := rfl
      exact run_writtenAll_tooDeep _ items readable rfl rfl awaits
        (inside ▸ Nat.succ_le_succ room) (inside ▸ by omega)
    · rw [run_cons, take_tooDeep (.inr rfl) between awaits (by omega)]
      exact ⟨_, rfl⟩
  | .number _, _, _, _, _, low, deep => absurd deep (Nat.not_lt.mpr low)
  | .symbol _, _, _, _, _, low, deep => absurd deep (Nat.not_lt.mpr low)
  | .string _, _, _, _, _, low, deep => absurd deep (Nat.not_lt.mpr low)
  | .boolean _, _, _, _, _, low, deep => absurd deep (Nat.not_lt.mpr low)
  | .primitive _, _, readable, _, _, _, _ => by cases readable
  | .closure .., _, readable, _, _, _, _ => by cases readable
  | .unspecified, _, readable, _, _, _, _ => by cases readable

/-- The machine stops among the printed items of a list when one of them nests too deep there. -/
theorem run_writtenAll_tooDeep {extent : Extent} (state : State) : ∀ (items : List Value)
    {rest : List Char} {acc : List Value} {outer : List Opening}, Value.allReadable items = true →
    state.token = .between → state.openings = .list acc :: outer → state.Awaits extent →
    state.openings.length ≤ 63 → 63 < state.openings.length + Value.nestAll items →
    ∃ offset, state.run extent (Value.writtenAll items ++ ')' :: rest) = .error ⟨.tooDeep, offset⟩
  | [], _, _, _, _, _, _, _, low, deep => absurd deep (Nat.not_lt.mpr low)
  | [item], _, _, _, readable, between, _, awaits, low, deep => by
    rw [Value.allReadable_cons] at readable
    rw [Value.nestAll_cons] at deep
    exact run_written_tooDeep state item readable.1 between awaits low
      (by rw [Value.nestAll] at deep; omega)
  | item :: next :: items, rest, acc, outer, readable, between, openings, awaits, low, deep => by
    rw [Value.allReadable_cons] at readable
    rw [Value.nestAll_cons] at deep
    rw [Value.writtenAll_cons_cons]
    by_cases first : 63 < state.openings.length + item.nest
    · exact run_written_tooDeep state item readable.1 between awaits low first
    · have ends : RunEnds (' ' :: (Value.writtenAll (next :: items) ++ ')' :: rest)) :=
        runEnds_of_isLayout rfl
      have datum : Datum state.openings.length _ item _ :=
        Value.datum_written item readable.1 (by omega) ends
      obtain ⟨offset, read⟩ := reaches_datum state between rfl awaits datum
      rw [read, deliver_list openings,
        run_cons_of_take (take_skip rfl (skips_of_isLayout _ extent rfl))]
      rw [openings] at low deep first
      have deeper : 63 < (Opening.list acc :: outer).length + Value.nestAll (next :: items) := by
        omega
      exact run_writtenAll_tooDeep _ (next :: items) readable.2 rfl rfl awaits low deeper

end

end Reader.State

namespace Reader

/-- Outside comments and strings, other characters than a semicolon and a double quote stay. -/
theorem blankFrom_cons {c : Char} (rest : List Char) (plain : c ≠ ';' ∧ c ≠ '"') :
    blankFrom .code (c :: rest) = c :: blankFrom .code rest := by
  simp [blankFrom, Zone.covers, Zone.after, plain]

/-- No symbol character begins a comment or a string literal. -/
theorem apart_of_isSymbolChar {c : Char} (symbol : Text.isSymbolChar c = true) :
    c ≠ ';' ∧ c ≠ '"' := by
  constructor <;> rintro rfl <;> revert symbol <;> rw [Grammar.isSymbolChar_ascii (by decide)] <;>
    decide

theorem blankFrom_run {run : List Char} (rest : List Char)
    (symbols : ∀ c ∈ run, Text.isSymbolChar c = true) :
    blankFrom .code (run ++ rest) = run ++ blankFrom .code rest := by
  induction run with
  | nil => rfl
  | cons c run ih =>
    obtain ⟨first, symbols⟩ := List.forall_mem_cons.mp symbols
    rw [List.cons_append, blankFrom_cons _ (apart_of_isSymbolChar first), ih symbols]
    rfl

/-- A whole string literal stays. -/
theorem blankFrom_string (chars rest : List Char) :
    blankFrom .string (chars.flatMap Text.escape ++ '"' :: rest)
      = chars.flatMap Text.escape ++ '"' :: blankFrom .code rest := by
  induction chars with
  | nil => simp [blankFrom, Zone.covers, Zone.after]
  | cons c chars ih =>
    rw [List.flatMap_cons, List.append_assoc, List.append_assoc]
    rcases Text.escape_cases c with ⟨letter, written, -⟩ | ⟨written, inside, unescaped⟩
    · simp [written, blankFrom, Zone.covers, Zone.after, ih]
    · simp [written, blankFrom, Zone.covers, Zone.after, inside, unescaped, ih]

mutual

/-- A printed value holds no comment. -/
theorem blankFrom_written : ∀ (v : Value) (rest : List Char), v.isReadable = true →
    blankFrom .code (v.written ++ rest) = v.written ++ blankFrom .code rest
  | .number n, rest, _ => blankFrom_run rest (isSymbolChar_digits n)
  | .symbol _, rest, readable => blankFrom_run rest (isSymbolChar_of_isSymbolName readable)
  | .string text, rest, _ => by
    rw [Value.written_string, Value.written_string, ← blankFrom_string]
    rfl
  | .boolean true, _, _ | .boolean false, _, _ => rfl
  | .list items, rest, readable => by
    rw [Value.written_list, Value.written_list, blankFrom_cons _ (by decide),
      blankFrom_writtenAll items rest readable]
  | .primitive _, _, readable => by cases readable
  | .closure .., _, readable => by cases readable
  | .unspecified, _, readable => by cases readable

theorem blankFrom_writtenAll : ∀ (items : List Value) (rest : List Char),
    Value.allReadable items = true →
    blankFrom .code (Value.writtenAll items ++ ')' :: rest)
      = Value.writtenAll items ++ ')' :: blankFrom .code rest
  | [], rest, _ => blankFrom_cons rest (by decide)
  | [item], rest, readable => by
    rw [Value.allReadable_cons] at readable
    exact (blankFrom_written item _ readable.1).trans
      (congrArg (item.written ++ ·) (blankFrom_cons rest (by decide)))
  | item :: next :: items, rest, readable => by
    rw [Value.allReadable_cons] at readable
    rw [Value.writtenAll_cons_cons, Value.writtenAll_cons_cons, blankFrom_written item _ readable.1,
      blankFrom_cons _ (by decide), blankFrom_writtenAll (next :: items) rest readable.2]

end

/-- The text that is read from a printed value is its printed form, with comments on or off. -/
theorem prepare_display {v : Value} (comments : Bool) (readable : v.isReadable = true) :
    prepare comments v.display = v.written := by
  have kept := blankFrom_written v [] readable
  simp only [List.append_nil, blankFrom] at kept
  unfold prepare Value.display
  rw [String.toList_ofList]
  split
  · exact kept
  · rfl

/-- Values written on lines of their own. -/
def writtenLines (values : List Value) : List Char :=
  values.flatMap fun v => v.written ++ ['\n']

theorem writtenLines_cons (v : Value) (values : List Value) :
    writtenLines (v :: values) = v.written ++ '\n' :: writtenLines values := by
  rw [writtenLines, List.flatMap_cons, List.append_assoc]
  rfl

theorem blankFrom_writtenLines (values : List Value) (readable : Value.allReadable values = true) :
    blankFrom .code (writtenLines values) = writtenLines values := by
  induction values with
  | nil => rfl
  | cons v values ih =>
    rw [Value.allReadable_cons] at readable
    rw [writtenLines_cons, blankFrom_written v _ readable.1, blankFrom_cons _ (by decide),
      ih readable.2]

/-- The text of several printed values, one to a line. -/
def lines (values : List Value) : String :=
  String.ofList (writtenLines values)

/-- Printed values, one to a line, are read as a program of these data. -/
theorem readProgram_lines {values : List Value} (comments : Bool)
    (readable : Value.allReadable values = true) (shallow : Value.nestAll values ≤ 63) :
    readProgram comments (lines values) = .ok values := by
  have prepared : prepare comments (lines values) = writtenLines values := by
    unfold prepare lines
    rw [String.toList_ofList, blankComments, blankFrom_writtenLines values readable, ite_self]
  rw [readProgram_eq_ok_iff, prepared]
  clear prepared
  induction values with
  | nil => exact .done
  | cons v values ih =>
    rw [Value.allReadable_cons] at readable
    rw [Value.nestAll_cons] at shallow
    rw [writtenLines_cons]
    have ends : RunEnds ('\n' :: writtenLines values) := runEnds_of_isLayout rfl
    exact .datum (Value.datum_written v readable.1 (by omega) ends)
      (.blank (by decide) (ih readable.2 (by omega)))

/-- What is written outside all openings and nests too deep is not read. -/
theorem scan_tooDeep {v : Value} (extent : Extent) (readable : v.isReadable = true)
    (deep : 64 ≤ v.nest) : ∃ offset, scan extent v.written = .error ⟨.tooDeep, offset⟩ := by
  have deep' : 63 < 0 + v.nest := by omega
  have stopped : ∃ offset, State.run extent {} (v.written ++ []) = .error ⟨.tooDeep, offset⟩ :=
    State.run_written_tooDeep {} v readable rfl (.inr rfl) (Nat.zero_le _) deep'
  rwa [List.append_nil] at stopped

end Reader

namespace Value

/-- Print, then read: a value made of numbers, booleans, strings, symbols and lists comes back
when its lists nest at most 63 deep, and else the reader reports the nesting. -/
theorem reads_back (v : Value) (readable : v.isReadable = true) (comments : Bool) :
    (v.nest ≤ 63 →
      Reader.readDatum comments v.display = .ok v ∧
      Reader.readProgram comments v.display = .ok [v]) ∧
    (64 ≤ v.nest →
      (∃ fault, Reader.readDatum comments v.display = .error fault ∧
        fault.kind = .tooDeeplyNested) ∧
      ∃ fault, Reader.readProgram comments v.display = .error fault ∧
        fault.kind = .tooDeeplyNested) := by
  have prepared := Reader.prepare_display comments readable
  constructor
  · intro shallow
    have datum : Datum 0 (v.written ++ []) v [] :=
      datum_written v readable (by omega) (by simp [RunEnds])
    rw [List.append_nil] at datum
    rw [Reader.readDatum_eq_ok_iff, Reader.readProgram_eq_ok_iff, prepared]
    exact ⟨⟨[], datum, by simp⟩, .datum datum .done⟩
  · intro deep
    obtain ⟨offset, datum⟩ := Reader.scan_tooDeep .datum readable deep
    obtain ⟨offset', program⟩ := Reader.scan_tooDeep .program readable deep
    constructor
    · simp only [Reader.readDatum, prepared, datum]
      exact ⟨_, rfl, rfl⟩
    · simp only [Reader.readProgram, prepared, program]
      exact ⟨_, rfl, rfl⟩

/-- A list of items that are easily mistaken for one another or for a comment. -/
def mixedList : Value :=
  .list [.number ⟨-5, by decide, by decide⟩, .symbol "-", .string ";\"\\\n", .boolean true,
    .list []]

/-- A truth value inside 64 lists. -/
def deepList : Value :=
  (fun v => .list [v])^[64] (.boolean true)

theorem reads_back_mixed_and_deep :
    (Reader.readDatum true mixedList.display = .ok mixedList ∧
      Reader.readProgram true mixedList.display = .ok [mixedList]) ∧
    ∃ fault, Reader.readDatum true deepList.display = .error fault ∧
      fault.kind = .tooDeeplyNested :=
  ⟨(reads_back mixedList (by decide +kernel) true).1 (by decide +kernel),
    ((reads_back deepList (by decide +kernel) true).2 (by decide +kernel)).1⟩

end Value

end CellScheme
