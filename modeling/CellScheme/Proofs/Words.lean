import CellScheme.Proofs.Descent
import CellScheme.Proofs.ReadBack

/-!
Words in the reading by descent. Numbers, truth values and symbols are tried one behind the other,
and each of them goes by its own rules, but what they take together is a word of the grammar with
what it denotes, whatever their order (`atom_accepted_iff`).
-/
open CellScheme.Parser

namespace CellScheme

variable {text run rest rest' word word' : List Char} {value value' : Value} {c : Char}

namespace Grammar

open Reader

theorem Word.split (whole : Word text word rest) : text = word ++ rest ∧ RunEnds rest := by
  cases whole with
  | plain symbols ends => exact ⟨rfl, ends⟩
  | signed symbols ends => exact ⟨rfl, ends⟩

/-- A whole run of symbol characters is the longest one. -/
theorem takeWhile_of_runEnds (symbols : ∀ c ∈ run, Text.isSymbolChar c = true)
    (ends : RunEnds rest) : (run ++ rest).takeWhile Text.isSymbolChar = run := by
  have noMore : rest.takeWhile Text.isSymbolChar = [] := by
    cases rest with
    | nil => rfl
    | cons c rest => simp [ends c rfl]
  rw [List.takeWhile_append_of_pos symbols, noMore, List.append_nil]

/-- The word that a text begins with is the only one. -/
theorem Word.unique (first : Word text word rest) (some : word ≠ [])
    (second : Word text word' rest') (some' : word' ≠ []) : word = word' ∧ rest = rest' := by
  have same : word = word' := by
    have plainSigned : ∀ {run rest run' rest' : List Char}, run ≠ [] →
        (∀ c ∈ run, Text.isSymbolChar c = true) → run ++ rest ≠ '#' :: (run' ++ rest') := by
      rintro (_ | ⟨c, run⟩) rest run' rest' some symbols same
      · exact some rfl
      · obtain ⟨rfl, -⟩ := List.cons.inj same
        cases isSymbolChar_sign.symm.trans (symbols '#' List.mem_cons_self)
    generalize begins : text = text' at second
    cases first with
    | plain symbols ends =>
      cases second with
      | plain symbols' ends' =>
        rw [← takeWhile_of_runEnds symbols ends, begins, takeWhile_of_runEnds symbols' ends']
      | signed => exact absurd begins (plainSigned some symbols)
    | signed symbols ends =>
      cases second with
      | plain symbols' => exact absurd begins.symm (plainSigned some' symbols')
      | signed symbols' ends' =>
        have begins := (List.cons.inj begins).2
        rw [← takeWhile_of_runEnds symbols ends, begins, takeWhile_of_runEnds symbols' ends']
  obtain ⟨begins, -⟩ := first.split
  obtain ⟨begins', -⟩ := second.split
  subst same
  exact ⟨rfl, List.append_cancel_left (begins.symm.trans begins')⟩

theorem Denotes.ne_nil (denotes : Denotes word value) : word ≠ [] := by
  rintro rfl
  cases atom?_eq_some_iff.mpr denotes

/-- A text begins with one word at most that denotes something, and that denotes one thing. -/
theorem Word.denotes_unique (first : Word text word rest) (denotes : Denotes word value)
    (second : Word text word' rest') (denotes' : Denotes word' value') :
    value = value' ∧ rest = rest' := by
  obtain ⟨rfl, rfl⟩ := first.unique denotes.ne_nil second denotes'.ne_nil
  have read := atom?_eq_some_iff.mpr denotes
  exact ⟨Option.some.inj (read.symm.trans (atom?_eq_some_iff.mpr denotes')), rfl⟩

/-- A word that denotes something begins with a number sign or a symbol character. -/
theorem Word.begins (whole : Word (c :: text) word rest) (denotes : Denotes word value) :
    c = '#' ∨ Text.isSymbolChar c = true := by
  generalize begins : c :: text = text' at whole
  cases whole with
  | plain symbols =>
    cases word with
    | nil => exact absurd rfl denotes.ne_nil
    | cons d run =>
      obtain ⟨rfl, -⟩ := List.cons.inj begins
      exact .inr (symbols c List.mem_cons_self)
  | signed => exact .inl (List.cons.inj begins).1

/-- No word begins with any other character. -/
theorem noWord_of_begins (other : ¬ (c = '#' ∨ Text.isSymbolChar c = true)) :
    ∀ word rest value, Word (c :: text) word rest → ¬ Denotes word value :=
  fun _ _ _ whole denotes => other (whole.begins denotes)

end Grammar

namespace Descent

open Grammar Reader

variable {p : Parser Value} {n : Fixnum}

theorem wordEnd_eq_accepted {taken : Unit} {behind : List Char}
    (accepted : wordEnd rest = some (.accepted taken behind)) : behind = rest ∧ RunEnds rest := by
  cases rest with
  | nil =>
    cases accepted
    exact ⟨rfl, by simp [RunEnds]⟩
  | cons c rest =>
    cases symbol : Text.isSymbolChar c with
    | false =>
      simp only [wordEnd, notNext, satisfy, one, symbol, Bool.false_eq_true, if_false] at accepted
      cases accepted
      exact ⟨rfl, runEnds_of_delimiter symbol⟩
    | true =>
      simp only [wordEnd, notNext, satisfy, one, symbol, if_true] at accepted
      cases accepted

theorem wordEnd_of_runEnds (ends : RunEnds rest) : wordEnd rest = some (.accepted () rest) := by
  cases rest with
  | nil => rfl
  | cons c rest => simp [wordEnd, notNext, satisfy, one, ends c rfl]

theorem wholeWord_accepted_iff : wholeWord p text = some (.accepted value rest) ↔
    p text = some (.accepted value rest) ∧ RunEnds rest := by
  constructor
  · intro accepted
    obtain ⟨value, middle, first, accepted⟩ := bind_eq_accepted accepted
    obtain ⟨_, behind, last, same⟩ := bind_eq_accepted accepted
    obtain ⟨rfl, ends⟩ := wordEnd_eq_accepted last
    cases same
    exact ⟨first, ends⟩
  · rintro ⟨accepted, ends⟩
    rw [wholeWord, bind_of_accepted accepted, bind_of_accepted (wordEnd_of_runEnds ends)]
    rfl

/-- Characters of a class within the symbol characters are over where a word is. -/
theorem classEnds_of_runEnds {belongs : Char → Bool}
    (symbols : ∀ c, belongs c = true → Text.isSymbolChar c = true) (ends : RunEnds rest) :
    ∀ c ∈ rest.head?, belongs c = false := by
  intro c first
  cases member : belongs c with
  | false => rfl
  | true => exact (ends c first).symm.trans (symbols c member) |>.symm ▸ rfl

theorem isSymbolChar_of_hexDigit? (digit : (Fixnum.hexDigit? c).isSome = true) :
    Text.isSymbolChar c = true := by
  obtain ⟨size, read⟩ := Option.isSome_iff_exists.mp digit
  refine forall_char_lt 103
    (P := fun c => (Fixnum.hexDigit? c).isSome = true → Text.isSymbolChar c = true)
    (by decide +kernel) c (hexDigit?_eq_some_lt read) digit

theorem isSymbolChar_numeral {size : Nat} (numeral : Numeral 10 word size) :
    ∀ c ∈ word, Text.isSymbolChar c = true := by
  obtain ⟨digits, -, spelled, -⟩ := numeral
  exact fun c member => isSymbolChar_of_isDigit ((forall₂_digit_ten_iff.mp spelled).1 c member)

theorem inRange_eq_accepted {found : Option Fixnum}
    (accepted : inRange found text = some (.accepted value rest)) :
    ∃ n, found = some n ∧ value = .number n ∧ text = rest := by
  cases found with
  | none => cases accepted
  | some n =>
    cases accepted
    exact ⟨n, rfl, rfl, rfl⟩

theorem hexadecimal_eq_accepted (accepted : hexadecimal text = some (.accepted value rest)) :
    ∃ x digits n, (x = 'x' ∨ x = 'X') ∧ text = '#' :: x :: (digits ++ rest) ∧
      (∀ c ∈ digits, Text.isSymbolChar c = true) ∧ Fixnum.ofHex? digits = some n ∧
      value = .number n := by
  obtain ⟨_, marked, sign, accepted⟩ := bind_eq_accepted accepted
  obtain ⟨x, run, mark, accepted⟩ := bind_eq_accepted accepted
  obtain ⟨digits, behind, taken, accepted⟩ := bind_eq_accepted accepted
  obtain ⟨n, read, isNumber, rfl⟩ := inRange_eq_accepted accepted
  obtain ⟨-, begins⟩ := char_eq_accepted sign
  obtain ⟨split, members, -⟩ := takeWhile1_eq_accepted taken
  have marks : (x = 'x' ∨ x = 'X') ∧ marked = x :: run := by
    rcases orElse_eq_accepted mark with mark | mark
    · obtain ⟨rfl, begins⟩ := char_eq_accepted mark
      exact ⟨.inl rfl, begins⟩
    · obtain ⟨rfl, begins⟩ := char_eq_accepted mark
      exact ⟨.inr rfl, begins⟩
  refine ⟨x, digits, n, marks.1, ?_, fun c member => ?_, read, isNumber⟩
  · rw [begins, marks.2, split]
  · exact isSymbolChar_of_hexDigit? (members c member)

theorem decimal_eq_accepted (accepted : decimal text = some (.accepted value rest)) :
    ∃ digits n, text = digits ++ rest ∧ (∀ c ∈ digits, Text.isSymbolChar c = true) ∧
      Fixnum.ofDecimal? digits = some n ∧ value = .number n := by
  obtain ⟨digits, behind, recognized, accepted⟩ := bind_eq_accepted accepted
  obtain ⟨n, read, isNumber, rfl⟩ := inRange_eq_accepted accepted
  refine ⟨digits, n, moves_numeral.recognize_eq_accepted recognized, ?_, read, isNumber⟩
  rcases Fixnum.ofDecimal?_eq_some_iff.mp read with ⟨_, plain, -⟩ | ⟨digits, _, rfl, plain, -⟩
  · exact isSymbolChar_numeral plain
  · exact List.forall_mem_cons.mpr ⟨isSymbolChar_minus, isSymbolChar_numeral plain⟩

/-- What is taken as a number is a whole word that denotes it. -/
theorem word_of_number (accepted : number text = some (.accepted value rest)) :
    ∃ word, Word text word rest ∧ Denotes word value := by
  obtain ⟨accepted, ends⟩ := wholeWord_accepted_iff.mp accepted
  rcases orElse_eq_accepted accepted with accepted | accepted
  · obtain ⟨x, digits, n, mark, rfl, symbols, read, rfl⟩ := hexadecimal_eq_accepted accepted
    obtain ⟨size, plain, same⟩ := Fixnum.ofHex?_eq_some_iff.mp read
    have first : Text.isSymbolChar x = true := by
      rcases mark with rfl | rfl <;> exact (isSymbolChar_ascii (by decide)).trans (by decide)
    exact ⟨'#' :: x :: digits, .signed (List.forall_mem_cons.mpr ⟨first, symbols⟩) ends,
      .hexadecimal mark plain same⟩
  · obtain ⟨digits, n, rfl, symbols, read, rfl⟩ := decimal_eq_accepted accepted
    refine ⟨digits, .plain symbols ends, ?_⟩
    rcases Fixnum.ofDecimal?_eq_some_iff.mp read with
      ⟨size, plain, same⟩ | ⟨digits, size, rfl, plain, same⟩
    · exact .decimal plain same
    · exact .negative plain same

theorem run_of_numeral {size : Nat} (plain : Numeral 10 word size) (ends : RunEnds rest) :
    takeWhile1 Char.isDigit (word ++ rest) = some (.accepted word rest) := by
  obtain ⟨⟨some, digits⟩, -⟩ : (word ≠ [] ∧ word.all Char.isDigit) ∧ _ :=
    Option.ite_none_right_eq_some.mp (numeral_ten_iff.mp plain)
  exact takeWhile1_append some (List.all_eq_true.mp digits)
    (classEnds_of_runEnds (fun _ => isSymbolChar_of_isDigit) ends)

/-- Behind a number that is not hexadecimal, the second alternative is taken. -/
theorem number_of_decimal {digits : List Char} (other : c ≠ '#')
    (taken : numeral (c :: word ++ rest) = some (.accepted digits rest))
    (read : Fixnum.ofDecimal? (c :: word) = some n) :
    (hexadecimal <|> decimal) (c :: word ++ rest) = some (.accepted (.number n) rest) := by
  have refused : hexadecimal (c :: word ++ rest) = some (.refused _) :=
    bind_of_refused (char_refuses other (word ++ rest))
  rw [orElse_of_refused refused, decimal, bind_of_accepted (recognize_append taken), read]
  rfl

/-- A word that denotes a number is taken as that number. -/
theorem number_of_word (whole : Word text word rest) (denotes : Denotes word (.number n)) :
    number text = some (.accepted (.number n) rest) := by
  obtain ⟨rfl, ends⟩ := whole.split
  refine wholeWord_accepted_iff.mpr ⟨?_, ends⟩
  cases denotes with
  | @decimal _ size _ plain same =>
    have read := Fixnum.ofDecimal?_eq_some_iff.mpr (.inl ⟨size, plain, same⟩)
    cases word with
    | nil => cases read
    | cons c digits =>
      have digit : c.isDigit = true := by
        obtain ⟨_, -, spelled, -⟩ := plain
        exact (forall₂_digit_ten_iff.mp spelled).1 c List.mem_cons_self
      have noMinus : (char '-').opt (c :: digits ++ rest) = some (.accepted none _) :=
        opt_of_refused (char_refuses (by rintro rfl; cases digit) _)
      have taken : numeral (c :: digits ++ rest) = some (.accepted (c :: digits) rest) :=
        (bind_of_accepted noMinus).trans (run_of_numeral plain ends)
      exact number_of_decimal (by rintro rfl; cases digit) taken read
  | @negative digits size _ plain same =>
    have minus : (char '-').opt ('-' :: digits ++ rest) = some (.accepted (some '-') _) :=
      opt_of_accepted (char_self '-' _)
    have taken : numeral ('-' :: digits ++ rest) = some (.accepted digits rest) :=
      (bind_of_accepted minus).trans (run_of_numeral plain ends)
    exact number_of_decimal (by decide) taken
      (Fixnum.ofDecimal?_eq_some_iff.mpr (.inr ⟨digits, size, rfl, plain, same⟩))
  | @hexadecimal x digits size _ mark plain same =>
    have read := Fixnum.ofHex?_eq_some_iff.mpr ⟨size, plain, same⟩
    have marked : (char 'x' <|> char 'X') (x :: (digits ++ rest))
        = some (.accepted x (digits ++ rest)) := by
      rcases mark with rfl | rfl
      · exact orElse_of_accepted (char_self 'x' _)
      · exact (orElse_of_refused (char_refuses (by decide) _)).trans (char_self 'X' _)
    have run : takeWhile1 (fun c => (Fixnum.hexDigit? c).isSome) (digits ++ rest)
        = some (.accepted digits rest) := by
      obtain ⟨values, some, spelled, -⟩ := plain
      have members : ∀ c ∈ digits, (Fixnum.hexDigit? c).isSome = true := by
        refine ((List.forall₂_and_left _ _).mp (spelled.imp fun c value digit => ⟨?_, digit⟩)).1
        exact Option.isSome_of_mem (digit_sixteen_iff.mp digit)
      refine takeWhile1_append ?_ members
        (classEnds_of_runEnds (fun _ => isSymbolChar_of_hexDigit?) ends)
      rintro rfl
      exact some (List.forall₂_nil_left_iff.mp spelled)
    refine orElse_of_accepted ?_
    have sign := char_self '#' (x :: (digits ++ rest))
    refine (bind_of_accepted sign).trans ((bind_of_accepted marked).trans ?_)
    rw [bind_of_accepted run, read]
    rfl

theorem word_of_boolean (accepted : boolean text = some (.accepted value rest)) :
    ∃ word, Word text word rest ∧ Denotes word value := by
  obtain ⟨accepted, ends⟩ := wholeWord_accepted_iff.mp accepted
  rcases orElse_eq_accepted accepted with accepted | accepted
  · obtain ⟨_, _, taken, same⟩ := bind_eq_accepted accepted
    cases same
    rw [tag_eq_accepted taken]
    exact ⟨_, word_sign (.inl rfl) ends, .true⟩
  · obtain ⟨_, _, taken, same⟩ := bind_eq_accepted accepted
    cases same
    rw [tag_eq_accepted taken]
    exact ⟨_, word_sign (.inr rfl) ends, .false⟩

theorem boolean_of_word {b : Bool} (whole : Word text word rest)
    (denotes : Denotes word (.boolean b)) : boolean text = some (.accepted (.boolean b) rest) := by
  obtain ⟨rfl, ends⟩ := whole.split
  refine wholeWord_accepted_iff.mpr ⟨?_, ends⟩
  cases denotes with
  | true => exact orElse_of_accepted (bind_of_accepted (tag_append ['#', 't'] rest))
  | false =>
    have other : truth ['#', 't'] true ('#' :: 'f' :: rest) = some (.refused _) := rfl
    refine (orElse_of_refused other).trans ?_
    exact bind_of_accepted (tag_append ['#', 'f'] rest)

theorem word_of_symbol (accepted : symbol text = some (.accepted value rest)) :
    ∃ word, Word text word rest ∧ Denotes word value := by
  obtain ⟨name, _, taken, same⟩ := bind_eq_accepted accepted
  cases same
  obtain ⟨taken, spelled⟩ := verify_eq_accepted taken
  obtain ⟨rfl, symbols, ends⟩ := takeWhile1_eq_accepted taken
  exact ⟨name, .plain symbols ends, .symbol spelled⟩

theorem symbol_of_word {name : String} (whole : Word text word rest)
    (denotes : Denotes word (.symbol name)) :
    symbol text = some (.accepted (.symbol name) rest) := by
  cases denotes with
  | symbol spelled =>
    obtain ⟨rfl, ends⟩ := whole.split
    have some : word ≠ [] := by
      rintro rfl
      cases spelled
    have taken := takeWhile1_append some (isSymbolChar_of_isSymbolName spelled) ends
    exact bind_of_accepted (verify_of_accepted .name taken spelled)

theorem tentative_inRange (found : Option Fixnum) : (inRange found).Tentative := by
  cases found with
  | some n => exact tentative_pure _
  | none => exact tentative_refuse _

theorem tentative_wholeWord (tentative : p.Tentative) : (wholeWord p).Tentative :=
  tentative.bind fun _ => (tentative_one _ _).notNext.bind fun _ => tentative_pure _

theorem tentative_number : number.Tentative := by
  have hexadecimal : hexadecimal.Tentative :=
    (tentative_one _ _).bind fun _ =>
      ((tentative_one _ _).orElse (tentative_one _ _)).bind fun _ =>
        (tentative_takeWhile1 _).bind fun _ => tentative_inRange _
  have numeral : numeral.Tentative :=
    (tentative_one _ _).opt.bind fun _ => tentative_takeWhile1 _
  exact tentative_wholeWord
    (hexadecimal.orElse (numeral.recognize.bind fun _ => tentative_inRange _))

theorem tentative_boolean : boolean.Tentative := by
  have truth (word : List Char) (b : Bool) : (truth word b).Tentative :=
    (tentative_tag word).bind fun _ => tentative_pure _
  exact tentative_wholeWord ((truth _ _).orElse (truth _ _))

theorem tentative_symbol : symbol.Tentative :=
  ((tentative_takeWhile1 _).verify _ _).bind fun _ => tentative_pure _

theorem string_refuses (other : c ≠ '"') (rest : List Char) :
    string (c :: rest) = some (.refused ⟨c :: rest, .character⟩) :=
  bind_of_refused (char_refuses other rest)

/-- A symbol is refused where it would begin. -/
theorem symbol_eq_refused {stop : Stop} (refused : symbol text = some (.refused stop)) :
    stop.rest = text ∧ trouble stop.cause = .noDatum := by
  have kept {cause : Cause} (noDatum : trouble cause = .noDatum)
      (begun : (takeWhile1 Text.isSymbolChar).verify Text.isSymbolName .name text
        = some (.refused ⟨text, cause⟩)) : stop.rest = text ∧ trouble stop.cause = .noDatum := by
    cases (bind_of_refused begun).symm.trans refused
    exact ⟨rfl, noDatum⟩
  rcases takeWhile1_cases Text.isSymbolChar text with noRun | ⟨name, rest, taken⟩
  · exact @kept .run rfl (by simp only [verify, noRun])
  · cases spelled : Text.isSymbolName name with
    | false => exact @kept .name rfl (by simp [verify, taken, spelled])
    | true => cases (bind_of_accepted (verify_of_accepted .name taken spelled)).symm.trans refused

/-- Where no string begins, an atom is a word of the grammar, with what it denotes. -/
theorem atom_accepted_iff (other : c ≠ '"') : atom (c :: text) = some (.accepted value rest) ↔
    ∃ word, Word (c :: text) word rest ∧ Denotes word value := by
  constructor
  · intro accepted
    rcases orElse_eq_accepted accepted with accepted | accepted
    · exact word_of_number accepted
    rcases orElse_eq_accepted accepted with accepted | accepted
    · exact word_of_boolean accepted
    rw [orElse_of_refused (string_refuses other text)] at accepted
    exact word_of_symbol accepted
  · rintro ⟨word, whole, denotes⟩
    have alone : ∀ {value' rest'}, (∃ word', Word (c :: text) word' rest' ∧ Denotes word' value') →
        value' = value ∧ rest' = rest := by
      rintro value' rest' ⟨word', whole', denotes'⟩
      exact whole'.denotes_unique denotes' whole denotes
    have later (accepted : boolean (c :: text) = some (.accepted value rest) ∨
        symbol (c :: text) = some (.accepted value rest)) :
        (boolean <|> string <|> symbol) (c :: text) = some (.accepted value rest) := by
      refine moves_boolean.orElse_accepts tentative_boolean
        (fun _ _ accepted => alone (word_of_boolean accepted)) ?_
      rwa [orElse_of_refused (string_refuses other text)]
    refine moves_number.orElse_accepts tentative_number
      (fun _ _ accepted => alone (word_of_number accepted)) ?_
    obtain ⟨n, rfl⟩ | ⟨b, rfl⟩ | ⟨name, rfl⟩ : (∃ n, value = .number n) ∨
        (∃ b, value = .boolean b) ∨ ∃ name, value = .symbol name := by cases denotes <;> simp
    · exact .inl (number_of_word whole denotes)
    · exact .inr (later (.inl (boolean_of_word whole denotes)))
    · exact .inr (later (.inr (symbol_of_word whole denotes)))

/-- What takes words only refuses a text that begins with none. -/
theorem refuses_of_noWord (moves : p.Moves true) (tentative : p.Tentative)
    (words : ∀ {value rest}, p (c :: text) = some (.accepted value rest) →
      ∃ word, Word (c :: text) word rest ∧ Denotes word value)
    (noWord : ∀ word rest value, Word (c :: text) word rest → ¬ Denotes word value) :
    ∃ stop, p (c :: text) = some (.refused stop) := by
  rcases moves.accepts_or_refuses tentative (c :: text) with ⟨value, rest, accepted⟩ | refused
  · obtain ⟨word, whole, denotes⟩ := words accepted
    exact absurd denotes (noWord word rest value whole)
  · exact refused

/-- Where no word begins, an atom can only be a string. -/
theorem atom_eq_string
    (noWord : ∀ word rest value, Word (c :: text) word rest → ¬ Denotes word value) :
    atom (c :: text) = (string <|> symbol) (c :: text) := by
  obtain ⟨_, noNumber⟩ := refuses_of_noWord moves_number tentative_number word_of_number noWord
  obtain ⟨_, noBoolean⟩ := refuses_of_noWord moves_boolean tentative_boolean word_of_boolean noWord
  rw [atom, orElse_of_refused noNumber, orElse_of_refused noBoolean]

/-- Where no atom begins, it is refused right there. -/
theorem atom_refuses (other : c ≠ '"')
    (noWord : ∀ word rest value, Word (c :: text) word rest → ¬ Denotes word value) :
    ∃ stop, atom (c :: text) = some (.refused stop) ∧ stop.rest = c :: text ∧
      trouble stop.cause = .noDatum := by
  obtain ⟨stop, noSymbol⟩ := refuses_of_noWord moves_symbol tentative_symbol word_of_symbol noWord
  refine ⟨stop, ?_, symbol_eq_refused noSymbol⟩
  rw [atom_eq_string noWord, orElse_of_refused (string_refuses other text), noSymbol]

end Descent

end CellScheme
