import Mathlib.Data.List.Forall2
import Mathlib.Data.Nat.Digits.Lemmas
import CellScheme.Proofs.Grammar

/-!
What the reader makes of a word is what the grammar says that the word denotes. The grammar lists
the digits of a base, while the reader computes them from code points; the digit lemmas join
the two, and the rest follows the shape of a word.
-/
namespace CellScheme

namespace Grammar

/-- A property of the characters below a code point is checked on the code points. -/
theorem forall_char_lt (bound : Nat) {P : Char → Prop}
    (checked : ∀ n < bound, P (Char.ofNat n)) (c : Char) (low : c.toNat < bound) : P c := by
  simpa only [Char.ofNat_toNat] using checked c.toNat low

/-- Up to code point 127 the letters and digits are the ASCII ones. -/
theorem isAlphanumeric_ascii {c : Char} (ascii : c.toNat < 128) :
    Text.isAlphanumeric c = c.isAlphanum := by
  have high : ∀ range ∈ Text.alphanumericRanges.drop 3, 128 ≤ range.1 := by
    have checked : ((Text.alphanumericRanges.drop 3).all fun range => 128 ≤ range.1) = true := by
      decide +kernel
    simpa using checked
  have others : Text.inRanges (Text.alphanumericRanges.drop 3) c.toNat = false := by
    rw [Text.inRanges, List.any_eq_false]
    intro range within
    have := high range within
    simp only [Bool.and_eq_true, decide_eq_true_eq]
    omega
  have first : Text.inRanges (Text.alphanumericRanges.take 3) c.toNat = c.isAlphanum :=
    forall_char_lt 128
      (P := fun c => Text.inRanges (Text.alphanumericRanges.take 3) c.toNat = c.isAlphanum)
      (by decide +kernel) c ascii
  rw [Text.isAlphanumeric, ← List.take_append_drop 3 Text.alphanumericRanges]
  unfold Text.inRanges at others first ⊢
  rw [List.any_append, first, others, Bool.or_false]

theorem isSymbolChar_ascii {c : Char} (ascii : c.toNat < 128) :
    Text.isSymbolChar c = (c.isAlphanum || Text.symbolSigns.contains c) := by
  rw [Text.isSymbolChar, isAlphanumeric_ascii ascii]

theorem isSymbolChar_sign : Text.isSymbolChar '#' = false :=
  (isSymbolChar_ascii (by decide)).trans (by decide)

theorem isSymbolChar_minus : Text.isSymbolChar '-' = true :=
  (isSymbolChar_ascii (by decide)).trans (by decide)

theorem digit_ten_iff {c : Char} {digit : Nat} :
    Digit 10 c digit ↔ c.isDigit = true ∧ c.toNat - 48 = digit := by
  constructor
  · rintro ⟨small, spelling⟩
    interval_cases digit <;> simp at spelling <;> subst c <;> decide
  · rintro ⟨decimal, rfl⟩
    have range := Char.isDigit_iff_toNat.mp decimal
    refine forall_char_lt 58 (P := fun c => c.isDigit = true → Digit 10 c (c.toNat - 48))
      ?_ c (Nat.lt_succ_of_le range.2) decimal
    unfold Digit
    decide +kernel

theorem hexDigit?_eq_some_lt {c : Char} {digit : Nat} (read : Fixnum.hexDigit? c = some digit) :
    c.toNat < 103 := by
  simp only [Fixnum.hexDigit?, Char.isDigit_iff_toNat, Char.le_def, UInt32.le_iff_toNat_le] at read
  split at read
  case isTrue range => exact range.2.trans_lt (by decide)
  case isFalse =>
    split at read
    case isTrue range => exact range.2.trans_lt (by decide)
    case isFalse =>
      split at read
      case isTrue range => exact range.2.trans_lt (by decide)
      case isFalse => cases read

theorem digit_sixteen_iff {c : Char} {digit : Nat} :
    Digit 16 c digit ↔ Fixnum.hexDigit? c = some digit := by
  constructor
  · rintro ⟨small, spelling⟩
    interval_cases digit <;> simp at spelling <;> rcases spelling with rfl | rfl <;> rfl
  · intro read
    refine forall_char_lt 103 (P := fun c => ∀ digit ∈ Fixnum.hexDigit? c, Digit 16 c digit)
      ?_ c (hexDigit?_eq_some_lt read) digit read
    unfold Digit
    decide +kernel

/-- The value of a numeral, taking the digits from the left. -/
theorem ofDigits_reverse (base : Nat) (digits : List Nat) :
    Nat.ofDigits base digits.reverse
      = digits.foldl (fun size digit => base * size + digit) 0 := by
  rw [Nat.ofDigits_eq_foldr, List.foldr_reverse]
  simp only [Nat.cast_id, Nat.add_comm]

theorem forall₂_digit_ten_iff {text : List Char} {digits : List Nat} :
    List.Forall₂ (Digit 10) text digits ↔
      (∀ c ∈ text, c.isDigit = true) ∧ text.map (fun c => c.toNat - 48) = digits := by
  have reading : Digit 10 = fun c digit => c.isDigit = true ∧ c.toNat - 48 = digit :=
    funext₂ fun _ _ => propext digit_ten_iff
  rw [reading, List.forall₂_and_left, ← List.forall₂_map_left_iff (R := Eq),
    List.forall₂_eq_eq_eq]

theorem forall₂_digit_sixteen_iff {text : List Char} {digits : List Nat} :
    List.Forall₂ (Digit 16) text digits ↔ text.mapM Fixnum.hexDigit? = some digits := by
  induction text generalizing digits with
  | nil => simp [eq_comm]
  | cons c text ih =>
    simp only [List.forall₂_cons_left_iff, digit_sixteen_iff, ih, List.mapM_cons,
      Option.bind_eq_bind, Option.bind_eq_some_iff, Option.pure_def, Option.some.injEq]
    constructor
    · rintro ⟨digit, digits, first, others, rfl⟩
      exact ⟨digit, first, digits, others, rfl⟩
    · rintro ⟨digit, first, digits, others, rfl⟩
      exact ⟨digit, digits, first, others, rfl⟩

theorem numeral_ten_iff {text : List Char} {size : Nat} :
    Numeral 10 text size ↔ Fixnum.magnitude? text = some size := by
  have valued : Nat.ofDigits 10 (text.map fun c => c.toNat - 48).reverse
      = Nat.ofDigitChars 10 text 0 := by
    rw [ofDigits_reverse, List.foldl_map, Nat.ofDigitChars_eq_foldl]
    rfl
  simp only [Numeral, forall₂_digit_ten_iff, Fixnum.magnitude?, List.all_eq_true,
    Option.ite_none_right_eq_some, Option.some.injEq]
  constructor
  · rintro ⟨_, nonempty, ⟨decimal, rfl⟩, rfl⟩
    exact ⟨⟨by simpa using nonempty, decimal⟩, valued.symm⟩
  · rintro ⟨⟨nonempty, decimal⟩, rfl⟩
    exact ⟨_, by simpa using nonempty, ⟨decimal, rfl⟩, valued.symm⟩

end Grammar

namespace Fixnum

theorem ofInt?_eq_some_iff {value : Int} {n : Fixnum} : ofInt? value = some n ↔ n.val = value := by
  constructor
  · exact val_of_ofInt?
  · rintro rfl
    exact ofInt?_val n

theorem ofHex?_eq_some_iff {text : List Char} {n : Fixnum} :
    ofHex? text = some n ↔ ∃ size, Grammar.Numeral 16 text size ∧ n.val = size := by
  simp only [ofHex?, Grammar.Numeral, Grammar.forall₂_digit_sixteen_iff, Option.bind_eq_bind,
    Option.bind_eq_some_iff, Option.ite_none_left_eq_some, List.isEmpty_iff, ofInt?_eq_some_iff,
    Grammar.ofDigits_reverse]
  constructor
  · rintro ⟨digits, read, nonempty, value⟩
    exact ⟨_, ⟨digits, nonempty, read, rfl⟩, value⟩
  · rintro ⟨_, ⟨digits, nonempty, read, rfl⟩, value⟩
    exact ⟨digits, read, nonempty, value⟩

/-- A decimal numeral begins with a digit, so it is told apart from one behind a minus sign. -/
theorem ofDecimal?_eq_some_iff {text : List Char} {n : Fixnum} :
    ofDecimal? text = some n ↔
      (∃ size, Grammar.Numeral 10 text size ∧ n.val = size) ∨
        ∃ digits size, text = '-' :: digits ∧ Grammar.Numeral 10 digits size ∧
          n.val = -(size : Int) := by
  simp only [Grammar.numeral_ten_iff]
  unfold ofDecimal?
  split
  case h_1 digits =>
    have signed : magnitude? ('-' :: digits) = none := by simp [magnitude?]
    simp [signed, ofInt?_eq_some_iff, Option.bind_eq_some_iff]
  case h_2 unsigned =>
    simp only [Option.bind_eq_some_iff, ofInt?_eq_some_iff]
    constructor
    · exact .inl
    · rintro (numeral | ⟨digits, -, rfl, -⟩)
      · exact numeral
      · exact absurd rfl (unsigned digits)

/-- The printed form of a number is read as that number. -/
theorem ofDecimal?_digits (n : Fixnum) : ofDecimal? n.digits = some n := by
  have size (k : Nat) : magnitude? (Nat.toDigits 10 k) = some k := by
    have decimal : ∀ c ∈ Nat.toDigits 10 k, c.isDigit = true := fun _ within =>
      Nat.isDigit_of_mem_toDigits (by decide) (by decide) within
    rw [magnitude?, if_pos ⟨Nat.toDigits_ne_nil, List.all_eq_true.mpr decimal⟩,
      Nat.ofDigitChars_toDigits (by decide) (by decide)]
  rw [ofDecimal?_eq_some_iff]
  simp only [Grammar.numeral_ten_iff]
  unfold digits
  split
  case isTrue negative => exact .inr ⟨_, _, rfl, size _, by omega⟩
  case isFalse => exact .inl ⟨_, size _, by omega⟩

end Fixnum

namespace Reader

open Grammar

theorem startsLikeNumber_of_ofDecimal? {text : List Char} {n : Fixnum}
    (read : Fixnum.ofDecimal? text = some n) : Text.startsLikeNumber text = true := by
  have first : ∀ {text size}, Numeral 10 text size →
      ∃ c rest, text = c :: rest ∧ c.isDigit = true := by
    rintro (_ | ⟨c, rest⟩) size ⟨digits, nonempty, spelled, -⟩
    · exact absurd (List.forall₂_nil_left_iff.mp spelled) nonempty
    · exact ⟨c, rest, rfl, (forall₂_digit_ten_iff.mp spelled).1 c List.mem_cons_self⟩
  rcases Fixnum.ofDecimal?_eq_some_iff.mp read with ⟨_, numeral, -⟩ | ⟨_, _, rfl, numeral, -⟩
  · obtain ⟨c, rest, rfl, digit⟩ := first numeral
    unfold Text.startsLikeNumber
    split <;> simp_all
  · obtain ⟨c, rest, rfl, digit⟩ := first numeral
    exact digit

/-- No symbol starts like a number, so the order of the two alternatives does not matter. -/
theorem plainAtom?_eq_some_iff {run : List Char} {datum : Value} :
    plainAtom? run = some datum ↔
      (∃ n, Fixnum.ofDecimal? run = some n ∧ datum = .number n) ∨
        (Text.isSymbolName run = true ∧ datum = .symbol (String.ofList run)) := by
  unfold plainAtom?
  split
  case h_1 n read =>
    have number := startsLikeNumber_of_ofDecimal? read
    simp [read, Text.isSymbolName, number, eq_comm (a := datum)]
  case h_2 read => simp [read, eq_comm (a := datum)]

/-- A number sign stands in no number and in no symbol. -/
theorem plainAtom?_sign (run : List Char) : plainAtom? ('#' :: run) = none := by
  have noSymbol : Text.isSymbolName ('#' :: run) = false := by
    rw [Text.isSymbolName, List.all_cons, isSymbolChar_sign, Bool.false_and, Bool.and_false]
  have noNumber : Fixnum.ofDecimal? ('#' :: run) = none := by
    simp [Fixnum.ofDecimal?, Fixnum.magnitude?]
  simp [plainAtom?, noSymbol, noNumber]

theorem signedAtom?_eq_some_iff {run : List Char} {datum : Value} :
    signedAtom? run = some datum ↔
      (run = ['t'] ∧ datum = .boolean true) ∨ (run = ['f'] ∧ datum = .boolean false) ∨
        ∃ x text n, (x = 'x' ∨ x = 'X') ∧ run = x :: text ∧ Fixnum.ofHex? text = some n ∧
          datum = .number n := by
  unfold signedAtom?
  split <;> simp_all [eq_comm]

/-- The reader takes a word to mean what the grammar says. -/
theorem atom?_eq_some_iff {word : List Char} {datum : Value} :
    atom? word = some datum ↔ Denotes word datum := by
  constructor
  · intro read
    unfold atom? at read
    split at read
    case h_1 =>
      rcases signedAtom?_eq_some_iff.mp read with
        ⟨rfl, rfl⟩ | ⟨rfl, rfl⟩ | ⟨x, text, n, mark, rfl, hex, rfl⟩
      · exact .true
      · exact .false
      · obtain ⟨size, numeral, value⟩ := Fixnum.ofHex?_eq_some_iff.mp hex
        exact .hexadecimal mark numeral value
    case h_2 =>
      rcases plainAtom?_eq_some_iff.mp read with ⟨n, decimal, rfl⟩ | ⟨name, rfl⟩
      · rcases Fixnum.ofDecimal?_eq_some_iff.mp decimal with
          ⟨size, numeral, value⟩ | ⟨digits, size, rfl, numeral, value⟩
        · exact .decimal numeral value
        · exact .negative numeral value
      · exact .symbol name
  · intro denotes
    have plain : ∀ {run}, plainAtom? run = some datum → atom? run = some datum := by
      intro run read
      unfold atom?
      split
      · exact absurd read (by simp [plainAtom?_sign])
      · exact read
    cases denotes with
    | decimal numeral value =>
      exact plain (plainAtom?_eq_some_iff.mpr
        (.inl ⟨_, Fixnum.ofDecimal?_eq_some_iff.mpr (.inl ⟨_, numeral, value⟩), rfl⟩))
    | negative numeral value =>
      exact plain (plainAtom?_eq_some_iff.mpr
        (.inl ⟨_, Fixnum.ofDecimal?_eq_some_iff.mpr (.inr ⟨_, _, rfl, numeral, value⟩), rfl⟩))
    | symbol name => exact plain (plainAtom?_eq_some_iff.mpr (.inr ⟨name, rfl⟩))
    | true => rfl
    | false => rfl
    | hexadecimal mark numeral value =>
      exact signedAtom?_eq_some_iff.mpr
        (.inr (.inr ⟨_, _, _, mark, rfl, Fixnum.ofHex?_eq_some_iff.mpr ⟨_, numeral, value⟩, rfl⟩))

end Reader

end CellScheme
