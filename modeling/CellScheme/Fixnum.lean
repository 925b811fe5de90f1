/-!
Numbers of the language: integers in the closed range from -2^63 to 2^63 - 1. Arithmetic is done
on unbounded integers and then brought back with `ofInt?`, so a result outside the range is
absent rather than wrapped. The module also holds the two written forms: decimal, which is also
the printed form, and hexadecimal, which is only read.
-/
namespace CellScheme

/-- An integer together with the proof that it is in range. -/
structure Fixnum where
  val : Int
  least_le : -9223372036854775808 ≤ val
  le_greatest : val ≤ 9223372036854775807
  deriving DecidableEq

namespace Fixnum

/-- The number with a given integer value, absent when the value is out of range. -/
def ofInt? (value : Int) : Option Fixnum :=
  if bounds : -9223372036854775808 ≤ value ∧ value ≤ 9223372036854775807 then
    some ⟨value, bounds.1, bounds.2⟩
  else
    none

theorem ofInt?_val (n : Fixnum) : ofInt? n.val = some n := by
  simp [ofInt?, n.least_le, n.le_greatest]

theorem val_of_ofInt? {value : Int} {n : Fixnum} (present : ofInt? value = some n) :
    n.val = value := by
  unfold ofInt? at present
  split at present
  · cases present
    rfl
  · cases present

def zero : Fixnum := ⟨0, by decide, by decide⟩

def one : Fixnum := ⟨1, by decide, by decide⟩

def digits (n : Fixnum) : List Char :=
  if n.val < 0 then '-' :: Nat.toDigits 10 n.val.natAbs else Nat.toDigits 10 n.val.natAbs

def display (n : Fixnum) : String :=
  String.ofList n.digits

/-- Decimal digits, at least one, without a sign. -/
def magnitude? (digits : List Char) : Option Nat :=
  if digits ≠ [] ∧ digits.all Char.isDigit then some (Nat.ofDigitChars 10 digits 0) else none

/-- Reads at least one decimal digit after an optional minus sign; a plus sign is not accepted. -/
def ofDecimal? : List Char → Option Fixnum
  | '-' :: digits => (magnitude? digits).bind fun size => ofInt? (-(size : Int))
  | digits => (magnitude? digits).bind fun size => ofInt? size

def hexDigit? (c : Char) : Option Nat :=
  if c.isDigit then some (c.toNat - 48)
  else if 'a' ≤ c ∧ c ≤ 'f' then some (c.toNat - 87)
  else if 'A' ≤ c ∧ c ≤ 'F' then some (c.toNat - 55)
  else none

/-- Reads at least one hexadecimal digit; there is no sign, so no negative number is read. -/
def ofHex? (digits : List Char) : Option Fixnum := do
  let values ← digits.mapM hexDigit?
  if values.isEmpty then none else ofInt? (values.foldl (fun size digit => 16 * size + digit) 0 : Nat)

end Fixnum

end CellScheme
