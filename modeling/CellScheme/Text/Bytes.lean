/-!
Positions in a text are counted in UTF-8 bytes. A cut at a byte count that falls inside a
character moves back to the start of that character, so both parts are always whole texts.
-/
namespace CellScheme.Text

/-- Number of bytes in the UTF-8 form of a text. -/
def byteLength : List Char → Nat
  | [] => 0
  | c :: rest => c.utf8Size + byteLength rest

@[simp] theorem byteLength_nil : byteLength [] = 0 := rfl

@[simp] theorem byteLength_cons (c : Char) (rest : List Char) :
    byteLength (c :: rest) = c.utf8Size + byteLength rest := rfl

@[simp] theorem byteLength_append (front back : List Char) :
    byteLength (front ++ back) = byteLength front + byteLength back := by
  induction front with
  | nil => simp
  | cons c rest ih =>
    simp only [List.cons_append, byteLength_cons, ih]
    omega

theorem byteLength_le_of_suffix {text rest : List Char} (suffix : rest <:+ text) :
    byteLength rest ≤ byteLength text := by
  obtain ⟨front, rfl⟩ := suffix
  rw [byteLength_append]
  exact Nat.le_add_left ..

theorem byteLength_lt_of_suffix {text rest : List Char} (suffix : rest <:+ text)
    (shorter : rest.length < text.length) : byteLength rest < byteLength text := by
  obtain ⟨front, rfl⟩ := suffix
  cases front with
  | nil => simp at shorter
  | cons c front =>
    have wide := c.utf8Size_pos
    simp only [List.cons_append, byteLength_cons, byteLength_append]
    omega

/-- The longest part from the front that has at most `limit` bytes. -/
def takeBytes (limit : Nat) : List Char → List Char
  | [] => []
  | c :: rest =>
    if c.utf8Size ≤ limit then c :: takeBytes (limit - c.utf8Size) rest else []

/-- What remains after the longest part from the front that has at most `limit` bytes. -/
def dropBytes (limit : Nat) : List Char → List Char
  | [] => []
  | c :: rest =>
    if c.utf8Size ≤ limit then dropBytes (limit - c.utf8Size) rest else c :: rest

theorem takeBytes_append_dropBytes (limit : Nat) (text : List Char) :
    takeBytes limit text ++ dropBytes limit text = text := by
  induction text generalizing limit with
  | nil => rfl
  | cons c rest ih =>
    by_cases fits : c.utf8Size ≤ limit
    · simp [takeBytes, dropBytes, fits, ih]
    · simp [takeBytes, dropBytes, fits]

theorem byteLength_takeBytes_le (limit : Nat) (text : List Char) :
    byteLength (takeBytes limit text) ≤ limit := by
  induction text generalizing limit with
  | nil => simp [takeBytes]
  | cons c rest ih =>
    by_cases fits : c.utf8Size ≤ limit
    · have bound := ih (limit - c.utf8Size)
      simp only [takeBytes, fits, if_true, byteLength_cons]
      omega
    · simp [takeBytes, fits]

/-- Dropping exactly the bytes of a front part leaves the back part. -/
theorem dropBytes_byteLength (front back : List Char) :
    dropBytes (byteLength front) (front ++ back) = back := by
  induction front with
  | nil =>
    cases back with
    | nil => rfl
    | cons c rest =>
      have wide := Char.utf8Size_pos c
      simp only [List.nil_append, byteLength_nil, dropBytes]
      rw [if_neg (by omega)]
  | cons c rest ih =>
    simp only [List.cons_append, byteLength_cons, dropBytes, Nat.le_add_right, if_true,
      Nat.add_sub_cancel_left]
    exact ih

end CellScheme.Text
