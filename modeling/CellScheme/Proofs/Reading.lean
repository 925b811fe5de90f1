import CellScheme.Proofs.Conversion
import CellScheme.Proofs.Denotation

/-!
The machine that reads accepts exactly the texts of the grammar, with exactly their data.

From the grammar to the machine, a derivation says how the machine runs: over the text of a datum
it comes to the state where that datum is delivered. From the machine to the grammar, one induction
on the text suffices: what the open lists, the quote marks and the token still demand of the rest
of a text is written down in `Expects`, `Accepts` and `State.Holds`, and each step back over a
character adds to the derivations that these hold.
-/
namespace CellScheme.Reader

open Grammar

theorem inRanges_of_apart {left right : List (Nat × Nat)}
    (apart : ∀ l ∈ left, ∀ r ∈ right, l.2 < r.1 ∨ r.2 < l.1) {point : Nat}
    (within : Text.inRanges left point = true) : Text.inRanges right point = false := by
  simp only [Text.inRanges, List.any_eq_true, Bool.and_eq_true, decide_eq_true_eq,
    List.any_eq_false] at within ⊢
  obtain ⟨l, inLeft, low, high⟩ := within
  rintro r inRight ⟨low', high'⟩
  have := apart l inLeft r inRight
  omega

/-- No blank is a symbol character. -/
theorem isBlank_of_isSymbolChar {c : Char} (symbol : Text.isSymbolChar c = true) :
    Text.isBlank c = false := by
  rcases Bool.or_eq_true_iff.mp symbol with alphanumeric | sign
  · exact inRanges_of_apart (by decide +kernel) alphanumeric
  · have signs : (Text.symbolSigns.all fun c => !Text.isBlank c) = true := by decide +kernel
    simpa using List.all_eq_true.mp signs c (List.contains_iff_mem.mp sign)

/-- Layout ends a word. -/
theorem isSymbolChar_of_isLayout {c : Char} (layout : Text.isLayout c = true) :
    Text.isSymbolChar c = false := by
  have blank := Text.isBlank_of_isLayout layout
  rw [Bool.eq_false_iff]
  exact fun symbol => Bool.false_ne_true ((isBlank_of_isSymbolChar symbol).symm.trans blank)

/-- The characters that begin something other than a word. -/
def delimiters : List Char :=
  ['\'', '(', ')', '"']

theorem isSymbolChar_delimiter : ∀ c ∈ delimiters, Text.isSymbolChar c = false := by
  have apart : (delimiters.all fun c => !Text.isSymbolChar c) = true := by decide +kernel
  simpa using List.all_eq_true.mp apart

/-- What may begin a word is no blank. -/
theorem isBlank_of_wordStart {c : Char} (first : c = '#' ∨ Text.isSymbolChar c = true) :
    Text.isBlank c = false := by
  rcases first with rfl | symbol
  · rfl
  · exact isBlank_of_isSymbolChar symbol

theorem ne_of_wordStart {c : Char} (first : c = '#' ∨ Text.isSymbolChar c = true) :
    ∀ d ∈ delimiters, c ≠ d := by
  rintro _ delimiter rfl
  rcases first with rfl | symbol
  · revert delimiter
    decide
  · rw [isSymbolChar_delimiter c delimiter] at symbol
    cases symbol

theorem isLayout_of_isBlank {c : Char} (ink : Text.isBlank c = false) :
    Text.isLayout c = false := by
  rw [Bool.eq_false_iff] at ink ⊢
  exact fun layout => ink (Text.isBlank_of_isLayout layout)

theorem mem_escapes_iff {letter c : Char} :
    (letter, c) ∈ escapes ↔ Text.unescape? letter = some c := by
  unfold Text.unescape?
  split <;> simp_all [escapes, eq_comm]

namespace State

variable {extent : Extent} {state next : State} {c : Char} {text rest : List Char}
  {datum : Value} {data : List Value}

/-- Reads on from a state to the end of a text. -/
def run (extent : Extent) (state : State) (text : List Char) : Except Fault (List Value) := do
  (← text.foldlM (State.step extent) state).finish

/-- The same state at another byte offset. -/
def moveTo (state : State) (offset : Nat) : State :=
  { state with offset }

@[simp] theorem moveTo_token (offset : Nat) : (state.moveTo offset).token = state.token := rfl

@[simp] theorem moveTo_openings (offset : Nat) :
    (state.moveTo offset).openings = state.openings := rfl

@[simp] theorem moveTo_complete (offset : Nat) :
    (state.moveTo offset).complete = state.complete := rfl

theorem deliver_openings :
    (state.deliver datum).openings = (settle datum state.complete state.openings).1 := rfl

theorem deliver_complete :
    (state.deliver datum).complete = (settle datum state.complete state.openings).2 := rfl

theorem run_nil : state.run extent [] = state.finish := rfl

theorem run_cons : state.run extent (c :: text)
    = state.take extent c >>= fun next =>
      (next.moveTo (state.offset + c.utf8Size)).run extent text := by
  simp only [run, List.foldlM_cons, step, bind_assoc, pure_bind]
  rfl

theorem run_cons_of_take (taken : state.take extent c = .ok next) : state.run extent (c :: text)
    = (next.moveTo (state.offset + c.utf8Size)).run extent text := by
  rw [run_cons, taken]
  rfl

theorem take_of_run_cons (ran : state.run extent (c :: text) = .ok data) :
    ∃ next offset, state.take extent c = .ok next ∧
      (next.moveTo offset).run extent text = .ok data := by
  rw [run_cons] at ran
  obtain ⟨next, taken, ran⟩ := bind_eq_ok.mp ran
  exact ⟨next, _, taken, ran⟩

/-- Reading the front of a text brings the machine to a state, wherever that is in bytes. -/
def Reaches (extent : Extent) (state : State) (text : List Char) (next : State)
    (rest : List Char) : Prop :=
  ∃ offset, state.run extent text = (next.moveTo offset).run extent rest

theorem Reaches.of_take (taken : state.take extent c = .ok next) :
    state.Reaches extent (c :: text) next text :=
  ⟨_, run_cons_of_take taken⟩

theorem Reaches.trans {middle : State} {between : List Char}
    (first : state.Reaches extent text middle between)
    (second : ∀ offset, (middle.moveTo offset).Reaches extent between next rest) :
    state.Reaches extent text next rest := by
  obtain ⟨offset, first⟩ := first
  obtain ⟨offset', second⟩ := second offset
  exact ⟨offset', first.trans second⟩

/-- More data may begin: always in a program, else only before the first. -/
def Awaits (extent : Extent) (state : State) : Prop :=
  extent = .program ∨ state.complete = []

theorem skips_of_isLayout (state : State) (extent : Extent) (layout : Text.isLayout c = true) :
    state.skips extent c = true := by
  unfold skips
  split
  · exact Text.isBlank_of_isLayout layout
  · exact layout

theorem skips_of_isBlank (state : State) (extent : Extent) (ink : Text.isBlank c = false) :
    state.skips extent c = false := by
  unfold skips
  split
  · exact ink
  · exact isLayout_of_isBlank ink

/-- Between tokens, the characters skipped leave the machine where it is. -/
theorem take_skip (between : state.token = .between) (skipped : state.skips extent c = true) :
    state.take extent c = .ok state := by
  have unchanged : { state with token := .between } = state := by rw [← between]
  simp only [take, between, start, skipped, if_true, unchanged]
  rfl

/-- Where a datum is awaited, the two extents differ only in the blanks that they skip. -/
theorem take_of_awaits (between : state.token = .between) (awaits : state.Awaits extent)
    (ink : Text.isBlank c = false) : state.take extent c = state.take .program c := by
  have noTrailing : ¬ (extent = .datum ∧ (!state.complete.isEmpty) = true) := by
    rintro ⟨rfl, more⟩
    rcases awaits with program | empty
    · cases program
    · simp [empty] at more
  simp only [take, between, start, skips_of_isBlank state _ ink]
  rw [if_neg noTrailing]
  simp

theorem enter_of_le {opening : Opening} (room : state.openings.length ≤ 62) :
    state.enter opening
      = .ok { state with openings := opening :: state.openings, token := .between } := by
  rw [enter, if_neg (by unfold nestingLimit; omega)]
  rfl

theorem take_quote (between : state.token = .between) (awaits : state.Awaits extent)
    (room : state.openings.length ≤ 62) :
    state.take extent '\'' = .ok { state with
      openings := .quote state.offset :: state.openings, token := .between } := by
  rw [take_of_awaits between awaits rfl]
  simp [take, between, start, skips_of_isBlank state _ (c := '\'') rfl, enter_of_le room]

theorem take_open (between : state.token = .between) (awaits : state.Awaits extent)
    (room : state.openings.length ≤ 62) :
    state.take extent '(' = .ok { state with
      openings := .list [] :: state.openings, token := .between } := by
  rw [take_of_awaits between awaits rfl]
  simp [take, between, start, skips_of_isBlank state _ (c := '(') rfl, enter_of_le room]

theorem take_close {items : List Value} {outer : List Opening} (between : state.token = .between)
    (awaits : state.Awaits extent) (openings : state.openings = .list items :: outer) :
    state.take extent ')'
      = .ok ({ state with openings := outer }.deliver (.list items.reverse)) := by
  rw [take_of_awaits between awaits rfl]
  simp [take, between, start, skips_of_isBlank state _ (c := ')') rfl, openings, pure,
    Except.pure]

theorem take_string (between : state.token = .between) (awaits : state.Awaits extent) :
    state.take extent '"' = .ok { state with token := .string [] } := by
  rw [take_of_awaits between awaits rfl]
  simp [take, between, start, skips_of_isBlank state _ (c := '"') rfl, pure, Except.pure]

theorem take_word (between : state.token = .between) (awaits : state.Awaits extent)
    (first : c = '#' ∨ Text.isSymbolChar c = true) :
    state.take extent c = .ok { state with token := .atom state.offset [c] } := by
  have ink : Text.isBlank c = false := isBlank_of_wordStart first
  have apart : ∀ d ∈ delimiters, c ≠ d := ne_of_wordStart first
  simp only [delimiters, List.forall_mem_cons] at apart
  rw [take_of_awaits between awaits ink]
  simp [take, between, start, skips_of_isBlank state _ ink, apart, first, pure, Except.pure]

theorem reaches_layout (between : state.token = .between) (layout : Text.isLayout c = true) :
    state.Reaches extent (c :: text) state text :=
  .of_take (take_skip between (skips_of_isLayout state extent layout))

/-- An atom ends before the next character is looked at, so ending it reads nothing. -/
theorem reaches_atom_end {start : Nat} {seen : List Char} (atom : state.token = .atom start seen)
    (ends : RunEnds rest) (read : atom? seen.reverse = some datum) :
    state.Reaches extent rest (state.deliver datum) rest := by
  refine ⟨state.offset, ?_⟩
  have ended : state.endAtom start seen = .ok (state.deliver datum) := by
    rw [endAtom, read]
    rfl
  cases rest with
  | nil =>
    rw [run_nil, run_nil, finish, atom]
    simp only [ended]
    rfl
  | cons c rest =>
    have other : Text.isSymbolChar c = false := ends c rfl
    rw [run_cons, run_cons, take, atom]
    simp only [other, Bool.false_eq_true, if_false, ended]
    rfl

theorem reaches_atom {start : Nat} {seen run : List Char} (atom : state.token = .atom start seen)
    (symbols : ∀ c ∈ run, Text.isSymbolChar c = true) (ends : RunEnds rest)
    (read : atom? (seen.reverse ++ run) = some datum) :
    state.Reaches extent (run ++ rest) (state.deliver datum) rest := by
  induction run generalizing state seen with
  | nil => exact reaches_atom_end atom ends (by simpa using read)
  | cons c run ih =>
    have taken : state.take extent c = .ok { state with token := .atom start (c :: seen) } := by
      rw [take, atom]
      simp only [symbols c List.mem_cons_self, if_true]
      rfl
    refine (Reaches.of_take taken).trans fun offset => ?_
    exact ih rfl (fun c within => symbols c (List.mem_cons_of_mem _ within)) (by simpa using read)

theorem reaches_word {word : List Char} (between : state.token = .between)
    (awaits : state.Awaits extent) (whole : Word text word rest) (read : atom? word = some datum) :
    state.Reaches extent text (state.deliver datum) rest := by
  have entered : ∀ {c run}, (c = '#' ∨ Text.isSymbolChar c = true) →
      (∀ c ∈ run, Text.isSymbolChar c = true) → RunEnds rest → atom? (c :: run) = some datum →
      state.Reaches extent (c :: (run ++ rest)) (state.deliver datum) rest := by
    intro c run first symbols ends read
    refine (Reaches.of_take (take_word between awaits first)).trans fun offset => ?_
    exact reaches_atom rfl symbols ends read
  cases whole with
  | signed symbols ends => exact entered (.inl rfl) symbols ends read
  | plain symbols ends =>
    cases word with
    | nil => cases read
    | cons c run =>
      obtain ⟨first, symbols⟩ := List.forall_mem_cons.mp symbols
      exact entered (.inr first) symbols ends read

theorem reaches_string (state : State) (seen : List Char) {chars : List Char}
    (literal : state.token = .string seen)
    (body : StringBody text chars rest) : state.Reaches extent text
      (state.deliver (.string (String.ofList (seen.reverse ++ chars)))) rest := by
  induction body generalizing state seen with
  | close =>
    refine .of_take ?_
    rw [take, literal, List.append_nil]
    rfl
  | @escape letter c text chars rest denotes body ih =>
    have slash : state.take extent '\\'
        = .ok { state with token := .escape state.offset seen } := by
      rw [take, literal]
      rfl
    refine (Reaches.of_take slash).trans fun offset => ?_
    have escaped : State.take ({ state with token := .escape state.offset seen }.moveTo offset)
        extent letter = .ok ({ state with token := .string (c :: seen) }.moveTo offset) := by
      simp only [take, moveTo, mem_escapes_iff.mp denotes]
      rfl
    refine (Reaches.of_take escaped).trans fun offset => ?_
    rw [List.append_cons, ← List.reverse_cons]
    exact ih ({ state with token := .string (c :: seen) }.moveTo offset) _ rfl
  | @plain c text chars rest inside unescaped body ih =>
    have taken : state.take extent c = .ok { state with token := .string (c :: seen) } := by
      simp only [take, literal, inside, unescaped, if_false]
      rfl
    refine (Reaches.of_take taken).trans fun offset => ?_
    rw [List.append_cons, ← List.reverse_cons]
    exact ih ({ state with token := .string (c :: seen) }.moveTo offset) _ rfl

/-- A datum delivered inside a list becomes its newest item. -/
theorem deliver_list {items : List Value} {outer : List Opening}
    (openings : state.openings = .list items :: outer) :
    state.deliver datum
      = { state with openings := .list (datum :: items) :: outer, token := .between } := by
  rw [deliver, openings]
  rfl

mutual

/-- Over the text of a datum, the machine comes to the state where the datum is delivered. -/
theorem reaches_datum {extent : Extent} (state : State) {depth : Nat} {text rest : List Char}
    {datum : Value} (between : state.token = .between) (inside : state.openings.length = depth)
    (awaits : state.Awaits extent) :
    Datum depth text datum rest → state.Reaches extent text (state.deliver datum) rest
  | .layout layout datum =>
    (reaches_layout between layout).trans fun offset =>
      reaches_datum (state.moveTo offset) between inside awaits datum
  | .quoted room datum =>
    (Reaches.of_take (take_quote between awaits (inside ▸ room))).trans fun _ =>
      reaches_datum _ rfl (congrArg (· + 1) inside) awaits datum
  | .list room items =>
    (Reaches.of_take (take_open between awaits (inside ▸ room))).trans fun _ =>
      reaches_items _ [] state.openings rfl rfl (congrArg (· + 1) inside) awaits items
  | .string body =>
    (Reaches.of_take (take_string between awaits)).trans fun _ => reaches_string _ [] rfl body
  | .word whole denotes => reaches_word between awaits whole (atom?_eq_some_iff.mpr denotes)

/-- Over the items of an open list, the machine comes to the state where the list is delivered. -/
theorem reaches_items {extent : Extent} (state : State) (acc : List Value)
    (outer : List Opening) {depth : Nat} {text rest : List Char} {items : List Value}
    (between : state.token = .between) (openings : state.openings = .list acc :: outer)
    (inside : outer.length + 1 = depth)
    (awaits : state.Awaits extent) :
    Items depth text items rest → state.Reaches extent text
      ({ state with openings := outer }.deliver (.list (acc.reverse ++ items))) rest
  | .layout layout items =>
    (reaches_layout between layout).trans fun offset =>
      reaches_items (state.moveTo offset) acc outer between openings inside awaits items
  | .close => by
    rw [List.append_nil]
    exact .of_take (take_close between awaits openings)
  | .item datum items => by
    have first := reaches_datum state between (by rw [openings]; exact inside) awaits datum
    rw [deliver_list openings] at first
    refine first.trans fun offset => ?_
    rw [List.append_cons, ← List.reverse_cons]
    exact reaches_items _ _ outer rfl rfl inside awaits items

end

theorem run_layout (between : state.token = .between) (outside : state.openings = [])
    (layout : ∀ c ∈ rest, Text.isLayout c = true) :
    state.run extent rest = .ok state.complete.reverse := by
  induction rest generalizing state with
  | nil =>
    rw [run_nil, finish, between]
    simp only [pure_bind, outside]
    rfl
  | cons c rest ih =>
    obtain ⟨first, layout⟩ := List.forall_mem_cons.mp layout
    have skip : state.Reaches extent (c :: rest) state rest := reaches_layout between first
    obtain ⟨offset, skipped⟩ := skip
    rw [skipped]
    exact ih between outside layout

theorem run_data (between : state.token = .between) (outside : state.openings = [])
    (sequence : Data text data) :
    state.run .program text = .ok (state.complete.reverse ++ data) := by
  induction sequence generalizing state with
  | done => rw [List.append_nil]; exact run_layout between outside (by simp)
  | @blank c text data blank rest ih =>
    have skipped : state.skips .program c = true := by simp [skips, outside, blank]
    rw [run_cons_of_take (take_skip between skipped)]
    exact ih between outside
  | @datum text datum rest data first others ih =>
    have inside : state.openings.length = 0 := by rw [outside]; rfl
    obtain ⟨offset, read⟩ := reaches_datum state between inside (.inl rfl) first
    have delivered : (state.deliver datum).complete = datum :: state.complete := by
      rw [deliver_complete, outside]
      rfl
    rw [read, ih rfl (by rw [moveTo_openings, deliver_openings, outside]; rfl), moveTo_complete,
      delivered, List.reverse_cons, List.append_assoc]
    rfl

/-- What the rest of a text must hold outside all openings, for the text to hold the data. -/
def Outside (extent : Extent) (complete data : List Value) (text : List Char) : Prop :=
  match extent with
  | .program => ∃ more, data = complete.reverse ++ more ∧ Data text more
  | .datum =>
    (data = complete.reverse ∧ ∀ c ∈ text, Text.isLayout c = true) ∨
      (complete = [] ∧ ∃ datum, data = [datum] ∧ OneDatum text datum)

/-- What the rest of a text must hold once the openings are handed a datum. -/
def Accepts (extent : Extent) (complete data : List Value) :
    List Opening → Value → List Char → Prop
  | [], datum, text => Outside extent (datum :: complete) data text
  | .list items :: outer, datum, text =>
    ∃ more rest, Items (outer.length + 1) text more rest ∧
      Accepts extent complete data outer (.list (items.reverse ++ datum :: more)) rest
  | .quote _ :: outer, datum, text =>
    Accepts extent complete data outer (.list [.symbol "quote", datum]) text

/-- What the rest of a text must hold inside the openings. -/
def Expects (extent : Extent) (complete data : List Value) : List Opening → List Char → Prop
  | [], text => Outside extent complete data text
  | .list items :: outer, text =>
    ∃ more rest, Items (outer.length + 1) text more rest ∧
      Accepts extent complete data outer (.list (items.reverse ++ more)) rest
  | .quote _ :: outer, text =>
    ∃ datum rest, Datum (outer.length + 1) text datum rest ∧
      Accepts extent complete data outer (.list [.symbol "quote", datum]) rest

theorem expects_settle {extent : Extent} {complete data : List Value} {openings : List Opening}
    {datum : Value} {text : List Char} :
    Expects extent (settle datum complete openings).2 data (settle datum complete openings).1 text ↔
      Accepts extent complete data openings datum text := by
  induction openings generalizing datum with
  | nil => exact Iff.rfl
  | cons opening outer ih =>
    cases opening with
    | list items => simp only [settle, Expects, Accepts, List.reverse_cons, List.append_assoc,
        List.singleton_append]
    | quote start => exact ih

/-- A datum may stand wherever one is expected, and what follows it is what is expected then. -/
theorem expects_of_datum {openings : List Opening} {complete : List Value}
    (awaits : extent = .program ∨ complete = []) (first : Datum openings.length text datum rest)
    (accepts : Accepts extent complete data openings datum rest) :
    Expects extent complete data openings text := by
  match openings with
  | [] =>
    cases extent with
    | program =>
      obtain ⟨more, rfl, others⟩ := accepts
      refine ⟨datum :: more, ?_, .datum first others⟩
      rw [List.reverse_cons, List.append_assoc]
      rfl
    | datum =>
      obtain rfl : complete = [] := awaits.resolve_left (by simp)
      obtain ⟨rfl, layout⟩ | ⟨taken, -⟩ := accepts
      · exact .inr ⟨rfl, datum, rfl, rest, first, layout⟩
      · cases taken
  | .list items :: outer =>
    obtain ⟨more, behind, others, accepts⟩ := accepts
    exact ⟨datum :: more, behind, .item first others, accepts⟩
  | .quote _ :: outer => exact ⟨datum, rest, first, accepts⟩

theorem expects_of_skip (skipped : state.skips extent c = true)
    (expects : Expects extent state.complete data state.openings text) :
    Expects extent state.complete data state.openings (c :: text) := by
  unfold skips at skipped
  split at skipped
  case isTrue outside =>
    obtain ⟨rfl, outside⟩ := outside
    rw [List.isEmpty_iff.mp outside] at expects ⊢
    obtain ⟨more, rfl, others⟩ := expects
    exact ⟨more, rfl, .blank skipped others⟩
  case isFalse inside =>
    match openings : state.openings with
    | [] =>
      rw [openings] at expects
      cases extent with
      | program => simp [openings] at inside
      | datum =>
        obtain ⟨rfl, layout⟩ | ⟨empty, datum, rfl, rest, first, layout⟩ := expects
        · exact .inl ⟨rfl, List.forall_mem_cons.mpr ⟨skipped, layout⟩⟩
        · exact .inr ⟨empty, datum, rfl, rest, .layout skipped first, layout⟩
    | .list items :: outer =>
      rw [openings] at expects
      obtain ⟨more, rest, others, accepts⟩ := expects
      exact ⟨more, rest, .layout skipped others, accepts⟩
    | .quote _ :: outer =>
      rw [openings] at expects
      obtain ⟨datum, rest, first, accepts⟩ := expects
      exact ⟨datum, rest, .layout skipped first, accepts⟩

/-- What the rest of a text must hold for the machine, which has come to a state, to end with the
data. -/
def Holds (extent : Extent) (data : List Value) (state : State) (text : List Char) : Prop :=
  match state.token with
  | .between => Expects extent state.complete data state.openings text
  | .atom _ seen =>
    ∃ run rest datum, text = run ++ rest ∧ (∀ c ∈ run, Text.isSymbolChar c = true) ∧ RunEnds rest ∧
      atom? (seen.reverse ++ run) = some datum ∧
      Accepts extent state.complete data state.openings datum rest
  | .string seen =>
    ∃ chars rest, StringBody text chars rest ∧ Accepts extent state.complete data state.openings
      (.string (String.ofList (seen.reverse ++ chars))) rest
  | .escape _ seen =>
    ∃ letter c behind chars rest, text = letter :: behind ∧ (letter, c) ∈ escapes ∧
      StringBody behind chars rest ∧ Accepts extent state.complete data state.openings
        (.string (String.ofList (seen.reverse ++ c :: chars))) rest

theorem accepts_of_holds_deliver (holds : (state.deliver datum).Holds extent data text) :
    Accepts extent state.complete data state.openings datum text :=
  expects_settle.mp holds

theorem endAtom_eq_ok {start : Nat} {seen : List Char}
    (ended : state.endAtom start seen = .ok next) :
    ∃ datum, atom? seen.reverse = some datum ∧ next = state.deliver datum := by
  unfold endAtom at ended
  split at ended
  case h_1 datum read => exact ⟨datum, read, (Except.ok.inj ended).symm⟩
  case h_2 => cases ended

theorem enter_eq_ok {opening : Opening} (entered : state.enter opening = .ok next) :
    state.openings.length ≤ 62 ∧
      next = { state with openings := opening :: state.openings, token := .between } := by
  unfold enter at entered
  split at entered
  case isTrue => cases entered
  case isFalse room =>
    unfold nestingLimit at room
    exact ⟨by omega, (Except.ok.inj entered).symm⟩

/-- What a character begins between tokens is the beginning of what the grammar has there. -/
theorem expects_of_start (started : state.start extent c = .ok next)
    (holds : next.Holds extent data text) :
    Expects extent state.complete data state.openings (c :: text) := by
  unfold start at started
  split at started
  case isTrue skipped =>
    obtain rfl := Except.ok.inj started
    exact expects_of_skip skipped holds
  case isFalse =>
  split at started
  case isTrue => cases started
  case isFalse noTrailing =>
  have awaits : extent = .program ∨ state.complete = [] := by
    cases extent with
    | program => exact .inl rfl
    | datum => exact .inr (by simpa using noTrailing)
  split at started
  case isTrue quote =>
    obtain ⟨room, rfl⟩ := enter_eq_ok started
    obtain ⟨datum, rest, first, accepts⟩ := holds
    exact expects_of_datum awaits (quote ▸ .quoted room first) accepts
  case isFalse =>
  split at started
  case isTrue parenthesis =>
    obtain ⟨room, rfl⟩ := enter_eq_ok started
    obtain ⟨items, rest, within, accepts⟩ := holds
    exact expects_of_datum awaits (parenthesis ▸ .list room within) accepts
  case isFalse =>
  split at started
  case isTrue parenthesis =>
    split at started
    case h_1 items outer openings =>
      obtain rfl := Except.ok.inj started
      rw [openings, parenthesis]
      refine ⟨[], text, .close, ?_⟩
      rw [List.append_nil]
      exact accepts_of_holds_deliver holds
    case h_2 => cases started
  case isFalse =>
  split at started
  case isTrue mark =>
    obtain rfl := Except.ok.inj started
    obtain ⟨chars, rest, body, accepts⟩ := holds
    exact expects_of_datum awaits (mark ▸ .string body) accepts
  case isFalse =>
  split at started
  case isTrue first =>
    obtain rfl := Except.ok.inj started
    obtain ⟨run, rest, datum, rfl, symbols, ends, read, accepts⟩ := holds
    refine expects_of_datum awaits (.word ?_ (atom?_eq_some_iff.mp read)) accepts
    rcases first with rfl | first
    · exact .signed symbols ends
    · have symbols : ∀ d ∈ c :: run, Text.isSymbolChar d = true :=
        List.forall_mem_cons.mpr ⟨first, symbols⟩
      exact .plain symbols ends
  case isFalse => cases started

theorem expects_of_finish (between : state.token = .between) (finished : state.finish = .ok data) :
    Expects extent state.complete data state.openings [] := by
  rw [finish, between] at finished
  simp only [pure_bind] at finished
  split at finished
  case isTrue outside =>
    obtain rfl := Except.ok.inj finished
    rw [List.isEmpty_iff.mp outside]
    cases extent with
    | program => exact ⟨[], (List.append_nil _).symm, .done⟩
    | datum => exact .inl ⟨rfl, by simp⟩
  case isFalse => cases finished

theorem holds_of_finish (finished : state.finish = .ok data) : state.Holds extent data [] := by
  unfold Holds
  split
  case h_1 between => exact expects_of_finish between finished
  case h_2 start seen atom =>
    rw [finish, atom] at finished
    obtain ⟨ended, isEnd, finished⟩ := bind_eq_ok.mp finished
    obtain ⟨datum, read, rfl⟩ := endAtom_eq_ok isEnd
    refine ⟨[], [], datum, rfl, by simp, by simp [RunEnds], by simpa using read, ?_⟩
    exact accepts_of_holds_deliver (expects_of_finish rfl finished)
  case h_3 string =>
    rw [finish, string] at finished
    cases finished
  case h_4 escape =>
    rw [finish, escape] at finished
    cases finished

theorem holds_of_take (taken : state.take extent c = .ok next)
    (holds : next.Holds extent data text) : state.Holds extent data (c :: text) := by
  unfold Holds
  split
  case h_1 between =>
    rw [take, between] at taken
    exact expects_of_start taken holds
  case h_2 start seen atom =>
    rw [take, atom] at taken
    simp only at taken
    split at taken
    case isTrue symbol =>
      obtain rfl := Except.ok.inj taken
      obtain ⟨run, rest, datum, rfl, symbols, ends, read, accepts⟩ := holds
      exact ⟨c :: run, rest, datum, rfl, List.forall_mem_cons.mpr ⟨symbol, symbols⟩, ends,
        by simpa using read, accepts⟩
    case isFalse other =>
      obtain ⟨ended, isEnd, started⟩ := bind_eq_ok.mp taken
      obtain ⟨datum, read, rfl⟩ := endAtom_eq_ok isEnd
      refine ⟨[], c :: text, datum, rfl, by simp, by simpa [RunEnds] using other,
        by simpa using read, ?_⟩
      exact expects_settle.mp (expects_of_start started holds)
  case h_3 seen string =>
    rw [take, string] at taken
    simp only at taken
    split at taken
    case isTrue quote =>
      obtain rfl := Except.ok.inj taken
      exact ⟨[], text, quote ▸ .close, by simpa using accepts_of_holds_deliver holds⟩
    case isFalse inside =>
    split at taken
    case isTrue slash =>
      obtain rfl := Except.ok.inj taken
      obtain ⟨letter, d, behind, chars, rest, rfl, denotes, body, accepts⟩ := holds
      exact ⟨d :: chars, rest, slash ▸ .escape denotes body, accepts⟩
    case isFalse unescaped =>
      obtain rfl := Except.ok.inj taken
      obtain ⟨chars, rest, body, accepts⟩ := holds
      exact ⟨c :: chars, rest, .plain inside unescaped body, by simpa using accepts⟩
  case h_4 start seen escape =>
    rw [take, escape] at taken
    simp only at taken
    split at taken
    case h_1 d denotes =>
      obtain rfl := Except.ok.inj taken
      obtain ⟨chars, rest, body, accepts⟩ := holds
      exact ⟨c, d, text, chars, rest, rfl, mem_escapes_iff.mpr denotes, body,
        by simpa using accepts⟩
    case h_2 => cases taken

/-- When the machine ends well, the rest of the text held what the grammar demands. -/
theorem holds_of_run (ran : state.run extent text = .ok data) : state.Holds extent data text := by
  induction text generalizing state with
  | nil => exact holds_of_finish ran
  | cons c text ih =>
    obtain ⟨next, offset, taken, ran⟩ := take_of_run_cons ran
    have holds : (next.moveTo offset).Holds extent data text := ih ran
    exact holds_of_take taken holds

end State

variable {comments : Bool} {source : String}

theorem scan_datum_of_oneDatum {text : List Char} {datum : Value} (one : OneDatum text datum) :
    scan .datum text = .ok [datum] := by
  obtain ⟨rest, first, layout⟩ := one
  obtain ⟨offset, read⟩ := State.reaches_datum {} rfl rfl (.inr rfl) first
  exact read.trans (State.run_layout rfl rfl layout)

theorem oneDatum_of_scan {text : List Char} {datum : Value} {more : List Value}
    (scanned : scan .datum text = .ok (datum :: more)) : OneDatum text datum := by
  have holds : State.Outside .datum [] (datum :: more) text := State.holds_of_run scanned
  obtain ⟨noDatum, -⟩ | ⟨-, _, only, one⟩ := holds
  · cases noDatum
  · obtain ⟨rfl, -⟩ := List.cons.inj only
    exact one

theorem scan_program_iff {text : List Char} {data : List Value} :
    scan .program text = .ok data ↔ Data text data := by
  constructor
  · intro scanned
    obtain ⟨more, rfl, sequence⟩ : State.Outside .program [] data text := State.holds_of_run scanned
    exact sequence
  · exact fun sequence => @State.run_data {} _ _ rfl rfl sequence

theorem readDatum_eq_ok_iff {datum : Value} :
    readDatum comments source = .ok datum ↔ OneDatum (prepare comments source) datum := by
  constructor
  · intro read
    simp only [readDatum] at read
    split at read
    case h_1 first more scanned =>
      obtain rfl := Except.ok.inj read
      exact oneDatum_of_scan scanned
    case h_2 => cases read
    case h_3 => cases read
  · intro one
    simp only [readDatum, scan_datum_of_oneDatum one]
    rfl

theorem readProgram_eq_ok_iff {data : List Value} :
    readProgram comments source = .ok data ↔ Data (prepare comments source) data := by
  rw [← scan_program_iff]
  simp only [readProgram]
  split
  case h_1 scanned => simp only [scanned, pure, Except.pure, Except.ok.injEq]
  case h_2 scanned => simp [scanned, throw, throwThe, MonadExceptOf.throw]

/-- The reader accepts exactly its grammar, with exactly the right data: a text read as one datum is
one datum with layout around it, and a text read as a program is a sequence of data with any blanks
around them. With comments on, this holds of the text after its comments were blanked. -/
theorem accepts_exactly_grammar (comments : Bool) (source : String) :
    (∀ datum, readDatum comments source = .ok datum ↔
      OneDatum (prepare comments source) datum) ∧
    (∀ data, readProgram comments source = .ok data ↔ Data (prepare comments source) data) :=
  ⟨fun _ => readDatum_eq_ok_iff, fun _ => readProgram_eq_ok_iff⟩

end CellScheme.Reader
