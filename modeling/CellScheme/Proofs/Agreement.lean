import CellScheme.Proofs.Comments
import CellScheme.Proofs.Words
import Mathlib.Data.List.DropRight

/-!
The machine that reads and the reading by descent agree. Where the descent begins a datum, the
machine is between tokens (`Ready`), and what the outcome of the descent says is what the machine
does over the same text (`Agrees`): it comes to the state where the datum is delivered, or it stops
with the same trouble. The descent does not count bytes; the place of its faults is computed from
what is left of the text, and that is the place that the machine has counted.
-/
open CellScheme.Parser

namespace CellScheme

variable {extent : Extent} {total depth : Nat} {state next : Reader.State} {c : Char}
  {text rest run seen : List Char} {value : Value} {start : Nat}

namespace Reader.State

/-- Before the rest of a text of a number of bytes, the place of the machine is what the rest leaves
of these bytes. -/
def Before (total : Nat) (state : State) (text : List Char) : Prop :=
  state.offset + Text.byteLength text = total

theorem Before.moveTo (before : state.Before total text) :
    state.moveTo (total - Text.byteLength text) = state := by
  have same : total - Text.byteLength text = state.offset := Nat.sub_eq_of_eq_add before.symm
  rw [same]
  rfl

theorem Before.offset (before : state.Before total text) :
    state.offset = total - Text.byteLength text :=
  (Nat.sub_eq_of_eq_add before.symm).symm

theorem Before.of_suffix (before : state.Before total text) (suffix : rest <:+ text) :
    (next.moveTo (total - Text.byteLength rest)).Before total rest := by
  have short := Text.byteLength_le_of_suffix suffix
  unfold Before at before
  exact Nat.sub_add_cancel (by omega)

theorem Before.run_cons (before : state.Before total (c :: text))
    (taken : state.take extent c = .ok next) : state.run extent (c :: text)
      = (next.moveTo (total - Text.byteLength text)).run extent text := by
  have same : state.offset + c.utf8Size = total - Text.byteLength text := by
    rw [Before, Text.byteLength_cons] at before
    omega
  rw [run_cons_of_take taken, same]

theorem run_cons_of_error {fault : Fault} (refused : state.take extent c = .error fault) :
    state.run extent (c :: text) = .error fault := by
  rw [run_cons, refused]
  rfl

/-- Characters that are skipped leave the machine as it is. -/
theorem Before.run_dropWhile {belongs : Char → Bool} (before : state.Before total text)
    (between : state.token = .between)
    (skipped : ∀ c, belongs c = true → state.skips extent c = true) :
    state.run extent text
      = (state.moveTo (total - Text.byteLength (text.dropWhile belongs))).run extent
          (text.dropWhile belongs) := by
  induction text generalizing state with
  | nil => rw [List.dropWhile_nil, before.moveTo]
  | cons c text ih =>
    cases member : belongs c with
    | false =>
      rw [List.dropWhile_cons_of_neg (by simp [member]), before.moveTo]
    | true =>
      rw [List.dropWhile_cons_of_pos member,
        before.run_cons (take_skip between (skipped c member))]
      exact ih (before.of_suffix (List.suffix_cons c text)) between skipped

/-- Behind a backslash in a string. -/
theorem Before.run_slash (before : state.Before total ('\\' :: text))
    (literal : state.token = .string seen) : state.run extent ('\\' :: text)
      = ({ state with token := .escape state.offset seen }.moveTo
          (total - Text.byteLength text)).run extent text := by
  refine before.run_cons ?_
  rw [State.take, literal]
  rfl

/-- The state inside a further list or quote mark. -/
def under (state : State) (opening : Opening) : State :=
  { state with openings := opening :: state.openings, token := .between }

/-- Between tokens, inside a number of levels and before the rest of a text, where a datum may
begin. -/
structure Ready (extent : Extent) (total depth : Nat) (state : State) (text : List Char) : Prop where
  between : state.token = .between
  inside : state.openings.length = depth
  awaits : state.Awaits extent
  before : state.Before total text

theorem Ready.of_suffix (ready : Ready extent total depth state text) (suffix : rest <:+ text) :
    Ready extent total depth (state.moveTo (total - Text.byteLength rest)) rest :=
  ⟨ready.between, ready.inside, ready.awaits, ready.before.of_suffix suffix⟩

theorem Ready.under (ready : Ready extent total depth state (c :: text)) (opening : Opening) :
    Ready extent total (depth + 1)
      ((state.under opening).moveTo (total - Text.byteLength text)) text where
  between := rfl
  inside := congrArg (· + 1) ready.inside
  awaits := ready.awaits
  before := ready.before.of_suffix (List.suffix_cons c text)

/-- Below the last level, one more list or quote mark may be open. -/
theorem Ready.room (ready : Ready extent total depth state text)
    (more : depth + 1 < nestingLimit) : state.openings.length ≤ 62 := by
  rw [ready.inside]
  exact Nat.le_of_lt_succ (Nat.lt_of_succ_lt_succ more)

/-- Inside a list or quote mark, and in a text for one datum, only layout is skipped. -/
theorem skips_eq_isLayout (only : extent = .datum ∨ state.openings ≠ []) (c : Char) :
    state.skips extent c = Text.isLayout c := by
  unfold skips
  rcases only with rfl | inside
  · simp
  · simp [inside]

/-- What neither begins a datum nor closes a list is missing a datum. -/
theorem take_stray (between : state.token = .between) (awaits : state.Awaits extent)
    (ink : state.skips extent c = false) (other : c ∉ ['\'', '(', '"', '#'])
    (noSymbol : Text.isSymbolChar c = false)
    (noClose : c = ')' → ∀ items outer, state.openings ≠ .list items :: outer) :
    state.take extent c = .error (missing state.offset state.openings) := by
  have noTrailing : ¬ (extent = .datum ∧ (!state.complete.isEmpty) = true) := by
    rintro ⟨rfl, more⟩
    rcases awaits with program | empty
    · cases program
    · simp [empty] at more
  simp only [List.mem_cons, List.not_mem_nil, or_false, not_or] at other
  obtain ⟨noQuote, noOpen, noString, noSign⟩ := other
  simp only [take, between, start, ink, noTrailing, noQuote, noOpen, noString, noSign, noSymbol,
    Bool.false_eq_true, if_false, or_self]
  split
  case isTrue close =>
    split
    case h_1 items outer openings => exact absurd openings (noClose close items outer)
    case h_2 => rfl
  case isFalse => rfl

/-- Over a whole run, an atom takes its characters. -/
theorem Before.run_symbols (before : state.Before total (run ++ rest))
    (atom : state.token = .atom start seen) (symbols : ∀ c ∈ run, Text.isSymbolChar c = true) :
    state.run extent (run ++ rest)
      = ({ state with token := .atom start (run.reverse ++ seen) }.moveTo
          (total - Text.byteLength rest)).run extent rest := by
  induction run generalizing state seen with
  | nil =>
    have before : state.Before total rest := before
    have same : { state with token := .atom start seen } = state := by rw [← atom]
    rw [List.nil_append, List.reverse_nil, List.nil_append, same, before.moveTo]
  | cons c run ih =>
    have before : state.Before total (c :: (run ++ rest)) := before
    obtain ⟨first, symbols⟩ := List.forall_mem_cons.mp symbols
    have taken : state.take extent c = .ok { state with token := .atom start (c :: seen) } := by
      rw [take, atom]
      simp only [first, if_true]
      rfl
    have tail : run ++ rest <:+ c :: (run ++ rest) := List.suffix_cons c (run ++ rest)
    rw [List.cons_append, before.run_cons taken, ih (before.of_suffix tail) rfl symbols,
      List.reverse_cons, List.append_assoc]
    rfl

/-- A word is delivered as what it denotes, or else missed where it began. -/
theorem Ready.run_word (ready : Ready extent total depth state (c :: (run ++ rest)))
    (first : c = '#' ∨ Text.isSymbolChar c = true)
    (symbols : ∀ c ∈ run, Text.isSymbolChar c = true) (ends : Grammar.RunEnds rest) :
    state.run extent (c :: (run ++ rest))
      = match atom? (c :: run) with
        | some value =>
          ((state.deliver value).moveTo (total - Text.byteLength rest)).run extent rest
        | none => .error (missing state.offset state.openings) := by
  have tail : run ++ rest <:+ c :: (run ++ rest) := List.suffix_cons c (run ++ rest)
  rw [ready.before.run_cons (take_word ready.between ready.awaits first),
    (ready.before.of_suffix tail).run_symbols rfl symbols, run_eq_pause rfl ends]
  simp only [pause, moveTo, endAtom, List.reverse_append, List.reverse_reverse,
    List.reverse_singleton, List.singleton_append]
  cases atom? (c :: run) <;> rfl

end Reader.State

namespace Descent

open Grammar Reader

/-- A run of the machine goes on where a datum has been accepted, or stops where the descent fails. -/
def Ends (extent : Extent) (total : Nat) (state : State) (ran : Except Fault (List Value)) :
    Outcome Value → Prop
  | .accepted value rest =>
    ran = ((state.deliver value).moveTo (total - Text.byteLength rest)).run extent rest
  | .refused _ => False
  | .failed stop => ran = .error (fault total stop)

/-- The machine may go on although no datum follows: outside all openings at the end of the text, and
inside a list at its closing parenthesis. -/
def Closes (openings : List Opening) : List Char → Prop
  | [] => openings = []
  | c :: _ => c = ')' ∧ ∃ items outer, openings = .list items :: outer

/-- The machine does what the descent says. Where the descent refuses a text, behind its layout, the
machine misses a datum there, unless it may go on without one. -/
def Agrees (extent : Extent) (total : Nat) (state : State) (text : List Char) :
    Outcome Value → Prop
  | .refused stop => trouble stop.cause = .noDatum ∧ stop.rest = text.dropWhile Text.isLayout ∧
    (Closes state.openings stop.rest ∨ state.run extent text
      = .error (missing (total - Text.byteLength stop.rest) state.openings))
  | outcome => Ends extent total state (state.run extent text) outcome

/-- Nothing of the state matters but what it makes of a datum. -/
theorem Ends.congr {ran : Except Fault (List Value)} {outcome : Outcome Value}
    (same : ∀ value offset, (state.deliver value).moveTo offset
      = (next.deliver value).moveTo offset)
    (ends : Ends extent total state ran outcome) : Ends extent total next ran outcome := by
  cases outcome with
  | accepted value rest => exact ends.trans (congrArg (State.run extent · rest) (same value _))
  | refused stop => cases ends
  | failed stop => exact ends

theorem Agrees.of_ends {outcome : Outcome Value}
    (ends : Ends extent total state (state.run extent text) outcome) :
    Agrees extent total state text outcome := by
  cases outcome with
  | accepted value rest => exact ends
  | refused stop => cases ends
  | failed stop => exact ends

/-- The machine goes through the characters of a string as the loop does. -/
theorem ends_stringBody (before : state.Before total text) (literal : state.token = .string seen) :
    ∃ outcome, stringBody seen text = some outcome ∧
      Ends extent total state (state.run extent text) outcome := by
  induction size : text.length using Nat.strong_induction_on generalizing seen state text with
  | _ size ih =>
    subst size
    rw [stringBody_eq]
    fun_cases stringTurn seen text
    case case1 rest =>
      have taken : state.take extent '"'
          = .ok (state.deliver (.string (String.ofList seen.reverse))) := by
        simp only [State.take, literal, if_true]
        rfl
      exact ⟨_, rfl, before.run_cons taken⟩
    case case2 letter rest c denotes =>
      have tail : letter :: rest <:+ '\\' :: letter :: rest := List.suffix_cons ..
      have taken : State.take ({ state with token := .escape state.offset seen }.moveTo
          (total - Text.byteLength (letter :: rest))) extent letter
            = .ok ({ state with token := .string (c :: seen) }.moveTo
              (total - Text.byteLength (letter :: rest))) := by
        simp only [State.take, State.moveTo, denotes]
        rfl
      rw [before.run_slash literal, (before.of_suffix tail).run_cons taken]
      have shorter : rest.length < ('\\' :: letter :: rest).length := by
        simp only [List.length_cons]
        omega
      have further : State.Before total ({ state with token := .string (c :: seen) }.moveTo
          (total - Text.byteLength rest)) rest :=
        before.of_suffix ((List.suffix_cons letter rest).trans tail)
      obtain ⟨outcome, ended, ends⟩ := ih rest.length shorter further rfl rfl
      exact ⟨outcome, ended, ends.congr fun _ _ => rfl⟩
    case case3 letter rest none =>
      refine ⟨_, rfl, ?_⟩
      have refused : State.take ({ state with token := .escape state.offset seen }.moveTo
          (total - Text.byteLength (letter :: rest))) extent letter
            = .error ⟨.badEscape, state.offset⟩ := by
        simp only [State.take, State.moveTo, none]
        rfl
      rw [Ends, before.run_slash literal, State.run_cons_of_error refused, before.offset]
      rfl
    case case4 =>
      rw [before.run_slash literal]
      exact ⟨_, rfl, rfl⟩
    case case5 c rest inside noEscape noEnd =>
      have unescaped : c ≠ '\\' := by
        rintro rfl
        cases rest with
        | nil => exact noEnd rfl rfl
        | cons letter rest => exact noEscape letter rest rfl rfl
      have taken : state.take extent c = .ok { state with token := .string (c :: seen) } := by
        simp only [State.take, literal, if_neg inside, if_neg unescaped]
        rfl
      rw [before.run_cons taken]
      have further : State.Before total ({ state with token := .string (c :: seen) }.moveTo
          (total - Text.byteLength rest)) rest := before.of_suffix (List.suffix_cons c rest)
      obtain ⟨outcome, ended, ends⟩ := ih rest.length (Nat.lt_succ_self _) further rfl rfl
      exact ⟨outcome, ended, ends.congr fun _ _ => rfl⟩
    case case6 =>
      refine ⟨_, rfl, ?_⟩
      rw [Ends, State.run_nil, State.finish, literal, before.offset]
      rfl

/-- At a number of levels, the machine agrees with the descent on one datum, wherever it only skips
layout in front of it. -/
def AgreesAt (extent : Extent) (total depth : Nat) : Prop :=
  ∀ {state : State} {text : List Char}, state.Ready extent total depth text →
    (∀ c, state.skips extent c = Text.isLayout c) →
    ∃ outcome, datum depth text = some outcome ∧ Agrees extent total state text outcome

/-- The end of a list. -/
def listEnd (items : List Value) : Parser Value := do
  let _ ← (char ')').cut
  return .list items

/-- The rest of a list behind the items read so far, the newest first. -/
noncomputable def listBody (depth : Nat) (items : List Value) : Parser Value := do
  let items ← (datum (depth + 1)).many items
  layout
  listEnd items

/-- Where no item follows, a list is closed or its closing parenthesis is missing. -/
theorem ends_listEnd {items : List Value} {outer : List Opening}
    (ready : state.Ready extent total depth text) (openings : state.openings = .list items :: outer)
    (goesOn : Closes state.openings text ∨ state.run extent text
      = .error (missing (total - Text.byteLength text) state.openings)) :
    ∃ outcome, listEnd items.reverse text = some outcome ∧
      Ends extent total { state with openings := outer } (state.run extent text) outcome := by
  have unclosed (refused : char ')' text = some (.refused ⟨text, .character⟩))
      (noClose : ¬ Closes state.openings text) : ∃ outcome,
      listEnd items.reverse text = some outcome ∧
        Ends extent total { state with openings := outer } (state.run extent text) outcome := by
    refine ⟨_, bind_of_failed (cut_of_refused refused), ?_⟩
    rw [Ends, goesOn.resolve_left noClose, openings]
    rfl
  cases text with
  | nil => exact unclosed rfl fun closes => by cases openings.symm.trans closes
  | cons c text =>
    by_cases close : c = ')'
    · subst close
      exact ⟨_, bind_of_accepted (cut_of_accepted (char_self ')' text)),
        ready.before.run_cons (State.take_close ready.between ready.awaits openings)⟩
    · exact unclosed (char_refuses close text) fun closes => close closes.1

/-- The machine goes through the items of a list as the loop does, and closes it where the loop has
come to its end. -/
theorem ends_listBody (inner : AgreesAt extent total (depth + 1)) {items : List Value}
    {outer : List Opening} (ready : state.Ready extent total (depth + 1) text)
    (openings : state.openings = .list items :: outer) :
    ∃ outcome, listBody depth items text = some outcome ∧
      Ends extent total { state with openings := outer } (state.run extent text) outcome := by
  induction size : text.length using Nat.strong_induction_on generalizing state items text with
  | _ size ih =>
    subst size
    have layoutOnly : ∀ c, state.skips extent c = Text.isLayout c :=
      State.skips_eq_isLayout (.inr (by rw [openings]; exact List.cons_ne_nil _ _))
    obtain ⟨outcome, read, agrees⟩ := inner ready layoutOnly
    cases outcome with
    | accepted item rest =>
      obtain ⟨suffix, shorter⟩ := (moves_datum (depth + 1)).leaves read
      have shorter := shorter rfl
      have further : State.Ready extent total (depth + 1)
          ({ state with openings := .list (item :: items) :: outer, token := .between }.moveTo
            (total - Text.byteLength rest)) rest := by
        have inside := ready.inside
        rw [openings] at inside
        exact ⟨rfl, inside, ready.awaits, ready.before.of_suffix suffix⟩
      obtain ⟨outcome, ended, ends⟩ := ih rest.length shorter further rfl rfl
      have busy := (Text.byteLength_lt_of_suffix suffix shorter).ne
      refine ⟨outcome, (bind_congr_apply (many_of_accepted read busy)).trans ended, ?_⟩
      have delivered : state.run extent text = _ := agrees
      rw [delivered, State.deliver_list openings]
      exact ends.congr fun _ _ => rfl
    | refused stop =>
      obtain ⟨-, left, goesOn⟩ := agrees
      have skipped : state.run extent text
          = (state.moveTo (total - Text.byteLength stop.rest)).run extent stop.rest := by
        rw [left]
        exact ready.before.run_dropWhile ready.between
          fun c layout => (layoutOnly c).trans layout
      have behind : listBody depth items text = listEnd items.reverse stop.rest := by
        rw [left]
        exact bind_of_accepted (many_of_refused read)
      have suffix : stop.rest <:+ text := left ▸ List.dropWhile_suffix _
      rw [skipped] at goesOn
      obtain ⟨outcome, ended, ends⟩ := ends_listEnd (ready.of_suffix suffix) openings goesOn
      refine ⟨outcome, behind.trans ended, ?_⟩
      rw [skipped]
      exact ends.congr fun _ _ => rfl
    | failed stop => exact ⟨_, bind_of_failed (many_of_failed read), agrees⟩

/-- What a datum may be, behind its layout. -/
noncomputable def begun (depth : Nat) : Parser Value := quoted depth <|> list depth <|> atom

theorem datum_eq (room : depth < nestingLimit) (text : List Char) :
    datum depth text = begun depth (text.dropWhile Text.isLayout) := by
  rw [datum, if_neg (by omega)]
  rfl

theorem datum_full (full : depth + 1 = nestingLimit) (text : List Char) :
    datum (depth + 1) text = some (.failed ⟨text, .depth⟩) := by
  rw [datum, if_pos full.ge]
  rfl

theorem quoted_refuses (other : c ≠ '\'') (depth : Nat) (text : List Char) :
    quoted depth (c :: text) = some (.refused ⟨c :: text, .character⟩) := by
  rw [quoted]
  exact bind_of_refused (char_refuses other text)

theorem list_refuses (other : c ≠ '(') (depth : Nat) (text : List Char) :
    list depth (c :: text) = some (.refused ⟨c :: text, .character⟩) := by
  rw [list]
  exact bind_of_refused (char_refuses other text)

theorem list_open (depth : Nat) (text : List Char) :
    list depth ('(' :: text) = listBody depth [] text := by
  rw [list]
  exact bind_of_accepted (char_self '(' text)

theorem begun_eq_atom (noQuote : c ≠ '\'') (noOpen : c ≠ '(') (depth : Nat) (text : List Char) :
    begun depth (c :: text) = atom (c :: text) :=
  (orElse_of_refused (quoted_refuses noQuote depth text)).trans
    (orElse_of_refused (list_refuses noOpen depth text))

/-- Where the machine goes on or stops for good, no other alternative is tried. -/
theorem Ends.orElse {p q : Parser Value} {ran : Except Fault (List Value)} {outcome : Outcome Value}
    (ends : Ends extent total state ran outcome) (ended : p text = some outcome) :
    (p <|> q) text = some outcome := by
  cases outcome with
  | accepted value rest => exact orElse_of_accepted ended
  | refused stop => cases ends
  | failed stop => exact orElse_of_failed ended

/-- A text that begins with ink is refused where it begins. -/
theorem Agrees.of_refused {stop : Stop} (ink : ∀ c ∈ text.head?, state.skips extent c = false)
    (noDatum : trouble stop.cause = .noDatum) (here : stop.rest = text)
    (goesOn : Closes state.openings text ∨ state.run extent text
      = .error (missing (total - Text.byteLength text) state.openings)) :
    Agrees extent total state text (.refused stop) := by
  have noLayout : text.dropWhile Text.isLayout = text := by
    cases text with
    | nil => rfl
    | cons c text =>
      refine List.dropWhile_cons_of_neg fun layout => ?_
      cases (ink c rfl).symm.trans (State.skips_of_isLayout state extent layout)
  refine ⟨noDatum, here.trans noLayout.symm, ?_⟩
  rwa [here]

/-- At the limit, the machine stops behind the mark, where the descent stops too. -/
theorem run_tooDeep (mark : c = '\'' ∨ c = '(') (full : depth + 1 = nestingLimit)
    (ready : state.Ready extent total depth (c :: text)) :
    state.run extent (c :: text) = .error (fault total ⟨text, .depth⟩) := by
  have deep : 63 ≤ state.openings.length := by
    rw [ready.inside]
    exact (Nat.succ.inj full).ge
  have behind : state.offset + 1 = total - Text.byteLength text := by
    have before := ready.before
    have width : c.utf8Size = 1 := by rcases mark with rfl | rfl <;> rfl
    rw [State.Before, Text.byteLength_cons, width] at before
    omega
  rw [State.run_cons_of_error (State.take_tooDeep mark ready.between ready.awaits deep), behind]
  rfl

/-- A quote mark goes the way of the datum behind it. When there is none, no datum begins at the
quote mark either. -/
theorem agrees_quote (inner : depth + 1 < nestingLimit → AgreesAt extent total (depth + 1))
    (room : depth < nestingLimit) (ready : state.Ready extent total depth ('\'' :: text)) :
    ∃ outcome, begun depth ('\'' :: text) = some outcome ∧
      Agrees extent total state ('\'' :: text) outcome := by
  have opened : quoted depth ('\'' :: text) = (do
      let quotation ← datum (depth + 1)
      return .list [.symbol "quote", quotation] : Parser Value) text := by
    rw [quoted]
    exact bind_of_accepted (char_self '\'' text)
  by_cases more : depth + 1 < nestingLimit
  · have entered : state.run extent ('\'' :: text) = _ :=
      ready.before.run_cons (State.take_quote ready.between ready.awaits (ready.room more))
    obtain ⟨outcome, read, agrees⟩ := inner more (ready.under (.quote state.offset))
      (State.skips_eq_isLayout (.inr (List.cons_ne_nil _ _)))
    cases outcome with
    | accepted value rest =>
      exact ⟨_, orElse_of_accepted (opened.trans (bind_of_accepted read)), entered.trans agrees⟩
    | refused stop =>
      obtain ⟨-, -, goesOn⟩ := agrees
      have noClose : ¬ Closes (.quote state.offset :: state.openings) stop.rest := by
        cases stop.rest with
        | nil => rintro ⟨⟩
        | cons c behind => rintro ⟨-, items, outer, ⟨⟩⟩
      obtain ⟨further, refused, here, noDatum⟩ : ∃ stop, atom ('\'' :: text) = some (.refused stop) ∧
          stop.rest = '\'' :: text ∧ trouble stop.cause = .noDatum :=
        atom_refuses (by decide)
          (noWord_of_begins fun first => ne_of_wordStart first _ (by decide) rfl)
      refine ⟨.refused further, ?_, .of_refused ?_ noDatum here (.inr ?_)⟩
      · rw [begun, orElse_of_refused (opened.trans (bind_of_refused read)),
          orElse_of_refused (list_refuses (by decide) depth text), refused]
      · rintro _ ⟨⟩
        exact State.skips_of_isBlank state extent rfl
      · rw [← ready.before.offset]
        exact entered.trans (goesOn.resolve_left noClose)
    | failed stop =>
      exact ⟨_, orElse_of_failed (opened.trans (bind_of_failed read)), entered.trans agrees⟩
  · have full : depth + 1 = nestingLimit := by omega
    refine ⟨_, orElse_of_failed (opened.trans (bind_of_failed (datum_full full text))), ?_⟩
    exact run_tooDeep (.inl rfl) full ready

/-- A list goes the way of its items. -/
theorem agrees_open (inner : depth + 1 < nestingLimit → AgreesAt extent total (depth + 1))
    (room : depth < nestingLimit) (ready : state.Ready extent total depth ('(' :: text)) :
    ∃ outcome, begun depth ('(' :: text) = some outcome ∧
      Agrees extent total state ('(' :: text) outcome := by
  have noQuote : quoted depth ('(' :: text) = some (.refused _) :=
    quoted_refuses (by decide) depth text
  have read {outcome : Outcome Value} (ended : listBody depth [] text = some outcome)
      (ends : Ends extent total state (state.run extent ('(' :: text)) outcome) :
      ∃ outcome, begun depth ('(' :: text) = some outcome ∧
        Agrees extent total state ('(' :: text) outcome :=
    ⟨outcome, (orElse_of_refused noQuote).trans (ends.orElse ((list_open depth text).trans ended)),
      .of_ends ends⟩
  by_cases more : depth + 1 < nestingLimit
  · have entered : state.run extent ('(' :: text) = _ :=
      ready.before.run_cons (State.take_open ready.between ready.awaits (ready.room more))
    obtain ⟨outcome, ended, ends⟩ := ends_listBody (inner more) (ready.under (.list [])) rfl
    refine read ended ?_
    rw [entered]
    exact ends.congr fun _ _ => rfl
  · have full : depth + 1 = nestingLimit := by omega
    have failed : listBody depth [] text = some (.failed ⟨text, .depth⟩) :=
      bind_of_failed (many_of_failed (datum_full full text))
    exact read failed (run_tooDeep (.inr rfl) full ready)

/-- A string goes the way of its characters. -/
theorem agrees_literal (ready : state.Ready extent total depth ('"' :: text)) :
    ∃ outcome, begun depth ('"' :: text) = some outcome ∧
      Agrees extent total state ('"' :: text) outcome := by
  have entered : state.run extent ('"' :: text) = _ :=
    ready.before.run_cons (State.take_string ready.between ready.awaits)
  have further : State.Before total ({ state with token := .string [] }.moveTo
      (total - Text.byteLength text)) text := ready.before.of_suffix (List.suffix_cons '"' text)
  obtain ⟨outcome, ended, ends⟩ := ends_stringBody further rfl
  have ends : Ends extent total state (state.run extent ('"' :: text)) outcome := by
    rw [entered]
    exact ends.congr fun _ _ => rfl
  have literal : string ('"' :: text) = some outcome :=
    (bind_of_accepted (char_self '"' text)).trans ended
  refine ⟨outcome, ?_, .of_ends ends⟩
  rw [begun_eq_atom (by decide) (by decide),
    atom_eq_string (noWord_of_begins fun first => ne_of_wordStart first _ (by decide) rfl)]
  exact ends.orElse literal

/-- A word is what it denotes. -/
theorem agrees_word (first : c = '#' ∨ Text.isSymbolChar c = true)
    (ready : state.Ready extent total depth (c :: text)) :
    ∃ outcome, begun depth (c :: text) = some outcome ∧
      Agrees extent total state (c :: text) outcome := by
  obtain ⟨split, symbols, ends⟩ := takeWhile_split Text.isSymbolChar text
  generalize text.takeWhile Text.isSymbolChar = run at split symbols
  generalize text.dropWhile Text.isSymbolChar = rest at split ends
  subst split
  have whole : Word (c :: (run ++ rest)) (c :: run) rest := by
    rcases first with rfl | symbol
    · exact .signed symbols ends
    · exact .plain (List.forall_mem_cons.mpr ⟨symbol, symbols⟩) ends
  have apart : ∀ d ∈ delimiters, c ≠ d := ne_of_wordStart first
  have noString : c ≠ '"' := apart '"' (by decide)
  have ran := ready.run_word first symbols ends
  rw [begun_eq_atom (apart '\'' (by decide)) (apart '(' (by decide))]
  cases read : atom? (c :: run) with
  | some value =>
    rw [read] at ran
    exact ⟨_, (atom_accepted_iff noString).mpr ⟨_, whole, atom?_eq_some_iff.mp read⟩, ran⟩
  | none =>
    rw [read] at ran
    have noWord (word behind : List Char) (value : Value)
        (whole' : Word (c :: (run ++ rest)) word behind) : ¬ Denotes word value := by
      intro denotes
      obtain ⟨rfl, -⟩ := whole'.unique denotes.ne_nil whole (List.cons_ne_nil c run)
      cases read.symm.trans (atom?_eq_some_iff.mpr denotes)
    obtain ⟨stop, refused, here, noDatum⟩ := atom_refuses noString noWord
    refine ⟨_, refused, .of_refused ?_ noDatum here (.inr ?_)⟩
    · rintro _ ⟨⟩
      exact State.skips_of_isBlank state extent (isBlank_of_wordStart first)
    · rwa [← ready.before.offset]

/-- Where nothing else begins, no datum is read, and the machine misses one unless a list closes. -/
theorem agrees_stray (ink : state.skips extent c = false) (other : c ∉ ['\'', '(', '"', '#'])
    (noSymbol : Text.isSymbolChar c = false)
    (ready : state.Ready extent total depth (c :: text)) :
    ∃ outcome, begun depth (c :: text) = some outcome ∧
      Agrees extent total state (c :: text) outcome := by
  have kinds := other
  simp only [List.mem_cons, List.not_mem_nil, or_false, not_or] at kinds
  obtain ⟨noQuote, noOpen, noString, noSign⟩ := kinds
  obtain ⟨stop, refused, here, noDatum⟩ : ∃ stop, atom (c :: text) = some (.refused stop) ∧
      stop.rest = c :: text ∧ trouble stop.cause = .noDatum :=
    atom_refuses noString (noWord_of_begins (not_or.mpr ⟨noSign, Bool.eq_false_iff.mp noSymbol⟩))
  refine ⟨_, (begun_eq_atom noQuote noOpen depth text).trans refused,
    .of_refused ?_ noDatum here ?_⟩
  · rintro _ ⟨⟩
    exact ink
  · by_cases closes : Closes state.openings (c :: text)
    · exact .inl closes
    · have stray := State.take_stray ready.between ready.awaits ink other noSymbol
        fun close items outer openings => closes ⟨close, items, outer, openings⟩
      exact .inr (by rw [State.run_cons_of_error stray, ready.before.offset])

/-- At the end of the text, no datum is read either. -/
theorem agrees_end (ready : state.Ready extent total depth []) :
    ∃ outcome, begun depth [] = some outcome ∧ Agrees extent total state [] outcome := by
  have refused : begun depth [] = some (.refused ⟨[], .run⟩) := by
    rw [begun, quoted, list]
    rfl
  refine ⟨_, refused, .of_refused ?_ rfl rfl ?_⟩
  · rintro _ ⟨⟩
  · by_cases outside : state.openings = []
    · exact .inl outside
    · refine .inr ?_
      rw [State.run_nil, State.finish, ready.between, ← ready.before.offset]
      simp [outside, throw, throwThe, MonadExceptOf.throw]

/-- Behind its layout, a datum goes the way that its first character tells. -/
theorem agrees_begun (inner : depth + 1 < nestingLimit → AgreesAt extent total (depth + 1))
    (room : depth < nestingLimit) (ready : state.Ready extent total depth text)
    (ink : ∀ c ∈ text.head?, state.skips extent c = false) :
    ∃ outcome, begun depth text = some outcome ∧ Agrees extent total state text outcome := by
  cases text with
  | nil => exact agrees_end ready
  | cons c text =>
    by_cases mark : c ∈ ['\'', '(', '"', '#']
    · simp only [List.mem_cons, List.not_mem_nil, or_false] at mark
      rcases mark with rfl | rfl | rfl | rfl
      · exact agrees_quote inner room ready
      · exact agrees_open inner room ready
      · exact agrees_literal ready
      · exact agrees_word (.inl rfl) ready
    · cases symbol : Text.isSymbolChar c with
      | true => exact agrees_word (.inr symbol) ready
      | false => exact agrees_stray (ink c rfl) mark symbol ready

/-- From the limit down: inside a list or quote mark, one datum is one level deeper. -/
theorem agreesAt (extent : Extent) (total depth : Nat) (room : depth < nestingLimit) :
    AgreesAt extent total depth := by
  induction size : nestingLimit - depth generalizing depth with
  | zero => omega
  | succ size ih =>
    intro state text ready layoutOnly
    have inner (more : depth + 1 < nestingLimit) : AgreesAt extent total (depth + 1) :=
      ih (depth + 1) more (by omega)
    have behind : text.dropWhile Text.isLayout <:+ text := List.dropWhile_suffix _
    obtain ⟨-, -, ends⟩ := takeWhile_split Text.isLayout text
    obtain ⟨outcome, read, agrees⟩ := agrees_begun inner room (ready.of_suffix behind)
      fun c first => (layoutOnly c).trans (ends c first)
    refine ⟨outcome, (datum_eq room text).trans read, ?_⟩
    have skipped : state.run extent text = _ := ready.before.run_dropWhile ready.between
      fun c layout => (layoutOnly c).trans layout
    cases outcome with
    | accepted value rest => exact skipped.trans agrees
    | refused stop =>
      obtain ⟨noDatum, here, goesOn⟩ := agrees
      refine ⟨noDatum, here.trans (List.dropWhile_idempotent ..), ?_⟩
      rwa [skipped]
    | failed stop => exact skipped.trans agrees

end Descent

end CellScheme
