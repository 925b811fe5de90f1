import CellScheme.Proofs.BoundNames
import CellScheme.Proofs.Origin
import CellScheme.Proofs.ReadBack

/-!
What a session prints as data can be read back. No primitive makes a symbol: symbols come from what
a program quotes. So when a session knows only programs from data that a text can hold, all symbols
are spelled as a text can spell them, in all results and in all cells, at every moment
(`Session.ReaderDriven.origin`). The printed form of a datum with such symbols is in the grammar,
and the reader gives the datum back, if its lists do not nest too deep
(`Value.WellSpelled.readsBack`). Bound names are spelled so, too (`readability`).
-/
namespace CellScheme

namespace Value

mutual

/-- The names of the symbols inside a value. The code of a closure is not inside it. -/
def symbols : Value → List String
  | .symbol name => [name]
  | .list items => symbolsAll items
  | _ => []

/-- The names of the symbols inside several values. -/
def symbolsAll : List Value → List String
  | [] => []
  | item :: rest => item.symbols ++ symbolsAll rest

end

/-- Every symbol inside a value has a name that a text can spell. -/
def WellSpelled (v : Value) : Prop :=
  ∀ name ∈ v.symbols, Text.isSymbolName name.toList = true

variable {v : Value} {items arguments : List Value}

theorem mem_symbolsAll {name : String} :
    name ∈ symbolsAll items ↔ ∃ v ∈ items, name ∈ v.symbols := by
  induction items with
  | nil => simp [symbolsAll]
  | cons item rest ih => simp [symbolsAll, ih]

theorem wellSpelled_symbol {name : String} :
    (Value.symbol name).WellSpelled ↔ Text.isSymbolName name.toList = true := by
  simp [WellSpelled, symbols]

theorem wellSpelled_list : (Value.list items).WellSpelled ↔ ∀ item ∈ items, item.WellSpelled := by
  simp only [WellSpelled, symbols, mem_symbolsAll]
  constructor
  · intro spelled item member name inside
    exact spelled name ⟨item, member, inside⟩
  · rintro spelled name ⟨item, member, inside⟩
    exact spelled item member name inside

theorem wellSpelled_literal (literal : v.isLiteral = true) : v.WellSpelled := by
  have none : v.symbols = [] := by
    cases v <;> first | rfl | cases literal
  intro name inside
  rw [none] at inside
  cases inside

/-- Assembling a value makes no symbol. -/
theorem wellSpelled_of_isAssembled (spelled : ∀ argument ∈ arguments, argument.WellSpelled)
    (assembled : v.IsAssembled arguments) : v.WellSpelled := by
  have atHand {item : Value} (here : item.IsAtHand arguments) : item.WellSpelled := by
    rcases here with argument | ⟨items, argument, inside⟩
    · exact spelled item argument
    · exact wellSpelled_list.mp (spelled _ argument) item inside
  cases assembled with
  | literal literal => exact wellSpelled_literal literal
  | atHand here => exact atHand here
  | list items => exact wellSpelled_list.mpr fun item member => atHand (items item member)

mutual

/-- A text can hold just the data whose symbols it can spell. -/
theorem isReadable_iff : (v : Value) → v.isReadable = true ↔ v.isDatum = true ∧ v.WellSpelled
  | .number _ | .string _ | .boolean _ => iff_of_true rfl ⟨rfl, wellSpelled_literal rfl⟩
  | .symbol _ => wellSpelled_symbol.symm.trans (and_iff_right rfl).symm
  | .list items => (allReadable_iff items).trans (and_congr_right' wellSpelled_list.symm)
  | .primitive _ | .closure .. | .unspecified =>
    iff_of_false Bool.false_ne_true fun datum => Bool.false_ne_true datum.1

theorem allReadable_iff : (items : List Value) → allReadable items = true ↔
    allData items = true ∧ ∀ item ∈ items, item.WellSpelled
  | [] => by simp [allReadable, allData]
  | item :: rest => by
    rw [allReadable_cons, isReadable_iff item, allReadable_iff rest, allData, Bool.and_eq_true,
      List.forall_mem_cons, and_and_and_comm]

end

/-- A value is spelled well and, when it is a datum whose lists nest at most 63 deep, the reader
gets it back from its printed form, with comments on or off. -/
structure ReadsBack (v : Value) : Prop where
  spelled : v.WellSpelled
  readBack : v.isDatum = true → v.nest ≤ 63 →
    ∀ comments, Reader.readDatum comments v.display = .ok v

theorem WellSpelled.readsBack (spelled : v.WellSpelled) : v.ReadsBack where
  spelled := spelled
  readBack isDatum shallow comments := by
    have readable : v.isReadable = true := (isReadable_iff v).mpr ⟨isDatum, spelled⟩
    have datum : Grammar.Datum 0 (v.written ++ []) v [] :=
      datum_written v readable (by omega) (by simp [Grammar.RunEnds])
    rw [List.append_nil] at datum
    rw [Reader.readDatum_eq_ok_iff, Reader.prepare_display comments readable]
    exact ⟨[], datum, by simp⟩

end Value

namespace Grammar

theorem isReadable_of_denotes {word : List Char} {v : Value} (denotes : Denotes word v) :
    v.isReadable = true := by
  cases denotes with
  | symbol name =>
    rw [Value.isReadable, String.toList_ofList]
    exact name
  | decimal | negative | true | false | hexadecimal => rfl

mutual

/-- A text can hold every datum that one holds. -/
theorem isReadable_of_datum {depth : Nat} {text rest : List Char} {v : Value} :
    Datum depth text v rest → v.isReadable = true
  | .layout _ inner => isReadable_of_datum inner
  | .quoted _ inner => by
    have quote : Text.isSymbolName "quote".toList = true := rfl
    simp only [Value.isReadable, Value.allReadable, quote, isReadable_of_datum inner, Bool.and_self]
  | .list _ items => allReadable_of_items items
  | .string _ => rfl
  | .word _ denotes => isReadable_of_denotes denotes

theorem allReadable_of_items {depth : Nat} {text rest : List Char} {items : List Value} :
    Items depth text items rest → Value.allReadable items = true
  | .layout _ inner => allReadable_of_items inner
  | .close => rfl
  | .item first others =>
    Value.allReadable_cons.mpr ⟨isReadable_of_datum first, allReadable_of_items others⟩

end

theorem allReadable_of_data {text : List Char} {data : List Value} (sequence : Data text data) :
    Value.allReadable data = true := by
  induction sequence with
  | done => rfl
  | blank _ _ ih => exact ih
  | datum first _ ih => exact Value.allReadable_cons.mpr ⟨isReadable_of_datum first, ih⟩

end Grammar

namespace Reader

variable {comments : Bool} {text : String}

/-- What the reader reads is data that a text can hold. -/
theorem readProgram_readable {data : List Value} (read : readProgram comments text = .ok data) :
    Value.allReadable data = true :=
  Grammar.allReadable_of_data (readProgram_eq_ok_iff.mp read)

end Reader

/-- A name that a text can spell. -/
def IsSpelled (name : String) : Prop :=
  Text.isSymbolName name.toList = true

/-- A text can hold what a piece of code quotes, and spell the names that it binds. -/
def Code.OwnSpelled : Code → Prop
  | .expr (.quoted datum) => datum.isReadable = true
  | .expr (.lambda _ params _) => ∀ name ∈ params, IsSpelled name
  | .expr (.letIn bindings _) => ∀ name ∈ bindings.map Prod.fst, IsSpelled name
  | .forms (.define name _ :: _) => IsSpelled name
  | _ => True

theorem Value.allReadable_symbols {names : List String}
    (readable : Value.allReadable (names.map Value.symbol) = true) :
    ∀ name ∈ names, IsSpelled name := by
  induction names with
  | nil => exact fun _ none => nomatch none
  | cons name rest ih =>
    obtain ⟨first, others⟩ := Value.allReadable_cons.mp readable
    exact List.forall_mem_cons.mpr ⟨first, ih others⟩

theorem Expr.spelled_of_renderBindings {bindings : List (String × Expr)}
    (readable : Value.allReadable (Expr.renderBindings bindings) = true) :
    ∀ name ∈ bindings.map Prod.fst, IsSpelled name := by
  induction bindings with
  | nil => exact fun _ none => nomatch none
  | cons binding rest ih =>
    obtain ⟨first, others⟩ := Value.allReadable_cons.mp readable
    exact List.forall_mem_cons.mpr ⟨(Value.allReadable_cons.mp first).1, ih others⟩

mutual

/-- A tree that is written readably quotes and binds only what a text can hold, once it is stamped,
at every place. -/
theorem Expr.ownSpelled_stamped : (expr : Expr) → (supply : Nat) →
    expr.render.isReadable = true →
    (Code.expr (expr.stamped.run supply).1).Everywhere Code.OwnSpelled
  | .quoted datum, supply, readable => by
    simp only [Expr.render, Value.isReadable, Value.allReadable, Bool.and_eq_true] at readable
    obtain ⟨_, inner, _⟩ := readable
    rw [Expr.stamped, Value.stamped_datum datum ((Value.isReadable_iff datum).mp inner).1]
    exact (Code.everywhere_leaf fun _ => rfl).mpr inner
  | .conditional test consequent alternative, supply, readable => by
    simp only [Expr.render, Value.isReadable, Value.allReadable, Bool.and_eq_true] at readable
    obtain ⟨_, first, second, third, _⟩ := readable
    exact Code.everywhere_conditional.mpr ⟨trivial, Expr.ownSpelled_stamped test _ first,
      Expr.ownSpelled_stamped consequent _ second,
      Expr.ownSpelled_stamped alternative _ third⟩
  | .lambda _ params body, supply, readable => by
    simp only [Expr.render, Value.isReadable, Value.allReadable, Bool.and_eq_true] at readable
    obtain ⟨_, names, inner⟩ := readable
    exact Code.everywhere_lambda.mpr
      ⟨Value.allReadable_symbols names, Form.ownSpelled_stampedAll body _ inner⟩
  | .letIn bindings body, supply, readable => by
    simp only [Expr.render, Value.isReadable, Value.allReadable, Bool.and_eq_true] at readable
    obtain ⟨_, values, inner⟩ := readable
    have names := Expr.spelled_of_renderBindings values
    rw [← Expr.names_stampedBindings bindings supply] at names
    exact Code.everywhere_letIn.mpr ⟨names,
      Expr.ownSpelled_stampedBindings bindings _ values,
      Form.ownSpelled_stampedAll body _ inner⟩
  | .apply operator operands, supply, readable => by
    simp only [Expr.render, Value.isReadable, Value.allReadable, Bool.and_eq_true] at readable
    obtain ⟨first, others⟩ := readable
    exact Code.everywhere_apply.mpr ⟨trivial, Expr.ownSpelled_stamped operator _ first,
      Expr.ownSpelled_stampedAll operands _ others⟩
  | .number _, _, _ | .boolean _, _, _ | .string _, _, _ | .primitive _, _, _ | .variable _, _, _ =>
    (Code.everywhere_leaf fun _ => rfl).mpr trivial

theorem Expr.ownSpelled_stampedAll : (exprs : List Expr) → (supply : Nat) →
    Value.allReadable (Expr.renderAll exprs) = true →
    ∀ expr ∈ ((Expr.stampedAll exprs).run supply).1, (Code.expr expr).Everywhere Code.OwnSpelled
  | [], _, _ => fun _ none => nomatch none
  | expr :: rest, supply, readable => by
    simp only [Expr.renderAll, Value.allReadable, Bool.and_eq_true] at readable
    exact List.forall_mem_cons.mpr ⟨Expr.ownSpelled_stamped expr _ readable.1,
      Expr.ownSpelled_stampedAll rest _ readable.2⟩

theorem Expr.ownSpelled_stampedBindings : (bindings : List (String × Expr)) → (supply : Nat) →
    Value.allReadable (Expr.renderBindings bindings) = true →
    ∀ binding ∈ ((Expr.stampedBindings bindings).run supply).1,
      (Code.expr binding.2).Everywhere Code.OwnSpelled
  | [], _, _ => fun _ none => nomatch none
  | (name, value) :: rest, supply, readable => by
    simp only [Expr.renderBindings, Value.isReadable, Value.allReadable, Bool.and_eq_true]
      at readable
    obtain ⟨⟨_, first, _⟩, others⟩ := readable
    exact List.forall_mem_cons.mpr ⟨Expr.ownSpelled_stamped value _ first,
      Expr.ownSpelled_stampedBindings rest _ others⟩

theorem Form.ownSpelled_stamped : (form : Form) → (supply : Nat) → {rest : List Form} →
    form.render.isReadable = true → (Code.forms rest).Everywhere Code.OwnSpelled →
    (Code.forms ((form.stamped.run supply).1 :: rest)).Everywhere Code.OwnSpelled
  -- To match on readability would evaluate how the keyword is spelled, so it is introduced instead.
  | .define name value, supply => by
    intro readable others
    simp only [Form.render, Value.isReadable, Value.allReadable, Bool.and_eq_true] at readable
    obtain ⟨_, target, first, _⟩ := readable
    exact Code.everywhere_define.mpr ⟨target, Expr.ownSpelled_stamped value _ first, others⟩
  | .assign name value, supply => by
    intro readable others
    simp only [Form.render, Value.isReadable, Value.allReadable, Bool.and_eq_true] at readable
    obtain ⟨_, _, first, _⟩ := readable
    exact Code.everywhere_assign.mpr ⟨trivial, Expr.ownSpelled_stamped value _ first, others⟩
  | .expr body, supply => by
    intro readable others
    exact Code.everywhere_element.mpr
      ⟨trivial, Expr.ownSpelled_stamped body _ readable, others⟩

theorem Form.ownSpelled_stampedAll : (forms : List Form) → (supply : Nat) →
    Value.allReadable (Form.renderAll forms) = true →
    (Code.forms ((Form.stampedAll forms).run supply).1).Everywhere Code.OwnSpelled
  | [], _, _ => (Code.everywhere_leaf fun _ => rfl).mpr trivial
  | form :: rest, supply, readable => by
    simp only [Form.renderAll, Value.allReadable, Bool.and_eq_true] at readable
    exact Form.ownSpelled_stamped form _ readable.1
      (Form.ownSpelled_stampedAll rest _ readable.2)

end

/-- The policy to quote and to bind only what a text can hold. -/
def readability : Policy where
  own := Code.OwnSpelled
  name := IsSpelled
  quoted readable := ((Value.isReadable_iff _).mp readable).1
  params names := names
  bindings names := names
  target name := name

/-- A session, starting fresh with any limit, that has only evaluated texts and programs converted
from data that a text can hold, and these programs. It is driven by text in the sense of
`Session.TextDriven`, where converted data may hold any symbol. -/
inductive Session.ReaderDriven : Session → List Program → Prop
  | fresh (limit supply : Nat) : ReaderDriven { limit, supply } []
  | text {session : Session} {programs : List Program} {comments : Bool} {text : String}
    {program : Program} : ReaderDriven session programs →
    Program.ofText comments text = .ok program →
    ReaderDriven (session.evaluateText comments text).2 ((session.stamp program).1 :: programs)
  | faultyText {session : Session} {programs : List Program} {comments : Bool} {text : String}
    {fault : Error} : ReaderDriven session programs → Program.ofText comments text = .error fault →
    ReaderDriven (session.evaluateText comments text).2 programs
  | convert {session : Session} {programs : List Program} {data : List Value} {program : Program} :
    ReaderDriven session programs → Value.allReadable data = true →
    Program.ofData data = .ok program →
    ReaderDriven (session.stamp program).2 ((session.stamp program).1 :: programs)
  | run {session : Session} {programs : List Program} {program : Program} :
    ReaderDriven session programs → program ∈ programs →
    ReaderDriven (session.evaluateProgram program).2 programs
  | skip {session : Session} {programs : List Program} {supply : Nat} :
    ReaderDriven session programs → session.supply ≤ supply →
    ReaderDriven { session with supply } programs

namespace Session

variable {session : Session} {programs : List Program} {program : Program}

theorem ReaderDriven.textDriven (driven : session.ReaderDriven programs) :
    session.TextDriven programs := by
  induction driven with
  | fresh limit supply => exact .fresh limit supply
  | text _ converted ih => exact .text ih converted
  | faultyText _ converted ih => exact .faultyText ih converted
  | convert _ readable success ih =>
    exact .convert ih ((Value.allReadable_iff _).mp readable).1 success
  | run _ known ih => exact .run ih known
  | skip _ further ih => exact .skip ih further

theorem readability_stamp {data : List Value} (readable : Value.allReadable data = true)
    (converted : Program.ofData data = .ok program) :
    readability.Covers (.forms (session.stamp program).1) := by
  have isData : Value.allData data = true := ((Value.allReadable_iff data).mp readable).1
  have written : Form.renderAll program = data :=
    (Translation.program_isBijective.mirrors data isData converted).render
  exact Form.ownSpelled_stampedAll program _ (written ▸ readable)

/-- A program converted from a text is known to the session in which it is stamped. -/
theorem ReaderDriven.stampText (driven : session.ReaderDriven programs) {comments : Bool}
    {text : String} (converted : Program.ofText comments text = .ok program) :
    (session.stamp program).2.ReaderDriven ((session.stamp program).1 :: programs) := by
  obtain ⟨data, read, success⟩ := Program.ofText_eq_ok_iff.mp converted
  exact .convert driven (Reader.readProgram_readable read) success

/-- All programs that the session knows quote and bind only what a text can hold. -/
theorem ReaderDriven.readable (driven : session.ReaderDriven programs) :
    ∀ program ∈ programs, readability.Covers (.forms program) := by
  induction driven with
  | fresh => simp
  | text _ converted ih =>
    obtain ⟨data, read, success⟩ := Program.ofText_eq_ok_iff.mp converted
    exact List.forall_mem_cons.mpr
      ⟨readability_stamp (Reader.readProgram_readable read) success, ih⟩
  | convert _ readable success ih =>
    exact List.forall_mem_cons.mpr ⟨readability_stamp readable success, ih⟩
  | faultyText _ _ ih | run _ _ ih | skip _ _ ih => exact ih

/-- The values that a run makes are spelled well when those are that it begins with. -/
theorem ReaderDriven.origin (driven : session.ReaderDriven programs) (known : program ∈ programs) :
    Origin session.limit (session.start program) Value.WellSpelled where
  literal := Value.wellSpelled_literal
  assembled := Value.wellSpelled_of_isAssembled
  quoted {point datum} reached task := by
    have covers : readability.CoversMemory session.memory :=
      driven.textDriven.covered driven.readable
    have start : readability.discipline.Holds (session.start program) :=
      Policy.holds covers (driven.readable program known)
    have here : readability.Covers point.task.code := (Discipline.reaches start reached).1.place
    rw [task] at here
    exact ((Value.isReadable_iff datum).mp here.here).2
  lambda reached task name inside := by
    cases inside

/-- A run that begins with values that are spelled well leaves none but such. -/
theorem ReaderDriven.leaves (driven : session.ReaderDriven programs) (known : program ∈ programs)
    (cells : session.memory.AllCells Value.WellSpelled) :
    (session.start program).Leaves session.limit Value.WellSpelled :=
  (driven.origin known).run .refl ⟨cells, fun _ _ task => nomatch task⟩

/-- All values in cells are spelled well. -/
theorem ReaderDriven.cells (driven : session.ReaderDriven programs) :
    session.memory.AllCells Value.WellSpelled := by
  induction driven with
  | fresh =>
    intro address v found
    simp [Store.read?] at found
  | text driven converted ih =>
    rw [evaluateText_of_ok converted]
    exact ((driven.stampText converted).leaves List.mem_cons_self ih).cells
  | faultyText _ converted ih =>
    rw [evaluateText_of_error converted]
    exact ih
  | convert _ _ _ ih | skip _ _ ih => exact ih
  | run driven known ih => exact (driven.leaves known ih).cells

theorem ReaderDriven.result_of_text (driven : session.ReaderDriven programs) {comments : Bool}
    {text : String} {v : Value} (result : (session.evaluateText comments text).1 = .ok v) :
    v.WellSpelled := by
  cases converted : Program.ofText comments text with
  | error fault =>
    rw [evaluateText_of_error converted] at result
    cases result
  | ok program =>
    rw [evaluateText_of_ok converted] at result
    exact ((driven.stampText converted).leaves List.mem_cons_self driven.cells).value v result

/-- Whatever a session prints as data can be read back. In a session that only texts and programs
from data that a text can hold have changed, every value reads back that is in a cell, before or
after any evaluation that a run of a known program comes to, and so does every result of such an
evaluation or of a text. -/
theorem printed_data_read_back (driven : session.ReaderDriven programs) :
    session.memory.AllCells Value.ReadsBack ∧
      (∀ comments text v, (session.evaluateText comments text).1 = .ok v → v.ReadsBack) ∧
      ∀ program ∈ programs, ∀ point, Reaches session.limit (session.start program) point →
        point.memory.AllCells Value.ReadsBack ∧ point.Leaves session.limit Value.ReadsBack := by
  have readsBack : ∀ v : Value, v.WellSpelled → v.ReadsBack := fun _ spelled => spelled.readsBack
  refine ⟨driven.cells.mono readsBack, ?_, ?_⟩
  · intro comments text v result
    exact (driven.result_of_text result).readsBack
  · intro program known point reached
    have origin := driven.origin known
    have start : (session.start program).Stocked Value.WellSpelled :=
      ⟨driven.cells, fun _ _ task => nomatch task⟩
    have stocked := origin.reaches start reached
    have leaves := origin.run reached stocked
    exact ⟨stocked.cells.mono readsBack, leaves.cells.mono readsBack,
      fun v result => (leaves.value v result).readsBack⟩

/-- The data of `(define kept '(a "b;")) (cons 'c kept)`. -/
def keeperData : List Value :=
  [.list [.symbol "define", .symbol "kept",
      .list [.symbol "quote", .list [.symbol "a", .string "b;"]]],
    .list [.symbol "cons", .list [.symbol "quote", .symbol "c"], .symbol "kept"]]

/-- The program that these data denote. -/
def keeperProgram : Program :=
  [.define "kept" (.quoted (.list [.symbol "a", .string "b;"])),
    .expr (.apply (.primitive .cons) [.quoted (.symbol "c"), .variable "kept"])]

/-- The same program, stamped in a fresh session. -/
def keeperStamped : Program :=
  (Session.stamp {} keeperProgram).1

/-- A session that has run this program once. -/
def keeperSession : Session :=
  ((Session.stamp {} keeperProgram).2.evaluateProgram keeperStamped).2

theorem printed_data_read_back_keeper :
    keeperSession.ReaderDriven [keeperStamped] ∧ keeperSession.memory.AllCells Value.ReadsBack ∧
      ∃ v, (keeperSession.evaluateProgram keeperStamped).1 = .ok v ∧
        v.display = "(c a \"b;\")" ∧ v.isDatum = true ∧
        Reader.readDatum true v.display = .ok v := by
  have converted : Program.ofData keeperData = .ok keeperProgram := rfl
  have driven : keeperSession.ReaderDriven [keeperStamped] :=
    .run (.convert (.fresh 256 0) (by decide +kernel) converted) List.mem_cons_self
  have result : (keeperSession.evaluateProgram keeperStamped).1
      = .ok (.list [.symbol "c", .symbol "a", .string "b;"]) := rfl
  obtain ⟨cells, _, runs⟩ := printed_data_read_back driven
  have readsBack := (runs keeperStamped List.mem_cons_self _ .refl).2.value _ result
  exact ⟨driven, cells, _, result, by decide +kernel, rfl, readsBack.readBack rfl (by decide) true⟩

end Session

end CellScheme
