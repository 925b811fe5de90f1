import CellScheme.Proofs.FormlessLines
import CellScheme.Proofs.Spelling

/-!
The listing of global names. It finds out on its own which entries are out of force, by looking for
an earlier entry of the same name; a lookup goes by the first entry. Both come to the same because
no two entries share a cell (`GlobalTable.find?_eq_some_iff`). The lines that a dialogue takes leave
a session that has read all of its programs (`Dialogue.readerDriven_of_follow`), so every entry has a
cell, and its name is a symbol that has the listed value when it is evaluated
(`Dialogue.listing_agrees_with_lookup`).
-/
namespace CellScheme

/-- Where addresses differ, a lookup gives the address of an entry when no entry before it has the
same name. -/
theorem GlobalTable.find?_eq_some_iff {table : GlobalTable} {index : Nat} {name : String}
    {address : Address} (entry : table.bindings[index]? = some (name, address))
    (alone : ∀ index' name', table.bindings[index']? = some (name', address) → index' = index) :
    table.find? name = some address ↔ name ∉ (table.bindings.take index).map Prod.fst := by
  rw [find?, List.lookup_eq_some_iff]
  constructor
  · rintro ⟨before, after, parts, others⟩ member
    obtain rfl : before.length = index := alone before.length name (by simp [parts])
    rw [parts, List.take_left] at member
    obtain ⟨earlier, within, same⟩ := List.mem_map.mp member
    exact absurd same.symm (by simpa using others earlier within)
  · intro first
    obtain ⟨bound, here⟩ := List.getElem?_eq_some_iff.mp entry
    refine ⟨table.bindings.take index, table.bindings.drop (index + 1), ?_, ?_⟩
    · rw [← here, List.cons_getElem_drop_succ, List.take_append_drop]
    · intro earlier within
      have other : name ≠ earlier.1 := fun same =>
        first (List.mem_map.mpr ⟨earlier, within, same.symm⟩)
      simpa using other

namespace Dialogue

/-- The line of an entry in force. -/
def entryLine (name : String) (address : Address) (value : Value) : String :=
  "  " ++ name ++ " -> @" ++ toString address ++ " = " ++ value.display

/-- What stands behind the line of an entry that is not in force. -/
def shadowMark : String :=
  "   (shadowed)"

theorem length_bindingLines (store : Store) (earlier : List String)
    (entries : List (String × Address)) :
    (bindingLines store earlier entries).length = entries.length := by
  induction entries generalizing earlier with
  | nil => rfl
  | cons entry rest ih => exact congrArg (· + 1) (ih _)

/-- The line of an entry that has a cell. -/
theorem getElem?_bindingLines {store : Store} {earlier : List String}
    {entries : List (String × Address)} {index : Nat} {name : String} {address : Address}
    {value : Value} (entry : entries[index]? = some (name, address))
    (read : store.read? address = some value) :
    (bindingLines store earlier entries)[index]? = some (entryLine name address value ++
      if name ∈ earlier ∨ name ∈ (entries.take index).map Prod.fst then shadowMark else "") := by
  induction entries generalizing earlier index with
  | nil => cases entry
  | cons first rest ih =>
    cases index with
    | zero =>
      cases entry
      simp [bindingLines, read, entryLine, shadowMark]
    | succ index =>
      have later : (bindingLines store (first.1 :: earlier) rest)[index]? = _ := ih entry
      rw [bindingLines, List.getElem?_cons_succ, later, List.take_succ_cons, List.map_cons]
      simp only [List.mem_cons, or_assoc, or_left_comm]

end Dialogue

namespace Text

theorem feed_not_mem_of_isSymbolChar {text : List Char}
    (symbols : ∀ c ∈ text, isSymbolChar c = true) : '\n' ∉ text := by
  intro member
  have feed : isSymbolChar '\n' = false := Reader.isSymbolChar_of_isLayout rfl
  exact absurd ((symbols _ member).symm.trans feed) (by decide)

theorem feed_not_mem_literal (text : List Char) : '\n' ∉ literal text := by
  have escaped : ∀ c, '\n' ∉ escape c := by
    intro c
    unfold escape
    split_ifs <;> simp_all [eq_comm]
  simp [literal, escaped]

end Text

namespace Value

mutual

/-- A value whose symbols are spelled well is printed on one line. -/
theorem feed_not_mem_written : (v : Value) → v.WellSpelled → '\n' ∉ v.written
  | .number n, _ => Text.feed_not_mem_of_isSymbolChar (isSymbolChar_digits n)
  | .symbol name, spelled =>
    Text.feed_not_mem_of_isSymbolChar (isSymbolChar_of_isSymbolName (wellSpelled_symbol.mp spelled))
  | .string text, _ => Text.feed_not_mem_literal text.toList
  | .boolean true, _ | .boolean false, _ => by decide
  | .list items, spelled => by
    have inner := feed_not_mem_writtenAll items (wellSpelled_list.mp spelled)
    have printed := written_list items []
    rw [List.append_nil] at printed
    rw [printed]
    simp [inner]
  | .primitive p, _ => by
    have names : ∀ p ∈ Primitive.all, '\n' ∉ p.name.toList := by decide
    have name := names p p.mem_all
    have printed : (Value.primitive p).written =
        "#<primitive:".toList ++ p.name.toList ++ ['>'] := rfl
    rw [printed]
    simp [name]
  | .closure .., _ => by
    change '\n' ∉ "#<procedure>".toList
    simp
  | .unspecified, _ => by
    change '\n' ∉ "#<unspecified>".toList
    simp

theorem feed_not_mem_writtenAll : (items : List Value) → (∀ item ∈ items, item.WellSpelled) →
    '\n' ∉ writtenAll items
  | [], _ => List.not_mem_nil
  | [item], spelled => feed_not_mem_written item (spelled item List.mem_cons_self)
  | item :: next :: items, spelled => by
    obtain ⟨first, others⟩ := List.forall_mem_cons.mp spelled
    have here := feed_not_mem_written item first
    have there := feed_not_mem_writtenAll (next :: items) others
    simp [writtenAll, here, there]

end

theorem WellSpelled.feed_not_mem_display {v : Value} (spelled : v.WellSpelled) :
    '\n' ∉ v.display.toList := by
  rw [display, String.toList_ofList]
  exact feed_not_mem_written v spelled

end Value

namespace Dialogue

theorem feed_not_mem_entryLine {name : String} (spelled : IsSpelled name) (address : Address)
    {value : Value} (spelled' : value.WellSpelled) :
    '\n' ∉ (entryLine name address value).toList := by
  have first : '\n' ∉ name.toList :=
    Text.feed_not_mem_of_isSymbolChar (isSymbolChar_of_isSymbolName spelled)
  have second : '\n' ∉ Nat.toDigits 10 address := fun member =>
    absurd (Nat.isDigit_of_mem_toDigits (by decide) (by decide) member) (by decide)
  simp [entryLine, first, second, spelled'.feed_not_mem_display]

end Dialogue

namespace Session

variable {session : Session} {programs : List Program} {name : String} {address : Address}
  {value : Value}

/-- A name that can be read and bound is read as a variable. -/
theorem ofText_name (comments : Bool) (spelled : IsSpelled name) (bindable : IsBindable name) :
    Program.ofText comments name = .ok [.expr (.variable name)] := by
  have shown : (Value.symbol name).display = name := String.ofList_toList
  have read : Reader.readProgram comments (Value.symbol name).display = .ok [.symbol name] :=
    ((Value.reads_back (.symbol name) spelled comments).1 (Nat.zero_le _)).2
  rw [shown] at read
  refine Program.ofText_eq_ok_iff.mpr ⟨_, read, ?_⟩
  simp only [Program.ofData, Form.ofData, Form.ofDatum, Expr.ofAtom, Expr.ofName_bindable bindable]
  rfl

/-- A name that is found globally has the value of its cell. -/
theorem outcome_variable (limit budget : Nat) {memory : Memory}
    (found : memory.globals.find? name = some address)
    (read : memory.store.read? address = some value) :
    Evaluation.outcome (CellScheme.evaluate limit (budget + 1) .global (.variable name)) memory =
      (.ok value, memory) := by
  have resolved : Environment.find? memory.globals .global name = some address := found
  rw [CellScheme.evaluate.eq_def]
  simp only [Evaluation.outcome_bind, Evaluation.outcome_resolve, Evaluation.outcome_fetch,
    resolved, read]

/-- A name that is found globally is evaluated to the content of its cell, as a tree and as a text,
and this changes nothing. -/
theorem evaluate_name (levels : 2 ≤ session.limit) (spelled : IsSpelled name)
    (bindable : IsBindable name) (found : session.memory.globals.find? name = some address)
    (read : session.memory.store.read? address = some value) :
    session.evaluate .global (.variable name) = (.ok value, session) ∧
      ∀ comments, session.evaluateText comments name = (.ok value, session) := by
  obtain ⟨budget, enough⟩ := Nat.exists_eq_add_of_le' levels
  have single (budget : Nat) := outcome_variable session.limit budget found read
  constructor
  · refine perform_of_unchanged ?_
    have here := single (budget + 1)
    rwa [← enough] at here
  · intro comments
    rw [evaluateText_of_ok (ofText_name comments spelled bindable)]
    refine perform_of_unchanged ?_
    have body : Evaluation.outcome
        (CellScheme.evaluateBody session.limit (budget + 2) .global [.expr (.variable name)])
        session.memory = (.ok value, session.memory) := by
      rw [CellScheme.evaluateBody.eq_def]
      simp only [evaluateForms, Evaluation.outcome_bind, single, Evaluation.outcome_pure]
    rwa [← enough] at body

/-- A text that is evaluated leaves a session that has read all of its programs. -/
theorem ReaderDriven.evaluateText (driven : session.ReaderDriven programs) (comments : Bool)
    (text : String) : ∃ more, (session.evaluateText comments text).2.ReaderDriven more := by
  cases converted : Program.ofText comments text with
  | ok program => exact ⟨_, .text driven converted⟩
  | error fault => exact ⟨_, .faultyText driven converted⟩

variable {index : Nat}

/-- What a name is bound to globally is a cell that no other entry has. -/
theorem ReaderDriven.entry_alone (driven : session.ReaderDriven programs)
    (entry : session.memory.globals.bindings[index]? = some (name, address)) :
    ∀ index' name', session.memory.globals.bindings[index']? = some (name', address) →
      index' = index := by
  intro index' name' entry'
  have here : session.memory.address? (.entry index) = some address := by
    simp [Memory.address?, entry]
  have there : session.memory.address? (.entry index') = some address := by
    simp [Memory.address?, entry']
  exact Owner.entry.inj (driven.textDriven.sound.memory.partitioned.alone there here)

/-- An entry has a cell, and a name that can be read and bound. -/
theorem ReaderDriven.entry_cases (driven : session.ReaderDriven programs)
    (entry : session.memory.globals.bindings[index]? = some (name, address)) :
    IsSpelled name ∧ IsBindable name ∧
      ∃ value, session.memory.store.read? address = some value ∧ value.WellSpelled := by
  have member := List.mem_of_getElem? entry
  have spelled : readability.CoversMemory session.memory :=
    driven.textDriven.covered driven.readable
  have formed : formation.CoversMemory session.memory :=
    driven.textDriven.covered driven.textDriven.wellFormed
  have owned : session.memory.address? (.entry index) = some address := by
    simp [Memory.address?, entry]
  have inside : address < session.memory.store.cells.size :=
    driven.textDriven.sound.memory.partitioned.inside owned
  have read : session.memory.store.read? address = some session.memory.store.cells[address] :=
    Array.getElem?_eq_getElem inside
  have first : IsSpelled name := spelled.names.globals (name, address) member
  have second : IsBindable name := formed.names.globals (name, address) member
  have held := driven.cells address _ read
  exact ⟨first, second, _, read, held⟩

end Session

namespace Dialogue

variable {dialogue next : Dialogue} {inputs answers : List String}

/-- The lines that a dialogue takes leave a session that has read all of its programs. -/
theorem readerDriven_of_follow (followed : dialogue.follow inputs = .proceed next answers)
    {programs : List Program} (driven : dialogue.session.ReaderDriven programs) :
    ∃ more, next.session.ReaderDriven more := by
  induction inputs generalizing dialogue answers programs with
  | nil =>
    obtain ⟨rfl, -⟩ := Reply.proceed.inj followed
    exact ⟨programs, driven⟩
  | cons line rest ih =>
    obtain ⟨middle, _, _, taken, later, -⟩ := follow_cons_eq followed
    rcases session_of_take taken with kept | submitted
    · exact ih later (kept ▸ driven)
    · obtain ⟨more, driven⟩ := driven.evaluateText true (dialogue.pending ++ line ++ "\n")
      exact ih later (submitted ▸ driven)

/-- The answer to `:env` when there are global entries. -/
theorem take_env (session : Session) (some : session.memory.globals.bindings ≠ []) :
    take ⟨session, ""⟩ ":env" = .proceed ⟨session, ""⟩
      (("Global bindings (" ++ toString session.memory.globals.size ++ " total):") ::
        bindingLines session.memory.store [] session.memory.globals.bindings) := by
  have command : String.ofList (Text.trim ":env".toList) = ":env" := rfl
  have occupied : session.memory.globals.bindings.isEmpty = false := by simpa using some
  have idle : (⟨session, ""⟩ : Dialogue).pending.isEmpty = true := rfl
  rw [take, if_pos idle, command]
  simp only [environmentLines, occupied]
  rfl

theorem entryLine_ne_marked (name : String) (address : Address) (value : Value) :
    entryLine name address value ≠ entryLine name address value ++ shadowMark := by
  intro same
  have longer := congrArg String.length same
  rw [String.length_append] at longer
  have some : shadowMark.length ≠ 0 := by decide
  omega

/-- The line of an entry is marked unless a lookup of its name gives its address. -/
theorem line_of_entry {session : Session} {programs : List Program}
    (driven : session.ReaderDriven programs) {index : Nat} {name : String} {address : Address}
    {value : Value} (entry : session.memory.globals.bindings[index]? = some (name, address))
    (read : session.memory.store.read? address = some value) :
    (bindingLines session.memory.store [] session.memory.globals.bindings)[index]? =
      some (entryLine name address value ++
        if session.memory.globals.find? name = some address then "" else shadowMark) := by
  have first := GlobalTable.find?_eq_some_iff entry (driven.entry_alone entry)
  rw [getElem?_bindingLines entry read]
  simp only [List.not_mem_nil, false_or]
  by_cases inForce : session.memory.globals.find? name = some address
  · rw [if_neg (first.mp inForce), if_pos inForce]
  · rw [if_pos (not_not.mp (mt first.mpr inForce)), if_neg inForce]

/-- A bound name has one entry that a lookup gives the address of. -/
theorem existsUnique_entry {session : Session} {programs : List Program}
    (driven : session.ReaderDriven programs) {name : String}
    (bound : name ∈ session.memory.globals.bindings.map Prod.fst) :
    ∃! index : Nat, ∃ address, session.memory.globals.bindings[index]? = some (name, address) ∧
      session.memory.globals.find? name = some address := by
  cases found : session.memory.globals.find? name with
  | none =>
    obtain ⟨entry, member, rfl⟩ := List.mem_map.mp bound
    have other := List.lookup_eq_none_iff.mp found entry member
    simp at other
  | some address =>
    obtain ⟨index, entry⟩ := Memory.getElem?_of_lookup found
    refine ⟨index, ⟨address, entry, rfl⟩, ?_⟩
    rintro index' ⟨_, entry', same⟩
    cases same
    exact driven.entry_alone entry index' name entry'

/-- The listing of global names agrees with lookup, whatever lines have been taken. There is one line
for each entry, in the order of definition, and it shows what the cell of the entry holds; no cell
is missing. The line bears no mark just when a lookup of the name gives the address of the entry, and
then the value that it shows is the one that the name has when it is evaluated. Every bound name has
one such line. -/
theorem listing_agrees_with_lookup (inputs : List String) (next : Dialogue) (answers : List String)
    (followed : follow {} inputs = .proceed next answers)
    (listed : next.session.memory.globals.bindings ≠ []) :
    let session := next.session
    let entries := session.memory.globals.bindings
    ∃ header rows,
      take ⟨session, ""⟩ ":env" = .proceed ⟨session, ""⟩ (header :: rows) ∧
      rows.length = entries.length ∧
      (∀ (index : Nat) name address, entries[index]? = some (name, address) →
        ∃ value row, session.memory.store.read? address = some value ∧
          rows[index]? = some row ∧ '\n' ∉ row.toList ∧
          (row = entryLine name address value ∨ row = entryLine name address value ++ shadowMark) ∧
          (row = entryLine name address value ↔
            session.memory.globals.find? name = some address) ∧
          (session.memory.globals.find? name = some address →
            session.evaluate .global (.variable name) = (.ok value, session) ∧
              session.evaluateText true name = (.ok value, session))) ∧
      ∀ name ∈ entries.map Prod.fst, ∃! index : Nat, ∃ address value,
        entries[index]? = some (name, address) ∧
          session.memory.store.read? address = some value ∧
          rows[index]? = some (entryLine name address value) := by
  intro session entries
  have limit : session.limit = 256 := limit_of_follow followed
  obtain ⟨programs, driven⟩ := readerDriven_of_follow followed (.fresh 256 0)
  refine ⟨_, _, take_env session listed, length_bindingLines _ _ _, ?_, ?_⟩
  · intro index name address entry
    obtain ⟨spelled, bindable, value, read, spelled'⟩ := driven.entry_cases entry
    have line := line_of_entry driven entry read
    have oneLine := feed_not_mem_entryLine spelled address spelled'
    refine ⟨value, _, read, line, ?_⟩
    by_cases inForce : session.memory.globals.find? name = some address
    · have evaluated := Session.evaluate_name (by omega) spelled bindable inForce read
      rw [if_pos inForce, String.append_empty]
      exact ⟨oneLine, .inl rfl, iff_of_true rfl inForce,
        fun _ => ⟨evaluated.1, evaluated.2 true⟩⟩
    · rw [if_neg inForce]
      refine ⟨?_, .inr rfl, iff_of_false (entryLine_ne_marked _ _ _).symm inForce,
        fun found => absurd found inForce⟩
      simp [oneLine, shadowMark]
  · intro name bound
    obtain ⟨index, ⟨address, entry, found⟩, unique⟩ := existsUnique_entry driven bound
    obtain ⟨_, _, value, read, -⟩ := driven.entry_cases entry
    refine ⟨index, ⟨address, value, entry, read, ?_⟩, ?_⟩
    · have line := line_of_entry driven entry read
      rwa [if_pos found, String.append_empty] at line
    · rintro index' ⟨address', value', entry', read', line'⟩
      refine unique index' ⟨address', entry', ?_⟩
      by_contra shadowed
      rw [line_of_entry driven entry' read', if_neg shadowed] at line'
      exact entryLine_ne_marked _ _ _ (Option.some.inj line').symm

theorem listing_agrees_with_lookup_redefined :
    ∃ session answers,
      follow {} ["(define x 1)", "(define x 2)"] = .proceed ⟨session, ""⟩ answers ∧
      session.memory.globals.bindings = [("x", 0), ("x", 1)] ∧
      ∃ header first second,
        take ⟨session, ""⟩ ":env" = .proceed ⟨session, ""⟩
          [header, entryLine "x" 0 first, entryLine "x" 1 second ++ shadowMark] ∧
        session.evaluateText true "x" = (.ok first, session) := by
  have proceeds : Reply.casesOn (motive := fun _ => Bool)
      (follow {} ["(define x 1)", "(define x 2)"])
      (fun next _ => next.pending == "" &&
        next.session.memory.globals.bindings == [("x", 0), ("x", 1)])
      (fun _ => false) = true := by decide +kernel
  cases followed : follow {} ["(define x 1)", "(define x 2)"] with
  | leave answers =>
    rw [followed] at proceeds
    cases proceeds
  | proceed next answers =>
    rw [followed] at proceeds
    obtain ⟨session, pending⟩ := next
    obtain ⟨idle, entries⟩ := Bool.and_eq_true_iff.mp proceeds
    obtain rfl : pending = "" := eq_of_beq idle
    have entries : session.memory.globals.bindings = [("x", 0), ("x", 1)] := eq_of_beq entries
    have found : session.memory.globals.find? "x" = some 0 := by
      rw [GlobalTable.find?, entries]
      rfl
    obtain ⟨header, rows, listed, size, lines, -⟩ :=
      listing_agrees_with_lookup ["(define x 1)", "(define x 2)"] ⟨session, ""⟩ answers followed
        (by simp [entries])
    simp only [entries] at size lines
    obtain ⟨first, line, -, row, -, -, plain, evaluated⟩ := lines 0 "x" 0 rfl
    obtain ⟨second, line', -, row', -, either, marked, -⟩ := lines 1 "x" 1 rfl
    have shadowed : line' = entryLine "x" 1 second ++ shadowMark := by
      refine either.resolve_left fun unmarked => ?_
      have same := found.symm.trans (marked.mp unmarked)
      cases same
    obtain ⟨_, _, rfl⟩ := List.length_eq_two.mp size
    cases row
    cases row'
    rw [plain.mpr found, shadowed] at listed
    exact ⟨session, answers, rfl, entries, header, first, second, listed, (evaluated found).2⟩

/-- What is printed for the same lines. -/
example : converse {} ["(define x 1)", "(define x 2)", ":env"] =
    ["Global bindings (2 total):", "  x -> @0 = 1", "  x -> @1 = 2   (shadowed)", "Goodbye!"] := by
  decide +kernel

end Dialogue

end CellScheme
