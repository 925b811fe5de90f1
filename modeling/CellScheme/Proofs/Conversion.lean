import CellScheme.Proofs.Code
import CellScheme.Session

/-!
From text to code. What a successful conversion is made from (`Expr.Converted`, `Form.Converted`),
and what it keeps: the reader produces data only (`Reader.readProgram_data`), and data convert to
plain code (`Program.isPlain_of_ofData`).
-/
namespace CellScheme

/-- Two steps succeed together when the first does and the second does with its result. -/
theorem bind_eq_ok {ε α β : Type} {first : Except ε α} {next : α → Except ε β} {result : β} :
    first >>= next = .ok result ↔ ∃ middle, first = .ok middle ∧ next middle = .ok result := by
  cases first <;> simp [bind, Except.bind]

/-- The ways in which the items of a list denote an expression. -/
inductive Expr.Converted : List Value → Expr → Prop
  | conditional {head test consequent alternative : Value} {first second third : Expr} :
    head.keyword? = some .conditional → Expr.ofDatum test = .ok first →
    Expr.ofDatum consequent = .ok second → Expr.ofDatum alternative = .ok third →
    Converted [head, test, consequent, alternative] (.conditional first second third)
  | lambda {head : Value} {params body : List Value} {names : List String} {forms : List Form} :
    head.keyword? = some .lambda →
    paramNames (.list (head :: .list params :: body)) [] params = .ok names →
    Form.ofData body = .ok forms →
    Converted (head :: .list params :: body) (.lambda 0 names forms)
  | letIn {head : Value} {pairs body : List Value} {bindings : List (String × Expr)}
      {forms : List Form} :
    head.keyword? = some .letIn → Expr.ofBindings [] pairs = .ok bindings →
    Form.ofData body = .ok forms →
    Converted (head :: .list pairs :: body) (.letIn bindings forms)
  | quoted {head datum : Value} :
    head.keyword? = some .quote → Converted [head, datum] (.quoted datum)
  | apply {head : Value} {arguments : List Value} {operator : Expr} {operands : List Expr} :
    head.keyword? = none → Expr.ofDatum head = .ok operator →
    Expr.ofData arguments = .ok operands →
    Converted (head :: arguments) (.apply operator operands)

theorem Expr.converted_of_ofItems {items : List Value} {expr : Expr}
    (success : Expr.ofItems items = .ok expr) : Expr.Converted items expr := by
  cases items with
  | nil => cases success
  | cons head arguments =>
    rw [Expr.ofItems.eq_def] at success
    dsimp only at success
    split at success <;> try contradiction
    · rename_i keyword
      obtain ⟨first, hfirst, success⟩ := bind_eq_ok.mp success
      obtain ⟨second, hsecond, success⟩ := bind_eq_ok.mp success
      obtain ⟨third, hthird, success⟩ := bind_eq_ok.mp success
      cases success
      exact .conditional keyword hfirst hsecond hthird
    · rename_i keyword
      obtain ⟨names, hnames, success⟩ := bind_eq_ok.mp success
      obtain ⟨forms, hforms, success⟩ := bind_eq_ok.mp success
      cases success
      exact .lambda keyword hnames hforms
    · rename_i keyword
      obtain ⟨bindings, hbindings, success⟩ := bind_eq_ok.mp success
      obtain ⟨forms, hforms, success⟩ := bind_eq_ok.mp success
      cases success
      exact .letIn keyword hbindings hforms
    · rename_i keyword
      cases success
      exact .quoted keyword
    · rename_i keyword
      obtain ⟨operator, hoperator, success⟩ := bind_eq_ok.mp success
      obtain ⟨operands, hoperands, success⟩ := bind_eq_ok.mp success
      cases success
      exact .apply keyword hoperator hoperands

theorem Expr.ofItems_of_converted {items : List Value} {expr : Expr}
    (converted : Expr.Converted items expr) : Expr.ofItems items = .ok expr := by
  rw [Expr.ofItems.eq_def]
  cases converted with
  | conditional keyword first second third =>
    simp only [keyword, first, second, third]
    rfl
  | lambda keyword names forms =>
    simp only [keyword, names, forms]
    rfl
  | letIn keyword bindings forms =>
    simp only [keyword, bindings, forms]
    rfl
  | quoted keyword =>
    simp only [keyword]
    rfl
  | apply keyword operator operands =>
    simp only [keyword, operator, operands]
    rfl

/-- The ways in which a datum denotes an element of a body. -/
inductive Form.Converted : Value → Form → Prop
  | define {head : Value} {name : String} {datum : Value} {value : Expr} :
    head.keyword? = some .define → checkBindable name = .ok () → Expr.ofDatum datum = .ok value →
    Converted (.list [head, .symbol name, datum]) (.define name value)
  | assign {head : Value} {name : String} {datum : Value} {value : Expr} :
    head.keyword? = some .assign → checkBindable name = .ok () → Expr.ofDatum datum = .ok value →
    Converted (.list [head, .symbol name, datum]) (.assign name value)
  | expr {datum : Value} {body : Expr} :
    Expr.ofDatum datum = .ok body → Converted datum (.expr body)

theorem Form.converted_of_ofDatum {datum : Value} {form : Form}
    (success : Form.ofDatum datum = .ok form) : Form.Converted datum form := by
  rw [Form.ofDatum.eq_def] at success
  split at success
  · split at success <;> try contradiction
    · rename_i keyword
      obtain ⟨_, bindable, success⟩ := bind_eq_ok.mp success
      obtain ⟨value, hvalue, success⟩ := bind_eq_ok.mp success
      cases success
      exact .define (by simpa using keyword) bindable hvalue
    · rename_i keyword
      obtain ⟨_, bindable, success⟩ := bind_eq_ok.mp success
      obtain ⟨value, hvalue, success⟩ := bind_eq_ok.mp success
      cases success
      exact .assign (by simpa using keyword) bindable hvalue
    · obtain ⟨body, hbody, success⟩ := bind_eq_ok.mp success
      cases success
      exact .expr (by simpa only [Expr.ofDatum] using hbody)
  · rename_i atomic
    obtain ⟨body, hbody, success⟩ := bind_eq_ok.mp success
    cases success
    refine .expr ?_
    rw [Expr.ofDatum.eq_def]
    split
    · exact absurd rfl (atomic _)
    · exact hbody

theorem Form.ofDatum_of_converted {datum : Value} {form : Form}
    (converted : Form.Converted datum form) : Form.ofDatum datum = .ok form := by
  rw [Form.ofDatum.eq_def]
  cases converted with
  | define keyword bindable value | assign keyword bindable value =>
    simp only [List.head?_cons, Option.bind_some, keyword, bindable, value]
    rfl
  | expr success =>
    rw [Expr.ofDatum.eq_def] at success
    split at success
    · -- The items of a definition or assignment denote no expression, so they are neither.
      rename_i items
      cases Expr.converted_of_ofItems success with
      | conditional keyword | lambda keyword | letIn keyword | quoted keyword | apply keyword =>
        simp only [List.head?_cons, Option.bind_some, keyword, success]
        rfl
    · rw [success]
      rfl

/-- Bindings convert one by one: the name can be bound and is new, and the datum is its value. -/
theorem Expr.ofBindings_cons {seen : List String} {pair : Value} {pairs : List Value}
    {bindings : List (String × Expr)} (success : Expr.ofBindings seen (pair :: pairs) = .ok bindings) :
    ∃ name datum value rest, pair = .list [.symbol name, datum] ∧ checkBindable name = .ok () ∧
      name ∉ seen ∧ Expr.ofDatum datum = .ok value ∧
      Expr.ofBindings (name :: seen) pairs = .ok rest ∧ bindings = (name, value) :: rest := by
  rw [Expr.ofBindings.eq_def] at success
  split at success <;> try contradiction
  rename_i name datum others shape
  cases shape
  obtain ⟨_, bindable, success⟩ := bind_eq_ok.mp success
  split at success
  · cases success
  rename_i fresh
  obtain ⟨value, hvalue, success⟩ := bind_eq_ok.mp success
  obtain ⟨rest, hrest, success⟩ := bind_eq_ok.mp success
  cases success
  exact ⟨name, datum, value, rest, rfl, bindable, by simpa using fresh, hvalue, hrest, rfl⟩

theorem Expr.isPlain_of_ofAtom {datum : Value} {expr : Expr}
    (success : Expr.ofAtom datum = .ok expr) : expr.isPlain = true := by
  cases datum with
  | symbol name =>
    simp only [Expr.ofAtom, Expr.ofName] at success
    split at success <;> cases success <;> rfl
  | number _ | boolean _ | string _ | primitive _ =>
    cases success
    rfl
  | list _ | closure _ _ _ _ | unspecified => cases success

-- The induction is on the size of the data; an element of a body counts just above its own datum,
-- which it may hand on as an expression.
mutual

theorem Expr.isPlain_of_ofDatum (datum : Value) (isDatum : datum.isDatum = true) {expr : Expr}
    (success : Expr.ofDatum datum = .ok expr) : expr.isPlain = true := by
  rw [Expr.ofDatum.eq_def] at success
  split at success
  · rename_i items
    exact Expr.isPlain_of_ofItems items isDatum success
  · exact Expr.isPlain_of_ofAtom success
termination_by (sizeOf datum, 0)

theorem Expr.isPlain_of_ofItems (items : List Value) (data : Value.allData items = true)
    {expr : Expr} (success : Expr.ofItems items = .ok expr) : expr.isPlain = true := by
  cases Expr.converted_of_ofItems success with
  | conditional _ hfirst hsecond hthird =>
    simp only [Value.allData, Bool.and_eq_true] at data
    simp only [Expr.isPlain, Bool.and_eq_true]
    exact ⟨⟨Expr.isPlain_of_ofDatum _ data.2.1 hfirst, Expr.isPlain_of_ofDatum _ data.2.2.1 hsecond⟩,
      Expr.isPlain_of_ofDatum _ data.2.2.2.1 hthird⟩
  | lambda _ _ hforms =>
    simp only [Value.allData, Bool.and_eq_true] at data
    exact Form.allPlain_of_ofData _ data.2.2 hforms
  | letIn _ hbindings hforms =>
    simp only [Value.allData, Value.isDatum, Bool.and_eq_true] at data
    simp only [Expr.isPlain, Bool.and_eq_true]
    exact ⟨Expr.bindingsPlain_of_ofBindings _ data.2.1 hbindings,
      Form.allPlain_of_ofData _ data.2.2 hforms⟩
  | quoted _ =>
    simp only [Value.allData, Bool.and_eq_true] at data
    exact data.2.1
  | apply _ hoperator hoperands =>
    simp only [Value.allData, Bool.and_eq_true] at data
    simp only [Expr.isPlain, Bool.and_eq_true]
    exact ⟨Expr.isPlain_of_ofDatum _ data.1 hoperator, Expr.allPlain_of_ofData _ data.2 hoperands⟩
termination_by (sizeOf items, 0)

theorem Expr.allPlain_of_ofData (items : List Value) (data : Value.allData items = true)
    {exprs : List Expr} (success : Expr.ofData items = .ok exprs) :
    Expr.allPlain exprs = true := by
  cases items with
  | nil =>
    cases success
    rfl
  | cons datum rest =>
    simp only [Value.allData, Bool.and_eq_true] at data
    rw [Expr.ofData.eq_def] at success
    obtain ⟨expr, hexpr, success⟩ := bind_eq_ok.mp success
    obtain ⟨others, hothers, success⟩ := bind_eq_ok.mp success
    cases success
    simp only [Expr.allPlain, Bool.and_eq_true]
    exact ⟨Expr.isPlain_of_ofDatum datum data.1 hexpr, Expr.allPlain_of_ofData rest data.2 hothers⟩
termination_by (sizeOf items, 0)

theorem Expr.bindingsPlain_of_ofBindings {seen : List String} (pairs : List Value)
    (data : Value.allData pairs = true) {bindings : List (String × Expr)}
    (success : Expr.ofBindings seen pairs = .ok bindings) :
    Expr.bindingsPlain bindings = true := by
  cases pairs with
  | nil =>
    cases success
    rfl
  | cons pair rest =>
    obtain ⟨name, datum, value, others, rfl, _, _, hvalue, hothers, rfl⟩ :=
      Expr.ofBindings_cons success
    simp only [Value.allData, Value.isDatum, Bool.and_eq_true] at data
    simp only [Expr.bindingsPlain, Bool.and_eq_true]
    exact ⟨Expr.isPlain_of_ofDatum datum data.1.2.1 hvalue,
      Expr.bindingsPlain_of_ofBindings rest data.2 hothers⟩
termination_by (sizeOf pairs, 0)

theorem Form.isPlain_of_ofDatum (datum : Value) (isDatum : datum.isDatum = true) {form : Form}
    (success : Form.ofDatum datum = .ok form) : form.isPlain = true := by
  cases Form.converted_of_ofDatum success with
  | define _ _ hvalue | assign _ _ hvalue =>
    simp only [Value.isDatum, Value.allData, Bool.and_eq_true] at isDatum
    exact Expr.isPlain_of_ofDatum _ isDatum.2.2.1 hvalue
  | expr hbody => exact Expr.isPlain_of_ofDatum datum isDatum hbody
termination_by (sizeOf datum, 1)

theorem Form.allPlain_of_ofData (items : List Value) (data : Value.allData items = true)
    {forms : List Form} (success : Form.ofData items = .ok forms) :
    Form.allPlain forms = true := by
  cases items with
  | nil =>
    cases success
    rfl
  | cons datum rest =>
    simp only [Value.allData, Bool.and_eq_true] at data
    rw [Form.ofData.eq_def] at success
    obtain ⟨form, hform, success⟩ := bind_eq_ok.mp success
    obtain ⟨others, hothers, success⟩ := bind_eq_ok.mp success
    cases success
    simp only [Form.allPlain, Bool.and_eq_true]
    exact ⟨Form.isPlain_of_ofDatum datum data.1 hform, Form.allPlain_of_ofData rest data.2 hothers⟩
termination_by (sizeOf items, 0)

end

namespace Reader

/-- All values that the reader holds are data: the items of open lists and what is complete. -/
structure State.HoldsData (state : State) : Prop where
  items : ∀ items, .list items ∈ state.openings → Value.allData items = true
  complete : Value.allData state.complete = true

theorem settle_data {datum : Value} {complete : List Value} {openings : List Opening}
    (isDatum : datum.isDatum = true) (data : Value.allData complete = true)
    (inner : ∀ items, .list items ∈ openings → Value.allData items = true) :
    (∀ items, .list items ∈ (settle datum complete openings).1 → Value.allData items = true) ∧
      Value.allData (settle datum complete openings).2 = true := by
  induction openings generalizing datum with
  | nil => simp [settle, Value.allData, isDatum, data]
  | cons opening outer ih =>
    cases opening with
    | list items =>
      refine ⟨?_, data⟩
      intro found member
      simp only [settle, List.mem_cons, Opening.list.injEq] at member
      rcases member with rfl | member
      · simp [Value.allData, isDatum, inner items (by simp)]
      · exact inner found (by simp [member])
    | quote start =>
      have quoted : (Value.list [.symbol "quote", datum]).isDatum = true := by
        simp [Value.isDatum, Value.allData, isDatum]
      exact ih quoted fun items member => inner items (by simp [member])

theorem State.holdsData_deliver {state : State} {datum : Value} (holds : state.HoldsData)
    (isDatum : datum.isDatum = true) : (state.deliver datum).HoldsData := by
  obtain ⟨inner, data⟩ := settle_data isDatum holds.complete holds.items
  exact ⟨inner, data⟩

theorem isDatum_of_atom? {run : List Char} {datum : Value} (found : atom? run = some datum) :
    datum.isDatum = true := by
  unfold atom? at found
  split at found
  · unfold signedAtom? at found
    split at found
    · cases found
      rfl
    · cases found
      rfl
    · obtain ⟨n, _, rfl⟩ := Option.map_eq_some_iff.mp found
      rfl
    · obtain ⟨n, _, rfl⟩ := Option.map_eq_some_iff.mp found
      rfl
    · cases found
  · unfold plainAtom? at found
    split at found
    · cases found
      rfl
    · split at found
      · cases found
        rfl
      · cases found

theorem State.holdsData_endAtom {state ended : State} {start : Nat} {run : List Char}
    (success : state.endAtom start run = .ok ended) (holds : state.HoldsData) :
    ended.HoldsData := by
  unfold State.endAtom at success
  split at success
  · rename_i datum found
    cases success
    exact holdsData_deliver holds (isDatum_of_atom? found)
  · cases success

theorem State.holdsData_enter {state entered : State} {opening : Opening}
    (success : state.enter opening = .ok entered) (holds : state.HoldsData)
    (empty : ∀ items, opening = .list items → items = []) : entered.HoldsData := by
  unfold State.enter at success
  split at success
  · cases success
  · cases success
    refine ⟨?_, holds.complete⟩
    intro items member
    rcases List.mem_cons.mp member with new | old
    · rw [empty items new.symm]
      rfl
    · exact holds.items items old

theorem State.holdsData_start {state started : State} {extent : Extent} {c : Char}
    (success : state.start extent c = .ok started) (holds : state.HoldsData) :
    started.HoldsData := by
  unfold State.start at success
  split at success
  · cases success
    exact ⟨holds.items, holds.complete⟩
  split at success
  · cases success
  split at success
  · exact holdsData_enter success holds (by simp)
  split at success
  · exact holdsData_enter success holds (by simp)
  split at success
  · split at success
    · rename_i items outer shape
      cases success
      have inner : Value.allData items.reverse = true := by
        have forward := holds.items items (by simp [shape])
        simpa [Value.allData_iff] using forward
      refine holdsData_deliver ⟨?_, holds.complete⟩ inner
      intro found member
      exact holds.items found (by simp [shape, member])
    · cases success
  split at success
  · cases success
    exact ⟨holds.items, holds.complete⟩
  split at success
  · cases success
    exact ⟨holds.items, holds.complete⟩
  · cases success

theorem State.holdsData_step {state stepped : State} {extent : Extent} {c : Char}
    (success : state.step extent c = .ok stepped) (holds : state.HoldsData) :
    stepped.HoldsData := by
  obtain ⟨taken, htaken, success⟩ := bind_eq_ok.mp success
  cases success
  suffices kept : taken.HoldsData from ⟨kept.items, kept.complete⟩
  unfold State.take at htaken
  split at htaken
  · exact holdsData_start htaken holds
  · split at htaken
    · cases htaken
      exact ⟨holds.items, holds.complete⟩
    · obtain ⟨ended, hended, htaken⟩ := bind_eq_ok.mp htaken
      exact holdsData_start htaken (holdsData_endAtom hended holds)
  · split at htaken
    · cases htaken
      exact holdsData_deliver holds rfl
    · split at htaken <;> cases htaken <;> exact ⟨holds.items, holds.complete⟩
  · split at htaken
    · cases htaken
      exact ⟨holds.items, holds.complete⟩
    · cases htaken

theorem State.holdsData_foldlM {extent : Extent} {text : List Char} {state final : State}
    (success : text.foldlM (State.step extent) state = .ok final) (holds : state.HoldsData) :
    final.HoldsData := by
  induction text generalizing state with
  | nil =>
    cases success
    exact holds
  | cons c rest ih =>
    rw [List.foldlM_cons] at success
    obtain ⟨stepped, hstepped, success⟩ := bind_eq_ok.mp success
    exact ih success (holdsData_step hstepped holds)

theorem State.allData_finish {state : State} {data : List Value}
    (success : state.finish = .ok data) (holds : state.HoldsData) : Value.allData data = true := by
  have closed : ∀ ended : State, ended.HoldsData →
      (if ended.openings.isEmpty then pure ended.complete.reverse
        else throw (missing ended.offset ended.openings) : Except Fault (List Value)) = .ok data →
      Value.allData data = true := by
    intro ended kept result
    split at result
    · cases result
      simpa [Value.allData_iff] using kept.complete
    · cases result
  unfold State.finish at success
  dsimp only at success
  split at success
  · exact closed state holds success
  · obtain ⟨ended, hended, success⟩ := bind_eq_ok.mp success
    exact closed ended (holdsData_endAtom hended holds) success
  · cases success
  · cases success

/-- Whatever text it is given, the reader produces data only. -/
theorem readProgram_data {comments : Bool} {source : String} {data : List Value}
    (success : readProgram comments source = .ok data) : Value.allData data = true := by
  unfold readProgram scan at success
  dsimp only at success
  split at success
  · rename_i found hscan
    cases success
    obtain ⟨final, hfinal, hfinish⟩ := bind_eq_ok.mp hscan
    have start : ({} : State).HoldsData := ⟨by simp, rfl⟩
    exact State.allData_finish hfinish (State.holdsData_foldlM hfinal start)
  · cases success

end Reader

theorem Program.ofText_eq_ok_iff {comments : Bool} {text : String} {program : Program} :
    Program.ofText comments text = .ok program ↔
      ∃ data, Reader.readProgram comments text = .ok data ∧ Program.ofData data = .ok program := by
  constructor
  · intro success
    unfold Program.ofText at success
    split at success
    case h_1 => cases success
    case h_2 data read =>
      split at success
      case h_1 => cases success
      case h_2 forms converted =>
        obtain rfl := Except.ok.inj success
        exact ⟨data, read, converted⟩
  · rintro ⟨data, read, converted⟩
    unfold Program.ofText
    rw [read]
    dsimp only
    rw [converted]
    rfl

/-- A text that converts is read as data, and these convert to the same program. -/
theorem Program.ofText_eq_ok {comments : Bool} {text : String} {program : Program}
    (success : Program.ofText comments text = .ok program) :
    ∃ data, Value.allData data = true ∧ Program.ofData data = .ok program := by
  obtain ⟨data, read, converted⟩ := Program.ofText_eq_ok_iff.mp success
  exact ⟨data, Reader.readProgram_data read, converted⟩

theorem Program.isPlain_of_ofData {data : List Value} {program : Program}
    (isData : Value.allData data = true) (success : Program.ofData data = .ok program) :
    Form.allPlain program = true :=
  Form.allPlain_of_ofData data isData success

/-- The errors that a text can have before anything runs: faults of reading and of syntax. -/
def Error.isStatic : Error → Bool
  | .source _ | .arity _ _ (some _) => true
  | _ => false

theorem FormFault.toError_isStatic (fault : FormFault) : fault.toError.isStatic = true := by
  cases fault <;> rfl

/-- A text that does not convert has a fault of reading or of syntax. -/
theorem Program.ofText_eq_error {comments : Bool} {text : String} {error : Error}
    (failure : Program.ofText comments text = .error error) : error.isStatic = true := by
  unfold Program.ofText at failure
  split at failure
  · cases failure
    rfl
  · split at failure
    · rename_i fault _
      cases failure
      exact fault.toError_isStatic
    · cases failure

end CellScheme
