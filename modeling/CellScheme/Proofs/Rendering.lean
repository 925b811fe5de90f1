import CellScheme.Proofs.Conversion

/-!
Trees as data. Rendering turns a tree back into data, each form in the shape it is written in. On
well-formed trees it is the inverse of conversion: what converts is well formed and renders as the
data it came from (`Expr.mirrors_of_ofDatum`), and what a well-formed tree renders as converts to that
tree (`Expr.converts_render`). Stamps are no part of a tree as it is written, so conversion gives them
back as zeros.
-/
namespace CellScheme

/-- A name can be bound when no special form begins with it and no primitive has it. -/
def IsBindable (name : String) : Prop :=
  (∀ keyword ∈ Keyword.all, keyword.name ≠ name) ∧ ∀ p ∈ Primitive.all, p.name ≠ name

instance (name : String) : Decidable (IsBindable name) :=
  inferInstanceAs (Decidable (_ ∧ _))

theorem isBindable_iff {name : String} :
    IsBindable name ↔ Keyword.ofName? name = none ∧ Primitive.ofName? name = none := by
  simp [IsBindable, Keyword.ofName?, Primitive.ofName?, List.find?_eq_none]

theorem checkBindable_eq_ok_iff {name : String} :
    checkBindable name = .ok () ↔ IsBindable name := by
  rw [isBindable_iff, checkBindable]
  cases Keyword.ofName? name <;> cases Primitive.ofName? name <;>
    simp [throw, throwThe, MonadExceptOf.throw, pure, Except.pure]

/-- No primitive is called like a special form. -/
theorem Keyword.ofName?_primitive (p : Primitive) : Keyword.ofName? p.name = none := by
  cases p <;> decide

theorem Expr.ofName_primitive (p : Primitive) : Expr.ofName p.name = .ok (.primitive p) := by
  simp only [Expr.ofName, Keyword.ofName?_primitive, Primitive.ofName?_name]
  rfl

theorem Expr.ofName_bindable {name : String} (bindable : IsBindable name) :
    Expr.ofName name = .ok (.variable name) := by
  obtain ⟨noKeyword, noPrimitive⟩ := isBindable_iff.mp bindable
  simp only [Expr.ofName, noKeyword, noPrimitive]
  rfl

/-- What a piece of code needs itself, apart from its parts, to be well formed. -/
def Code.OwnFormed : Code → Prop
  | .expr (.primitive p) => p ∈ Primitive.all
  | .expr (.variable name) => IsBindable name
  | .expr (.quoted datum) => datum.isDatum = true
  | .expr (.lambda _ params _) => (∀ name ∈ params, IsBindable name) ∧ params.Nodup
  | .expr (.letIn bindings _) =>
    (∀ name ∈ bindings.map Prod.fst, IsBindable name) ∧ (bindings.map Prod.fst).Nodup
  | .forms (.define name _ :: _) | .forms (.assign name _ :: _) => IsBindable name
  | _ => True

/-- Code is well formed when no keyword and no primitive is referred to as a variable, defined,
assigned or bound, names that are bound together differ, primitives are registered ones, and
everything quoted is a datum; all this at any depth. -/
def Code.WellFormed (code : Code) : Prop :=
  code.Everywhere Code.OwnFormed

/-- A body element is well formed when it is as a body of its own. -/
def Form.WellFormed (form : Form) : Prop :=
  (Code.forms [form]).WellFormed

namespace Code

variable {name : String} {body rest : List Form} {form : Form}

@[simp] theorem wellFormed_number (n : Fixnum) : (Code.expr (.number n)).WellFormed :=
  (everywhere_leaf fun _ => rfl).mpr trivial

@[simp] theorem wellFormed_boolean (truth : Bool) : (Code.expr (.boolean truth)).WellFormed :=
  (everywhere_leaf fun _ => rfl).mpr trivial

@[simp] theorem wellFormed_string (text : String) : (Code.expr (.string text)).WellFormed :=
  (everywhere_leaf fun _ => rfl).mpr trivial

@[simp] theorem wellFormed_primitive (p : Primitive) : (Code.expr (.primitive p)).WellFormed :=
  (everywhere_leaf fun _ => rfl).mpr p.mem_all

@[simp] theorem wellFormed_variable : (Code.expr (.variable name)).WellFormed ↔ IsBindable name :=
  everywhere_leaf fun _ => rfl

@[simp] theorem wellFormed_quoted {datum : Value} :
    (Code.expr (.quoted datum)).WellFormed ↔ datum.isDatum = true :=
  everywhere_leaf fun _ => rfl

@[simp] theorem wellFormed_conditional {test consequent alternative : Expr} :
    (Code.expr (.conditional test consequent alternative)).WellFormed ↔
      (Code.expr test).WellFormed ∧ (Code.expr consequent).WellFormed ∧
        (Code.expr alternative).WellFormed :=
  everywhere_conditional.trans (and_iff_right trivial)

@[simp] theorem wellFormed_lambda {stamp : Nat} {params : List String} :
    (Code.expr (.lambda stamp params body)).WellFormed ↔
      ((∀ name ∈ params, IsBindable name) ∧ params.Nodup) ∧ (Code.forms body).WellFormed :=
  everywhere_lambda

@[simp] theorem wellFormed_letIn {bindings : List (String × Expr)} :
    (Code.expr (.letIn bindings body)).WellFormed ↔
      ((∀ name ∈ bindings.map Prod.fst, IsBindable name) ∧ (bindings.map Prod.fst).Nodup) ∧
        (∀ binding ∈ bindings, (Code.expr binding.2).WellFormed) ∧ (Code.forms body).WellFormed :=
  everywhere_letIn

@[simp] theorem wellFormed_apply {operator : Expr} {operands : List Expr} :
    (Code.expr (.apply operator operands)).WellFormed ↔
      (Code.expr operator).WellFormed ∧ ∀ operand ∈ operands, (Code.expr operand).WellFormed :=
  everywhere_apply.trans (and_iff_right trivial)

@[simp] theorem wellFormed_nil : (Code.forms []).WellFormed :=
  (everywhere_leaf fun _ => rfl).mpr trivial

end Code

namespace Form

variable {name : String} {value : Expr}

@[simp] theorem wellFormed_define :
    (Form.define name value).WellFormed ↔ IsBindable name ∧ (Code.expr value).WellFormed :=
  Code.everywhere_define.trans (and_congr_right fun _ => and_iff_left Code.wellFormed_nil)

@[simp] theorem wellFormed_assign :
    (Form.assign name value).WellFormed ↔ IsBindable name ∧ (Code.expr value).WellFormed :=
  Code.everywhere_assign.trans (and_congr_right fun _ => and_iff_left Code.wellFormed_nil)

@[simp] theorem wellFormed_expr :
    (Form.expr value).WellFormed ↔ (Code.expr value).WellFormed :=
  (Code.everywhere_element.trans (and_iff_right trivial)).trans (and_iff_left Code.wellFormed_nil)

end Form

@[simp] theorem Code.wellFormed_cons {form : Form} {rest : List Form} :
    (Code.forms (form :: rest)).WellFormed ↔ form.WellFormed ∧ (Code.forms rest).WellFormed := by
  cases form with
  | define name value => exact everywhere_define.trans (by rw [Form.wellFormed_define, and_assoc]; rfl)
  | assign name value => exact everywhere_assign.trans (by rw [Form.wellFormed_assign, and_assoc]; rfl)
  | expr body =>
    exact (everywhere_element.trans (and_iff_right trivial)).trans (by rw [Form.wellFormed_expr]; rfl)

/-- The datum with which a special form begins. -/
def Keyword.datum (keyword : Keyword) : Value :=
  .symbol keyword.name

theorem Keyword.keyword?_datum (keyword : Keyword) : keyword.datum.keyword? = some keyword :=
  keyword.ofName?_name

theorem Value.keyword?_eq_some_iff {value : Value} {keyword : Keyword} :
    value.keyword? = some keyword ↔ value = keyword.datum := by
  constructor
  · intro found
    cases value with
    | symbol name => rw [Keyword.datum, Keyword.name_of_ofName? found]
    | number _ | string _ | boolean _ | list _ | primitive _ | closure _ _ _ _ | unspecified =>
      cases found
  · rintro rfl
    exact keyword.keyword?_datum

mutual

/-- The datum as which an expression is written. -/
def Expr.render : Expr → Value
  | .number n => .number n
  | .boolean truth => .boolean truth
  | .string text => .string text
  | .primitive p => .symbol p.name
  | .variable name => .symbol name
  | .quoted datum => .list [Keyword.quote.datum, datum]
  | .conditional test consequent alternative =>
    .list [Keyword.conditional.datum, test.render, consequent.render, alternative.render]
  | .lambda _ params body =>
    .list (Keyword.lambda.datum :: .list (params.map Value.symbol) :: Form.renderAll body)
  | .letIn bindings body =>
    .list (Keyword.letIn.datum :: .list (Expr.renderBindings bindings) :: Form.renderAll body)
  | .apply operator operands => .list (operator.render :: Expr.renderAll operands)

/-- The data as which several expressions are written. -/
def Expr.renderAll : List Expr → List Value
  | [] => []
  | expr :: rest => expr.render :: Expr.renderAll rest

/-- The data as which bindings are written. -/
def Expr.renderBindings : List (String × Expr) → List Value
  | [] => []
  | (name, value) :: rest => .list [.symbol name, value.render] :: Expr.renderBindings rest

/-- The datum as which a body element is written. -/
def Form.render : Form → Value
  | .define name value => .list [Keyword.define.datum, .symbol name, value.render]
  | .assign name value => .list [Keyword.assign.datum, .symbol name, value.render]
  | .expr body => body.render

/-- The data as which several body elements are written. -/
def Form.renderAll : List Form → List Value
  | [] => []
  | form :: rest => form.render :: Form.renderAll rest

end

/-- A stamp that no tree has been given yet. -/
def unstamp : Nat → Nat :=
  fun _ => 0

/-- A translation of data into trees and back. -/
structure Translation (δ τ : Type) where
  /-- Everything in the data comes from the reader. -/
  isData : δ → Bool
  convert : δ → Except FormFault τ
  render : τ → δ
  WellFormed : τ → Prop
  /-- The tree without its stamps. -/
  unstamped : τ → τ

namespace Translation

/-- Expressions, from one datum each. -/
def expr : Translation Value Expr where
  isData := Value.isDatum
  convert := Expr.ofDatum
  render := Expr.render
  WellFormed tree := (Code.expr tree).WellFormed
  unstamped := Expr.restamp unstamp

/-- Several expressions, from their data. -/
def exprs : Translation (List Value) (List Expr) where
  isData := Value.allData
  convert := Expr.ofData
  render := Expr.renderAll
  WellFormed trees := ∀ tree ∈ trees, (Code.expr tree).WellFormed
  unstamped := Expr.restampAll unstamp

/-- The bindings of a `let` form. -/
def bindings : Translation (List Value) (List (String × Expr)) where
  isData := Value.allData
  convert := Expr.ofBindings []
  render := Expr.renderBindings
  WellFormed bindings :=
    ((∀ name ∈ bindings.map Prod.fst, IsBindable name) ∧ (bindings.map Prod.fst).Nodup) ∧
      ∀ binding ∈ bindings, (Code.expr binding.2).WellFormed
  unstamped := Expr.restampBindings unstamp

/-- Body elements, from one datum each. -/
def form : Translation Value Form where
  isData := Value.isDatum
  convert := Form.ofDatum
  render := Form.render
  WellFormed := Form.WellFormed
  unstamped := Form.restamp unstamp

/-- Programs and bodies, from their data. -/
def program : Translation (List Value) Program where
  isData := Value.allData
  convert := Program.ofData
  render := Form.renderAll
  WellFormed program := (Code.forms program).WellFormed
  unstamped := Form.restampAll unstamp

variable {δ τ : Type}

/-- A well-formed tree without stamps and the data as which it is written. -/
structure Mirrors (translation : Translation δ τ) (data : δ) (tree : τ) : Prop where
  wellFormed : translation.WellFormed tree
  unstamped : translation.unstamped tree = tree
  render : translation.render tree = data

/-- What a tree is written as comes from the reader, and is converted to the same tree. -/
structure Returns (translation : Translation δ τ) (tree : τ) : Prop where
  isData : translation.isData (translation.render tree) = true
  convert : translation.convert (translation.render tree) = .ok (translation.unstamped tree)

/-- Conversion and rendering are inverse to each other between the data that convert and the
well-formed trees. -/
structure IsBijective (translation : Translation δ τ) : Prop where
  mirrors : ∀ data, translation.isData data = true → ∀ {tree}, translation.convert data = .ok tree →
    translation.Mirrors data tree
  returns : ∀ tree, translation.WellFormed tree → translation.Returns tree

end Translation

theorem mem_of_paramNames {form : Value} {seen : List String} {params : List Value}
    {names : List String} (success : paramNames form seen params = .ok names) :
    params = names.map Value.symbol ∧ (∀ name ∈ names, IsBindable name) ∧
      (∀ name ∈ names, name ∉ seen) ∧ names.Nodup := by
  induction params generalizing seen names with
  | nil =>
    cases success
    simp
  | cons param rest ih =>
    rw [paramNames.eq_def] at success
    split at success <;> try contradiction
    rename_i name others shape
    cases shape
    obtain ⟨_, bindable, success⟩ := bind_eq_ok.mp success
    split at success
    · cases success
    rename_i fresh
    obtain ⟨more, hmore, success⟩ := bind_eq_ok.mp success
    cases success
    obtain ⟨rfl, bindables, new, nodup⟩ := ih hmore
    have unseen : name ∉ seen := by simpa using fresh
    have apart : name ∉ more := fun member => new name member List.mem_cons_self
    refine ⟨rfl, ?_, ?_, List.nodup_cons.mpr ⟨apart, nodup⟩⟩
    · exact List.forall_mem_cons.mpr ⟨checkBindable_eq_ok_iff.mp bindable, bindables⟩
    · refine List.forall_mem_cons.mpr ⟨unseen, fun other member => ?_⟩
      exact fun old => new other member (List.mem_cons_of_mem _ old)

theorem paramNames_symbols {form : Value} {seen names : List String}
    (bindable : ∀ name ∈ names, IsBindable name) (fresh : ∀ name ∈ names, name ∉ seen)
    (nodup : names.Nodup) : paramNames form seen (names.map Value.symbol) = .ok names := by
  induction names generalizing seen with
  | nil => rfl
  | cons name rest ih =>
    obtain ⟨here, there⟩ := List.forall_mem_cons.mp bindable
    obtain ⟨new, news⟩ := List.forall_mem_cons.mp fresh
    obtain ⟨apart, nodup⟩ := List.nodup_cons.mp nodup
    have unseen : ∀ other ∈ rest, other ∉ name :: seen := by
      intro other member
      rw [List.mem_cons, not_or]
      exact ⟨fun same => apart (same ▸ member), news other member⟩
    simp only [List.map_cons, paramNames, checkBindable_eq_ok_iff.mpr here, ih there unseen nodup]
    simp [new, bind, Except.bind, pure, Except.pure]

theorem Expr.mirrors_of_ofAtom {datum : Value} {expr : Expr} (isDatum : datum.isDatum = true)
    (success : Expr.ofAtom datum = .ok expr) : Translation.expr.Mirrors datum expr := by
  cases datum with
  | number _ | boolean _ | string _ =>
    cases success
    exact ⟨by simp [Translation.expr], rfl, rfl⟩
  | symbol name =>
    rw [Expr.ofAtom, Expr.ofName] at success
    split at success
    · cases success
    · rename_i found
      cases success
      refine ⟨by simp [Translation.expr], rfl, ?_⟩
      rw [← Primitive.name_of_ofName? found]
      rfl
    · rename_i noKeyword noPrimitive
      cases success
      have bindable := isBindable_iff.mpr ⟨noKeyword, noPrimitive⟩
      exact ⟨by simpa [Translation.expr] using bindable, rfl, rfl⟩
  | list _ | primitive _ | closure _ _ _ _ | unspecified => cases success <;> cases isDatum

-- The induction is on the size of the data, as for plainness.
mutual

theorem Expr.mirrors_of_ofDatum (datum : Value) (isDatum : datum.isDatum = true) {expr : Expr}
    (success : Expr.ofDatum datum = .ok expr) : Translation.expr.Mirrors datum expr := by
  rw [Expr.ofDatum.eq_def] at success
  split at success
  · rename_i items
    exact Expr.mirrors_of_ofItems items isDatum success
  · exact Expr.mirrors_of_ofAtom isDatum success
termination_by (sizeOf datum, 0)

theorem Expr.mirrors_of_ofItems (items : List Value) (data : Value.allData items = true)
    {expr : Expr} (success : Expr.ofItems items = .ok expr) :
    Translation.expr.Mirrors (.list items) expr := by
  cases Expr.converted_of_ofItems success with
  | conditional keyword hfirst hsecond hthird =>
    simp only [Value.allData, Bool.and_eq_true] at data
    obtain ⟨formed, unstamped, rfl⟩ := Expr.mirrors_of_ofDatum _ data.2.1 hfirst
    obtain ⟨formed', unstamped', rfl⟩ := Expr.mirrors_of_ofDatum _ data.2.2.1 hsecond
    obtain ⟨formed'', unstamped'', rfl⟩ := Expr.mirrors_of_ofDatum _ data.2.2.2.1 hthird
    obtain rfl := Value.keyword?_eq_some_iff.mp keyword
    refine ⟨Code.wellFormed_conditional.mpr ⟨formed, formed', formed''⟩, ?_, rfl⟩
    simp only [Translation.expr] at unstamped unstamped' unstamped''
    simp only [Translation.expr, Expr.restamp, unstamped, unstamped', unstamped'']
  | lambda keyword hnames hforms =>
    simp only [Value.allData, Bool.and_eq_true] at data
    obtain ⟨rfl, bindable, _, nodup⟩ := mem_of_paramNames hnames
    obtain ⟨formed, unstamped, rfl⟩ := Form.mirrors_of_ofData _ data.2.2 hforms
    obtain rfl := Value.keyword?_eq_some_iff.mp keyword
    refine ⟨Code.wellFormed_lambda.mpr ⟨⟨bindable, nodup⟩, formed⟩, ?_, rfl⟩
    exact congrArg (Expr.lambda 0 _) unstamped
  | letIn keyword hbindings hforms =>
    simp only [Value.allData, Value.isDatum, Bool.and_eq_true] at data
    obtain ⟨⟨⟨names, values⟩, unstamped, rfl⟩, _⟩ :=
      Expr.mirrors_of_ofBindings _ data.2.1 hbindings
    obtain ⟨formed, unstamped', rfl⟩ := Form.mirrors_of_ofData _ data.2.2 hforms
    obtain rfl := Value.keyword?_eq_some_iff.mp keyword
    refine ⟨Code.wellFormed_letIn.mpr ⟨names, values, formed⟩, ?_, rfl⟩
    exact congrArg₂ Expr.letIn unstamped unstamped'
  | quoted keyword =>
    simp only [Value.allData, Bool.and_eq_true] at data
    obtain rfl := Value.keyword?_eq_some_iff.mp keyword
    exact ⟨Code.wellFormed_quoted.mpr data.2.1, rfl, rfl⟩
  | apply _ hoperator hoperands =>
    simp only [Value.allData, Bool.and_eq_true] at data
    obtain ⟨formed, unstamped, rfl⟩ := Expr.mirrors_of_ofDatum _ data.1 hoperator
    obtain ⟨formed', unstamped', rfl⟩ := Expr.mirrors_of_ofData _ data.2 hoperands
    refine ⟨Code.wellFormed_apply.mpr ⟨formed, formed'⟩, ?_, rfl⟩
    exact congrArg₂ Expr.apply unstamped unstamped'
termination_by (sizeOf items, 0)

theorem Expr.mirrors_of_ofData (items : List Value) (data : Value.allData items = true)
    {exprs : List Expr} (success : Expr.ofData items = .ok exprs) :
    Translation.exprs.Mirrors items exprs := by
  cases items with
  | nil =>
    cases success
    exact ⟨by simp [Translation.exprs], rfl, rfl⟩
  | cons datum rest =>
    simp only [Value.allData, Bool.and_eq_true] at data
    rw [Expr.ofData.eq_def] at success
    obtain ⟨expr, hexpr, success⟩ := bind_eq_ok.mp success
    obtain ⟨others, hothers, success⟩ := bind_eq_ok.mp success
    cases success
    obtain ⟨formed, unstamped, rfl⟩ := Expr.mirrors_of_ofDatum datum data.1 hexpr
    obtain ⟨formed', unstamped', rfl⟩ := Expr.mirrors_of_ofData rest data.2 hothers
    exact ⟨List.forall_mem_cons.mpr ⟨formed, formed'⟩, congrArg₂ List.cons unstamped unstamped', rfl⟩
termination_by (sizeOf items, 0)

theorem Expr.mirrors_of_ofBindings {seen : List String} (pairs : List Value)
    (data : Value.allData pairs = true) {bindings : List (String × Expr)}
    (success : Expr.ofBindings seen pairs = .ok bindings) :
    Translation.bindings.Mirrors pairs bindings ∧ ∀ name ∈ bindings.map Prod.fst, name ∉ seen := by
  cases pairs with
  | nil =>
    cases success
    exact ⟨⟨by simp [Translation.bindings], rfl, rfl⟩, by simp⟩
  | cons pair rest =>
    obtain ⟨name, datum, value, others, rfl, bindable, fresh, hvalue, hothers, rfl⟩ :=
      Expr.ofBindings_cons success
    simp only [Value.allData, Value.isDatum, Bool.and_eq_true] at data
    obtain ⟨formed, unstamped, rfl⟩ := Expr.mirrors_of_ofDatum datum data.1.2.1 hvalue
    obtain ⟨⟨⟨⟨bindables, nodup⟩, values⟩, unstamped', rfl⟩, new⟩ :=
      Expr.mirrors_of_ofBindings rest data.2 hothers
    have apart : name ∉ others.map Prod.fst := fun member => new name member List.mem_cons_self
    refine ⟨⟨⟨⟨?_, List.nodup_cons.mpr ⟨apart, nodup⟩⟩, ?_⟩, ?_, rfl⟩, ?_⟩
    · exact List.forall_mem_cons.mpr ⟨checkBindable_eq_ok_iff.mp bindable, bindables⟩
    · exact List.forall_mem_cons.mpr ⟨formed, values⟩
    · exact congrArg₂ (fun value rest => (name, value) :: rest) unstamped unstamped'
    · refine List.forall_mem_cons.mpr ⟨fresh, fun other member => ?_⟩
      exact fun old => new other member (List.mem_cons_of_mem _ old)
termination_by (sizeOf pairs, 0)

theorem Form.mirrors_of_ofDatum (datum : Value) (isDatum : datum.isDatum = true) {form : Form}
    (success : Form.ofDatum datum = .ok form) : Translation.form.Mirrors datum form := by
  cases Form.converted_of_ofDatum success with
  | define keyword bindable hvalue =>
    simp only [Value.isDatum, Value.allData, Bool.and_eq_true] at isDatum
    obtain ⟨formed, unstamped, rfl⟩ := Expr.mirrors_of_ofDatum _ isDatum.2.2.1 hvalue
    obtain rfl := Value.keyword?_eq_some_iff.mp keyword
    have target := checkBindable_eq_ok_iff.mp bindable
    exact ⟨Form.wellFormed_define.mpr ⟨target, formed⟩, congrArg (Form.define _) unstamped, rfl⟩
  | assign keyword bindable hvalue =>
    simp only [Value.isDatum, Value.allData, Bool.and_eq_true] at isDatum
    obtain ⟨formed, unstamped, rfl⟩ := Expr.mirrors_of_ofDatum _ isDatum.2.2.1 hvalue
    obtain rfl := Value.keyword?_eq_some_iff.mp keyword
    have target := checkBindable_eq_ok_iff.mp bindable
    exact ⟨Form.wellFormed_assign.mpr ⟨target, formed⟩, congrArg (Form.assign _) unstamped, rfl⟩
  | expr hbody =>
    obtain ⟨formed, unstamped, rfl⟩ := Expr.mirrors_of_ofDatum datum isDatum hbody
    exact ⟨Form.wellFormed_expr.mpr formed, congrArg Form.expr unstamped, rfl⟩
termination_by (sizeOf datum, 1)

theorem Form.mirrors_of_ofData (items : List Value) (data : Value.allData items = true)
    {forms : List Form} (success : Form.ofData items = .ok forms) :
    Translation.program.Mirrors items forms := by
  cases items with
  | nil =>
    cases success
    exact ⟨Code.wellFormed_nil, rfl, rfl⟩
  | cons datum rest =>
    simp only [Value.allData, Bool.and_eq_true] at data
    rw [Form.ofData.eq_def] at success
    obtain ⟨form, hform, success⟩ := bind_eq_ok.mp success
    obtain ⟨others, hothers, success⟩ := bind_eq_ok.mp success
    cases success
    obtain ⟨formed, unstamped, rfl⟩ := Form.mirrors_of_ofDatum datum data.1 hform
    obtain ⟨formed', unstamped', rfl⟩ := Form.mirrors_of_ofData rest data.2 hothers
    exact ⟨Code.wellFormed_cons.mpr ⟨formed, formed'⟩, congrArg₂ List.cons unstamped unstamped', rfl⟩
termination_by (sizeOf items, 0)

end

/-- An operator is never written as a keyword. -/
theorem Expr.keyword?_render {expr : Expr} (formed : (Code.expr expr).WellFormed) :
    expr.render.keyword? = none := by
  match expr with
  | .primitive p => exact Keyword.ofName?_primitive p
  | .variable name => exact (isBindable_iff.mp (Code.wellFormed_variable.mp formed)).1
  | .number _ | .boolean _ | .string _ | .quoted _ | .conditional _ _ _ | .lambda _ _ _
  | .letIn _ _ | .apply _ _ => rfl

theorem Value.allData_symbols (names : List String) :
    Value.allData (names.map Value.symbol) = true := by
  simp [Value.allData_iff, Value.isDatum]

mutual

theorem Expr.returns : (expr : Expr) → (Code.expr expr).WellFormed →
    Translation.expr.Returns expr
  | .number _, _ | .boolean _, _ | .string _, _ => ⟨rfl, rfl⟩
  | .primitive p, _ => ⟨rfl, Expr.ofName_primitive p⟩
  | .variable _, formed => ⟨rfl, Expr.ofName_bindable (Code.wellFormed_variable.mp formed)⟩
  | .quoted datum, formed => by
    have isDatum := Code.wellFormed_quoted.mp formed
    refine ⟨?_, Expr.ofItems_of_converted (.quoted Keyword.quote.keyword?_datum)⟩
    simp [Translation.expr, Expr.render, Keyword.datum, Value.isDatum, Value.allData, isDatum]
  | .conditional test consequent alternative, formed => by
    obtain ⟨formed, formed', formed''⟩ := Code.wellFormed_conditional.mp formed
    obtain ⟨data, converts⟩ := Expr.returns test formed
    obtain ⟨data', converts'⟩ := Expr.returns consequent formed'
    obtain ⟨data'', converts''⟩ := Expr.returns alternative formed''
    refine ⟨?_, Expr.ofItems_of_converted
      (.conditional Keyword.conditional.keyword?_datum converts converts' converts'')⟩
    simp_all [Translation.expr, Expr.render, Keyword.datum, Value.isDatum, Value.allData]
  | .lambda stamp params body, formed => by
    obtain ⟨⟨bindable, nodup⟩, formed⟩ := Code.wellFormed_lambda.mp formed
    obtain ⟨data, converts⟩ := Form.returnsAll body formed
    have names : paramNames (Expr.lambda stamp params body).render [] (params.map Value.symbol) =
        .ok params := paramNames_symbols bindable (by simp) nodup
    refine ⟨?_, Expr.ofItems_of_converted (.lambda Keyword.lambda.keyword?_datum names converts)⟩
    simp_all [Translation.expr, Translation.program, Expr.render, Keyword.datum, Value.isDatum,
      Value.allData, Value.allData_symbols]
  | .letIn bindings body, formed => by
    obtain ⟨⟨bindable, nodup⟩, values, formed⟩ := Code.wellFormed_letIn.mp formed
    have fresh : ∀ name ∈ bindings.map Prod.fst, name ∉ ([] : List String) := by simp
    obtain ⟨data, converts⟩ := Expr.returnsBindings bindings values bindable nodup fresh
    obtain ⟨data', converts'⟩ := Form.returnsAll body formed
    refine ⟨?_, Expr.ofItems_of_converted (.letIn Keyword.letIn.keyword?_datum converts converts')⟩
    simp_all [Translation.expr, Translation.program, Expr.render, Keyword.datum, Value.isDatum,
      Value.allData]
  | .apply operator operands, formed => by
    obtain ⟨formed, formed'⟩ := Code.wellFormed_apply.mp formed
    obtain ⟨data, converts⟩ := Expr.returns operator formed
    obtain ⟨data', converts'⟩ := Expr.returnsAll operands formed'
    refine ⟨?_, Expr.ofItems_of_converted (.apply (Expr.keyword?_render formed) converts converts')⟩
    simp_all [Translation.expr, Translation.exprs, Expr.render, Value.isDatum, Value.allData]

theorem Expr.returnsAll : (exprs : List Expr) → (∀ expr ∈ exprs, (Code.expr expr).WellFormed) →
    Translation.exprs.Returns exprs
  | [], _ => ⟨rfl, rfl⟩
  | expr :: rest, formed => by
    obtain ⟨formed, formed'⟩ := List.forall_mem_cons.mp formed
    obtain ⟨data, converts⟩ := Expr.returns expr formed
    obtain ⟨data', converts'⟩ := Expr.returnsAll rest formed'
    refine ⟨Bool.and_eq_true_iff.mpr ⟨data, data'⟩, ?_⟩
    exact bind_eq_ok.mpr ⟨_, converts, bind_eq_ok.mpr ⟨_, converts', rfl⟩⟩

theorem Expr.returnsBindings : (bindings : List (String × Expr)) →
    (∀ binding ∈ bindings, (Code.expr binding.2).WellFormed) →
    (∀ name ∈ bindings.map Prod.fst, IsBindable name) → (bindings.map Prod.fst).Nodup →
    {seen : List String} → (∀ name ∈ bindings.map Prod.fst, name ∉ seen) →
    Value.allData (Expr.renderBindings bindings) = true ∧
      Expr.ofBindings seen (Expr.renderBindings bindings) =
        .ok (Expr.restampBindings unstamp bindings)
  | [], _, _, _, _, _ => ⟨rfl, rfl⟩
  | (name, value) :: rest, formed, bindable, nodup, seen, fresh => by
    obtain ⟨formed, formed'⟩ := List.forall_mem_cons.mp formed
    obtain ⟨here, there⟩ := List.forall_mem_cons.mp bindable
    obtain ⟨apart, nodup⟩ := List.nodup_cons.mp nodup
    obtain ⟨new, news⟩ := List.forall_mem_cons.mp fresh
    have unseen : ∀ other ∈ rest.map Prod.fst, other ∉ name :: seen := by
      intro other member
      rw [List.mem_cons, not_or]
      exact ⟨fun same => apart (same ▸ member), news other member⟩
    obtain ⟨data, converts⟩ := Expr.returns value formed
    obtain ⟨data', converts'⟩ := Expr.returnsBindings rest formed' there nodup unseen
    refine ⟨?_, ?_⟩
    · simp_all [Translation.expr, Expr.renderBindings, Value.isDatum, Value.allData]
    · simp only [Translation.expr] at converts
      simp only [Expr.renderBindings, Expr.ofBindings, checkBindable_eq_ok_iff.mpr here, converts,
        converts']
      simp [new, bind, Except.bind, pure, Except.pure, Expr.restampBindings]

theorem Form.returns : (form : Form) → form.WellFormed → Translation.form.Returns form
  | .define name value, formed => by
    obtain ⟨target, formed⟩ := Form.wellFormed_define.mp formed
    obtain ⟨data, converts⟩ := Expr.returns value formed
    refine ⟨?_, Form.ofDatum_of_converted
      (.define Keyword.define.keyword?_datum (checkBindable_eq_ok_iff.mpr target) converts)⟩
    simp_all [Translation.form, Translation.expr, Form.render, Keyword.datum, Value.isDatum,
      Value.allData]
  | .assign name value, formed => by
    obtain ⟨target, formed⟩ := Form.wellFormed_assign.mp formed
    obtain ⟨data, converts⟩ := Expr.returns value formed
    refine ⟨?_, Form.ofDatum_of_converted
      (.assign Keyword.assign.keyword?_datum (checkBindable_eq_ok_iff.mpr target) converts)⟩
    simp_all [Translation.form, Translation.expr, Form.render, Keyword.datum, Value.isDatum,
      Value.allData]
  | .expr body, formed => by
    obtain ⟨data, converts⟩ := Expr.returns body (Form.wellFormed_expr.mp formed)
    exact ⟨data, Form.ofDatum_of_converted (.expr converts)⟩

theorem Form.returnsAll : (forms : List Form) → (Code.forms forms).WellFormed →
    Translation.program.Returns forms
  | [], _ => ⟨rfl, rfl⟩
  | form :: rest, formed => by
    obtain ⟨formed, formed'⟩ := Code.wellFormed_cons.mp formed
    obtain ⟨data, converts⟩ := Form.returns form formed
    obtain ⟨data', converts'⟩ := Form.returnsAll rest formed'
    refine ⟨Bool.and_eq_true_iff.mpr ⟨data, data'⟩, ?_⟩
    exact bind_eq_ok.mpr ⟨_, converts, bind_eq_ok.mpr ⟨_, converts', rfl⟩⟩

end

namespace Translation

theorem expr_isBijective : Translation.expr.IsBijective :=
  ⟨Expr.mirrors_of_ofDatum, Expr.returns⟩

theorem form_isBijective : Translation.form.IsBijective :=
  ⟨Form.mirrors_of_ofDatum, Form.returns⟩

theorem program_isBijective : Translation.program.IsBijective :=
  ⟨Form.mirrors_of_ofData, Form.returnsAll⟩

end Translation

end CellScheme
