import CellScheme.Syntax.Stamp
import Mathlib.Data.List.Nodup

/-!
Places in program trees. A piece of code is an expression or the rest of a sequence of forms; its
parts are the pieces that it is made of, each with its static scope. A path of part numbers leads
from a program to one occurrence, so the scope of an occurrence is a matter of the tree alone.

Stamps tell the `lambda` occurrences of a tree apart (`Code.path_eq_of_stamp`).
-/
namespace CellScheme

/-- The names bound around a place, one list for each enclosing `lambda` or `let` body, innermost
first. -/
abbrev Scope := List (List String)

/-- An expression, or the forms that are left of a sequence. -/
inductive Code where
  | expr (expr : Expr)
  | forms (forms : List Form)

namespace Code

/-- The parts of a piece of code that stands in a scope, in order, each with its own scope. The
value of a definition and the forms after it have the empty scope, wherever they stand. -/
def parts (scope : Scope) : Code → List (Scope × Code)
  | .expr (.conditional test consequent alternative) =>
    [(scope, .expr test), (scope, .expr consequent), (scope, .expr alternative)]
  | .expr (.lambda _ params body) => [(params :: scope, .forms body)]
  | .expr (.letIn bindings body) =>
    bindings.map (fun binding => (scope, .expr binding.2))
      ++ [(bindings.map Prod.fst :: scope, .forms body)]
  | .expr (.apply operator operands) =>
    (scope, .expr operator) :: operands.map fun operand => (scope, .expr operand)
  | .expr _ => []
  | .forms [] => []
  | .forms (.define _ value :: rest) => [([], .expr value), ([], .forms rest)]
  | .forms (.assign _ value :: rest) => [(scope, .expr value), (scope, .forms rest)]
  | .forms (.expr body :: rest) => [(scope, .expr body), (scope, .forms rest)]

@[simp] theorem parts_conditional (scope : Scope) (test consequent alternative : Expr) :
    (Code.expr (.conditional test consequent alternative)).parts scope =
      [(scope, .expr test), (scope, .expr consequent), (scope, .expr alternative)] := rfl

@[simp] theorem parts_lambda (scope : Scope) (stamp : Nat) (params : List String)
    (body : List Form) :
    (Code.expr (.lambda stamp params body)).parts scope = [(params :: scope, .forms body)] := rfl

@[simp] theorem parts_letIn (scope : Scope) (bindings : List (String × Expr)) (body : List Form) :
    (Code.expr (.letIn bindings body)).parts scope =
      bindings.map (fun binding => (scope, .expr binding.2))
        ++ [(bindings.map Prod.fst :: scope, .forms body)] := rfl

@[simp] theorem parts_apply (scope : Scope) (operator : Expr) (operands : List Expr) :
    (Code.expr (.apply operator operands)).parts scope =
      (scope, .expr operator) :: operands.map fun operand => (scope, .expr operand) := rfl

@[simp] theorem parts_define (scope : Scope) (name : String) (value : Expr) (rest : List Form) :
    (Code.forms (.define name value :: rest)).parts scope =
      [([], .expr value), ([], .forms rest)] := rfl

@[simp] theorem parts_assign (scope : Scope) (name : String) (value : Expr) (rest : List Form) :
    (Code.forms (.assign name value :: rest)).parts scope =
      [(scope, .expr value), (scope, .forms rest)] := rfl

@[simp] theorem parts_expr (scope : Scope) (body : Expr) (rest : List Form) :
    (Code.forms (.expr body :: rest)).parts scope =
      [(scope, .expr body), (scope, .forms rest)] := rfl

/-- What stands at the end of a path of part numbers, with its scope. -/
def at? (scope : Scope) (code : Code) : List Nat → Option (Scope × Code)
  | [] => some (scope, code)
  | index :: path => (code.parts scope)[index]?.bind fun part => part.2.at? part.1 path

theorem at?_append (scope : Scope) (code : Code) (path more : List Nat) :
    code.at? scope (path ++ more) =
      (code.at? scope path).bind fun place => place.2.at? place.1 more := by
  induction path generalizing scope code with
  | nil => rfl
  | cons index path ih =>
    simp only [List.cons_append, at?, Option.bind_assoc]
    congr 1
    funext part
    exact ih part.1 part.2

end Code

/-- What stands at a path in a program. The program itself has the empty scope. -/
def Program.at? (program : Program) (path : List Nat) : Option (Scope × Code) :=
  Code.at? [] (.forms program) path

theorem Program.at?_part {program : Program} {path : List Nat} {scope : Scope} {code : Code}
    (here : program.at? path = some (scope, code)) (index : Nat) :
    program.at? (path ++ [index]) = (code.parts scope)[index]? := by
  simp only [Program.at?] at here
  simp only [Program.at?, Code.at?_append, here, Option.bind_some, Code.at?]
  cases (code.parts scope)[index]? <;> rfl

/-- A condition on single pieces of code holds everywhere in a piece of code: of the piece itself and,
at any depth, of its parts. -/
inductive Code.Everywhere (own : Code → Prop) : Code → Prop
  | intro {code : Code} : own code → (∀ scope, ∀ part ∈ code.parts scope, Everywhere own part.2) →
    Everywhere own code

namespace Code.Everywhere

variable {own : Code → Prop} {code : Code}

theorem here (everywhere : code.Everywhere own) : own code := by
  cases everywhere
  assumption

theorem part (everywhere : code.Everywhere own) {scope : Scope} {part : Scope × Code}
    (member : part ∈ code.parts scope) : part.2.Everywhere own := by
  cases everywhere with
  | intro _ parts => exact parts scope part member

end Code.Everywhere

namespace Code

variable {own : Code → Prop} {code : Code} {form : Form} {rest : List Form}

theorem everywhere_iff :
    code.Everywhere own ↔
      own code ∧ ∀ scope, ∀ part ∈ code.parts scope, part.2.Everywhere own :=
  ⟨fun everywhere => ⟨everywhere.here, fun _ _ member => everywhere.part member⟩,
    fun ⟨here, parts⟩ => .intro here parts⟩

/-- Code without parts. -/
theorem everywhere_leaf (leaf : ∀ scope, code.parts scope = []) :
    code.Everywhere own ↔ own code := by
  rw [everywhere_iff]
  exact and_iff_left fun scope part member => by simp [leaf scope] at member

theorem everywhere_conditional {test consequent alternative : Expr} :
    (Code.expr (.conditional test consequent alternative)).Everywhere own ↔
      own (.expr (.conditional test consequent alternative)) ∧ (Code.expr test).Everywhere own ∧
        (Code.expr consequent).Everywhere own ∧ (Code.expr alternative).Everywhere own := by
  rw [everywhere_iff]
  simp

theorem everywhere_lambda {stamp : Nat} {params : List String} {body : List Form} :
    (Code.expr (.lambda stamp params body)).Everywhere own ↔
      own (.expr (.lambda stamp params body)) ∧ (Code.forms body).Everywhere own := by
  rw [everywhere_iff]
  simp

theorem everywhere_letIn {bindings : List (String × Expr)} {body : List Form} :
    (Code.expr (.letIn bindings body)).Everywhere own ↔
      own (.expr (.letIn bindings body)) ∧
        (∀ binding ∈ bindings, (Code.expr binding.2).Everywhere own) ∧
        (Code.forms body).Everywhere own := by
  rw [everywhere_iff]
  refine and_congr_right fun _ => ?_
  simp only [parts_letIn, List.mem_append, List.mem_map, List.mem_singleton]
  constructor
  · intro parts
    exact ⟨fun binding member => parts [] _ (.inl ⟨binding, member, rfl⟩), parts [] _ (.inr rfl)⟩
  · rintro ⟨values, body⟩ scope part (⟨binding, member, rfl⟩ | rfl)
    · exact values binding member
    · exact body

theorem everywhere_apply {operator : Expr} {operands : List Expr} :
    (Code.expr (.apply operator operands)).Everywhere own ↔
      own (.expr (.apply operator operands)) ∧ (Code.expr operator).Everywhere own ∧
        ∀ operand ∈ operands, (Code.expr operand).Everywhere own := by
  rw [everywhere_iff]
  simp

theorem everywhere_define {name : String} {value : Expr} :
    (Code.forms (.define name value :: rest)).Everywhere own ↔
      own (.forms (.define name value :: rest)) ∧ (Code.expr value).Everywhere own ∧
        (Code.forms rest).Everywhere own := by
  rw [everywhere_iff]
  simp

theorem everywhere_assign {name : String} {value : Expr} :
    (Code.forms (.assign name value :: rest)).Everywhere own ↔
      own (.forms (.assign name value :: rest)) ∧ (Code.expr value).Everywhere own ∧
        (Code.forms rest).Everywhere own := by
  rw [everywhere_iff]
  simp

theorem everywhere_element {body : Expr} :
    (Code.forms (.expr body :: rest)).Everywhere own ↔
      own (.forms (.expr body :: rest)) ∧ (Code.expr body).Everywhere own ∧
        (Code.forms rest).Everywhere own := by
  rw [everywhere_iff]
  simp

theorem Everywhere.mono {own' : Code → Prop} (everywhere : code.Everywhere own)
    (weaker : ∀ place, own place → own' place) : code.Everywhere own' := by
  induction everywhere with
  | intro here _ ih => exact .intro (weaker _ here) ih

/-- Two conditions hold everywhere when both of them do. -/
theorem Everywhere.and {own' : Code → Prop} (everywhere : code.Everywhere own)
    (everywhere' : code.Everywhere own') : code.Everywhere fun place => own place ∧ own' place := by
  induction everywhere with
  | intro here _ ih =>
    refine .intro ⟨here, everywhere'.here⟩ fun scope part member => ?_
    exact ih scope part member (everywhere'.part member)

end Code

mutual

/-- A datum is a value made of numbers, symbols, strings, booleans and lists only. -/
def Value.isDatum : Value → Bool
  | .number _ | .symbol _ | .string _ | .boolean _ => true
  | .list items => Value.allData items
  | _ => false

/-- All of several values are data. -/
def Value.allData : List Value → Bool
  | [] => true
  | item :: rest => item.isDatum && Value.allData rest

end

theorem Value.allData_iff {values : List Value} :
    Value.allData values = true ↔ ∀ value ∈ values, value.isDatum = true := by
  induction values with
  | nil => simp [Value.allData]
  | cons value rest ih => simp [Value.allData, ih]

mutual

/-- Code is plain when everything quoted in it is a datum. -/
def Expr.isPlain : Expr → Bool
  | .quoted datum => datum.isDatum
  | .conditional test consequent alternative =>
    test.isPlain && consequent.isPlain && alternative.isPlain
  | .lambda _ _ body => Form.allPlain body
  | .letIn bindings body => Expr.bindingsPlain bindings && Form.allPlain body
  | .apply operator operands => operator.isPlain && Expr.allPlain operands
  | _ => true

/-- All of several expressions are plain. -/
def Expr.allPlain : List Expr → Bool
  | [] => true
  | expr :: rest => expr.isPlain && Expr.allPlain rest

/-- All bound values are plain. -/
def Expr.bindingsPlain : List (String × Expr) → Bool
  | [] => true
  | (_, value) :: rest => value.isPlain && Expr.bindingsPlain rest

/-- A body element is plain when its expression is. -/
def Form.isPlain : Form → Bool
  | .define _ value => value.isPlain
  | .assign _ value => value.isPlain
  | .expr body => body.isPlain

/-- All of several body elements are plain. -/
def Form.allPlain : List Form → Bool
  | [] => true
  | form :: rest => form.isPlain && Form.allPlain rest

end

/-- Plainness of either kind of code. -/
def Code.isPlain : Code → Bool
  | .expr body => body.isPlain
  | .forms body => Form.allPlain body

/-- What plainness asks of a piece of code itself, apart from its parts. -/
def Code.ownPlain : Code → Bool
  | .expr (.quoted datum) => datum.isDatum
  | _ => true

theorem Expr.allPlain_eq (exprs : List Expr) : Expr.allPlain exprs = exprs.all Expr.isPlain := by
  induction exprs with
  | nil => rfl
  | cons expr rest ih => simp only [Expr.allPlain, ih, List.all_cons]

theorem Expr.bindingsPlain_eq (bindings : List (String × Expr)) :
    Expr.bindingsPlain bindings = bindings.all fun binding => binding.2.isPlain := by
  induction bindings with
  | nil => rfl
  | cons binding rest ih => simp only [Expr.bindingsPlain, ih, List.all_cons]

theorem Form.allPlain_eq (forms : List Form) : Form.allPlain forms = forms.all Form.isPlain := by
  induction forms with
  | nil => rfl
  | cons form rest ih => simp only [Form.allPlain, ih, List.all_cons]

/-- Code is plain when it is plain itself and in its parts. -/
theorem Code.isPlain_eq (scope : Scope) (code : Code) :
    code.isPlain = (code.ownPlain && (code.parts scope).all fun part => part.2.isPlain) := by
  match code with
  | .forms [] => rfl
  | .forms (.define _ _ :: _) | .forms (.assign _ _ :: _) | .forms (.expr _ :: _) =>
    simp [isPlain, ownPlain, Form.allPlain, Form.isPlain]
  | .expr (.conditional _ _ _) => simp [isPlain, ownPlain, Expr.isPlain, Bool.and_assoc]
  | .expr (.lambda _ _ _) => simp [isPlain, ownPlain, Expr.isPlain]
  | .expr (.letIn bindings body) =>
    simp [isPlain, ownPlain, Expr.isPlain, Expr.bindingsPlain_eq, List.all_map, Function.comp_def]
  | .expr (.apply operator operands) =>
    simp [isPlain, ownPlain, Expr.isPlain, Expr.allPlain_eq, List.all_map, Function.comp_def]
  | .expr (.quoted _) => exact (Bool.and_true _).symm
  | .expr (.number _) | .expr (.boolean _) | .expr (.string _) | .expr (.primitive _)
  | .expr (.variable _) => rfl

theorem Code.isPlain_of_mem_parts {scope : Scope} {code : Code} {part : Scope × Code}
    (member : part ∈ code.parts scope) (plain : code.isPlain = true) : part.2.isPlain = true := by
  rw [isPlain_eq scope, Bool.and_eq_true, List.all_eq_true] at plain
  exact plain.2 part member

theorem Code.isPlain_of_at? {scope : Scope} {code : Code} {path : List Nat}
    {place : Scope × Code} (here : code.at? scope path = some place)
    (plain : code.isPlain = true) : place.2.isPlain = true := by
  induction path generalizing scope code with
  | nil =>
    cases here
    exact plain
  | cons index path ih =>
    obtain ⟨part, found, inner⟩ := Option.bind_eq_some_iff.mp here
    exact ih inner (isPlain_of_mem_parts (List.mem_of_getElem? found) plain)

mutual

/-- The stamps of the `lambda` occurrences of an expression, in order. -/
def Expr.stamps : Expr → List Nat
  | .conditional test consequent alternative =>
    test.stamps ++ consequent.stamps ++ alternative.stamps
  | .lambda stamp _ body => stamp :: Form.stampsAll body
  | .letIn bindings body => Expr.bindingsStamps bindings ++ Form.stampsAll body
  | .apply operator operands => operator.stamps ++ Expr.stampsAll operands
  | _ => []

/-- The stamps of several expressions, in order. -/
def Expr.stampsAll : List Expr → List Nat
  | [] => []
  | expr :: rest => expr.stamps ++ Expr.stampsAll rest

/-- The stamps of bound values, in order. -/
def Expr.bindingsStamps : List (String × Expr) → List Nat
  | [] => []
  | (_, value) :: rest => value.stamps ++ Expr.bindingsStamps rest

/-- The stamps of a body element, in order. -/
def Form.stamps : Form → List Nat
  | .define _ value => value.stamps
  | .assign _ value => value.stamps
  | .expr body => body.stamps

/-- The stamps of several body elements, in order. -/
def Form.stampsAll : List Form → List Nat
  | [] => []
  | form :: rest => form.stamps ++ Form.stampsAll rest

end

/-- The stamps in either kind of code. -/
def Code.stamps : Code → List Nat
  | .expr body => body.stamps
  | .forms body => Form.stampsAll body

/-- The stamp that a piece of code has itself, apart from its parts. -/
def Code.ownStamps : Code → List Nat
  | .expr (.lambda stamp _ _) => [stamp]
  | _ => []

theorem Expr.stampsAll_eq (exprs : List Expr) :
    Expr.stampsAll exprs = exprs.flatMap Expr.stamps := by
  induction exprs with
  | nil => rfl
  | cons expr rest ih => simp only [Expr.stampsAll, ih, List.flatMap_cons]

theorem Expr.bindingsStamps_eq (bindings : List (String × Expr)) :
    Expr.bindingsStamps bindings = bindings.flatMap fun binding => binding.2.stamps := by
  induction bindings with
  | nil => rfl
  | cons binding rest ih => simp only [Expr.bindingsStamps, ih, List.flatMap_cons]

/-- The stamps of a piece of code are its own and those of its parts. -/
theorem Code.stamps_eq (scope : Scope) (code : Code) :
    code.stamps = code.ownStamps ++ (code.parts scope).flatMap fun part => part.2.stamps := by
  match code with
  | .forms [] => rfl
  | .forms (.define _ _ :: _) | .forms (.assign _ _ :: _) | .forms (.expr _ :: _) =>
    simp [stamps, ownStamps, Form.stampsAll, Form.stamps]
  | .expr (.conditional _ _ _) | .expr (.lambda _ _ _) => simp [stamps, ownStamps, Expr.stamps]
  | .expr (.letIn bindings body) =>
    simp [stamps, ownStamps, Expr.stamps, Expr.bindingsStamps_eq, List.flatMap_map]
  | .expr (.apply operator operands) =>
    simp [stamps, ownStamps, Expr.stamps, Expr.stampsAll_eq, List.flatMap_map]
  | .expr (.number _) | .expr (.boolean _) | .expr (.string _) | .expr (.primitive _)
  | .expr (.variable _) | .expr (.quoted _) => rfl

mutual

/-- The same expression with other stamps. Quoted data have none. -/
def Expr.restamp (change : Nat → Nat) : Expr → Expr
  | .conditional test consequent alternative =>
    .conditional (test.restamp change) (consequent.restamp change) (alternative.restamp change)
  | .lambda stamp params body => .lambda (change stamp) params (Form.restampAll change body)
  | .letIn bindings body =>
    .letIn (Expr.restampBindings change bindings) (Form.restampAll change body)
  | .apply operator operands =>
    .apply (operator.restamp change) (Expr.restampAll change operands)
  | expr => expr

/-- The same expressions with other stamps. -/
def Expr.restampAll (change : Nat → Nat) : List Expr → List Expr
  | [] => []
  | expr :: rest => expr.restamp change :: Expr.restampAll change rest

/-- The same bindings with other stamps. -/
def Expr.restampBindings (change : Nat → Nat) : List (String × Expr) → List (String × Expr)
  | [] => []
  | (name, value) :: rest => (name, value.restamp change) :: Expr.restampBindings change rest

/-- The same body element with other stamps. -/
def Form.restamp (change : Nat → Nat) : Form → Form
  | .define name value => .define name (value.restamp change)
  | .assign name value => .assign name (value.restamp change)
  | .expr body => .expr (body.restamp change)

/-- The same body elements with other stamps. -/
def Form.restampAll (change : Nat → Nat) : List Form → List Form
  | [] => []
  | form :: rest => form.restamp change :: Form.restampAll change rest

end

theorem Expr.restampAll_eq (change : Nat → Nat) (exprs : List Expr) :
    Expr.restampAll change exprs = exprs.map (Expr.restamp change) := by
  induction exprs with
  | nil => rfl
  | cons expr rest ih => simp only [Expr.restampAll, ih, List.map_cons]

theorem Expr.restampBindings_eq (change : Nat → Nat) (bindings : List (String × Expr)) :
    Expr.restampBindings change bindings =
      bindings.map fun binding => (binding.1, binding.2.restamp change) := by
  induction bindings with
  | nil => rfl
  | cons binding rest ih => simp only [Expr.restampBindings, ih, List.map_cons]

theorem Form.restampAll_eq (change : Nat → Nat) (forms : List Form) :
    Form.restampAll change forms = forms.map (Form.restamp change) := by
  induction forms with
  | nil => rfl
  | cons form rest ih => simp only [Form.restampAll, ih, List.map_cons]

-- What restamping does to stamps, and on which stamps it depends: one case for each constructor.
mutual

theorem Expr.restamp_congr {change change' : Nat → Nat} : (expr : Expr) →
    (∀ stamp ∈ expr.stamps, change stamp = change' stamp) →
    expr.restamp change = expr.restamp change'
  | .conditional test consequent alternative, agree => by
    simp only [Expr.stamps, List.forall_mem_append] at agree
    rw [Expr.restamp, Expr.restamp, Expr.restamp_congr test agree.1.1,
      Expr.restamp_congr consequent agree.1.2, Expr.restamp_congr alternative agree.2]
  | .lambda stamp _ body, agree => by
    simp only [Expr.stamps, List.forall_mem_cons] at agree
    rw [Expr.restamp, Expr.restamp, agree.1, Form.restampAll_congr body agree.2]
  | .letIn bindings body, agree => by
    simp only [Expr.stamps, List.forall_mem_append] at agree
    rw [Expr.restamp, Expr.restamp, Expr.restampBindings_congr bindings agree.1,
      Form.restampAll_congr body agree.2]
  | .apply operator operands, agree => by
    simp only [Expr.stamps, List.forall_mem_append] at agree
    rw [Expr.restamp, Expr.restamp, Expr.restamp_congr operator agree.1,
      Expr.restampAll_congr operands agree.2]
  | .number _, _ | .boolean _, _ | .string _, _ | .primitive _, _ | .variable _, _
  | .quoted _, _ => rfl
termination_by structural expr => expr

theorem Expr.restampAll_congr {change change' : Nat → Nat} : (exprs : List Expr) →
    (∀ stamp ∈ Expr.stampsAll exprs, change stamp = change' stamp) →
    Expr.restampAll change exprs = Expr.restampAll change' exprs
  | [], _ => rfl
  | expr :: rest, agree => by
    simp only [Expr.stampsAll, List.forall_mem_append] at agree
    rw [Expr.restampAll, Expr.restampAll, Expr.restamp_congr expr agree.1,
      Expr.restampAll_congr rest agree.2]
termination_by structural exprs => exprs

theorem Expr.restampBindings_congr {change change' : Nat → Nat} :
    (bindings : List (String × Expr)) →
    (∀ stamp ∈ Expr.bindingsStamps bindings, change stamp = change' stamp) →
    Expr.restampBindings change bindings = Expr.restampBindings change' bindings
  | [], _ => rfl
  | (_, value) :: rest, agree => by
    simp only [Expr.bindingsStamps, List.forall_mem_append] at agree
    rw [Expr.restampBindings, Expr.restampBindings, Expr.restamp_congr value agree.1,
      Expr.restampBindings_congr rest agree.2]
termination_by structural bindings => bindings

theorem Form.restamp_congr {change change' : Nat → Nat} : (form : Form) →
    (∀ stamp ∈ form.stamps, change stamp = change' stamp) →
    form.restamp change = form.restamp change'
  | .define _ value, agree => by rw [Form.restamp, Form.restamp, Expr.restamp_congr value agree]
  | .assign _ value, agree => by rw [Form.restamp, Form.restamp, Expr.restamp_congr value agree]
  | .expr body, agree => by rw [Form.restamp, Form.restamp, Expr.restamp_congr body agree]
termination_by structural form => form

theorem Form.restampAll_congr {change change' : Nat → Nat} : (forms : List Form) →
    (∀ stamp ∈ Form.stampsAll forms, change stamp = change' stamp) →
    Form.restampAll change forms = Form.restampAll change' forms
  | [], _ => rfl
  | form :: rest, agree => by
    simp only [Form.stampsAll, List.forall_mem_append] at agree
    rw [Form.restampAll, Form.restampAll, Form.restamp_congr form agree.1,
      Form.restampAll_congr rest agree.2]
termination_by structural forms => forms

end

mutual

theorem Expr.stamps_restamp (change : Nat → Nat) : (expr : Expr) →
    (expr.restamp change).stamps = expr.stamps.map change
  | .conditional test consequent alternative => by
    simp only [Expr.restamp, Expr.stamps, List.map_append, Expr.stamps_restamp change test,
      Expr.stamps_restamp change consequent, Expr.stamps_restamp change alternative]
  | .lambda _ _ body => by
    simp only [Expr.restamp, Expr.stamps, List.map_cons, Form.stampsAll_restampAll change body]
  | .letIn bindings body => by
    simp only [Expr.restamp, Expr.stamps, List.map_append,
      Expr.bindingsStamps_restampBindings change bindings, Form.stampsAll_restampAll change body]
  | .apply operator operands => by
    simp only [Expr.restamp, Expr.stamps, List.map_append, Expr.stamps_restamp change operator,
      Expr.stampsAll_restampAll change operands]
  | .number _ | .boolean _ | .string _ | .primitive _ | .variable _ | .quoted _ => rfl
termination_by structural expr => expr

theorem Expr.stampsAll_restampAll (change : Nat → Nat) : (exprs : List Expr) →
    Expr.stampsAll (Expr.restampAll change exprs) = (Expr.stampsAll exprs).map change
  | [] => rfl
  | expr :: rest => by
    simp only [Expr.restampAll, Expr.stampsAll, List.map_append, Expr.stamps_restamp change expr,
      Expr.stampsAll_restampAll change rest]
termination_by structural exprs => exprs

theorem Expr.bindingsStamps_restampBindings (change : Nat → Nat) :
    (bindings : List (String × Expr)) →
    Expr.bindingsStamps (Expr.restampBindings change bindings) =
      (Expr.bindingsStamps bindings).map change
  | [] => rfl
  | (_, value) :: rest => by
    simp only [Expr.restampBindings, Expr.bindingsStamps, List.map_append,
      Expr.stamps_restamp change value, Expr.bindingsStamps_restampBindings change rest]
termination_by structural bindings => bindings

theorem Form.stamps_restamp (change : Nat → Nat) : (form : Form) →
    (form.restamp change).stamps = form.stamps.map change
  | .define _ value | .assign _ value | .expr value => Expr.stamps_restamp change value
termination_by structural form => form

theorem Form.stampsAll_restampAll (change : Nat → Nat) : (forms : List Form) →
    Form.stampsAll (Form.restampAll change forms) = (Form.stampsAll forms).map change
  | [] => rfl
  | form :: rest => by
    simp only [Form.restampAll, Form.stampsAll, List.map_append, Form.stamps_restamp change form,
      Form.stampsAll_restampAll change rest]
termination_by structural forms => forms

end

mutual

/-- Restamping twice is restamping once. -/
theorem Expr.restamp_restamp (first second : Nat → Nat) : (expr : Expr) →
    (expr.restamp first).restamp second = expr.restamp fun stamp => second (first stamp)
  | .conditional test consequent alternative => by
    simp only [Expr.restamp, Expr.restamp_restamp first second test,
      Expr.restamp_restamp first second consequent, Expr.restamp_restamp first second alternative]
  | .lambda _ _ body => by simp only [Expr.restamp, Form.restampAll_restampAll first second body]
  | .letIn bindings body => by
    simp only [Expr.restamp, Expr.restampBindings_restampBindings first second bindings,
      Form.restampAll_restampAll first second body]
  | .apply operator operands => by
    simp only [Expr.restamp, Expr.restamp_restamp first second operator,
      Expr.restampAll_restampAll first second operands]
  | .number _ | .boolean _ | .string _ | .primitive _ | .variable _ | .quoted _ => rfl
termination_by structural expr => expr

theorem Expr.restampAll_restampAll (first second : Nat → Nat) : (exprs : List Expr) →
    Expr.restampAll second (Expr.restampAll first exprs) =
      Expr.restampAll (fun stamp => second (first stamp)) exprs
  | [] => rfl
  | expr :: rest => by
    simp only [Expr.restampAll, Expr.restamp_restamp first second expr,
      Expr.restampAll_restampAll first second rest]
termination_by structural exprs => exprs

theorem Expr.restampBindings_restampBindings (first second : Nat → Nat) :
    (bindings : List (String × Expr)) →
    Expr.restampBindings second (Expr.restampBindings first bindings) =
      Expr.restampBindings (fun stamp => second (first stamp)) bindings
  | [] => rfl
  | (_, value) :: rest => by
    simp only [Expr.restampBindings, Expr.restamp_restamp first second value,
      Expr.restampBindings_restampBindings first second rest]
termination_by structural bindings => bindings

theorem Form.restamp_restamp (first second : Nat → Nat) : (form : Form) →
    (form.restamp first).restamp second = form.restamp fun stamp => second (first stamp)
  | .define _ value | .assign _ value | .expr value => by
    simp only [Form.restamp, Expr.restamp_restamp first second value]
termination_by structural form => form

theorem Form.restampAll_restampAll (first second : Nat → Nat) : (forms : List Form) →
    Form.restampAll second (Form.restampAll first forms) =
      Form.restampAll (fun stamp => second (first stamp)) forms
  | [] => rfl
  | form :: rest => by
    simp only [Form.restampAll, Form.restamp_restamp first second form,
      Form.restampAll_restampAll first second rest]
termination_by structural forms => forms

end

mutual

theorem Expr.restamp_id : (expr : Expr) → expr.restamp id = expr
  | .conditional test consequent alternative => by
    simp only [Expr.restamp, Expr.restamp_id test, Expr.restamp_id consequent,
      Expr.restamp_id alternative]
  | .lambda _ _ body => by simp only [Expr.restamp, Form.restampAll_id body, id]
  | .letIn bindings body => by
    simp only [Expr.restamp, Expr.restampBindings_id bindings, Form.restampAll_id body]
  | .apply operator operands => by
    simp only [Expr.restamp, Expr.restamp_id operator, Expr.restampAll_id operands]
  | .number _ | .boolean _ | .string _ | .primitive _ | .variable _ | .quoted _ => rfl
termination_by structural expr => expr

theorem Expr.restampAll_id : (exprs : List Expr) → Expr.restampAll id exprs = exprs
  | [] => rfl
  | expr :: rest => by simp only [Expr.restampAll, Expr.restamp_id expr, Expr.restampAll_id rest]
termination_by structural exprs => exprs

theorem Expr.restampBindings_id : (bindings : List (String × Expr)) →
    Expr.restampBindings id bindings = bindings
  | [] => rfl
  | (_, value) :: rest => by
    simp only [Expr.restampBindings, Expr.restamp_id value, Expr.restampBindings_id rest]
termination_by structural bindings => bindings

theorem Form.restamp_id : (form : Form) → form.restamp id = form
  | .define _ value | .assign _ value | .expr value => by
    simp only [Form.restamp, Expr.restamp_id value]
termination_by structural form => form

theorem Form.restampAll_id : (forms : List Form) → Form.restampAll id forms = forms
  | [] => rfl
  | form :: rest => by simp only [Form.restampAll, Form.restamp_id form, Form.restampAll_id rest]
termination_by structural forms => forms

end

theorem Code.mem_stamps_of_at? {scope : Scope} {code : Code} {path : List Nat}
    {place : Scope × Code} (here : code.at? scope path = some place) {stamp : Nat}
    (member : stamp ∈ place.2.stamps) : stamp ∈ code.stamps := by
  induction path generalizing scope code with
  | nil =>
    cases here
    exact member
  | cons index path ih =>
    obtain ⟨part, found, inner⟩ := Option.bind_eq_some_iff.mp here
    rw [stamps_eq scope code]
    exact List.mem_append_right _
      (List.mem_flatMap.mpr ⟨part, List.mem_of_getElem? found, ih inner⟩)

/-- No path leads from a `lambda` into its own body and to the same stamp again. -/
theorem Code.own_stamp_not_below {scope inner : Scope} {stamp index : Nat}
    {params params' : List String} {body body' : List Form} {path : List Nat}
    (distinct : (Code.expr (.lambda stamp params body)).stamps.Nodup) :
    (Code.expr (.lambda stamp params body)).at? scope (index :: path)
      ≠ some (inner, .expr (.lambda stamp params' body')) := by
  intro here
  obtain ⟨part, found, below⟩ := Option.bind_eq_some_iff.mp here
  have member : stamp ∈ part.2.stamps := mem_stamps_of_at? below (by simp [stamps, Expr.stamps])
  rw [stamps_eq scope, List.nodup_append] at distinct
  exact distinct.2.2 stamp (by simp [ownStamps]) stamp
    (List.mem_flatMap.mpr ⟨part, List.mem_of_getElem? found, member⟩) rfl

/-- Parts with a stamp in common are the same part. -/
theorem Code.part_index_eq {scope : Scope} {code : Code} (distinct : code.stamps.Nodup)
    {index index' stamp : Nat} {part part' : Scope × Code}
    (here : (code.parts scope)[index]? = some part)
    (there : (code.parts scope)[index']? = some part')
    (member : stamp ∈ part.2.stamps) (member' : stamp ∈ part'.2.stamps) : index = index' := by
  rw [stamps_eq scope, List.nodup_append] at distinct
  have apart := (List.nodup_flatMap.mp distinct.2.1).2
  rw [List.pairwise_iff_getElem] at apart
  obtain ⟨bound, rfl⟩ := List.getElem?_eq_some_iff.mp here
  obtain ⟨bound', rfl⟩ := List.getElem?_eq_some_iff.mp there
  rcases Nat.lt_trichotomy index index' with less | equal | greater
  · exact absurd member' (apart index index' bound bound' less member)
  · exact equal
  · exact absurd member (apart index' index bound' bound greater member')

/-- Two paths in code without repeated stamps are the same when `lambda` occurrences with the same
stamp stand at their ends. -/
theorem Code.path_eq_of_stamp {scope : Scope} {code : Code} (distinct : code.stamps.Nodup)
    {path path' : List Nat} {inner inner' : Scope} {stamp : Nat} {params params' : List String}
    {body body' : List Form}
    (here : code.at? scope path = some (inner, .expr (.lambda stamp params body)))
    (there : code.at? scope path' = some (inner', .expr (.lambda stamp params' body'))) :
    path = path' := by
  induction path generalizing scope code path' with
  | nil =>
    cases here
    cases path' with
    | nil => rfl
    | cons index path' => exact absurd there (own_stamp_not_below distinct)
  | cons index path ih =>
    cases path' with
    | nil =>
      cases there
      exact absurd here (own_stamp_not_below distinct)
    | cons index' path' =>
      obtain ⟨part, found, below⟩ := Option.bind_eq_some_iff.mp here
      obtain ⟨part', found', below'⟩ := Option.bind_eq_some_iff.mp there
      have member : stamp ∈ part.2.stamps :=
        mem_stamps_of_at? below (by simp [stamps, Expr.stamps])
      have member' : stamp ∈ part'.2.stamps :=
        mem_stamps_of_at? below' (by simp [stamps, Expr.stamps])
      obtain rfl := part_index_eq distinct found found' member member'
      obtain rfl : part = part' := Option.some.inj (found.symm.trans found')
      have inside : part.2.stamps.Nodup := by
        rw [stamps_eq scope, List.nodup_append] at distinct
        exact (List.nodup_flatMap.mp distinct.2.1).1 part (List.mem_of_getElem? found)
      rw [ih inside below below']

end CellScheme
