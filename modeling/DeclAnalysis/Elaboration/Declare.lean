import DeclAnalysis.Elaboration.Operand
import DeclAnalysis.Ty.Narrowing

/-!
# Elaborating a declaration

A declaration goes through these steps: its initializer is evaluated, its type is found, its storage
is settled, the initializer is checked against the type, the value of a constant is recorded, and
the name is bound.

A type that is written out does not depend on the initializer. So when the initializer of such a
declaration is at fault the name is bound all the same, and only then is the fault reported; later
uses of the name are spared a second error. A name that cannot be bound is reported in place of a
faulty initializer.
-/

namespace DeclAnalysis

/-! ## The declared type -/

/-- The type that one declarator layer makes. -/
def DeclaratorLayer.apply (layer : DeclaratorLayer) (t : Ty) : Ty :=
  match layer with
  | .pointer => .pointer t
  | .reference => .reference t
  | .array length => .array t length

/-- The type that declarator layers make, applied from left to right. An array of unknown length in
the last layer takes the given one. -/
def Ty.withLayers (lastLength : Option Nat) : Ty → List DeclaratorLayer → Ty
  | t, [] => t
  | t, [.array none] => .array t lastLength
  | t, layer :: rest => Ty.withLayers lastLength (layer.apply t) rest

namespace DeclareEvent

/-- The number of elements of an initializer in braces. -/
def listLength? (e : DeclareEvent) : Option Nat :=
  (e.init.filter (·.form.isBraced)).map (·.elements.length)

/-- The expressions of the initializer. -/
def elements (e : DeclareEvent) : List Expr :=
  match e.init with
  | some init => init.elements
  | none => []

/-- The initializer of a placeholder, by the types of its operands. -/
def placeholderSource (init : Initializer) (types : List Ty) : Except Error PlaceholderSource :=
  match init.form, types with
  | .copyList, all => .ok (.copyList all)
  | .directList, all => .ok (.directList all)
  | _, [single] => .ok (.expr single)
  | _, many => .error (.cannotDeduce (.parenthesizedList many.length) init.span)

/-- The type of a declaration with `auto`. A disagreement in a list is shown at the initializer,
other failures at the declaration. -/
def autoType (e : DeclareEvent) (operands : List Operand) : Except Error Ty :=
  match e.init with
  | none => .error (.cannotDeduce .noInitializer e.span)
  | some init =>
    match placeholderSource init (operands.map (·.type)) with
    | .error error => .error error
    | .ok placeholder =>
      match placeholder.deduceWith e.declarator with
      | .ok t => .ok t
      | .error (.ambiguousList first conflicting) =>
        .error (.ambiguousList first conflicting init.span)
      | .error (.cannotDeduce reason) => .error (.cannotDeduce reason e.span)

/-- The type of a declaration with `decltype`. Parentheses matter around a name only. -/
def decltypeType (e : DeclareEvent) (operand : Expr) (parenthesized : Bool) (o : Operand) : Ty :=
  (o.type.decltype (parenthesized && operand.isName)).withLayers e.listLength? e.declarator

/-- The type of a declaration whose initializer has the given operands. -/
def declaredType (w : Widths) (t : ScopeTree) (e : DeclareEvent) (operands : List Operand) :
    Evaluated Ty :=
  match e.base with
  | .explicit base => ⟨[], .ok (base.withLayers e.listLength? e.declarator)⟩
  | .auto => ⟨[], e.autoType operands⟩
  | .decltype operand parenthesized =>
    let evaluated := operand.evaluate w t
    ⟨evaluated.literals, evaluated.result.map (e.decltypeType operand parenthesized)⟩

end DeclareEvent

/-! ## The initializer against the type -/

/-- The note on a conversion that may change a value. -/
def Narrowing.remark (n : Narrowing) (span : Span) : Diagnostic where
  code := .implicitNarrowing
  severity := .note
  message := "implicit conversion from `" ++ n.source.spelling ++ "` to `" ++ n.target.spelling ++
    "` may change the value"
  labels := [⟨span, "narrowed here", true⟩]

/-- What the elements of an initializer in braces are converted to, and how many there may be. -/
def Ty.listTarget (t : Ty) : Ty × Option Nat :=
  match t.designated with
  | .array element length => (element, length)
  | .initializerList element => (element, none)
  | scalar => (scalar, some 1)

namespace Widths

/-- The first operand whose conversion to a type is narrowing, as an error. -/
def firstNarrowing? (w : Widths) (target : Ty) (operands : List Operand) : Option Error :=
  operands.findSome? fun o ↦
    (w.narrowing? o.type o.value target).map fun n ↦ .narrowing n.source n.target o.span

/-- What is wrong with the operands of an initializer in braces: there are too many, or one of them
is narrowed. -/
def listFault? (w : Widths) (t : Ty) (span : Span) (operands : List Operand) : Option Error :=
  match t.listTarget with
  | (target, some capacity) =>
    if capacity < operands.length then some (.tooManyInitializers capacity operands.length span)
    else w.firstNarrowing? target operands
  | (target, none) => w.firstNarrowing? target operands

/-- What is wrong with an initializer for a type. Outside braces nothing is. -/
def initFault? (w : Widths) (t : Ty) (init : Initializer) (operands : List Operand) :
    Option Error :=
  if init.form.isBraced then w.listFault? t init.span operands else none

/-- The notes on an initializer for a type. Outside braces narrowing is noted. -/
def initRemarks (w : Widths) (t : Ty) (init : Initializer) (operands : List Operand) :
    List Diagnostic :=
  if init.form.isBraced then []
  else operands.filterMap fun o ↦
    (w.narrowing? o.type o.value t).map fun n ↦ n.remark o.span

/-- A known value once it is converted to a type, as far as that is still known. -/
def convert? (w : Widths) (t : Ty) : Constant → Option Constant
  | .int v =>
    match w.range? t with
    | some range => if range.contains v then some (.int v) else none
    | none => none
  | .float v => if t.isFloating then some (.float v) else none

end Widths

/-! ## The whole declaration -/

/-- What comes of a declaration. -/
structure Declared where
  /-- The literals read on the way. -/
  literals : List LiteralReading
  /-- The notes on its initializer. -/
  remarks : List Diagnostic
  /-- The tree after it. -/
  tree : ScopeTree
  /-- The declaration, or what is wrong with it. -/
  result : Except Error Declaration

namespace DeclareEvent

/-- Whether the declaration lacks an initializer that it needs: constants and references do, outside
of classes, where they are defined. -/
def lacksInit (e : DeclareEvent) (scope : ScopeKind) (t : Ty) : Bool :=
  e.init.isNone && e.isDefinition && scope != .classBody && (e.isConst || t.isReference)

/-- The recorded value of a declaration with the given operands: constants that are no references
have the value of their only operand. -/
def constant? (w : Widths) (e : DeclareEvent) (t : Ty) (operands : List Operand) :
    Option Constant :=
  match operands with
  | [single] =>
    if e.isConst && !t.isReference then single.value.bind (w.convert? t) else none
  | _ => none

/-- The declaration of an event of a known type. -/
def declaration (w : Widths) (e : DeclareEvent) (scope : ScopeKind) (t : Ty)
    (operands : List Operand) : Declaration :=
  let (storage, linkage) := storageOf scope e.storage e.isConst e.isDefinition
  { name := e.name
    type := t
    storage := storage
    linkage := linkage
    isConst := e.isConst
    isDefinition := e.isDefinition
    init := e.init
    constant := e.constant? w t operands
    span := e.span }

/-- Binds a declaration of a known type. A fault of an operand stands in for the check of the
initializer. -/
def bind (w : Widths) (t : ScopeTree) (e : DeclareEvent) (operands : List Operand)
    (operandFault : Option Error) (type : Ty) (literals : List LiteralReading) : Declared :=
  if e.lacksInit t.currentKind type then
    ⟨literals, [], t, .error (.missingInitializer e.name type.isReference e.span)⟩
  else
    let remarks :=
      match operandFault, e.init with
      | none, some init => w.initRemarks type init operands
      | _, _ => []
    let fault :=
      match operandFault, e.init with
      | some error, _ => some error
      | none, some init => w.initFault? type init operands
      | none, none => none
    let d := e.declaration w t.currentKind type operands
    match t.declare d with
    | .error error => ⟨literals, remarks, t, .error error⟩
    | .ok (_, t') =>
      match fault with
      | some error => ⟨literals, remarks, t', .error error⟩
      | none => ⟨literals, remarks, t', .ok d⟩

/-- Finds the type of a declaration whose initializer was evaluated, and binds it. -/
def elaborateWith (w : Widths) (t : ScopeTree) (e : DeclareEvent) (operands : List Operand)
    (operandFault : Option Error) (literals : List LiteralReading) : Declared :=
  let typed := e.declaredType w t operands
  match typed.result with
  | .error error => ⟨literals ++ typed.literals, [], t, .error error⟩
  | .ok type => e.bind w t operands operandFault type (literals ++ typed.literals)

/-- Elaborates a declaration in the current scope of a tree. -/
def elaborate (w : Widths) (t : ScopeTree) (e : DeclareEvent) : Declared :=
  let evaluated := Expr.evaluateAll w t e.elements
  match evaluated.result with
  | .ok operands => e.elaborateWith w t operands none evaluated.literals
  | .error error =>
    if e.base.isExplicit then e.elaborateWith w t [] (some error) evaluated.literals
    else ⟨evaluated.literals, [], t, .error error⟩

end DeclareEvent

end DeclAnalysis
