import DeclAnalysis.Constant
import DeclAnalysis.Literal.Basic
import DeclAnalysis.Scope.Kind
import DeclAnalysis.Ty.Deduction

/-!
# Events of a unit

A unit is a list of events in the order of the text: a literal stands on its own, a scope opens or
closes, a name is declared, used, assigned to, or serves as a label. A declaration comes with its
base type, its declarator and its initializer already told apart.
-/

namespace DeclAnalysis

/-- An expression of an initializer or a `decltype`, as far as it matters here. -/
inductive Expr where
  | literal (literal : Literal)
  | name (name : String) (span : Span)
  /-- An expression whose type, and perhaps value, is already known. -/
  | typed (type : Ty) (value : Option Constant) (span : Span)
deriving DecidableEq

namespace Expr

/-- Where an expression stands. -/
def span : Expr → Span
  | .literal l => l.span
  | .name _ span => span
  | .typed _ _ span => span

/-- Whether an expression is just a name. -/
def isName : Expr → Bool
  | .name _ _ => true
  | _ => false

end Expr

/-- The ways to write an initializer. -/
inductive InitForm where
  /-- After an equals sign. -/
  | copy
  /-- In parentheses. -/
  | direct
  /-- In braces after an equals sign. -/
  | copyList
  /-- In braces. -/
  | directList
deriving DecidableEq

/-- Whether an initializer is in braces. -/
def InitForm.isBraced : InitForm → Bool
  | .copyList => true
  | .directList => true
  | _ => false

/-- An initializer. -/
structure Initializer where
  /-- How it is written. -/
  form : InitForm
  /-- Its expressions. -/
  elements : List Expr
  /-- Where it stands. -/
  span : Span
deriving DecidableEq

namespace Initializer

/-- The span from the first to the last of some expressions. -/
def spanOf : List Expr → Span
  | [] => Span.zero
  | e :: rest => rest.foldl (fun span e ↦ span.merge e.span) e.span

/-- The place of an initializer that gives none: a list spans its elements, a single copied
expression its own place. -/
def defaultSpan : InitForm → List Expr → Span
  | .copyList, elements => spanOf elements
  | .directList, elements => spanOf elements
  | .copy, [e] => e.span
  | _, _ => Span.zero

end Initializer

/-- What a declaration names in place of a type. -/
inductive Specifier where
  | explicit (type : Ty)
  | auto
  | decltype (operand : Expr) (parenthesized : Bool)
deriving DecidableEq

/-- Whether a base type is written out. -/
def Specifier.isExplicit : Specifier → Bool
  | .explicit _ => true
  | _ => false

/-- Where the object of a declaration is kept, and for how long. -/
inductive StorageDuration where
  | automatic
  | static
  | freeStore
  | threadLocal
  | temporary
deriving DecidableEq

/-- The name of a storage duration. -/
def StorageDuration.name : StorageDuration → String
  | .automatic => "automatic"
  | .static => "static"
  | .freeStore => "free-store"
  | .threadLocal => "thread-local"
  | .temporary => "temporary"

/-- The event of a declaration. -/
structure DeclareEvent where
  /-- The declared name. -/
  name : String
  /-- Where the declaration stands. -/
  span : Span
  /-- The type or placeholder at its front. -/
  base : Specifier
  /-- The layers around the base type, innermost first. -/
  declarator : List DeclaratorLayer
  /-- The storage duration, if one is written. -/
  storage : Option StorageDuration
  /-- Whether the object is constant. -/
  isConst : Bool
  /-- Whether the declaration makes the object, rather than refer to one made elsewhere. -/
  isDefinition : Bool
  /-- The initializer, if there is one. -/
  init : Option Initializer
deriving DecidableEq

/-- An event of a unit. -/
inductive Event where
  | literal (literal : Literal)
  | openScope (kind : ScopeKind) (name : Option String) (span : Span)
  | closeScope (span : Span)
  | declare (event : DeclareEvent)
  /-- The use of a name; a path, if given, is followed from the global scope. -/
  | use (name : String) (path : Option (List String)) (span : Span)
  | assign (name : String) (span : Span)
  | label (name : String) (span : Span)
  | goto (name : String) (span : Span)
deriving DecidableEq

/-- Where an event stands. -/
def Event.span : Event → Span
  | .literal l => l.span
  | .openScope _ _ span => span
  | .closeScope span => span
  | .declare e => e.span
  | .use _ _ span => span
  | .assign _ span => span
  | .label _ span => span
  | .goto _ span => span

end DeclAnalysis
