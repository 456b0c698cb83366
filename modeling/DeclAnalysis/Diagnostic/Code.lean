/-!
# Diagnostic codes

Every diagnostic carries a code under which it can be looked up. Codes that start with `E` are
errors, those that start with `W` are not.
-/

namespace DeclAnalysis

/-- The codes of diagnostics. -/
inductive Code where
  | malformedLiteral
  | literalOverflow
  | redefinition
  | undeclared
  | narrowing
  | ambiguousList
  | cannotDeduce
  | invalidNesting
  | unbalancedScope
  | immutableBinding
  | missingInitializer
  | duplicateLabel
  | labelOutsideFunction
  | tooManyInitializers
  | errorLimit
  | multiCharacter
  | implicitNarrowing
deriving DecidableEq

namespace Code

/-- Every code, in the order of the catalogue. -/
def all : List Code :=
  [.malformedLiteral, .literalOverflow, .redefinition, .undeclared, .narrowing, .ambiguousList,
    .cannotDeduce, .invalidNesting, .unbalancedScope, .immutableBinding, .missingInitializer,
    .duplicateLabel, .labelOutsideFunction, .tooManyInitializers, .errorLimit, .multiCharacter,
    .implicitNarrowing]

/-- The text of a code. -/
def text : Code → String
  | .malformedLiteral => "E0001"
  | .literalOverflow => "E0002"
  | .redefinition => "E2001"
  | .undeclared => "E2002"
  | .narrowing => "E2003"
  | .ambiguousList => "E2004"
  | .cannotDeduce => "E2005"
  | .invalidNesting => "E2006"
  | .unbalancedScope => "E2007"
  | .immutableBinding => "E2008"
  | .missingInitializer => "E2009"
  | .duplicateLabel => "E2010"
  | .labelOutsideFunction => "E2011"
  | .tooManyInitializers => "E2012"
  | .errorLimit => "E9001"
  | .multiCharacter => "W0001"
  | .implicitNarrowing => "W2001"

/-- What a code stands for. -/
def description : Code → String
  | .malformedLiteral => "malformed literal"
  | .literalOverflow => "integer literal is too large"
  | .redefinition => "conflicting redefinition"
  | .undeclared => "use of undeclared name"
  | .narrowing => "narrowing conversion in list-initialization"
  | .ambiguousList => "brace-list elements have different types"
  | .cannotDeduce => "cannot deduce placeholder type"
  | .invalidNesting => "scope cannot be nested here"
  | .unbalancedScope => "unbalanced scope"
  | .immutableBinding => "cannot assign to immutable binding"
  | .missingInitializer => "missing required initializer"
  | .duplicateLabel => "duplicate label"
  | .labelOutsideFunction => "label outside of a function"
  | .tooManyInitializers => "too many initializers"
  | .errorLimit => "error limit reached"
  | .multiCharacter => "multi-character literal"
  | .implicitNarrowing => "implicit narrowing conversion"

/-- Whether a code is about a literal. -/
def isLiteral : Code → Bool
  | .malformedLiteral => true
  | .literalOverflow => true
  | _ => false

/-- Whether a code is less than an error. -/
def isWarning : Code → Bool
  | .multiCharacter => true
  | .implicitNarrowing => true
  | _ => false

/-- The code of a text, in either case of its letter. ASCII letters suffice here: no other character
has an uppercase form made of the letters and digits of codes. -/
def ofText? (text : String) : Option Code :=
  all.find? fun code ↦ code.text.toList == text.toList.map Char.toUpper

/-- The place of a code in the catalogue. -/
def index (c : Code) : Nat := all.idxOf c

end Code

end DeclAnalysis
