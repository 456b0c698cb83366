import DeclAnalysis.Diagnostic.Basic
import DeclAnalysis.Literal.Fault
import DeclAnalysis.Scope.Kind
import DeclAnalysis.Ty.Deduction
import DeclAnalysis.Ty.Spelling

/-!
# Errors of a unit

Every way in which a unit can be wrong, each with what is needed to explain it. An error has a code,
a place, a short text and a diagnostic; the diagnostic has the code and the place of the error.
-/

namespace DeclAnalysis

/-- An error in a unit. -/
inductive Error where
  | literal (error : LiteralError)
  /-- A declaration that conflicts with an earlier one. -/
  | redefinition (name : String) (scope : ScopeKind) (span previous : Span)
  | undeclaredName (name : String) (span : Span)
  | undeclaredLabel (name : String) (span : Span)
  | narrowing (source target : Ty) (span : Span)
  | ambiguousList (first conflicting : Ty) (span : Span)
  | cannotDeduce (reason : DeductionFailure) (span : Span)
  /-- A scope that may not stand inside the one around it. -/
  | invalidNesting (kind parent : ScopeKind) (span : Span)
  /-- A close without an open, or an open scope of some kind without a close. -/
  | unbalancedScope (unclosed : Option ScopeKind) (span : Span)
  | immutableBinding (name : String) (isReference : Bool) (span declared : Span)
  | missingInitializer (name : String) (isReference : Bool) (span : Span)
  | duplicateLabel (name : String) (span previous : Span)
  | labelOutsideFunction (name : String) (span : Span)
  | tooManyInitializers (capacity found : Nat) (span : Span)
deriving DecidableEq

/-- A suggestion for a suffix that no literal of its kind has. -/
def LiteralFault.suffixHint (suffix : String) : String :=
  if suffix.toList.any fun c ↦ c == 'f' || c == 'F' then
    "`f` is only valid on floating literals; add a decimal point"
  else "valid integer suffixes are combinations of one `u` with `l` or `ll`"

namespace LiteralError

/-- The code of a literal error. -/
def code (e : LiteralError) : Code :=
  if e.fault.isOverflow then .literalOverflow else .malformedLiteral

/-- The diagnostic of a literal error. -/
def diagnostic (e : LiteralError) : Diagnostic :=
  let malformed := Diagnostic.errorAt .malformedLiteral e.fault.message e.span "in this literal"
  match e.fault with
  | .overflow text =>
    .errorAt .literalOverflow
      ("integer literal `" ++ text ++ "` is too large for any integer type") e.span
      "literal out of range"
  | .invalidSuffix suffix => malformed.suggesting (LiteralFault.suffixHint suffix)
  | .hexFloat => malformed.noting "hexadecimal floating literals are not supported"
  | _ => malformed

end LiteralError

namespace Error

/-- Where an error is. -/
def span : Error → Span
  | .literal e => e.span
  | .redefinition _ _ span _ => span
  | .undeclaredName _ span => span
  | .undeclaredLabel _ span => span
  | .narrowing _ _ span => span
  | .ambiguousList _ _ span => span
  | .cannotDeduce _ span => span
  | .invalidNesting _ _ span => span
  | .unbalancedScope _ span => span
  | .immutableBinding _ _ span _ => span
  | .missingInitializer _ _ span => span
  | .duplicateLabel _ span _ => span
  | .labelOutsideFunction _ span => span
  | .tooManyInitializers _ _ span => span

/-- The code of an error. -/
def code : Error → Code
  | .literal e => e.code
  | .redefinition _ _ _ _ => .redefinition
  | .undeclaredName _ _ => .undeclared
  | .undeclaredLabel _ _ => .undeclared
  | .narrowing _ _ _ => .narrowing
  | .ambiguousList _ _ _ => .ambiguousList
  | .cannotDeduce _ _ => .cannotDeduce
  | .invalidNesting _ _ _ => .invalidNesting
  | .unbalancedScope _ _ => .unbalancedScope
  | .immutableBinding _ _ _ _ => .immutableBinding
  | .missingInitializer _ _ _ => .missingInitializer
  | .duplicateLabel _ _ _ => .duplicateLabel
  | .labelOutsideFunction _ _ => .labelOutsideFunction
  | .tooManyInitializers _ _ _ => .tooManyInitializers

/-- The short text of an error. -/
def message : Error → String
  | .literal e => e.fault.message
  | .cannotDeduce reason _ => "cannot deduce placeholder type: " ++ reason.message
  | e => e.code.description ++ " at " ++ e.span.text

/-- The text of the error behind this one, if there is one. -/
def cause? : Error → Option String
  | .literal e => some e.fault.message
  | _ => none

/-- A text set off from the words around it. -/
private def quoted (text : String) : String := "`" ++ text ++ "`"

/-- The diagnostic of an error. -/
def diagnostic : Error → Diagnostic
  | .literal e => e.diagnostic
  | .redefinition name scope span previous =>
    (Diagnostic.errorAt .redefinition
      ("redefinition of " ++ quoted name ++ " in " ++ scope.name ++ " scope") span
      "redefined here").alsoAt previous (quoted name ++ " first declared here")
  | .undeclaredName name span =>
    (Diagnostic.errorAt .undeclared ("use of undeclared name " ++ quoted name) span
      "not found in this scope").suggesting
      ("check spelling, or declare " ++ quoted name ++ " before use")
  | .undeclaredLabel name span =>
    .errorAt .undeclared ("use of undeclared label " ++ quoted name) span
      "no such label in this function"
  | .narrowing source target span =>
    (Diagnostic.errorAt .narrowing
      ("narrowing conversion from " ++ quoted source.spelling ++ " to " ++ quoted target.spelling ++
        " in list-initialization")
      span ("cannot be narrowed to " ++ quoted target.spelling)).suggesting
      ("use `static_cast<" ++ target.spelling ++ ">(...)` to convert explicitly")
  | .ambiguousList first conflicting span =>
    (Diagnostic.errorAt .ambiguousList "cannot deduce element type of brace-enclosed list" span
      ("found " ++ quoted first.spelling ++ " and " ++ quoted conflicting.spelling)).noting
      "every element of a deduced initializer list must have the same type"
  | .cannotDeduce reason span =>
    .errorAt .cannotDeduce ("cannot deduce placeholder type: " ++ reason.message) span
      "in this declaration"
  | .invalidNesting kind parent span =>
    .errorAt .invalidNesting
      (kind.name ++ " scope cannot appear inside " ++ parent.name ++ " scope") span
      (kind.name ++ " scope opened here")
  | .unbalancedScope (some kind) span =>
    .errorAt .unbalancedScope (kind.name ++ " scope is never closed") span "opened here"
  | .unbalancedScope none span =>
    .errorAt .unbalancedScope "scope close without a matching open" span "unmatched close"
  | .immutableBinding name isReference span declared =>
    let why := if isReference then "a reference cannot be rebound" else "it is const"
    let what := if isReference then "reference" else "const"
    (Diagnostic.errorAt .immutableBinding ("cannot assign to " ++ quoted name ++ ": " ++ why) span
      "assignment here").alsoAt declared (quoted name ++ " declared " ++ what ++ " here")
  | .missingInitializer name isReference span =>
    let what := if isReference then "reference" else "const object"
    .errorAt .missingInitializer (what ++ " " ++ quoted name ++ " must be initialized") span
      "declared without an initializer"
  | .duplicateLabel name span previous =>
    (Diagnostic.errorAt .duplicateLabel ("label " ++ quoted name ++ " defined twice") span
      "redefined here").alsoAt previous "first defined here"
  | .labelOutsideFunction name span =>
    .errorAt .labelOutsideFunction ("label " ++ quoted name ++ " used outside of a function") span
      "not inside a function body"
  | .tooManyInitializers capacity found span =>
    .errorAt .tooManyInitializers
      ("too many initializers: expected at most " ++ toString capacity ++ ", found " ++
        toString found)
      span "excess elements"

end Error

end DeclAnalysis
