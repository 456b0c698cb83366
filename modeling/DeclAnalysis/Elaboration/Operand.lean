import DeclAnalysis.Literal.Meaning
import DeclAnalysis.Scope.Tree

/-!
# Operands

The expressions of an initializer are evaluated to operands: a type, a value if it is known, and a
place. Evaluation looks at the scope tree and does not change it, but it reads literals on the way.
The readings are part of the result, also when an expression fails: literals before the failure have
been read, and nothing after it is looked at.
-/

namespace DeclAnalysis

/-- A literal that was read, and what came of it. -/
structure LiteralReading where
  /-- The literal. -/
  literal : Literal
  /-- Its meaning, or its fault. -/
  result : Except LiteralError LiteralMeaning

/-- The warning that a literal of several characters earns. -/
def LiteralReading.warning? (r : LiteralReading) : Option Diagnostic :=
  match r.result with
  | .ok ⟨_, .int value, true⟩ =>
    some
      { code := .multiCharacter
        severity := .warning
        message := "multi-character literal `" ++ r.literal.text ++ "`"
        labels := [⟨r.literal.span, "value is implementation-defined", true⟩]
        notes := ["this literal has type `int` and value " ++ toString value] }
  | _ => none

/-- An evaluated expression. -/
structure Operand where
  /-- The type of the expression. -/
  type : Ty
  /-- Its value, if it is known. -/
  value : Option Constant
  /-- Where it stands. -/
  span : Span
deriving DecidableEq

/-- The result of an evaluation, with the literals read for it. -/
structure Evaluated (α : Type) where
  /-- The literals that were read, in order. -/
  literals : List LiteralReading
  /-- What the evaluation gave. -/
  result : Except Error α

/-- The operand that a literal is. -/
def LiteralReading.operand (r : LiteralReading) : Except Error Operand :=
  match r.result with
  | .ok meaning => .ok ⟨meaning.type, some meaning.value, r.literal.span⟩
  | .error e => .error (.literal e)

namespace Expr

/-- Evaluates an expression. A name has the type and the known value of its declaration. -/
def evaluate (w : Widths) (t : ScopeTree) : Expr → Evaluated Operand
  | .literal l =>
    let reading : LiteralReading := ⟨l, l.read w⟩
    ⟨[reading], reading.operand⟩
  | .name n place =>
    match t.lookup? n with
    | some d => ⟨[], .ok ⟨d.type, d.constant, place⟩⟩
    | none => ⟨[], .error (.undeclaredName n place)⟩
  | .typed type value place => ⟨[], .ok ⟨type, value, place⟩⟩

/-- Evaluates expressions from left to right, up to the first that fails. -/
def evaluateAll (w : Widths) (t : ScopeTree) : List Expr → Evaluated (List Operand)
  | [] => ⟨[], .ok []⟩
  | e :: rest =>
    let first := e.evaluate w t
    match first.result with
    | .error error => ⟨first.literals, .error error⟩
    | .ok operand =>
      let others := evaluateAll w t rest
      ⟨first.literals ++ others.literals, others.result.map (operand :: ·)⟩

end Expr

end DeclAnalysis
