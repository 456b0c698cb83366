import DeclAnalysis.Constant
import DeclAnalysis.Ty.Range

/-!
# Narrowing conversions

A conversion is narrowing when the target cannot hold every value of the source. A source whose
value is known is judged by that value instead, but only when the conversion would otherwise be
narrowing: knowing the value never makes a conversion worse. Between integers and floating-point
numbers every conversion is narrowing, and between other types none is.
-/

namespace DeclAnalysis

/-- A narrowing conversion, with both types free of aliases and of an outer reference. -/
structure Narrowing where
  /-- The type converted from. -/
  source : Ty
  /-- The type converted to. -/
  target : Ty
deriving DecidableEq

/-- Whether a precision holds a value exactly. -/
def Precision.holds : Precision → Binary64 → Bool
  | .float, v => v.isSingle
  | .double, v => v.isFinite
  | .longDouble, v => v.isFinite

/-- Whether a conversion between integral ranges is narrowing. -/
def IntRange.narrowsTo (source : IntRange) (value : Option Constant) (target : IntRange) : Bool :=
  !target.covers source &&
    match value with
    | some (.int v) => !target.contains v
    | _ => true

/-- Whether a conversion between precisions is narrowing. -/
def Precision.narrowsTo (source : Precision) (value : Option Constant) (target : Precision) :
    Bool :=
  decide (target.rank < source.rank) &&
    match value with
    | some (.float v) => !target.holds v
    | _ => true

namespace Widths

/-- Whether a conversion between types without aliases or outer references is narrowing. -/
def narrows (w : Widths) (source : Ty) (value : Option Constant) (target : Ty) : Bool :=
  match w.range? source, w.range? target with
  | some r, some s => r.narrowsTo value s
  | some _, none => target.isFloating
  | none, some _ => source.isFloating
  | none, none =>
    match source, target with
    | .floating p, .floating q => p.narrowsTo value q
    | _, _ => false

/-- The narrowing that converting a value of the source type to the target type would be, if it is
one. -/
def narrowing? (w : Widths) (source : Ty) (value : Option Constant) (target : Ty) :
    Option Narrowing :=
  let source := source.designated.canonical
  let target := target.designated.canonical
  if w.narrows source value target then some ⟨source, target⟩ else none

end Widths

end DeclAnalysis
