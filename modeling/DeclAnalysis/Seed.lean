import DeclAnalysis.Declaration
import DeclAnalysis.Error
import DeclAnalysis.NameMap
import DeclAnalysis.Order.Text

/-!
# Seeds

A seed holds the declarations that units share. A unit reads its seed and never changes it: a new
seed is built from the declarations that finished units export.
-/

namespace DeclAnalysis

/-- The declarations that units share. -/
structure Seed where
  /-- The declaration of each name. -/
  names : NameMap Declaration
deriving DecidableEq

namespace Seed

/-- The seed without names. -/
def empty : Seed := ⟨.empty⟩

/-- The declaration of a name. -/
def get? (s : Seed) (name : String) : Option Declaration := s.names.get? name

/-- The number of names. -/
def size (s : Seed) : Nat := s.names.entries.length

/-- Whether there are no names. -/
def isEmpty (s : Seed) : Bool := s.names.entries.isEmpty

/-- The declarations of the seed by name. -/
def sorted (s : Seed) : List Declaration :=
  s.names.values.mergeSort fun d e ↦ textLe d.name.toList e.name.toList

/-- Adds a declaration under the rules of the global scope. -/
def declare (s : Seed) (d : Declaration) : Except Error Seed :=
  let added : Seed := ⟨s.names.insert d.name d⟩
  match s.get? d.name with
  | none => .ok added
  | some previous =>
    if previous.clashesWith d then .error (.redefinition d.name .global d.span previous.span)
    else if d.isDefinition then .ok added
    else .ok s

/-- Adds declarations one after another. Those that are refused leave the seed alone and are
collected. -/
def declareAll (s : Seed) : List Declaration → Seed × List Error
  | [] => (s, [])
  | d :: rest =>
    match s.declare d with
    | .ok s' => s'.declareAll rest
    | .error e =>
      let (s', errors) := s.declareAll rest
      (s', e :: errors)

/-- The seed with the exports of units added in order. Any conflict spoils it, and all of them are
told. -/
def extended (s : Seed) (exports : List (List Declaration)) : Except (List Error) Seed :=
  match s.declareAll exports.flatten with
  | (s', []) => .ok s'
  | (_, errors) => .error errors

/-- A seed of the exports of units alone. -/
def ofExports (exports : List (List Declaration)) : Except (List Error) Seed :=
  empty.extended exports

end Seed

end DeclAnalysis
