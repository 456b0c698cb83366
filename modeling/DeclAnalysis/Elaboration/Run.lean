import DeclAnalysis.Diagnostic.Queue
import DeclAnalysis.Elaboration.Declare
import DeclAnalysis.Scope.View

/-!
# Analysis of a unit

A unit is analysed event by event. Each event may change the scope tree, add to what is known, and
raise errors; every error is kept in the order in which it was raised and is also offered to the
diagnostic queue. By default the analysis goes on after an error. With `abort` it takes no further
event.

A scope that may not be opened is remembered by the depth at which it was refused, and the close
that belongs to it, the next one at that depth, is passed over. At the end of the unit the scopes
that are still open are reported and closed, innermost first.
-/

namespace DeclAnalysis

/-- How units are analysed. -/
structure Config where
  /-- The widths of the target. -/
  widths : Widths := {}
  /-- What the diagnostic queue takes. -/
  diagnostics : QueuePolicy := {}
  /-- Whether the first error ends the analysis. -/
  abort : Bool := false
deriving DecidableEq

/-- What came of a declaration. -/
structure DeclarationReport where
  /-- The declared name. -/
  name : String
  /-- Where the declaration stands. -/
  span : Span
  /-- The declaration, or what is wrong with it. -/
  result : Except Error Declaration

/-- What came of the use of a name. -/
structure NameUse where
  /-- The used name. -/
  name : String
  /-- Where it is used. -/
  span : Span
  /-- The declaration it refers to. -/
  resolved : Option Declaration
deriving DecidableEq

/-- Everything known about a unit at some point of its analysis. -/
structure UnitState where
  /-- The scopes. -/
  tree : ScopeTree
  /-- The diagnostics. -/
  queue : Queue
  /-- The depths at which scopes were refused, the latest first. -/
  refused : List Nat
  /-- The literals read so far. -/
  literals : List LiteralReading
  /-- The declarations met so far. -/
  declarations : List DeclarationReport
  /-- The uses met so far. -/
  uses : List NameUse
  /-- The errors raised so far. -/
  errors : List Error
  /-- Whether an error has ended the analysis. -/
  aborted : Bool

namespace UnitState

/-- The state before the first event. -/
def new (c : Config) (seed : Seed) : UnitState where
  tree := .new seed
  queue := .new c.diagnostics
  refused := []
  literals := []
  declarations := []
  uses := []
  errors := []
  aborted := false

/-- Raises an error. -/
def report (c : Config) (s : UnitState) (e : Error) : UnitState :=
  { s with
    queue := s.queue.add e.diagnostic
    errors := s.errors ++ [e]
    aborted := s.aborted || c.abort }

/-- Raises errors one after another. -/
def reportAll (c : Config) (s : UnitState) (errors : List Error) : UnitState :=
  errors.foldl (report c) s

@[simp] theorem tree_report (c : Config) (s : UnitState) (e : Error) :
    (s.report c e).tree = s.tree := rfl

@[simp] theorem errors_report (c : Config) (s : UnitState) (e : Error) :
    (s.report c e).errors = s.errors ++ [e] := rfl

@[simp] theorem tree_reportAll (c : Config) (s : UnitState) (errors : List Error) :
    (s.reportAll c errors).tree = s.tree := by
  induction errors generalizing s with
  | nil => rfl
  | cons e rest ih => exact ih (s.report c e)

@[simp] theorem errors_reportAll (c : Config) (s : UnitState) (errors : List Error) :
    (s.reportAll c errors).errors = s.errors ++ errors := by
  induction errors generalizing s with
  | nil => exact (List.append_nil _).symm
  | cons e rest ih => exact (ih (s.report c e)).trans (by simp)

/-- Raises the error of a failure. -/
def reportFailure {α : Type} (c : Config) (s : UnitState) : Except Error α → UnitState
  | .ok _ => s
  | .error e => s.report c e

/-- Keeps the readings of literals, with their warnings. -/
def addLiterals (s : UnitState) (readings : List LiteralReading) : UnitState :=
  { s with
    queue := s.queue.addAll (readings.filterMap (·.warning?))
    literals := s.literals ++ readings }

/-- Takes the tree of an operation on scopes, or raises its error. -/
def takeTree (c : Config) (s : UnitState) : Except Error ScopeTree → UnitState
  | .ok t => { s with tree := t }
  | .error e => s.report c e

/-- Opens a scope, or remembers that it was refused. -/
def openScope (c : Config) (s : UnitState) (kind : ScopeKind) (name : Option String) (span : Span) :
    UnitState :=
  match s.tree.openScope kind name span with
  | .ok (_, t) => { s with tree := t }
  | .error e => { s with refused := s.tree.depth :: s.refused }.report c e

/-- Closes the scope of a handle and raises what that brings to light. -/
def closeHandle (c : Config) (s : UnitState) (h : ScopeTree.Handle) (span : Span) : UnitState :=
  match s.tree.closeScope h span with
  | .ok (unresolved, t) => { s with tree := t }.reportAll c unresolved
  | .error e => s.report c e

/-- Closes the innermost scope, unless the close belongs to a refused open. -/
def closeScope (c : Config) (s : UnitState) (span : Span) : UnitState :=
  if s.refused.head? = some s.tree.depth then { s with refused := s.refused.tail }
  else
    match s.tree.innermost? with
    | none => s.report c (.unbalancedScope none span)
    | some h => s.closeHandle c h span

/-- Takes the literals, remarks and tree of a declaration. -/
def takeDeclared (s : UnitState) (d : Declared) : UnitState :=
  let s := s.addLiterals d.literals
  { s with tree := d.tree, queue := s.queue.addAll d.remarks }

/-- Declares a name. -/
def declare (c : Config) (s : UnitState) (e : DeclareEvent) : UnitState :=
  let declared := e.elaborate c.widths s.tree
  let s := (s.takeDeclared declared).reportFailure c declared.result
  { s with declarations := s.declarations ++ [⟨e.name, e.span, declared.result⟩] }

/-- Looks up a name that is used. -/
def use (c : Config) (s : UnitState) (name : String) (path : Option (List String)) (span : Span) :
    UnitState :=
  let resolved :=
    match path with
    | none => s.tree.lookup? name
    | some path => s.tree.lookupQualified? path name
  let s := if resolved.isNone then s.report c (.undeclaredName name span) else s
  { s with uses := s.uses ++ [⟨name, span, resolved⟩] }

/-- Reads a literal that stands on its own. -/
def literal (c : Config) (s : UnitState) (l : Literal) : UnitState :=
  let reading : LiteralReading := ⟨l, l.read c.widths⟩
  (s.addLiterals [reading]).reportFailure c reading.operand

/-- Takes one event. -/
def take (c : Config) (s : UnitState) : Event → UnitState
  | .literal l => s.literal c l
  | .openScope kind name span => s.openScope c kind name span
  | .closeScope span => s.closeScope c span
  | .declare e => s.declare c e
  | .use name path span => s.use c name path span
  | .assign name span => s.reportFailure c (s.tree.assign name span)
  | .label name span => s.takeTree c (s.tree.defineLabel name span)
  | .goto name span => s.takeTree c (s.tree.jumpTo name span)

/-- Takes one event, unless an error has ended the analysis. -/
def step (c : Config) (s : UnitState) (e : Event) : UnitState :=
  if s.aborted then s else s.take c e

/-- The state after some events. -/
def run (c : Config) (s : UnitState) (events : List Event) : UnitState := events.foldl (step c) s

/-- Reports an open scope and closes it. -/
def reportUnclosed (c : Config) (s : UnitState) (h : ScopeTree.Handle) : UnitState :=
  let scope := s.tree.scope h.id
  (s.report c (.unbalancedScope (some scope.kind) scope.span)).closeHandle c h scope.span

/-- Reports and closes the scopes that are still open, at most so many. -/
def closeOpen (c : Config) : Nat → UnitState → UnitState
  | 0, s => s
  | fuel + 1, s =>
    if s.aborted then s
    else
      match s.tree.innermost? with
      | none => s
      | some h => closeOpen c fuel (s.reportUnclosed c h)

/-- The state at the end of the unit: each step of the closing takes one scope off the open path. -/
def finish (c : Config) (s : UnitState) : UnitState := closeOpen c s.tree.depth s

end UnitState

/-- What the analysis of a unit found. -/
structure UnitReport where
  /-- Every literal, on its own or in a declaration, in order. -/
  literals : List LiteralReading
  /-- Every declaration, in order. -/
  declarations : List DeclarationReport
  /-- Every use, in order. -/
  uses : List NameUse
  /-- Every error, in the order in which it was raised. -/
  errors : List Error
  /-- The diagnostics, by position. -/
  diagnostics : List Diagnostic
  /-- The listing of the scopes. -/
  scopes : List ScopeView
  /-- The declarations that other units can see. -/
  exported : List Declaration
  /-- Whether an error ended the analysis. -/
  aborted : Bool

namespace UnitReport

/-- Whether the unit has errors. -/
def hasErrors (a : UnitReport) : Bool := !a.errors.isEmpty

/-- The first declaration of a name. -/
def declaration? (a : UnitReport) (name : String) : Option DeclarationReport :=
  a.declarations.find? (·.name = name)

end UnitReport

/-- The result that a state stands for. -/
def UnitState.result (s : UnitState) : UnitReport where
  literals := s.literals
  declarations := s.declarations
  uses := s.uses
  errors := s.errors
  diagnostics := s.queue.flush.1
  scopes := s.tree.listing
  exported := s.tree.exports
  aborted := s.aborted

/-- Analyses a unit against a seed. -/
def analyze (c : Config) (seed : Seed) (events : List Event) : UnitReport :=
  (((UnitState.new c seed).run c events).finish c).result

/-- Analyses units against one seed, each on its own. -/
def analyzeAll (c : Config) (seed : Seed) (units : List (List Event)) : List UnitReport :=
  units.map (analyze c seed)

namespace Seed

/-- The seed of the exports of analysed units. -/
def ofUnits (units : List UnitReport) : Except (List Error) Seed :=
  ofExports (units.map (·.exported))

/-- A seed with the exports of analysed units added. -/
def extendedByUnits (s : Seed) (units : List UnitReport) : Except (List Error) Seed :=
  s.extended (units.map (·.exported))

end Seed

end DeclAnalysis
