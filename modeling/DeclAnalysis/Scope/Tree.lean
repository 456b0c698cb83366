import DeclAnalysis.Bindings
import DeclAnalysis.Seed

/-!
# The scope tree

A unit is a tree of scopes, and at any moment one path of it is open, from the global scope down to
the current one. Scopes are numbered in the order in which they are opened and are never forgotten:
closing a scope takes it off the open path, and it stays in the tree for qualified names and for the
listing.

Each scope knows its parent and its children. Lookup climbs the parents of the current scope and
then asks the seed. Labels belong to functions, so a label or a `goto` goes to the innermost open
function.

Every operation that fails leaves the tree as it was: it returns an error and no tree.
-/

namespace DeclAnalysis

/-- One scope of a tree. -/
structure Scope where
  /-- The kind of the scope. -/
  kind : ScopeKind
  /-- Its name, which only namespaces and classes are found by. -/
  name : Option String
  /-- The scope around it; the global scope has none. -/
  parent : Option Nat
  /-- The names bound in it. -/
  bindings : Bindings
  /-- The scopes directly inside it, in order. -/
  children : List Nat
  /-- Whether the scope is on the open path. -/
  isOpen : Bool
  /-- The labels of a function with the places that define them. -/
  labels : List (String × Span)
  /-- The jumps of an open function whose label was not yet defined when they were met. -/
  gotos : List (String × Span)
  /-- Where the scope is opened. -/
  span : Span
deriving DecidableEq

namespace Scope

/-- A scope that has just been opened. -/
def new (kind : ScopeKind) (name : Option String) (parent : Option Nat) (span : Span) : Scope where
  kind := kind
  name := name
  parent := parent
  bindings := .empty
  children := []
  isOpen := true
  labels := []
  gotos := []
  span := span

/-- The global scope of a new tree. -/
def root : Scope := new .global none none Span.zero

/-- Where a label of the scope is defined. -/
def label? (s : Scope) (name : String) : Option Span :=
  (s.labels.find? (·.1 = name)).map (·.2)

/-- The jumps that no label of the scope answers. -/
def unresolved (s : Scope) : List Error :=
  (s.gotos.filter fun g ↦ (s.label? g.1).isNone).map fun g ↦ .undeclaredLabel g.1 g.2

/-- The scope once it is closed. Its jumps are settled. -/
def close (s : Scope) : Scope := { s with isOpen := false, gotos := [] }

/-- Whether a segment of a qualified name leads to the scope. -/
def answersTo (s : Scope) (segment : String) : Bool :=
  decide (s.name = some segment) && s.kind.isQualifier

end Scope

/-- A tree of scopes with its open path. -/
structure ScopeTree where
  /-- The scopes by number; the global scope is number zero. -/
  scopes : List Scope
  /-- The numbers of the open scopes, innermost first; the global scope is the last of them. -/
  openPath : List Nat
  /-- What lookup falls back on. -/
  seed : Seed
deriving DecidableEq

/-- The right to close a scope: its number and the number of scopes that were open around it. -/
structure ScopeTree.Handle where
  /-- The number of the scope. -/
  id : Nat
  /-- The number of scopes around it. -/
  depth : Nat
deriving DecidableEq

namespace ScopeTree

/-- A tree with an open global scope and nothing else. -/
def new (seed : Seed) : ScopeTree := ⟨[Scope.root], [0], seed⟩

/-- A scope by its number. The global scope stands in for a number that no scope has. -/
def scope (t : ScopeTree) (id : Nat) : Scope := t.scopes.getD id Scope.root

/-- The number of the innermost open scope. -/
def current (t : ScopeTree) : Nat := t.openPath.headD 0

/-- The innermost open scope. -/
def currentScope (t : ScopeTree) : Scope := t.scope t.current

/-- The kind of the innermost open scope. -/
def currentKind (t : ScopeTree) : ScopeKind := t.currentScope.kind

/-- The number of open scopes. -/
def depth (t : ScopeTree) : Nat := t.openPath.length

/-- The tree with one scope changed. -/
def modify (t : ScopeTree) (id : Nat) (f : Scope → Scope) : ScopeTree :=
  { t with scopes := t.scopes.modify id f }

@[simp] theorem openPath_modify (t : ScopeTree) (id : Nat) (f : Scope → Scope) :
    (t.modify id f).openPath = t.openPath := rfl

@[simp] theorem seed_modify (t : ScopeTree) (id : Nat) (f : Scope → Scope) :
    (t.modify id f).seed = t.seed := rfl

@[simp] theorem length_scopes_modify (t : ScopeTree) (id : Nat) (f : Scope → Scope) :
    (t.modify id f).scopes.length = t.scopes.length := List.length_modify ..

theorem scope_modify_self (t : ScopeTree) {id : Nat} (f : Scope → Scope)
    (h : id < t.scopes.length) : (t.modify id f).scope id = f (t.scope id) := by
  simp [scope, modify, List.getD_eq_getElem?_getD, h]

theorem scope_modify_of_ne (t : ScopeTree) {id other : Nat} (f : Scope → Scope) (h : other ≠ id) :
    (t.modify id f).scope other = t.scope other := by
  simp [scope, modify, List.getD_eq_getElem?_getD, h.symm]

/-! ## Opening and closing -/

/-- Opens a scope inside the current one, if scopes of its kind may stand there. -/
def openScope (t : ScopeTree) (kind : ScopeKind) (name : Option String) (span : Span) :
    Except Error (ScopeTree.Handle × ScopeTree) :=
  if kind.nestsIn t.currentKind then
    let id := t.scopes.length
    let scopes := t.scopes.modify t.current fun s ↦ { s with children := s.children ++ [id] }
    .ok (⟨id, t.depth⟩,
      { t with
        scopes := scopes ++ [Scope.new kind name (some t.current) span]
        openPath := id :: t.openPath })
  else .error (.invalidNesting kind t.currentKind span)

/-- Whether the scope of a handle is open: it stands on the open path where it was put. The global
scope is never closed. -/
def holds (t : ScopeTree) (h : ScopeTree.Handle) : Bool :=
  decide (0 < h.depth) && decide (t.openPath.reverse[h.depth]? = some h.id)

/-- Closes the scope of a handle and every open scope inside it. The result tells the jumps without
a label of the functions that are closed, innermost function first. -/
def closeScope (t : ScopeTree) (h : ScopeTree.Handle) (span : Span) :
    Except Error (List Error × ScopeTree) :=
  if t.holds h then
    let closing := t.openPath.take (t.depth - h.depth)
    .ok (closing.flatMap fun id ↦ (t.scope id).unresolved,
      { t with
        scopes := closing.foldl (fun scopes id ↦ scopes.modify id Scope.close) t.scopes
        openPath := t.openPath.drop (t.depth - h.depth) })
  else .error (.unbalancedScope none span)

/-- The handles of the open scopes but the global one, outermost first. -/
def handles (t : ScopeTree) : List ScopeTree.Handle :=
  (t.openPath.reverse.zipIdx.map fun (id, depth) ↦ ⟨id, depth⟩).drop 1

/-- The handle of the innermost open scope, unless it is the global one. -/
def innermost? (t : ScopeTree) : Option ScopeTree.Handle :=
  if 1 < t.depth then some ⟨t.current, t.depth - 1⟩ else none

/-! ## Declaring and looking up -/

/-- The declaration of the seed that a declaration in the current scope conflicts with. Only the
global scope shares its names with the seed. -/
def seedClash? (t : ScopeTree) (d : Declaration) : Option Declaration :=
  if t.currentKind = .global then (t.seed.get? d.name).filter (·.clashesWith d) else none

/-- Declares a name in the current scope. The result is the declaration that stands for the name. -/
def declare (t : ScopeTree) (d : Declaration) : Except Error (Declaration × ScopeTree) :=
  let redefinition (previous : Declaration) : Error :=
    .redefinition d.name t.currentKind d.span previous.span
  match t.seedClash? d with
  | some previous => .error (redefinition previous)
  | none =>
    match t.currentScope.bindings.declare d with
    | .error previous => .error (redefinition previous)
    | .ok (standing, bindings) =>
      .ok (standing, t.modify t.current fun s ↦ { s with bindings := bindings })

/-- The scopes met on the way up from a scope, at most so many. -/
def ancestors (t : ScopeTree) : Nat → Nat → List Scope
  | 0, _ => []
  | fuel + 1, id =>
    let s := t.scope id
    s :: match s.parent with
      | none => []
      | some parent => t.ancestors fuel parent

/-- The scopes from the current one up to the global one. No way up is longer than the number of
scopes. -/
def enclosing (t : ScopeTree) : List Scope := t.ancestors t.scopes.length t.current

/-- The declaration that a name refers to: the innermost one, or else the one of the seed. -/
def lookup? (t : ScopeTree) (name : String) : Option Declaration :=
  (t.enclosing.findSome? (·.bindings.get? name)).or (t.seed.get? name)

/-- The declaration of a name in the current scope itself. -/
def lookupLocal? (t : ScopeTree) (name : String) : Option Declaration :=
  t.currentScope.bindings.get? name

/-- The namespaces and classes of a name directly inside some scopes. -/
def descend (t : ScopeTree) (ids : List Nat) (segment : String) : List Nat :=
  (ids.flatMap fun id ↦ (t.scope id).children).filter fun id ↦ (t.scope id).answersTo segment

/-- The declaration of a name at the end of a path from the global scope. Several scopes may share a
path; the first one that binds the name counts. Only the empty path leads on to the seed. -/
def lookupQualified? (t : ScopeTree) (path : List String) (name : String) : Option Declaration :=
  let found := (path.foldl t.descend [0]).findSome? fun id ↦ (t.scope id).bindings.get? name
  if path.isEmpty then found.or (t.seed.get? name) else found

/-- The declaration of the object that an assignment changes. Constants and references are not
assigned to. -/
def assign (t : ScopeTree) (name : String) (span : Span) : Except Error Declaration :=
  match t.lookup? name with
  | none => .error (.undeclaredName name span)
  | some d =>
    if d.isConst || d.type.isReference then
      .error (.immutableBinding name d.type.isReference span d.span)
    else .ok d

/-! ## Labels -/

/-- The innermost open function. -/
def function? (t : ScopeTree) : Option Nat :=
  t.openPath.find? fun id ↦ (t.scope id).kind = .functionBody

/-- Defines a label in the innermost open function. -/
def defineLabel (t : ScopeTree) (name : String) (span : Span) : Except Error ScopeTree :=
  match t.function? with
  | none => .error (.labelOutsideFunction name span)
  | some id =>
    match (t.scope id).label? name with
    | some previous => .error (.duplicateLabel name span previous)
    | none => .ok (t.modify id fun s ↦ { s with labels := s.labels ++ [(name, span)] })

/-- Jumps to a label of the innermost open function, which may be defined later. -/
def jumpTo (t : ScopeTree) (name : String) (span : Span) : Except Error ScopeTree :=
  match t.function? with
  | none => .error (.labelOutsideFunction name span)
  | some id =>
    match (t.scope id).label? name with
    | some _ => .ok t
    | none => .ok (t.modify id fun s ↦ { s with gotos := s.gotos ++ [(name, span)] })

/-- Where a label of the innermost open function is defined. -/
def lookupLabel? (t : ScopeTree) (name : String) : Option Span :=
  t.function?.bind fun id ↦ (t.scope id).label? name

/-- The declarations of the global scope that other units can see, in order. -/
def exports (t : ScopeTree) : List Declaration :=
  (t.scope 0).bindings.declarations.filter (·.linkage = .everywhere)

end ScopeTree

end DeclAnalysis
