import DeclAnalysis.Scope.Tree

/-!
# Listing of a scope tree

A tree is listed scope by scope, each one in front of the scopes inside it. The listing shows what a
scope holds but nothing of how the tree is kept.
-/

namespace DeclAnalysis

/-- What is shown of a scope. -/
structure ScopeView where
  /-- The number of the scope. -/
  id : Nat
  /-- Its kind. -/
  kind : ScopeKind
  /-- Its name. -/
  name : Option String
  /-- Where it is opened. -/
  span : Span
  /-- Whether it is still open. -/
  isOpen : Bool
  /-- Its declarations, in the order in which they came to stand. -/
  declarations : List Declaration
  /-- Its labels, by place and then by name. -/
  labels : List (String × Span)
  /-- The numbers of the scopes directly inside it. -/
  children : List Nat
deriving DecidableEq

/-- Labels are listed by place; labels of one place by name. -/
def labelLe (a b : String × Span) : Bool :=
  if a.2 = b.2 then textLe a.1.toList b.1.toList else a.2.le b.2

namespace ScopeTree

/-- What is shown of one scope. -/
def view (t : ScopeTree) (id : Nat) : ScopeView :=
  let s := t.scope id
  { id := id
    kind := s.kind
    name := s.name
    span := s.span
    isOpen := s.isOpen
    declarations := s.bindings.declarations
    labels := s.labels.mergeSort labelLe
    children := s.children }

/-- A scope and the scopes inside it, down to so many levels. -/
def descendants (t : ScopeTree) : Nat → Nat → List Nat
  | 0, _ => []
  | fuel + 1, id => id :: (t.scope id).children.flatMap (t.descendants fuel)

/-- A scope and all scopes inside it. No tree is deeper than the number of its scopes. -/
def subtree (t : ScopeTree) (id : Nat) : List Nat := t.descendants t.scopes.length id

/-- The listing of the whole tree. -/
def listing (t : ScopeTree) : List ScopeView := (t.subtree 0).map t.view

/-- The first scope of a kind in the listing. -/
def find? (t : ScopeTree) (kind : ScopeKind) : Option ScopeView := t.listing.find? (·.kind = kind)

end ScopeTree

end DeclAnalysis
