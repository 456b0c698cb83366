/-!
# Kinds of scopes

A scope is global, a namespace, a class, a function, a block or a statement, and each kind may stand
only inside some of the others. There is one global scope, and it stands inside none.
-/

namespace DeclAnalysis

/-- The kinds of scopes. -/
inductive ScopeKind where
  | global
  | namespaceBody
  | classBody
  | functionBody
  | block
  | statement
deriving DecidableEq

namespace ScopeKind

/-- The name of a kind. -/
def name : ScopeKind → String
  | .global => "global"
  | .namespaceBody => "namespace"
  | .classBody => "class"
  | .functionBody => "function"
  | .block => "block"
  | .statement => "statement"

/-- Whether declarations of this kind of scope live as long as the program. -/
def isNamespaceLike : ScopeKind → Bool
  | .global => true
  | .namespaceBody => true
  | _ => false

/-- Whether a scope of this kind can be named in a qualified name. -/
def isQualifier : ScopeKind → Bool
  | .namespaceBody => true
  | .classBody => true
  | _ => false

/-- Whether a scope of the first kind may stand directly inside one of the second kind. -/
def nestsIn (child parent : ScopeKind) : Bool :=
  match child, parent with
  | .global, _ => false
  | .namespaceBody, .global | .namespaceBody, .namespaceBody => true
  | .classBody, .statement => false
  | .classBody, _ => true
  | .functionBody, .global | .functionBody, .namespaceBody | .functionBody, .classBody => true
  | .block, .functionBody | .block, .block | .block, .statement => true
  | .statement, .functionBody | .statement, .block | .statement, .statement => true
  | _, _ => false

end ScopeKind

end DeclAnalysis
