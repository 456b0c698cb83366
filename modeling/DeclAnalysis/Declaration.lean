import DeclAnalysis.Event

/-!
# Declarations

A declaration binds a name to a type and says how the object is kept and who can see it. Two
declarations of one name conflict when both define the object or when their types differ.
-/

namespace DeclAnalysis

/-- Who can refer to a declared object. -/
inductive Linkage where
  /-- Every unit. -/
  | everywhere
  /-- The unit of the declaration. -/
  | unitOnly
  /-- The scope of the declaration. -/
  | scopeOnly
deriving DecidableEq

/-- The name of a linkage. -/
def Linkage.name : Linkage → String
  | .everywhere => "external"
  | .unitOnly => "internal"
  | .scopeOnly => "none"

/-- A declaration with everything that is known about it. -/
structure Declaration where
  /-- The declared name. -/
  name : String
  /-- Its type. -/
  type : Ty
  /-- How the object is kept. -/
  storage : StorageDuration
  /-- Who can see it. -/
  linkage : Linkage
  /-- Whether the object is constant. -/
  isConst : Bool
  /-- Whether the declaration makes the object. -/
  isDefinition : Bool
  /-- Its initializer. -/
  init : Option Initializer
  /-- The value of the object, if it is constant and known. -/
  constant : Option Constant
  /-- Where the declaration stands. -/
  span : Span
deriving DecidableEq

/-- Whether objects of a storage duration live as long as their program or thread. -/
def StorageDuration.isStable : StorageDuration → Bool
  | .static => true
  | .threadLocal => true
  | _ => false

namespace Declaration

/-- Whether the object starts out as zero. -/
def startsZeroed (d : Declaration) : Bool := d.storage.isStable

/-- Whether the address of the object stays the same. -/
def hasFixedAddress (d : Declaration) : Bool := d.storage.isStable

/-- Whether two declarations of a name cannot stand together. -/
def clashesWith (d e : Declaration) : Bool :=
  (d.isDefinition && e.isDefinition) || !d.type.same e.type

end Declaration

/-- The storage and linkage of a declaration that refers to an object made elsewhere. -/
def referringStorage (written : Option StorageDuration) : StorageDuration × Linkage :=
  if written = some .threadLocal then (.threadLocal, .everywhere) else (.static, .everywhere)

/-- The storage and linkage of a definition in the global scope or a namespace. A constant is seen
by its own unit only. -/
def namespaceStorage (written : Option StorageDuration) (isConst : Bool) :
    StorageDuration × Linkage :=
  match written with
  | none | some .automatic => (.static, if isConst then .unitOnly else .everywhere)
  | some .static => (.static, .unitOnly)
  | some .threadLocal => (.threadLocal, .everywhere)
  | some .freeStore => (.freeStore, .scopeOnly)
  | some .temporary => (.temporary, .scopeOnly)

/-- The storage and linkage of a definition in a class. -/
def classStorage (written : Option StorageDuration) : StorageDuration × Linkage :=
  match written with
  | none => (.automatic, .scopeOnly)
  | some .static => (.static, .everywhere)
  | some .threadLocal => (.threadLocal, .everywhere)
  | some other => (other, .scopeOnly)

/-- The storage and linkage of a declaration, by the scope it stands in. -/
def storageOf (scope : ScopeKind) (written : Option StorageDuration)
    (isConst isDefinition : Bool) : StorageDuration × Linkage :=
  if !isDefinition then referringStorage written
  else if scope.isNamespaceLike then namespaceStorage written isConst
  else if scope = .classBody then classStorage written
  else (written.getD .automatic, .scopeOnly)

end DeclAnalysis
