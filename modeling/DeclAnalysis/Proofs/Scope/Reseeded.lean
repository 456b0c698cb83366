import DeclAnalysis.Proofs.Scope.Step
import DeclAnalysis.Scope.View

/-!
# Trees over another seed

A tree holds its seed and never copies anything from it. So a tree can be put over another seed at
any time (`reseeded`), and its operations give the same result before and after, with the tree of
the result over the new seed. Opening, closing and jumping do not ask the seed at all. Declaring and
looking up ask it for one name, and there the two seeds have to agree.
-/

namespace DeclAnalysis

namespace ScopeTree

/-- The tree over another seed. -/
def reseeded (t : ScopeTree) (seed : Seed) : ScopeTree := { t with seed := seed }

variable (t : ScopeTree) (seed : Seed)

@[simp] theorem seed_reseeded : (t.reseeded seed).seed = seed := rfl

@[simp] theorem scope_reseeded (id : Nat) : (t.reseeded seed).scope id = t.scope id := rfl

@[simp] theorem depth_reseeded : (t.reseeded seed).depth = t.depth := rfl

@[simp] theorem currentScope_reseeded : (t.reseeded seed).currentScope = t.currentScope := rfl

@[simp] theorem currentKind_reseeded : (t.reseeded seed).currentKind = t.currentKind := rfl

@[simp] theorem innermost?_reseeded : (t.reseeded seed).innermost? = t.innermost? := rfl

@[simp] theorem function?_reseeded : (t.reseeded seed).function? = t.function? := rfl

/-! ## Operations that do not ask the seed -/

theorem openScope_reseeded (kind : ScopeKind) (name : Option String) (span : Span) :
    (t.reseeded seed).openScope kind name span =
      (t.openScope kind name span).map fun result ↦ (result.1, result.2.reseeded seed) := by
  rw [openScope_eq, openScope_eq, currentKind_reseeded]
  split <;> rfl

theorem closeScope_reseeded (h : Handle) (span : Span) :
    (t.reseeded seed).closeScope h span =
      (t.closeScope h span).map fun result ↦ (result.1, result.2.reseeded seed) := by
  rw [closeScope_eq, closeScope_eq, show (t.reseeded seed).holds h = t.holds h from rfl]
  split <;> rfl

theorem defineLabel_reseeded (name : String) (span : Span) :
    (t.reseeded seed).defineLabel name span = (t.defineLabel name span).map (·.reseeded seed) := by
  rw [defineLabel, defineLabel, function?_reseeded]
  rcases t.function? with - | id
  · rfl
  · dsimp only
    rw [scope_reseeded]
    split <;> rfl

theorem jumpTo_reseeded (name : String) (span : Span) :
    (t.reseeded seed).jumpTo name span = (t.jumpTo name span).map (·.reseeded seed) := by
  rw [jumpTo, jumpTo, function?_reseeded]
  rcases t.function? with - | id
  · rfl
  · dsimp only
    rw [scope_reseeded]
    split <;> rfl

private theorem ancestors_reseeded (fuel id : Nat) :
    (t.reseeded seed).ancestors fuel id = t.ancestors fuel id := by
  induction fuel generalizing id with
  | zero => rfl
  | succ fuel ih =>
    rw [ancestors, ancestors, scope_reseeded]
    rcases (t.scope id).parent with - | parent
    · rfl
    · exact congrArg (t.scope id :: ·) (ih parent)

private theorem descendants_reseeded (fuel id : Nat) :
    (t.reseeded seed).descendants fuel id = t.descendants fuel id := by
  induction fuel generalizing id with
  | zero => rfl
  | succ fuel ih =>
    rw [descendants, descendants, funext ih]
    rfl

theorem listing_reseeded : (t.reseeded seed).listing = t.listing := by
  rw [listing, listing, subtree, subtree, descendants_reseeded]
  rfl

/-! ## Operations that ask the seed for one name -/

variable {t seed} {name : String}

theorem lookup?_reseeded (hname : seed.get? name = t.seed.get? name) :
    (t.reseeded seed).lookup? name = t.lookup? name := by
  rw [lookup?, lookup?, enclosing, enclosing, ancestors_reseeded, seed_reseeded, hname]
  rfl

theorem lookupQualified?_reseeded (hname : seed.get? name = t.seed.get? name)
    (path : List String) :
    (t.reseeded seed).lookupQualified? path name = t.lookupQualified? path name := by
  rw [lookupQualified?, lookupQualified?, seed_reseeded, hname]
  rfl

theorem assign_reseeded (hname : seed.get? name = t.seed.get? name) (span : Span) :
    (t.reseeded seed).assign name span = t.assign name span := by
  rw [assign, assign, lookup?_reseeded hname]

theorem declare_reseeded {d : Declaration} (hname : seed.get? d.name = t.seed.get? d.name) :
    (t.reseeded seed).declare d =
      (t.declare d).map fun result ↦ (result.1, result.2.reseeded seed) := by
  have hclash : (t.reseeded seed).seedClash? d = t.seedClash? d := by
    rw [seedClash?, seedClash?, seed_reseeded, hname]
    rfl
  rw [declare, declare, hclash, currentScope_reseeded]
  split
  · rfl
  · split <;> rfl

end ScopeTree

end DeclAnalysis
