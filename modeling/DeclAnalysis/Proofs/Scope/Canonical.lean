import DeclAnalysis.Proofs.Scope.Step
import DeclAnalysis.Proofs.Ty.Canonical
import DeclAnalysis.Scope.View
import Mathlib.Data.List.GetD

/-!
# Scope trees without aliases

The canonical form of a tree has the aliases in the types of its declarations resolved, those of its
seed included. Nothing that a tree does depends on the aliases: every operation on the canonical
form is the canonical form of the operation. The types of a tree matter in two places only, when a
declaration is compared with one that stands for its name and when an assignment asks for a
reference.

Aliases occur in declarations, in the expressions of their initializers and in errors. The canonical
form of each resolves them all and leaves the rest alone.
-/

namespace DeclAnalysis

/-! ## The canonical forms -/

/-- The expression with the aliases in its type resolved. -/
def Expr.canonical : Expr → Expr
  | .typed type value span => .typed type.canonical value span
  | e => e

/-- The initializer with the aliases in its expressions resolved. -/
def Initializer.canonical (i : Initializer) : Initializer :=
  { i with elements := i.elements.map Expr.canonical }

/-- The declaration with its aliases resolved. -/
def Declaration.canonical (d : Declaration) : Declaration :=
  { d with type := d.type.canonical, init := d.init.map Initializer.canonical }

/-- The error with the aliases in its types resolved. -/
def Error.canonical : Error → Error
  | .narrowing source target span => .narrowing source.canonical target.canonical span
  | .ambiguousList first conflicting span =>
    .ambiguousList first.canonical conflicting.canonical span
  | .cannotDeduce reason span => .cannotDeduce reason.canonical span
  | e => e

/-- The bindings with the aliases in the declarations of their arena resolved. -/
def Bindings.canonical (b : Bindings) : Bindings where
  arena := b.arena.map Declaration.canonical
  places := b.places
  holds name place hplace := by
    rw [List.getElem?_map, Option.map_map]
    exact b.holds name place hplace

/-- The seed with the aliases in its declarations resolved. -/
def Seed.canonical (s : Seed) : Seed :=
  ⟨⟨s.names.entries.map fun entry ↦ (entry.1, entry.2.canonical)⟩⟩

/-- The scope with the aliases in its declarations resolved. -/
def Scope.canonical (s : Scope) : Scope := { s with bindings := s.bindings.canonical }

/-- The tree with the aliases in its declarations resolved. -/
def ScopeTree.canonical (t : ScopeTree) : ScopeTree :=
  { t with scopes := t.scopes.map Scope.canonical, seed := t.seed.canonical }

/-- What is shown of a scope, with the aliases in its declarations resolved. -/
def ScopeView.canonical (v : ScopeView) : ScopeView :=
  { v with declarations := v.declarations.map Declaration.canonical }

/-! ### What they leave alone -/

@[simp] theorem Initializer.form_canonical (i : Initializer) : i.canonical.form = i.form := rfl

@[simp] theorem Initializer.span_canonical (i : Initializer) : i.canonical.span = i.span := rfl

@[simp] theorem Declaration.name_canonical (d : Declaration) : d.canonical.name = d.name := rfl

@[simp] theorem Scope.bindings_canonical (s : Scope) :
    s.canonical.bindings = s.bindings.canonical := rfl

@[simp] theorem Scope.parent_canonical (s : Scope) : s.canonical.parent = s.parent := rfl

@[simp] theorem Scope.label?_canonical (s : Scope) (name : String) :
    s.canonical.label? name = s.label? name := rfl

@[simp] theorem ScopeTree.depth_canonical (t : ScopeTree) : t.canonical.depth = t.depth := rfl

@[simp] theorem ScopeTree.innermost?_canonical (t : ScopeTree) :
    t.canonical.innermost? = t.innermost? := rfl

/-! ## Bindings -/

@[simp] theorem Declaration.clashesWith_canonical (d e : Declaration) :
    d.canonical.clashesWith e.canonical = d.clashesWith e := by
  simp only [clashesWith, canonical, Ty.same_canonical]

namespace Bindings

@[simp] theorem get?_canonical (b : Bindings) (name : String) :
    b.canonical.get? name = (b.get? name).map Declaration.canonical := by
  rw [get?, get?, Option.map_bind]
  refine congrArg (Option.bind _) (funext fun place ↦ ?_)
  exact List.getElem?_map

private theorem insert_canonical (b : Bindings) (d : Declaration) :
    b.canonical.insert d.canonical = (b.insert d).canonical := by
  simp only [insert, canonical, List.length_map, List.map_append, Declaration.name_canonical]
  rfl

private theorem declarations_canonical (b : Bindings) :
    b.canonical.declarations = b.declarations.map Declaration.canonical := by
  rw [declarations, declarations, canonical, List.zipIdx_map, List.filter_map, List.map_map,
    List.map_map]
  rfl

theorem declare_canonical (b : Bindings) (d : Declaration) :
    b.canonical.declare d.canonical =
      mapBoth Declaration.canonical (Prod.map Declaration.canonical canonical) (b.declare d) := by
  rw [declare, declare, Declaration.name_canonical, get?_canonical]
  cases b.get? d.name with
  | none => rw [Option.map_none, insert_canonical]; rfl
  | some standing =>
    rw [Option.map_some]
    dsimp only
    rw [Declaration.clashesWith_canonical, insert_canonical]
    split
    · rfl
    · split
      · next hdef => rw [if_pos (show d.isDefinition = true from hdef)]; rfl
      · next hdef => rw [if_neg (show ¬ d.isDefinition = true from hdef)]; rfl

end Bindings

@[simp] theorem Seed.get?_canonical (s : Seed) (name : String) :
    s.canonical.get? name = (s.get? name).map Declaration.canonical := by
  rw [get?, get?, NameMap.get?, NameMap.get?, canonical, List.find?_map, Option.map_map,
    Option.map_map]
  rfl

private theorem Scope.map_canonical_modify {f g : Scope → Scope}
    (h : ∀ s, (f s).canonical = g s.canonical) (scopes : List Scope) (id : Nat) :
    (scopes.modify id f).map Scope.canonical = (scopes.map Scope.canonical).modify id g := by
  refine List.ext_getElem? fun i ↦ ?_
  by_cases hi : id = i
  · simp [hi, Function.comp_def, h]
  · simp [hi]

namespace ScopeTree

variable (t : ScopeTree)

/-! ## Opening and closing -/

@[simp] theorem scope_canonical (id : Nat) : t.canonical.scope id = (t.scope id).canonical :=
  List.getD_map t.scopes Scope.root Scope.canonical

@[simp] theorem currentScope_canonical : t.canonical.currentScope = t.currentScope.canonical :=
  t.scope_canonical t.current

@[simp] theorem currentKind_canonical : t.canonical.currentKind = t.currentKind := by
  rw [currentKind, currentScope_canonical]
  rfl

private theorem modify_canonical (id : Nat) {f g : Scope → Scope}
    (h : ∀ s, (f s).canonical = g s.canonical) :
    (t.modify id f).canonical = t.canonical.modify id g := by
  simp only [modify, canonical, Scope.map_canonical_modify h]

private theorem opened_canonical (kind : ScopeKind) (name : Option String) (span : Span) :
    (t.opened kind name span).canonical = t.canonical.opened kind name span := by
  simp only [opened, canonical, List.map_append, List.length_map]
  rw [Scope.map_canonical_modify]
  · rfl
  · exact fun _ ↦ rfl

theorem openScope_canonical (kind : ScopeKind) (name : Option String) (span : Span) :
    t.canonical.openScope kind name span =
      mapBoth Error.canonical (Prod.map id canonical) (t.openScope kind name span) := by
  rw [openScope_eq, openScope_eq, currentKind_canonical, ← opened_canonical]
  split
  · simp [canonical, depth]
  · rfl

private theorem closeInner_canonical (n : Nat) :
    (t.closeInner n).canonical = t.canonical.closeInner n := by
  have hclose (ids : List Nat) (scopes : List Scope) :
      (ids.foldl (fun scopes id ↦ scopes.modify id Scope.close) scopes).map Scope.canonical =
        ids.foldl (fun scopes id ↦ scopes.modify id Scope.close) (scopes.map Scope.canonical) := by
    induction ids generalizing scopes with
    | nil => rfl
    | cons id rest ih =>
      rw [List.foldl_cons, List.foldl_cons, ih, Scope.map_canonical_modify]
      exact fun _ ↦ rfl
  simp only [closeInner, canonical, hclose]

theorem closeScope_canonical (h : Handle) (span : Span) :
    t.canonical.closeScope h span =
      mapBoth Error.canonical (Prod.map (·.map Error.canonical) canonical)
        (t.closeScope h span) := by
  have hunresolved (s : Scope) : s.canonical.unresolved = s.unresolved.map Error.canonical := by
    rw [Scope.unresolved, Scope.unresolved, List.map_map]
    rfl
  rw [closeScope_eq, closeScope_eq, ← closeInner_canonical]
  simp only [scope_canonical, hunresolved]
  split
  · next hholds =>
    rw [if_pos (show t.holds h = true from hholds), mapBoth_ok, Prod.map_apply, List.map_flatMap]
    rfl
  · next hholds => rw [if_neg (show ¬ t.holds h = true from hholds)]; rfl

/-! ## Declaring and looking up -/

theorem declare_canonical (d : Declaration) :
    t.canonical.declare d.canonical =
      mapBoth Error.canonical (Prod.map Declaration.canonical canonical) (t.declare d) := by
  -- the seed is asked in the global scope only, and clashes are judged by canonical types
  have hseed : t.canonical.seedClash? d.canonical =
      (t.seedClash? d).map Declaration.canonical := by
    rw [seedClash?, seedClash?, currentKind_canonical]
    split
    · change (t.seed.canonical.get? d.name).filter _ = _
      rw [Seed.get?_canonical, Option.filter_map]
      simp only [Function.comp_def, Declaration.clashesWith_canonical]
    · rfl
  rw [declare, declare, hseed, currentKind_canonical]
  cases t.seedClash? d with
  | some previous => rfl
  | none =>
    rw [Option.map_none]
    dsimp only
    rw [currentScope_canonical, Scope.bindings_canonical, Bindings.declare_canonical]
    cases t.currentScope.bindings.declare d with
    | error previous => rfl
    | ok accepted =>
      obtain ⟨standing, bindings⟩ := accepted
      dsimp only [mapBoth_ok, Prod.map_apply]
      rw [modify_canonical]
      · rfl
      · exact fun _ ↦ rfl

private theorem ancestors_canonical (fuel id : Nat) :
    t.canonical.ancestors fuel id = (t.ancestors fuel id).map Scope.canonical := by
  induction fuel generalizing id with
  | zero => rfl
  | succ fuel ih =>
    rw [ancestors, ancestors, scope_canonical, List.map_cons, Scope.parent_canonical]
    cases (t.scope id).parent with
    | none => rfl
    | some parent => exact congrArg _ (ih parent)

theorem lookup?_canonical (name : String) :
    t.canonical.lookup? name = (t.lookup? name).map Declaration.canonical := by
  have hlength : t.canonical.scopes.length = t.scopes.length := List.length_map ..
  have hseed : t.canonical.seed.get? name = (t.seed.get? name).map Declaration.canonical :=
    t.seed.get?_canonical name
  rw [lookup?, lookup?, enclosing, enclosing, hlength, ancestors_canonical, List.findSome?_map,
    hseed, Option.map_or, List.map_findSome?]
  simp only [Function.comp_def, Scope.bindings_canonical, Bindings.get?_canonical]
  rfl

theorem lookupQualified?_canonical (path : List String) (name : String) :
    t.canonical.lookupQualified? path name =
      (t.lookupQualified? path name).map Declaration.canonical := by
  have hdescend : t.canonical.descend = t.descend := by
    funext ids segment
    simp only [descend, scope_canonical]
    rfl
  have hseed : t.canonical.seed.get? name = (t.seed.get? name).map Declaration.canonical :=
    t.seed.get?_canonical name
  rw [lookupQualified?, lookupQualified?, hdescend]
  simp only [scope_canonical, Scope.bindings_canonical, Bindings.get?_canonical, hseed]
  split
  · rw [Option.map_or, List.map_findSome?]
    rfl
  · rw [List.map_findSome?]
    rfl

theorem assign_canonical (name : String) (span : Span) :
    t.canonical.assign name span =
      mapBoth Error.canonical Declaration.canonical (t.assign name span) := by
  rw [assign, assign, lookup?_canonical]
  cases t.lookup? name with
  | none => rfl
  | some d =>
    rw [Option.map_some]
    change (if (d.isConst || d.type.canonical.isReference) = true then
      Except.error (Error.immutableBinding name d.type.canonical.isReference span d.span)
      else Except.ok d.canonical) = _
    rw [Ty.isReference_canonical]
    dsimp only
    split <;> rfl

/-! ## Labels -/

private theorem function?_canonical : t.canonical.function? = t.function? := by
  simp only [function?, scope_canonical]
  rfl

theorem defineLabel_canonical (name : String) (span : Span) :
    t.canonical.defineLabel name span =
      mapBoth Error.canonical canonical (t.defineLabel name span) := by
  rw [defineLabel, defineLabel, function?_canonical]
  cases t.function? with
  | none => rfl
  | some id =>
    dsimp only
    rw [scope_canonical, Scope.label?_canonical]
    cases (t.scope id).label? name with
    | some previous => rfl
    | none =>
      dsimp only [mapBoth_ok]
      rw [modify_canonical]
      exact fun _ ↦ rfl

theorem jumpTo_canonical (name : String) (span : Span) :
    t.canonical.jumpTo name span = mapBoth Error.canonical canonical (t.jumpTo name span) := by
  rw [jumpTo, jumpTo, function?_canonical]
  cases t.function? with
  | none => rfl
  | some id =>
    dsimp only
    rw [scope_canonical, Scope.label?_canonical]
    cases (t.scope id).label? name with
    | some previous => rfl
    | none =>
      dsimp only [mapBoth_ok]
      rw [modify_canonical]
      exact fun _ ↦ rfl

/-! ## What is shown -/

theorem exports_canonical : t.canonical.exports = t.exports.map Declaration.canonical := by
  rw [exports, exports, scope_canonical, Scope.bindings_canonical,
    Bindings.declarations_canonical]
  exact List.filter_map ..

theorem listing_canonical : t.canonical.listing = t.listing.map ScopeView.canonical := by
  have hdescendants (fuel id : Nat) :
      t.canonical.descendants fuel id = t.descendants fuel id := by
    induction fuel generalizing id with
    | zero => rfl
    | succ fuel ih =>
      rw [descendants, descendants, scope_canonical, funext ih]
      rfl
  have hview (id : Nat) : t.canonical.view id = (t.view id).canonical := by
    rw [view, view, scope_canonical, Scope.bindings_canonical, Bindings.declarations_canonical]
    rfl
  have hlength : t.canonical.scopes.length = t.scopes.length := List.length_map ..
  rw [listing, listing, subtree, subtree, hlength, hdescendants, List.map_map]
  simp only [Function.comp_def, ← hview]

end ScopeTree

end DeclAnalysis
