import DeclAnalysis.Proofs.Bindings
import DeclAnalysis.Scope.Tree

/-!
# Steps of a scope tree

A client of a scope tree sends requests. A request is accepted, and then the tree takes one step, or
it is refused, and then the tree stays as it is. `Step` lists what one step can do: open a scope,
close some of the innermost scopes, or edit the open scopes. An `Edit` binds a name in the current
scope, or notes a label or a jump in the innermost function.

Whatever holds of a new tree and is kept by every `Step` holds of every tree that requests can lead
to. The modules that follow prove their invariants over `Step` and never look at a request again.
-/

namespace DeclAnalysis

namespace ScopeTree

/-! ## What the steps make of a tree -/

/-- The tree after a scope was opened inside the current one. -/
def opened (t : ScopeTree) (kind : ScopeKind) (name : Option String) (span : Span) : ScopeTree :=
  { t with
    scopes := (t.scopes.modify t.current fun s ↦ { s with children := s.children ++
      [t.scopes.length] }) ++ [Scope.new kind name (some t.current) span]
    openPath := t.scopes.length :: t.openPath }

/-- The tree after so many of the innermost scopes were closed. -/
def closeInner (t : ScopeTree) (n : Nat) : ScopeTree :=
  { t with
    scopes := (t.openPath.take n).foldl (fun scopes id ↦ scopes.modify id Scope.close) t.scopes
    openPath := t.openPath.drop n }

/-- A change inside the open scopes, which opens and closes none. -/
inductive Edit (t : ScopeTree) : ScopeTree → Prop
  /-- Nothing is changed. -/
  | kept : Edit t t
  /-- A declaration that clashes with nothing is bound in the current scope. -/
  | bound (d standing : Declaration) (bindings : Bindings) (fresh : t.seedClash? d = none)
      (accepted : t.currentScope.bindings.declare d = .ok (standing, bindings)) :
      Edit t (t.modify t.current fun s ↦ { s with bindings := bindings })
  /-- A label is defined in the innermost function. -/
  | labelled (id : Nat) (name : String) (span : Span) (inner : t.function? = some id)
      (fresh : (t.scope id).label? name = none) :
      Edit t (t.modify id fun s ↦ { s with labels := s.labels ++ [(name, span)] })
  /-- A jump to a label that is not yet defined waits in the innermost function. -/
  | jumped (id : Nat) (name : String) (span : Span) (inner : t.function? = some id)
      (pending : (t.scope id).label? name = none) :
      Edit t (t.modify id fun s ↦ { s with gotos := s.gotos ++ [(name, span)] })

/-- One step of a tree. -/
inductive Step (t : ScopeTree) : ScopeTree → Prop
  /-- A scope is opened where its kind may stand. -/
  | opened (kind : ScopeKind) (name : Option String) (span : Span)
      (nests : kind.nestsIn t.currentKind = true) : Step t (t.opened kind name span)
  /-- Some of the innermost scopes are closed, but never the global one. -/
  | closed (n : Nat) (proper : n < t.depth) : Step t (t.closeInner n)
  /-- The open scopes stay the same. -/
  | edited {t' : ScopeTree} (edit : t.Edit t') : Step t t'

/-! ## Every operation is a step -/

theorem openScope_eq (t : ScopeTree) (kind : ScopeKind) (name : Option String) (span : Span) :
    t.openScope kind name span =
      if kind.nestsIn t.currentKind then
        .ok (⟨t.scopes.length, t.depth⟩, t.opened kind name span)
      else .error (.invalidNesting kind t.currentKind span) := rfl

theorem closeScope_eq (t : ScopeTree) (h : Handle) (span : Span) :
    t.closeScope h span =
      if t.holds h then
        .ok ((t.openPath.take (t.depth - h.depth)).flatMap fun id ↦ (t.scope id).unresolved,
          t.closeInner (t.depth - h.depth))
      else .error (.unbalancedScope none span) := rfl

theorem step_of_openScope {t t' : ScopeTree} {kind : ScopeKind} {name : Option String}
    {span : Span} {h : Handle} (hok : t.openScope kind name span = .ok (h, t')) : t.Step t' := by
  rw [openScope_eq] at hok
  split at hok
  · next hnests =>
    cases hok
    exact .opened kind name span hnests
  · cases hok

theorem step_of_closeScope {t t' : ScopeTree} {h : Handle} {span : Span} {errors : List Error}
    (hok : t.closeScope h span = .ok (errors, t')) : t.Step t' := by
  rw [closeScope_eq] at hok
  split at hok
  · next hopen =>
    cases hok
    simp only [holds, Bool.and_eq_true, decide_eq_true_eq] at hopen
    obtain ⟨hpositive, hfound⟩ := hopen
    have hbound : h.depth < t.depth := by
      rw [depth, ← List.length_reverse]
      exact (List.getElem?_eq_some_iff.mp hfound).1
    exact .closed _ (by omega)
  · cases hok

theorem edit_of_declare {t t' : ScopeTree} {d standing : Declaration}
    (hok : t.declare d = .ok (standing, t')) : t.Edit t' := by
  rw [declare] at hok
  split at hok
  · cases hok
  · next hfresh =>
    split at hok
    · cases hok
    · next bindings haccepted =>
      cases hok
      exact .bound d standing bindings hfresh haccepted

/-- A declaration is refused for one reason only: it clashes with the one that stands for its name
in the current scope, or in the seed if that scope is the global one. -/
theorem exists_of_declare_error {t : ScopeTree} {d : Declaration} {e : Error}
    (hrefused : t.declare d = .error e) :
    ∃ previous, (t.lookupLocal? d.name = some previous ∨
        t.currentKind = .global ∧ t.seed.get? d.name = some previous) ∧
      previous.clashesWith d = true ∧
      e = .redefinition d.name t.currentKind d.span previous.span := by
  rw [declare] at hrefused
  rcases hseed : t.seedClash? d with - | previous
  · rw [hseed] at hrefused
    rcases hlocal : t.currentScope.bindings.declare d with previous | ⟨standing, bindings⟩
    · rw [hlocal] at hrefused
      obtain ⟨hfound, hclash⟩ :=
        Option.filter_eq_some_iff.mp (Bindings.declare_eq_error_iff.mp hlocal)
      exact ⟨previous, .inl hfound, hclash, (Except.error.inj hrefused).symm⟩
    · rw [hlocal] at hrefused
      simp at hrefused
  · rw [hseed] at hrefused
    rw [seedClash?] at hseed
    split at hseed
    · next hglobal =>
      obtain ⟨hfound, hclash⟩ := Option.filter_eq_some_iff.mp hseed
      exact ⟨previous, .inr ⟨hglobal, hfound⟩, hclash, (Except.error.inj hrefused).symm⟩
    · simp at hseed

theorem edit_of_defineLabel {t t' : ScopeTree} {name : String} {span : Span}
    (hok : t.defineLabel name span = .ok t') : t.Edit t' := by
  rw [defineLabel] at hok
  split at hok
  · cases hok
  · next id hinner =>
    split at hok
    · cases hok
    · next hfresh =>
      cases hok
      exact .labelled id name span hinner hfresh

theorem edit_of_jumpTo {t t' : ScopeTree} {name : String} {span : Span}
    (hok : t.jumpTo name span = .ok t') : t.Edit t' := by
  rw [jumpTo] at hok
  split at hok
  · cases hok
  · next id hinner =>
    split at hok
    · cases hok
      exact .kept
    · next hpending =>
      cases hok
      exact .jumped id name span hinner hpending

/-! ## Requests -/

/-- What a client can ask of a tree. -/
inductive Request where
  | openScope (kind : ScopeKind) (name : Option String) (span : Span)
  | closeScope (handle : Handle) (span : Span)
  | declare (declaration : Declaration)
  | defineLabel (name : String) (span : Span)
  | jumpTo (name : String) (span : Span)
deriving DecidableEq

/-- The tree after a request that is accepted, or the error of one that is refused. -/
def perform (t : ScopeTree) : Request → Except Error ScopeTree
  | .openScope kind name span => (t.openScope kind name span).map (·.2)
  | .closeScope h span => (t.closeScope h span).map (·.2)
  | .declare d => (t.declare d).map (·.2)
  | .defineLabel name span => t.defineLabel name span
  | .jumpTo name span => t.jumpTo name span

/-- The tree after a request, accepted or refused. -/
def apply (t : ScopeTree) (r : Request) : ScopeTree := (t.perform r).toOption.getD t

/-- The tree after some requests. -/
def run (t : ScopeTree) (rs : List Request) : ScopeTree := rs.foldl apply t

theorem apply_of_ok {t t' : ScopeTree} {r : Request} (hok : t.perform r = .ok t') :
    t.apply r = t' := by
  rw [apply, hok]
  rfl

theorem apply_of_error {t : ScopeTree} {r : Request} {e : Error}
    (hrefused : t.perform r = .error e) : t.apply r = t := by
  rw [apply, hrefused]
  rfl

theorem apply_declare_of_ok {t t' : ScopeTree} {d standing : Declaration}
    (hok : t.declare d = .ok (standing, t')) : t.apply (.declare d) = t' :=
  apply_of_ok (by rw [perform, hok]; rfl)

theorem apply_declare_of_isOk {t : ScopeTree} {d : Declaration}
    (hok : (t.declare d).isOk = true) :
    ∃ standing bindings, t.seedClash? d = none ∧
      t.currentScope.bindings.declare d = .ok (standing, bindings) ∧
      t.apply (.declare d) = t.modify t.current fun s ↦ { s with bindings := bindings } := by
  rw [declare] at hok
  split at hok
  · cases hok
  · next hfresh =>
    split at hok
    · cases hok
    · next standing bindings haccepted =>
      refine ⟨standing, bindings, hfresh, haccepted, ?_⟩
      rw [apply, perform, declare, hfresh, haccepted]
      rfl

theorem apply_declare_of_not_isOk {t : ScopeTree} {d : Declaration}
    (hrefused : ¬ (t.declare d).isOk = true) : t.apply (.declare d) = t := by
  rw [apply, perform]
  cases hdeclare : t.declare d with
  | error e => rfl
  | ok result => simp [hdeclare, Except.toBool] at hrefused

private theorem exists_of_map_snd {α : Type} {x : Except Error (α × ScopeTree)} {t' : ScopeTree}
    (hok : x.map (·.2) = .ok t') : ∃ a, x = .ok (a, t') := by
  cases x with
  | error e => cases hok
  | ok pair =>
    cases hok
    exact ⟨pair.1, rfl⟩

theorem step_of_perform {t t' : ScopeTree} {r : Request} (hok : t.perform r = .ok t') :
    t.Step t' := by
  cases r with
  | openScope kind name span =>
    obtain ⟨h, hok⟩ := exists_of_map_snd hok
    exact step_of_openScope hok
  | closeScope h span =>
    obtain ⟨errors, hok⟩ := exists_of_map_snd hok
    exact step_of_closeScope hok
  | declare d =>
    obtain ⟨standing, hok⟩ := exists_of_map_snd hok
    exact .edited (edit_of_declare hok)
  | defineLabel name span => exact .edited (edit_of_defineLabel hok)
  | jumpTo name span => exact .edited (edit_of_jumpTo hok)

/-- **The only induction over requests.** What every step keeps, every run keeps. -/
theorem run_induction {P : ScopeTree → Prop} (hkeeps : ∀ t t', P t → t.Step t' → P t')
    {t : ScopeTree} (hstart : P t) (rs : List Request) : P (t.run rs) := by
  induction rs generalizing t with
  | nil => exact hstart
  | cons r rest ih =>
    refine ih (t := t.apply r) ?_
    cases houtcome : t.perform r with
    | error e => rwa [apply_of_error houtcome]
    | ok t' =>
      rw [apply_of_ok houtcome]
      exact hkeeps t t' hstart (step_of_perform houtcome)

end ScopeTree

end DeclAnalysis
