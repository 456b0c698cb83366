import DeclAnalysis.Proofs.Elaboration.State
import DeclAnalysis.Proofs.Scope.Canonical

/-!
# Aliases are transparent

An alias is a name for a type and nothing more: a unit whose types are spelled through aliases is
analysed like the unit with the canonical types in their place. Both units take the same path
through the analysis, event by event, and whatever one of them finds is what the other finds, once
the aliases in it are resolved.

The proof follows the analysis inwards: operands, the declared type, the checks of the initializer,
the declaration, the outcome of an event. Each of these commutes with taking canonical forms. A
whole run then does too, because a state that has taken an event is the outcome of the event put
behind what was found before.
-/

namespace DeclAnalysis

/-! ## The canonical forms -/

/-- The base with the aliases in its type or operand resolved. -/
def Specifier.canonical : Specifier → Specifier
  | .explicit type => .explicit type.canonical
  | .auto => .auto
  | .decltype operand parenthesized => .decltype operand.canonical parenthesized

/-- The declaration event with its aliases resolved. -/
def DeclareEvent.canonical (e : DeclareEvent) : DeclareEvent :=
  { e with base := e.base.canonical, init := e.init.map Initializer.canonical }

/-- The event with its aliases resolved. -/
def Event.canonical : Event → Event
  | .declare e => .declare e.canonical
  | e => e

/-- The operand with the aliases in its type resolved. -/
def Operand.canonical (o : Operand) : Operand := { o with type := o.type.canonical }

/-- The evaluation with the aliases in its result resolved. Literals have no aliases. -/
def Evaluated.canonical {α : Type} (f : α → α) (e : Evaluated α) : Evaluated α :=
  ⟨e.literals, mapBoth Error.canonical f e.result⟩

/-- What comes of a declaration, with the aliases resolved. -/
def Declared.canonical (d : Declared) : Declared :=
  { d with
    tree := d.tree.canonical
    result := mapBoth Error.canonical Declaration.canonical d.result }

/-- The report of a declaration, with the aliases resolved. -/
def DeclarationReport.canonical (r : DeclarationReport) : DeclarationReport :=
  { r with result := mapBoth Error.canonical Declaration.canonical r.result }

/-- The use of a name, with the aliases in its declaration resolved. -/
def NameUse.canonical (u : NameUse) : NameUse :=
  { u with resolved := u.resolved.map Declaration.canonical }

/-- What is found, with the aliases resolved. -/
def Findings.canonical (f : Findings) : Findings where
  literals := f.literals
  declarations := f.declarations.map DeclarationReport.canonical
  uses := f.uses.map NameUse.canonical
  errors := f.errors.map Error.canonical

/-- The outcome with its aliases resolved. -/
def Outcome.canonical (o : Outcome) : Outcome :=
  { o with tree := o.tree.canonical, findings := o.findings.canonical }

namespace DeclareEvent

@[simp] theorem base_canonical (e : DeclareEvent) : e.canonical.base = e.base.canonical := rfl

@[simp] theorem declarator_canonical (e : DeclareEvent) :
    e.canonical.declarator = e.declarator := rfl

@[simp] theorem init_canonical (e : DeclareEvent) :
    e.canonical.init = e.init.map Initializer.canonical := rfl

end DeclareEvent

/-! ## Operands -/

private theorem LiteralReading.operand_canonical (w : Widths) (l : Literal) :
    mapBoth Error.canonical Operand.canonical (LiteralReading.mk l (l.read w)).operand =
      (LiteralReading.mk l (l.read w)).operand := by
  rw [operand]
  cases hread : l.read w with
  | error e => rfl
  | ok meaning =>
    dsimp only [mapBoth_ok, Operand.canonical]
    rw [Literal.canonical_of_read hread]

namespace Expr

private theorem evaluate_canonical (w : Widths) (t : ScopeTree) (e : Expr) :
    e.canonical.evaluate w t.canonical = (e.evaluate w t).canonical Operand.canonical := by
  cases e with
  | literal l => exact congrArg (Evaluated.mk _) (LiteralReading.operand_canonical w l).symm
  | name n place =>
    change (Expr.name n place).evaluate w t.canonical = _
    rw [evaluate, evaluate, ScopeTree.lookup?_canonical]
    cases t.lookup? n <;> rfl
  | typed type value place => rfl

private theorem evaluateAll_canonical (w : Widths) (t : ScopeTree) (es : List Expr) :
    evaluateAll w t.canonical (es.map canonical) =
      (evaluateAll w t es).canonical (List.map Operand.canonical) := by
  induction es with
  | nil => rfl
  | cons e rest ih =>
    rw [List.map_cons, evaluateAll, evaluateAll, evaluate_canonical, ih]
    dsimp only [Evaluated.canonical]
    cases (e.evaluate w t).result with
    | error error => rfl
    | ok operand =>
      dsimp only [mapBoth_ok]
      congr 1
      refine mapBoth_map _ ?_ _
      exact fun _ ↦ rfl

private theorem isName_canonical (e : Expr) : e.canonical.isName = e.isName := by
  cases e <;> rfl

end Expr

/-! ## The declared type -/

namespace DeclareEvent

private theorem listLength?_canonical (e : DeclareEvent) :
    e.canonical.listLength? = e.listLength? := by
  rw [listLength?, listLength?, canonical]
  cases e.init with
  | none => rfl
  | some init =>
    simp only [Option.map_some, Option.filter_some, Initializer.canonical]
    split <;> simp

private theorem elements_canonical (e : DeclareEvent) :
    e.canonical.elements = e.elements.map Expr.canonical := by
  rw [elements, elements, canonical]
  cases e.init <;> rfl

private theorem placeholderSource_canonical (init : Initializer) (types : List Ty) :
    placeholderSource init.canonical (types.map Ty.canonical) =
      mapBoth Error.canonical PlaceholderSource.canonical (placeholderSource init types) := by
  rw [placeholderSource.eq_def, placeholderSource.eq_def, Initializer.form_canonical]
  cases init.form with
  | copyList | directList => rfl
  | copy | direct =>
    rcases types with _ | ⟨t, _ | ⟨u, rest⟩⟩
    · rfl
    · rfl
    · simp [Error.canonical, DeductionFailure.canonical, Initializer.canonical]

private theorem autoType_canonical (e : DeclareEvent) (operands : List Operand) :
    e.canonical.autoType (operands.map Operand.canonical) =
      mapBoth Error.canonical Ty.canonical (e.autoType operands) := by
  have htypes : (operands.map Operand.canonical).map (·.type) =
      (operands.map (·.type)).map Ty.canonical := by
    rw [List.map_map, List.map_map]
    rfl
  rw [autoType, autoType, htypes, init_canonical]
  cases e.init with
  | none => rfl
  | some init =>
    rw [Option.map_some]
    dsimp only
    rw [placeholderSource_canonical]
    cases placeholderSource init (operands.map (·.type)) with
    | error error => rfl
    | ok placeholder =>
      dsimp only [mapBoth_ok]
      rw [declarator_canonical, PlaceholderSource.deduceWith_canonical]
      cases placeholder.deduceWith e.declarator with
      | ok t => rfl
      | error error => cases error <;> rfl

private theorem declaredType_canonical (w : Widths) (t : ScopeTree) (e : DeclareEvent)
    (operands : List Operand) :
    e.canonical.declaredType w t.canonical (operands.map Operand.canonical) =
      (e.declaredType w t operands).canonical Ty.canonical := by
  rw [declaredType, declaredType, base_canonical]
  cases e.base with
  | explicit base =>
    rw [Specifier.canonical]
    dsimp only
    rw [listLength?_canonical, Ty.withLayers_canonical]
    rfl
  | auto =>
    rw [Specifier.canonical]
    dsimp only
    rw [autoType_canonical]
    rfl
  | decltype operand parenthesized =>
    rw [Specifier.canonical]
    dsimp only
    rw [Expr.evaluate_canonical]
    dsimp only [Evaluated.canonical]
    congr 1
    refine mapBoth_map _ (fun o ↦ ?_) _
    rw [decltypeType, decltypeType, Operand.canonical, Expr.isName_canonical,
      listLength?_canonical, Ty.decltype_canonical, ← Ty.withLayers_canonical]
    rfl

end DeclareEvent

/-! ## The initializer against the type -/

namespace Widths

variable (w : Widths)

private theorem firstNarrowing?_canonical (target : Ty) (operands : List Operand) :
    w.firstNarrowing? target.canonical (operands.map Operand.canonical) =
      (w.firstNarrowing? target operands).map Error.canonical := by
  rw [firstNarrowing?, firstNarrowing?, List.findSome?_map, List.map_findSome?]
  congr 1
  funext o
  dsimp only [Function.comp_apply, Operand.canonical]
  rw [narrowing?_canonical]
  cases hn : w.narrowing? o.type o.value target with
  | none => rfl
  | some n =>
    obtain ⟨hsource, htarget⟩ := w.canonical_of_narrowing? hn
    simp only [Option.map_some, Error.canonical, hsource, htarget]

private theorem listFault?_canonical (t : Ty) (span : Span) (operands : List Operand) :
    w.listFault? t.canonical span (operands.map Operand.canonical) =
      (w.listFault? t span operands).map Error.canonical := by
  rw [listFault?.eq_def, listFault?.eq_def, Ty.listTarget_canonical]
  obtain ⟨target, capacity?⟩ := t.listTarget
  cases capacity? with
  | none => exact w.firstNarrowing?_canonical target operands
  | some capacity =>
    dsimp only
    rw [List.length_map, firstNarrowing?_canonical]
    split <;> rfl

private theorem initFault?_canonical (t : Ty) (init : Initializer) (operands : List Operand) :
    w.initFault? t.canonical init.canonical (operands.map Operand.canonical) =
      (w.initFault? t init operands).map Error.canonical := by
  rw [initFault?, initFault?, Initializer.form_canonical, Initializer.span_canonical,
    listFault?_canonical]
  split <;> rfl

private theorem initRemarks_canonical (t : Ty) (init : Initializer) (operands : List Operand) :
    w.initRemarks t.canonical init.canonical (operands.map Operand.canonical) =
      w.initRemarks t init operands := by
  rw [initRemarks, initRemarks, Initializer.form_canonical, List.filterMap_map]
  simp only [Function.comp_def, Operand.canonical, narrowing?_canonical]

end Widths

/-! ## The whole declaration -/

namespace DeclareEvent

private theorem declaration_canonical (w : Widths) (e : DeclareEvent) (scope : ScopeKind) (t : Ty)
    (operands : List Operand) :
    e.canonical.declaration w scope t.canonical (operands.map Operand.canonical) =
      (e.declaration w scope t operands).canonical := by
  have hconstant : e.canonical.constant? w t.canonical (operands.map Operand.canonical) =
      e.constant? w t operands := by
    rcases operands with _ | ⟨o, _ | ⟨o', rest⟩⟩
    · rfl
    · dsimp only [constant?, List.map_cons, List.map_nil, Operand.canonical]
      rw [Ty.isReference_canonical, funext (w.convert?_canonical t)]
      rfl
    · rfl
  rw [declaration, hconstant]
  rfl

private theorem bind_canonical (w : Widths) (t : ScopeTree) (e : DeclareEvent)
    (operands : List Operand)
    (operandFault : Option Error) (type : Ty) (literals : List LiteralReading) :
    e.canonical.bind w t.canonical (operands.map Operand.canonical)
        (operandFault.map Error.canonical) type.canonical literals =
      (e.bind w t operands operandFault type literals).canonical := by
  have hlacks : e.canonical.lacksInit t.currentKind type.canonical =
      e.lacksInit t.currentKind type := by
    rw [lacksInit, Ty.isReference_canonical, init_canonical, Option.isNone_map]
    rfl
  rw [bind.eq_def, bind.eq_def, ScopeTree.currentKind_canonical, hlacks]
  split
  · rw [Ty.isReference_canonical]
    rfl
  · dsimp only
    rw [declaration_canonical, ScopeTree.declare_canonical, init_canonical]
    -- the initializer is checked only if its operands are in order
    cases operandFault with
    | some error => cases t.declare (e.declaration w t.currentKind type operands) <;> rfl
    | none =>
      cases e.init with
      | none => cases t.declare (e.declaration w t.currentKind type operands) <;> rfl
      | some init =>
        dsimp only [Option.map_none, Option.map_some]
        rw [Widths.initRemarks_canonical, Widths.initFault?_canonical]
        cases t.declare (e.declaration w t.currentKind type operands) with
        | error error => rfl
        | ok accepted => cases w.initFault? type init operands <;> rfl

private theorem elaborateWith_canonical (w : Widths) (t : ScopeTree) (e : DeclareEvent)
    (operands : List Operand) (operandFault : Option Error) (literals : List LiteralReading) :
    e.canonical.elaborateWith w t.canonical (operands.map Operand.canonical)
        (operandFault.map Error.canonical) literals =
      (e.elaborateWith w t operands operandFault literals).canonical := by
  rw [elaborateWith, elaborateWith, declaredType_canonical]
  dsimp only [Evaluated.canonical]
  cases (e.declaredType w t operands).result with
  | error error => rfl
  | ok type => exact bind_canonical ..

/-- **Elaboration looks through aliases**: a declaration comes out the same in its canonical form,
against the canonical form of the tree. -/
theorem elaborate_canonical (w : Widths) (t : ScopeTree) (e : DeclareEvent) :
    e.canonical.elaborate w t.canonical = (e.elaborate w t).canonical := by
  have hexplicit : e.canonical.base.isExplicit = e.base.isExplicit := by
    rw [base_canonical]
    cases e.base <;> rfl
  rw [elaborate, elaborate, elements_canonical, Expr.evaluateAll_canonical, hexplicit]
  dsimp only [Evaluated.canonical]
  cases (Expr.evaluateAll w t e.elements).result with
  | ok operands => exact elaborateWith_canonical w t e operands none _
  | error error =>
    dsimp only [mapBoth_error]
    split
    · -- a type that is written out is bound although the initializer is at fault
      exact elaborateWith_canonical w t e [] (some error) _
    · rfl

end DeclareEvent

/-! ## Events -/

private theorem failures_mapBoth {α β : Type} (f : α → β) (x : Except Error α) :
    failures (mapBoth Error.canonical f x) = (failures x).map Error.canonical := by
  cases x <;> rfl

private theorem ScopeTree.resolve?_canonical (t : ScopeTree) (name : String)
    (path : Option (List String)) :
    t.canonical.resolve? name path = (t.resolve? name path).map Declaration.canonical := by
  cases path with
  | none => exact t.lookup?_canonical name
  | some path => exact t.lookupQualified?_canonical path name

namespace Outcome

private theorem ofTree_canonical (t : ScopeTree) (refused : List Nat) (x : Except Error ScopeTree) :
    ofTree t.canonical refused (mapBoth Error.canonical ScopeTree.canonical x) =
      (ofTree t refused x).canonical := by
  cases x <;> rfl

private theorem ofOpen_canonical (t : ScopeTree) (refused : List Nat) (kind : ScopeKind)
    (name : Option String) (span : Span) :
    ofOpen t.canonical refused kind name span = (ofOpen t refused kind name span).canonical := by
  rw [ofOpen, ofOpen, ScopeTree.openScope_canonical]
  cases t.openScope kind name span <;> rfl

private theorem ofHandle_canonical (t : ScopeTree) (refused : List Nat) (h : ScopeTree.Handle)
    (span : Span) :
    ofHandle t.canonical refused h span = (ofHandle t refused h span).canonical := by
  rw [ofHandle, ofHandle, ScopeTree.closeScope_canonical]
  cases t.closeScope h span <;> rfl

private theorem ofClose_canonical (t : ScopeTree) (refused : List Nat) (span : Span) :
    ofClose t.canonical refused span = (ofClose t refused span).canonical := by
  rw [ofClose, ofClose, ScopeTree.depth_canonical, ScopeTree.innermost?_canonical]
  split
  · rfl
  · cases t.innermost? with
    | none => rfl
    | some h => exact ofHandle_canonical t refused h span

/-- **The outcome of an event looks through aliases.** -/
theorem ofEvent_canonical (w : Widths) (t : ScopeTree) (refused : List Nat) (e : Event) :
    ofEvent w t.canonical refused e.canonical = (ofEvent w t refused e).canonical := by
  cases e with
  | literal l =>
    change Outcome.mk t.canonical refused
      { literals := [⟨l, l.read w⟩], errors := failures (LiteralReading.mk l (l.read w)).operand } =
        _
    rw [← LiteralReading.operand_canonical, failures_mapBoth]
    rfl
  | openScope kind name span => exact ofOpen_canonical t refused kind name span
  | closeScope span => exact ofClose_canonical t refused span
  | declare e =>
    change ofDeclared refused e.canonical (e.canonical.elaborate w t.canonical) =
      (ofDeclared refused e (e.elaborate w t)).canonical
    rw [DeclareEvent.elaborate_canonical]
    simp only [ofDeclared, Declared.canonical, failures_mapBoth]
    rfl
  | use name path span =>
    change ofUse t.canonical refused name span (t.canonical.resolve? name path) =
      (ofUse t refused name span (t.resolve? name path)).canonical
    rw [ScopeTree.resolve?_canonical]
    cases t.resolve? name path <;> rfl
  | assign name span =>
    change Outcome.mk t.canonical refused { errors := failures (t.canonical.assign name span) } = _
    rw [ScopeTree.assign_canonical, failures_mapBoth]
    rfl
  | label name span =>
    change ofTree t.canonical refused (t.canonical.defineLabel name span) = _
    rw [ScopeTree.defineLabel_canonical]
    exact ofTree_canonical t refused _
  | goto name span =>
    change ofTree t.canonical refused (t.canonical.jumpTo name span) = _
    rw [ScopeTree.jumpTo_canonical]
    exact ofTree_canonical t refused _

end Outcome

/-! ## Whole units -/

private theorem Findings.canonical_append (f g : Findings) :
    (f ++ g).canonical = f.canonical ++ g.canonical := by
  simp only [canonical, append_def, List.map_append]

namespace UnitState

/-- A state that is another one with the aliases resolved. The diagnostics are left out: they show
types as they are spelled. -/
structure Resolves (s' s : UnitState) : Prop where
  tree : s'.tree = s.tree.canonical
  refused : s'.refused = s.refused
  findings : s'.findings = s.findings.canonical
  aborted : s'.aborted = s.aborted

namespace Resolves

variable {c : Config} {s s' r r' : UnitState}

theorem new (c : Config) (seed : Seed) :
    Resolves (UnitState.new c seed.canonical) (UnitState.new c seed) := ⟨rfl, rfl, rfl, rfl⟩

theorem of_gains (h : Resolves s' s) {o : Outcome} (hgains : s.Gains c r o)
    (hgains' : s'.Gains c r' o.canonical) : Resolves r' r where
  tree := by rw [hgains'.tree, hgains.tree]; rfl
  refused := by rw [hgains'.refused, hgains.refused]; rfl
  findings := by
    rw [hgains'.findings, hgains.findings, Findings.canonical_append, h.findings]
    rfl
  aborted := by
    rw [hgains'.aborted, hgains.aborted, h.aborted]
    simp [Outcome.canonical, Findings.canonical]

theorem step (h : Resolves s' s) (e : Event) :
    Resolves (s'.step c e.canonical) (s.step c e) := by
  rw [UnitState.step, UnitState.step, h.aborted]
  split
  · exact h
  · refine h.of_gains (gains_take c s e) ?_
    rw [← Outcome.ofEvent_canonical, ← h.tree, ← h.refused]
    exact gains_take c s' e.canonical

theorem run (h : Resolves s' s) (events : List Event) :
    Resolves (s'.run c (events.map Event.canonical)) (s.run c events) := by
  induction events generalizing s s' with
  | nil => exact h
  | cons e rest ih => exact ih (h.step e)

theorem reportUnclosed (h : Resolves s' s) (handle : ScopeTree.Handle) :
    Resolves (s'.reportUnclosed c handle) (s.reportUnclosed c handle) := by
  have hscope : s'.tree.scope handle.id = (s.tree.scope handle.id).canonical := by
    rw [h.tree, ScopeTree.scope_canonical]
  have hreport : Resolves
      (s'.report c (.unbalancedScope (some (s.tree.scope handle.id).kind)
        (s.tree.scope handle.id).span))
      (s.report c (.unbalancedScope (some (s.tree.scope handle.id).kind)
        (s.tree.scope handle.id).span)) := by
    refine h.of_gains (gains_reportAll c s [_]) ?_
    have hgains := gains_reportAll c s' [.unbalancedScope (some (s.tree.scope handle.id).kind)
      (s.tree.scope handle.id).span]
    rwa [h.tree, h.refused] at hgains
  rw [UnitState.reportUnclosed, UnitState.reportUnclosed, hscope]
  refine hreport.of_gains (gains_closeHandle c _ handle _) ?_
  rw [← Outcome.ofHandle_canonical, ← hreport.tree, ← hreport.refused]
  exact gains_closeHandle c _ handle _

theorem closeOpen (h : Resolves s' s) (fuel : Nat) :
    Resolves (UnitState.closeOpen c fuel s') (UnitState.closeOpen c fuel s) := by
  induction fuel generalizing s s' with
  | zero => exact h
  | succ fuel ih =>
    have hinner : s'.tree.innermost? = s.tree.innermost? := by rw [h.tree]; rfl
    rw [UnitState.closeOpen, UnitState.closeOpen, h.aborted, hinner]
    split
    · exact h
    · cases s.tree.innermost? with
      | none => exact h
      | some handle => exact ih (h.reportUnclosed handle)

theorem finish (h : Resolves s' s) : Resolves (s'.finish c) (s.finish c) := by
  have hdepth : s'.tree.depth = s.tree.depth := by rw [h.tree]; rfl
  rw [UnitState.finish, UnitState.finish, hdepth]
  exact h.closeOpen _

end Resolves

end UnitState

/-- **Aliases are transparent**: a unit and the same unit in canonical types, against a seed and the
same seed in canonical types, have the same literals and the same abort flag, and their other
results agree once the aliases in them are resolved. -/
theorem analyze_canonical (c : Config) (seed : Seed) (events : List Event) :
    let spelled := analyze c seed events
    let resolved := analyze c seed.canonical (events.map Event.canonical)
    resolved.literals = spelled.literals ∧
    resolved.declarations = spelled.declarations.map DeclarationReport.canonical ∧
    resolved.uses = spelled.uses.map NameUse.canonical ∧
    resolved.errors = spelled.errors.map Error.canonical ∧
    resolved.scopes = spelled.scopes.map ScopeView.canonical ∧
    resolved.exported = spelled.exported.map Declaration.canonical ∧
    resolved.aborted = spelled.aborted := by
  have h := ((UnitState.Resolves.new c seed).run (c := c) events).finish (c := c)
  refine ⟨congrArg Findings.literals h.findings, congrArg Findings.declarations h.findings,
    congrArg Findings.uses h.findings, congrArg Findings.errors h.findings, ?_, ?_, h.aborted⟩
  · exact (congrArg ScopeTree.listing h.tree).trans (ScopeTree.listing_canonical _)
  · exact (congrArg ScopeTree.exports h.tree).trans (ScopeTree.exports_canonical _)

end DeclAnalysis
