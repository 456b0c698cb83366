import DeclAnalysis.Proofs.Elaboration.State

/-!
# What a declaration binds

A declaration can fail at its operands, at its type, for want of an initializer, at the tree, and at
the check of its initializer. The check comes before the tree is asked, but its fault is put off
until the name is bound, and so is the fault of an operand if the type is written out. So whether a
declaration that fails has bound its name does not follow from how far it got. It follows from its
error and the base of its type (`Error.leavesBound`).

The tree after a declaration is the tree before it or the one that has accepted it. There is nothing
in between.
-/

namespace DeclAnalysis

/-! ## Errors of a declaration -/

/-- The steps of a declaration at which it can fail. -/
inductive DeclareStage where
  /-- An expression is evaluated. -/
  | operand
  /-- The type of a placeholder is found. -/
  | type
  /-- An initializer is asked for. -/
  | completeness
  /-- The name is bound. -/
  | name
  /-- The initializer is checked against the type. -/
  | initializer
deriving DecidableEq

namespace Error

/-- The step of a declaration that an error comes from. -/
def stage? : Error → Option DeclareStage
  | .literal _ => some .operand
  | .undeclaredName _ _ => some .operand
  | .cannotDeduce _ _ => some .type
  | .ambiguousList _ _ _ => some .type
  | .missingInitializer _ _ _ => some .completeness
  | .redefinition _ _ _ _ => some .name
  | .narrowing _ _ _ => some .initializer
  | .tooManyInitializers _ _ _ => some .initializer
  | _ => none

/-- Whether a declaration that fails with this error binds its name all the same. -/
def leavesBound (base : Specifier) (e : Error) : Bool :=
  match e.stage? with
  | some .initializer => true
  | some .operand => base.isExplicit
  | _ => false

end Error

namespace Expr

variable {w : Widths} {t : ScopeTree} {error : Error}

private theorem stage?_of_evaluate {e : Expr} (hfails : (e.evaluate w t).result = .error error) :
    error.stage? = some .operand := by
  rcases e with l | ⟨n, place⟩ | ⟨type, value, place⟩
  · rw [evaluate, LiteralReading.operand] at hfails
    dsimp only at hfails
    split at hfails <;> cases hfails
    rfl
  · rw [evaluate] at hfails
    split at hfails <;> cases hfails
    rfl
  · cases hfails

private theorem exists_of_evaluateAll_error {es : List Expr}
    (hfails : (evaluateAll w t es).result = .error error) :
    ∃ e ∈ es, (e.evaluate w t).result = .error error := by
  induction es with
  | nil => cases hfails
  | cons e rest ih =>
    rw [evaluateAll] at hfails
    dsimp only at hfails
    split at hfails
    · next error' hfirst =>
      cases hfails
      exact ⟨e, List.mem_cons_self, hfirst⟩
    · rcases hrest : (evaluateAll w t rest).result with error' | operands
      · rw [hrest] at hfails
        obtain ⟨e', hmem, hfails'⟩ := ih (hrest.trans hfails)
        exact ⟨e', List.mem_cons_of_mem _ hmem, hfails'⟩
      · rw [hrest] at hfails
        cases hfails

theorem exists_operand {es : List Expr} {operands : List Operand}
    (hok : (evaluateAll w t es).result = .ok operands) {e : Expr} (he : e ∈ es) :
    ∃ o ∈ operands, (e.evaluate w t).result = .ok o := by
  induction es generalizing operands with
  | nil => cases he
  | cons first rest ih =>
    rw [evaluateAll] at hok
    dsimp only at hok
    split at hok
    · cases hok
    · next o ho =>
      rcases hrest : (evaluateAll w t rest).result with error | others
      · rw [hrest] at hok
        cases hok
      · rw [hrest] at hok
        cases hok
        rcases List.mem_cons.mp he with rfl | he
        · exact ⟨o, List.mem_cons_self, ho⟩
        · obtain ⟨o', hmem, ho'⟩ := ih hrest he
          exact ⟨o', List.mem_cons_of_mem _ hmem, ho'⟩

end Expr

private theorem Widths.stage?_of_firstNarrowing? {w : Widths} {target : Ty}
    {operands : List Operand}
    {error : Error} (hfault : w.firstNarrowing? target operands = some error) :
    error.stage? = some .initializer := by
  obtain ⟨o, -, hmap⟩ := List.exists_of_findSome?_eq_some hfault
  obtain ⟨n, -, rfl⟩ := Option.map_eq_some_iff.mp hmap
  rfl

private theorem Widths.stage?_of_initFault? {w : Widths} {type : Ty} {init : Initializer}
    {operands : List Operand} {error : Error}
    (hfault : w.initFault? type init operands = some error) :
    error.stage? = some .initializer := by
  rw [initFault?] at hfault
  split at hfault
  · rw [listFault?] at hfault
    split at hfault
    · split at hfault
      · cases hfault
        rfl
      · exact stage?_of_firstNarrowing? hfault
    · exact stage?_of_firstNarrowing? hfault
  · cases hfault

private theorem ScopeTree.stage?_of_declare {t : ScopeTree} {d : Declaration} {error : Error}
    (hrefused : t.declare d = .error error) : error.stage? = some .name := by
  obtain ⟨previous, -, -, rfl⟩ := exists_of_declare_error hrefused
  rfl

namespace DeclareEvent

variable {w : Widths} {t : ScopeTree} {e : DeclareEvent} {error : Error}

theorem stage?_of_autoType {operands : List Operand}
    (hfails : e.autoType operands = .error error) : error.stage? = some .type := by
  rw [autoType] at hfails
  split at hfails
  · cases hfails
    rfl
  · next init _ =>
    split at hfails
    · next hsource =>
      rw [placeholderSource.eq_def] at hsource
      split at hsource <;> cases hsource
      cases hfails
      rfl
    · split at hfails <;> cases hfails <;> rfl

private theorem leavesBound_of_declaredType {operands : List Operand}
    (hfails : (e.declaredType w t operands).result = .error error) :
    error.leavesBound e.base = false := by
  rw [declaredType] at hfails
  split at hfails
  · cases hfails
  · rw [Error.leavesBound, stage?_of_autoType hfails]
  · next operand parenthesized hbase =>
    dsimp only at hfails
    rcases hoperand : (operand.evaluate w t).result with error' | o
    · rw [hoperand] at hfails
      obtain rfl := Except.error.inj hfails
      rw [Error.leavesBound, Expr.stage?_of_evaluate hoperand, hbase]
      rfl
    · rw [hoperand] at hfails
      cases hfails

/-! ## The operands that count -/

/-- The operands of the initializer; there are none if one of them is at fault. -/
def operandsOf (w : Widths) (t : ScopeTree) (e : DeclareEvent) : List Operand :=
  match (Expr.evaluateAll w t e.elements).result with
  | .ok operands => operands
  | .error _ => []

/-- The fault of the first operand of the initializer that has one. -/
def operandFault? (w : Widths) (t : ScopeTree) (e : DeclareEvent) : Option Error :=
  match (Expr.evaluateAll w t e.elements).result with
  | .ok _ => none
  | .error error => some error

private theorem operandFault?_eq_some_iff :
    e.operandFault? w t = some error ↔ (Expr.evaluateAll w t e.elements).result = .error error := by
  rw [operandFault?]
  rcases (Expr.evaluateAll w t e.elements).result with error' | operands
  · exact ⟨fun hfault ↦ congrArg _ (Option.some.inj hfault),
      fun hfails ↦ congrArg _ (Except.error.inj hfails)⟩
  · exact ⟨nofun, nofun⟩

private theorem exists_of_operandFault? (hfault : e.operandFault? w t = some error) :
    ∃ operand ∈ e.elements, (operand.evaluate w t).result = .error error :=
  Expr.exists_of_evaluateAll_error (operandFault?_eq_some_iff.mp hfault)

private theorem stage?_of_operandFault? (hfault : e.operandFault? w t = some error) :
    error.stage? = some .operand := by
  obtain ⟨operand, -, hfails⟩ := exists_of_operandFault? hfault
  exact Expr.stage?_of_evaluate hfails

private theorem elaborate_of_operandFault? (hbase : e.base.isExplicit = false)
    (hfault : e.operandFault? w t = some error) :
    (e.elaborate w t).tree = t ∧ (e.elaborate w t).result = .error error := by
  rw [elaborate, operandFault?_eq_some_iff.mp hfault, hbase]
  exact ⟨rfl, rfl⟩

private theorem elaborate_eq (hgoes : e.base.isExplicit = true ∨ e.operandFault? w t = none) :
    e.elaborate w t = e.elaborateWith w t (e.operandsOf w t) (e.operandFault? w t)
      (Expr.evaluateAll w t e.elements).literals := by
  rcases hresult : (Expr.evaluateAll w t e.elements).result with error | operands
  · have hfault := operandFault?_eq_some_iff.mpr hresult
    have hexplicit := hgoes.resolve_right (hfault ▸ Option.some_ne_none error)
    rw [elaborate, operandsOf, operandFault?, hresult]
    exact if_pos hexplicit
  · rw [elaborate, operandsOf, operandFault?, hresult]

/-! ## Binding -/

/-- The declaration that an event stands for, once its type is found. -/
def Declares (w : Widths) (t : ScopeTree) (e : DeclareEvent) (d : Declaration) : Prop :=
  ∃ type, (e.declaredType w t (e.operandsOf w t)).result = .ok type ∧
    d = e.declaration w t.currentKind type (e.operandsOf w t)

/-- **The ways in which the binding of a name can end.** Without the initializer that it needs, or
if the tree refuses it, the declaration leaves no trace. Otherwise it is bound, and fails only for
an operand at fault or an initializer that does not fit. -/
theorem bind_cases (w : Widths) (t : ScopeTree) (e : DeclareEvent) (operands : List Operand)
    (operandFault : Option Error) (type : Ty) (literals : List LiteralReading) :
    let bound := e.bind w t operands operandFault type literals
    let d := e.declaration w t.currentKind type operands
    (bound.tree = t ∧ ∃ error, bound.result = .error error ∧
      (error.stage? = some .completeness ∧ e.lacksInit t.currentKind type = true ∨
        error.stage? = some .name ∧ t.declare d = .error error)) ∨
    (∃ standing, t.declare d = .ok (standing, bound.tree)) ∧
      (operandFault = none ∧ bound.result = .ok d ∨ ∃ error, bound.result = .error error ∧
        (operandFault = some error ∨
          operandFault = none ∧ error.stage? = some .initializer)) := by
  intro bound d
  have hbound : bound = _ := bind.eq_def ..
  by_cases hlacks : e.lacksInit t.currentKind type = true
  · rw [hbound, if_pos hlacks]
    exact .inl ⟨rfl, _, rfl, .inl ⟨rfl, hlacks⟩⟩
  rw [hbound, if_neg hlacks]
  dsimp only
  rcases hdeclare : t.declare d with error | ⟨standing, t'⟩
  · exact .inl ⟨rfl, error, rfl, .inr ⟨ScopeTree.stage?_of_declare hdeclare, rfl⟩⟩
  right
  dsimp only
  rcases operandFault with - | error
  · rcases e.init with - | init
    · exact ⟨⟨standing, rfl⟩, .inl ⟨rfl, rfl⟩⟩
    · dsimp only
      split
      · next error hfault =>
        have hstage := Widths.stage?_of_initFault? hfault
        exact ⟨⟨standing, rfl⟩, .inr ⟨error, rfl, .inr ⟨rfl, hstage⟩⟩⟩
      · exact ⟨⟨standing, rfl⟩, .inl ⟨rfl, rfl⟩⟩
  · exact ⟨⟨standing, rfl⟩, .inr ⟨error, rfl, .inl rfl⟩⟩

theorem elaborate_of_declaredType {type : Ty}
    (hgoes : e.base.isExplicit = true ∨ e.operandFault? w t = none)
    (htype : (e.declaredType w t (e.operandsOf w t)).result = .ok type) :
    ∃ literals, e.elaborate w t =
      e.bind w t (e.operandsOf w t) (e.operandFault? w t) type literals := by
  rw [elaborate_eq hgoes, elaborateWith, htype]
  exact ⟨_, rfl⟩

/-- **The ways in which a declaration can end.** Its name is left alone or bound, and an error says
which. -/
theorem elaborate_cases (w : Widths) (t : ScopeTree) (e : DeclareEvent) :
    let done := e.elaborate w t
    (done.tree = t ∧ ∃ error, done.result = .error error ∧ error.leavesBound e.base = false) ∨
    ∃ d standing, e.Declares w t d ∧ t.declare d = .ok (standing, done.tree) ∧
      (done.result = .ok d ∨ ∃ error, done.result = .error error ∧
        error.leavesBound e.base = true ∧
        (e.operandFault? w t = some error ∨ error.stage? = some .initializer)) := by
  intro done
  by_cases hgoes : e.base.isExplicit = true ∨ e.operandFault? w t = none
  · rcases htype : (e.declaredType w t (e.operandsOf w t)).result with error | type
    · have hdone : done = _ := elaborate_eq hgoes
      rw [elaborateWith, htype] at hdone
      rw [hdone]
      exact .inl ⟨rfl, error, rfl, leavesBound_of_declaredType htype⟩
    · obtain ⟨literals, hdone⟩ := elaborate_of_declaredType hgoes htype
      rw [show done = _ from hdone]
      rcases bind_cases w t e (e.operandsOf w t) (e.operandFault? w t) type literals with
        ⟨htree, error, hresult, hstage⟩ | ⟨⟨standing, hdeclare⟩, hresult⟩
      · refine .inl ⟨htree, error, hresult, ?_⟩
        rcases hstage with ⟨hstage, -⟩ | ⟨hstage, -⟩ <;> rw [Error.leavesBound, hstage]
      · refine .inr ⟨_, standing, ⟨type, htype, rfl⟩, hdeclare, hresult.imp And.right ?_⟩
        rintro ⟨error, hresult, hfault | ⟨-, hstage⟩⟩
        · refine ⟨error, hresult, ?_, .inl hfault⟩
          rw [Error.leavesBound, stage?_of_operandFault? hfault]
          exact hgoes.resolve_right (hfault ▸ Option.some_ne_none _)
        · refine ⟨error, hresult, ?_, .inr hstage⟩
          rw [Error.leavesBound, hstage]
  · obtain ⟨hbase, hfaulty⟩ := not_or.mp hgoes
    have hplaceholder : e.base.isExplicit = false := Bool.eq_false_iff.mpr hbase
    obtain ⟨error, hfault⟩ := Option.ne_none_iff_exists'.mp hfaulty
    obtain ⟨htree, hresult⟩ := elaborate_of_operandFault? hplaceholder hfault
    refine .inl ⟨htree, error, hresult, ?_⟩
    rw [Error.leavesBound, stage?_of_operandFault? hfault, hplaceholder]

theorem declares_of_ok {d : Declaration} (hok : (e.elaborate w t).result = .ok d) :
    e.Declares w t d ∧ ∃ standing, t.declare d = .ok (standing, (e.elaborate w t).tree) := by
  rcases elaborate_cases w t e with
    ⟨-, error, hresult, -⟩ | ⟨d', standing, hd, hdeclare, hresult | ⟨error, hresult, -⟩⟩
  · cases hok.symm.trans hresult
  · obtain rfl := Except.ok.inj (hok.symm.trans hresult)
    exact ⟨hd, standing, hdeclare⟩
  · cases hok.symm.trans hresult

private theorem tree_of_not_leavesBound (hfails : (e.elaborate w t).result = .error error)
    (hkind : error.leavesBound e.base = false) : (e.elaborate w t).tree = t := by
  rcases elaborate_cases w t e with
    ⟨htree, -⟩ | ⟨d', standing, -, -, hresult | ⟨error', hresult, hkind', -⟩⟩
  · exact htree
  · cases hfails.symm.trans hresult
  · obtain rfl := Except.error.inj (hfails.symm.trans hresult)
    cases hkind.symm.trans hkind'

/-- If an operand is to blame for an error that leaves the name bound, it is one of the
initializer. -/
private theorem declares_of_error (hfails : (e.elaborate w t).result = .error error)
    (hkind : error.leavesBound e.base = true) :
    (∃ d standing, e.Declares w t d ∧ t.declare d = .ok (standing, (e.elaborate w t).tree)) ∧
    (error.stage? = some .operand →
      ∃ operand ∈ e.elements, (operand.evaluate w t).result = .error error) := by
  rcases elaborate_cases w t e with
    ⟨-, error', hresult, hkind'⟩ |
      ⟨d', standing, hd, hdeclare, hresult | ⟨error', hresult, -, hfault⟩⟩
  · obtain rfl := Except.error.inj (hfails.symm.trans hresult)
    cases hkind.symm.trans hkind'
  · cases hfails.symm.trans hresult
  · obtain rfl := Except.error.inj (hfails.symm.trans hresult)
    refine ⟨⟨d', standing, hd, hdeclare⟩, fun hstage ↦ ?_⟩
    rcases hfault with hfault | hinit
    · exact exists_of_operandFault? hfault
    · cases hstage.symm.trans hinit

/-! ## The expressions that a type needs -/

/-- The type of a placeholder is known only if its initializer is, and that of `decltype` only if
its operand is. -/
def NeedsForType (e : DeclareEvent) (operand : Expr) : Prop :=
  (e.base.isExplicit = false ∧ operand ∈ e.elements) ∨
    ∃ parenthesized, e.base = .decltype operand parenthesized

private theorem goes_of_needsForType
    (hneeds : ∀ operand, e.NeedsForType operand → ∃ o, (operand.evaluate w t).result = .ok o) :
    e.base.isExplicit = true ∨ e.operandFault? w t = none := by
  rcases hbase : e.base.isExplicit
  · refine .inr (Option.eq_none_iff_forall_ne_some.mpr fun error hfault ↦ ?_)
    obtain ⟨operand, hmem, hfails⟩ := exists_of_operandFault? hfault
    obtain ⟨o, hok⟩ := hneeds operand (.inl ⟨hbase, hmem⟩)
    rw [hok] at hfails
    cases hfails
  · exact .inl rfl

private theorem elaborate_of_needsForType {operand : Expr} (hneeds : e.NeedsForType operand)
    (hfails : (operand.evaluate w t).result = .error error) :
    (e.elaborate w t).tree = t ∧ ∃ error', (e.elaborate w t).result = .error error' := by
  rcases hneeds with ⟨hbase, hmem⟩ | ⟨parenthesized, hbase⟩
  · rcases hall : (Expr.evaluateAll w t e.elements).result with error' | operands
    · obtain ⟨htree, hresult⟩ :=
        elaborate_of_operandFault? hbase (operandFault?_eq_some_iff.mpr hall)
      exact ⟨htree, error', hresult⟩
    · obtain ⟨o, -, hoperand⟩ := Expr.exists_operand hall hmem
      cases hfails.symm.trans hoperand
  · rcases elaborate_cases w t e with ⟨htree, error', hresult, -⟩ | ⟨d, standing, hd, -⟩
    · exact ⟨htree, error', hresult⟩
    · obtain ⟨type, htype, -⟩ := hd
      rw [declaredType, hbase] at htype
      dsimp only at htype
      rw [hfails] at htype
      cases htype

private theorem tree_elaborate_of_declare {d standing : Declaration} {t' : ScopeTree}
    (hgoes : e.base.isExplicit = true ∨ e.operandFault? w t = none) (hd : e.Declares w t d)
    (hcomplete : e.lacksInit t.currentKind d.type = false)
    (hdeclare : t.declare d = .ok (standing, t')) : (e.elaborate w t).tree = t' := by
  obtain ⟨type, htype, rfl⟩ := hd
  obtain ⟨literals, hdone⟩ := elaborate_of_declaredType hgoes htype
  rw [hdone]
  rcases bind_cases w t e (e.operandsOf w t) (e.operandFault? w t) type literals with
    ⟨-, error, -, ⟨-, hlacks⟩ | ⟨-, hrefused⟩⟩ | ⟨⟨standing', hbound⟩, -⟩
  · exact absurd (hlacks.symm.trans hcomplete) Bool.noConfusion
  · rw [hdeclare] at hrefused
    cases hrefused
  · rw [hdeclare] at hbound
    exact (Prod.mk.inj (Except.ok.inj hbound)).2.symm

end DeclareEvent

/-- **What a declaration does to the tree.** A declaration that succeeds is the one that the tree
has accepted. One that fails leaves the tree as it was, unless its error is of the kind that leaves
the name bound: then the tree has accepted the declaration with the type that was found. A fault of
an expression that the type needs is never of this kind. Conversely, a declaration of known type is
bound if its initializer is there where it is needed and the tree accepts it. -/
theorem declare_binds_or_leaves (c : Config) (s : UnitState) (e : DeclareEvent) :
    let w := c.widths
    let t := s.tree
    let s' := s.take c (.declare e)
    ∃ result, s'.declarations = s.declarations ++ [⟨e.name, e.span, result⟩] ∧
      s'.errors = s.errors ++ failures result ∧
      (∀ d, result = .ok d →
        e.Declares w t d ∧ ∃ standing, t.declare d = .ok (standing, s'.tree)) ∧
      (∀ error, result = .error error → error.leavesBound e.base = false → s'.tree = t) ∧
      (∀ error, result = .error error → error.leavesBound e.base = true →
        (∃ d standing, e.Declares w t d ∧ t.declare d = .ok (standing, s'.tree)) ∧
        (error.stage? = some .operand →
          ∃ operand ∈ e.elements, (operand.evaluate w t).result = .error error)) ∧
      (∀ operand error, e.NeedsForType operand → (operand.evaluate w t).result = .error error →
        s'.tree = t ∧ ∃ error', result = .error error') ∧
      ∀ d standing t', (∀ operand, e.NeedsForType operand →
          ∃ o, (operand.evaluate w t).result = .ok o) → e.Declares w t d →
        e.lacksInit t.currentKind d.type = false → t.declare d = .ok (standing, t') →
        s'.tree = t' := by
  intro w t s'
  have hgains := UnitState.gains_take c s (.declare e)
  have htree : s'.tree = (e.elaborate w t).tree := hgains.tree
  rw [htree]
  refine ⟨(e.elaborate w t).result, congrArg Findings.declarations hgains.findings,
    congrArg Findings.errors hgains.findings, fun d ↦ DeclareEvent.declares_of_ok,
    fun error ↦ DeclareEvent.tree_of_not_leavesBound, fun error ↦ DeclareEvent.declares_of_error,
    fun operand error ↦ DeclareEvent.elaborate_of_needsForType, ?_⟩
  intro d standing t' hneeds
  exact DeclareEvent.tree_elaborate_of_declare (DeclareEvent.goes_of_needsForType hneeds)

/-- A variable of type `int` whose initializer is a name that nothing declares. -/
def initializedByUnknown : DeclareEvent where
  name := "x"
  span := ⟨0, 5⟩
  base := .explicit .int
  declarator := []
  storage := none
  isConst := false
  isDefinition := true
  init := some ⟨.copy, [.name "y" ⟨4, 5⟩], ⟨4, 5⟩⟩

theorem declare_binds_or_leaves_unknown :
    let s := UnitState.new {} .empty
    let s' := s.take {} (.declare initializedByUnknown)
    s'.errors = [.undeclaredName "y" ⟨4, 5⟩] ∧
    ∃ d standing, initializedByUnknown.Declares {} s.tree d ∧
      s.tree.declare d = .ok (standing, s'.tree) := by
  obtain ⟨result, hdeclarations, herrors, -, -, hbound, -⟩ :=
    declare_binds_or_leaves {} (.new {} .empty) initializedByUnknown
  have hresult : .error (.undeclaredName "y" ⟨4, 5⟩) = result :=
    congrArg DeclarationReport.result (List.cons.inj hdeclarations).1
  exact ⟨herrors.trans (hresult ▸ rfl), (hbound _ hresult.symm rfl).1⟩

end DeclAnalysis
