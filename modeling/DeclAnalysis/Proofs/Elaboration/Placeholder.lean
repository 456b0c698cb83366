import DeclAnalysis.Proofs.Elaboration.Diagnostics
import DeclAnalysis.Proofs.Ty.Deduction
import DeclAnalysis.Proofs.Ty.Narrowing

/-!
# Placeholders and their initializers

The type of a declaration with `auto` is deduced from its initializer, and then the initializer is
checked against this type like against any other. The two know nothing of each other: one copies
types and compares copies, the other counts elements and converts each to a target.

They meet in what a type designates. A deduced type designates a copy of the initializer or a list
of such copies, so an element is only ever converted to a type of its own copy, which narrows
nothing (`narrowing?_of_decay`), and there is room for as many elements as were deduced from.

The exception is a reference to a reference. Its copy is a reference, which designates something
else again, perhaps an array without room for the element.
-/

namespace DeclAnalysis

namespace Ty

variable {t u type : Ty}

private theorem designated_withoutAlias (t : Ty) : t.withoutAlias.designated = t.designated := by
  rw [designated, designated, withoutAlias_withoutAlias]

private theorem designated_withoutReference (ht : t.isCollapsed = true) :
    t.withoutReference.designated = t.designated := by
  have hplain : t.withoutReference.isReference = false := Bool.not_eq_true' _ ▸ ht
  rw [← withoutAlias_withoutReference, withoutReference_of_not_reference hplain,
    withoutAlias_withoutReference]

private theorem IsValue.designated_of_deduced (hvalue : u.IsValue)
    (htype : type = u ∨ type = .reference u) : type.designated = u.withoutAlias := by
  rcases htype with rfl | rfl
  · exact hvalue.designated_eq
  · rfl

private theorem IsValue.listTarget_cases (hvalue : u.IsValue)
    (hdesignated : type.designated = u.withoutAlias) :
    (∃ element, u.withoutAlias = .initializerList element ∧ type.listTarget = (element, none)) ∨
    type.listTarget = (u.withoutAlias, some 1) := by
  have harray := hvalue.not_array
  rw [listTarget, hdesignated]
  cases hu : u.withoutAlias with
  | array element length =>
    rw [hu] at harray
    exact absurd harray.symm Bool.false_ne_true
  | initializerList element => exact .inl ⟨element, rfl, rfl⟩
  | _ => exact .inr rfl

private theorem designated_of_decay_list {element : Ty} (hdecay : t.decay = .ok u)
    (hlist : u.withoutAlias = .initializerList element) :
    t.designated = .initializerList element := by
  rcases cases_of_decay hdecay with ⟨element', length, -, rfl⟩ | ⟨-, -, rfl⟩
  · exact Ty.noConfusion hlist
  · rw [← withoutAlias_withoutReference, hlist]

end Ty

namespace Widths

variable {w : Widths} {t u type : Ty}

private theorem narrowing?_of_decay (ht : t.isCollapsed = true) (hdecay : t.decay = .ok u)
    (value : Option Constant) : w.narrowing? t value u = none := by
  rcases Ty.cases_of_decay hdecay with ⟨element, length, harray, -⟩ | ⟨-, -, rfl⟩
  · exact narrowing?_of_not_arithmetic (by rw [harray]; rfl) (by rw [harray]; rfl) value
  · exact narrowing?_of_same_designated (by rw [t.designated_withoutReference ht]) value

private theorem narrowing?_of_copyType? (ht : t.isCollapsed = true)
    (hcopy : t.copyType? = some u.canonical) (value : Option Constant) :
    w.narrowing? t value u = none := by
  obtain ⟨d, hdecay, hsame⟩ := Ty.copyType?_eq_some_iff.mp hcopy
  have hdesignated : u.designated.canonical = d.designated.canonical := by
    rw [← Ty.designated_canonical, ← Ty.designated_canonical, hsame]
  rw [narrowing?_congr rfl hdesignated value]
  exact narrowing?_of_decay ht hdecay value

private theorem firstNarrowing?_eq_none {operands : List Operand}
    (hfits : ∀ o ∈ operands, w.narrowing? o.type o.value t = none) :
    w.firstNarrowing? t operands = none := by
  rw [firstNarrowing?, List.findSome?_eq_none_iff]
  intro o ho
  rw [hfits o ho]
  rfl

/-! ## The initializer check after a deduction -/

section Check

variable {o : Operand} {operands : List Operand} {first : Ty}

private theorem listFault?_of_copies (hdesignated : type.designated = .initializerList first)
    (hcollapsed : ∀ o ∈ operands, o.type.isCollapsed = true)
    (hcopies : ∀ o ∈ operands, o.type.copyType? = some first.canonical) (span : Span) :
    w.listFault? type span operands = none := by
  have htarget : type.listTarget = (first, none) := by rw [Ty.listTarget, hdesignated]
  rw [listFault?, htarget]
  exact firstNarrowing?_eq_none fun o ho ↦
    narrowing?_of_copyType? (hcollapsed o ho) (hcopies o ho) o.value

private theorem listFault?_of_copy (ht : o.type.isCollapsed = true) (hdecay : o.type.decay = .ok u)
    (hdesignated : type.designated = u.withoutAlias) (span : Span) :
    w.listFault? type span [o] = none := by
  rw [listFault?]
  rcases (Ty.isValue_of_decay ht hdecay).listTarget_cases hdesignated with
    ⟨element, hlist, htarget⟩ | htarget
  · -- a list is held against its own elements, but it is no number
    have hsource := Ty.designated_of_decay_list hdecay hlist
    rw [htarget]
    refine firstNarrowing?_eq_none (List.forall_mem_singleton.mpr ?_)
    exact narrowing?_of_not_arithmetic (by rw [hsource]; rfl) (by rw [hsource]; rfl) o.value
  · rw [htarget]
    refine firstNarrowing?_eq_none (List.forall_mem_singleton.mpr ?_)
    rw [narrowing?_congr rfl (congrArg Ty.canonical u.designated_withoutAlias) o.value]
    exact narrowing?_of_decay ht hdecay o.value

end Check

end Widths

/-! ## From the declaration to the check -/

namespace PlaceholderSource

variable {p : PlaceholderSource} {declarator : List DeclaratorLayer} {type : Ty}

private theorem deduce_of_deducePointer (hdeduce : p.deducePointer = .ok type) :
    p.deduce = .ok type := by
  rw [deducePointer] at hdeduce
  rcases hvalue : p.deduce with error | u
  · rw [hvalue] at hdeduce
    simp at hdeduce
  · rw [hvalue] at hdeduce
    dsimp only at hdeduce
    split at hdeduce
    · exact hdeduce
    · simp at hdeduce

private theorem deduceReference_cases (hdeduce : p.deduceReference = .ok type) :
    (∃ t, p = .expr t ∧ type = .reference t.withoutReference) ∨
    ∃ u, p.deduce = .ok u ∧ type = .reference u := by
  rcases p with t | ts | ts
  · rw [deduceReference] at hdeduce
    split at hdeduce
    · simp at hdeduce
    · exact .inl ⟨t, rfl, (Except.ok.inj hdeduce).symm⟩
  · obtain ⟨u, hu, rfl⟩ := map_eq_ok_iff.mp hdeduce
    exact .inr ⟨u, hu, rfl⟩
  · obtain ⟨u, hu, rfl⟩ := map_eq_ok_iff.mp hdeduce
    exact .inr ⟨u, hu, rfl⟩

/-- **What a placeholder stands for**: the referent of its expression as it is, under a reference,
or else what is deduced by value, under a reference or not. -/
theorem deduceWith_cases (hdeduce : p.deduceWith declarator = .ok type) :
    (∃ t, p = .expr t ∧ type = .reference t.withoutReference) ∨
    ∃ u, p.deduce = .ok u ∧ (type = u ∨ type = .reference u) := by
  rw [deduceWith.eq_def] at hdeduce
  split at hdeduce
  · simp at hdeduce
  · split at hdeduce
    · exact .inr ⟨type, hdeduce, .inl rfl⟩
    · rcases deduceReference_cases hdeduce with hexpr | ⟨u, hu, htype⟩
      · exact .inl hexpr
      · exact .inr ⟨u, hu, .inr htype⟩
    · exact .inr ⟨type, deduce_of_deducePointer hdeduce, .inl rfl⟩
    · simp at hdeduce

end PlaceholderSource

namespace Widths

variable {w : Widths} {declarator : List DeclaratorLayer} {type : Ty}

private theorem narrowing?_of_deduceWith_expr {t : Ty} (ht : t.isCollapsed = true)
    (hdeduce : (PlaceholderSource.expr t).deduceWith declarator = .ok type)
    (value : Option Constant) : w.narrowing? t value type = none := by
  rcases PlaceholderSource.deduceWith_cases hdeduce with ⟨t', hp, rfl⟩ | ⟨u, hdecay, htype⟩
  · obtain rfl := PlaceholderSource.expr.inj hp
    have hsame : (Ty.reference t.withoutReference).designated = t.designated :=
      t.withoutAlias_withoutReference
    exact narrowing?_of_same_designated (congrArg Ty.canonical hsame) value
  · have hvalue : u.IsValue := Ty.isValue_of_decay ht hdecay
    have hdesignated : type.designated = u.designated :=
      (hvalue.designated_of_deduced htype).trans hvalue.designated_eq.symm
    rw [narrowing?_congr rfl (congrArg Ty.canonical hdesignated) value]
    exact narrowing?_of_decay ht hdecay value

private theorem listFault?_of_deduceWith {p : PlaceholderSource} {operands : List Operand}
    (hlist : p = .copyList (operands.map (·.type)) ∨ p = .directList (operands.map (·.type)))
    (hcollapsed : ∀ o ∈ operands, o.type.isCollapsed = true)
    (hdeduce : p.deduceWith declarator = .ok type) (span : Span) :
    w.listFault? type span operands = none := by
  rcases PlaceholderSource.deduceWith_cases hdeduce with ⟨t, rfl, -⟩ | ⟨u, hu, htype⟩
  · simp at hlist
  have htypes : ∀ t ∈ p.types, t.isCollapsed = true := by
    rcases hlist with rfl | rfl <;> exact List.forall_mem_map.mpr hcollapsed
  have hdesignated : type.designated = u.withoutAlias :=
    (PlaceholderSource.isValue_of_deduce htypes hu).designated_of_deduced htype
  rcases PlaceholderSource.deduce_cases hu with ⟨t, hp, hdecay⟩ | ⟨ts, first, rfl, rfl⟩
  · rcases hp with rfl | rfl
    · simp at hlist
    · have hsingle : operands.map (·.type) = [t] := by simpa [eq_comm] using hlist
      obtain ⟨o, rfl, rfl⟩ := List.map_eq_singleton_iff.mp hsingle
      exact listFault?_of_copy (hcollapsed o List.mem_cons_self) hdecay hdesignated span
  · obtain rfl : ts = operands.map (·.type) := by simpa using hlist
    obtain ⟨element, hfirst, -, hall⟩ := PlaceholderSource.canonicalType?_copyList_eq_some_iff.mp
      (PlaceholderSource.canonicalType?_eq_some_iff.mpr ⟨_, hu, rfl⟩)
    obtain rfl : first.canonical = element := Ty.initializerList.inj hfirst
    refine listFault?_of_copies hdesignated hcollapsed (fun o ho ↦ ?_) span
    exact hall _ (List.mem_map_of_mem (List.mem_map_of_mem ho))

end Widths

namespace DeclareEvent

variable {w : Widths} {t : ScopeTree} {e : DeclareEvent} {init : Initializer} {types : List Ty}
  {p : PlaceholderSource} {operands : List Operand} {type : Ty}

private theorem placeholderSource_cases (hsource : placeholderSource init types = .ok p) :
    (init.form.isBraced = false ∧ ∃ single, types = [single] ∧ p = .expr single) ∨
    (init.form.isBraced = true ∧ (p = .copyList types ∨ p = .directList types)) := by
  rw [placeholderSource.eq_def] at hsource
  split at hsource
  · next hform => exact .inr ⟨by rw [hform]; rfl, .inl (Except.ok.inj hsource).symm⟩
  · next hform => exact .inr ⟨by rw [hform]; rfl, .inr (Except.ok.inj hsource).symm⟩
  · next single hcopyList hdirectList =>
    refine .inl ⟨?_, single, rfl, (Except.ok.inj hsource).symm⟩
    rw [InitForm.isBraced]
    · exact hcopyList
    · exact hdirectList
  · simp at hsource

private theorem exists_source_of_autoType (htype : e.autoType operands = .ok type) :
    ∃ init p, e.init = some init ∧ placeholderSource init (operands.map (·.type)) = .ok p ∧
      p.deduceWith e.declarator = .ok type := by
  rw [autoType] at htype
  rcases hinit : e.init with - | init
  · rw [hinit] at htype
    simp at htype
  rw [hinit] at htype
  dsimp only at htype
  rcases hsource : placeholderSource init (operands.map (·.type)) with error | p
  · rw [hsource] at htype
    simp at htype
  rw [hsource] at htype
  dsimp only at htype
  refine ⟨init, p, rfl, hsource, ?_⟩
  rcases hdeduce : p.deduceWith e.declarator with (⟨first, conflicting⟩ | reason) | u <;>
    rw [hdeduce] at htype
  · simp at htype
  · simp at htype
  · exact congrArg Except.ok (Except.ok.inj htype)

/-- **A deduced type fits the initializer that it was deduced from**: the initializer check finds no
fault and makes no remark. -/
theorem fits_of_deduceWith {declarator : List DeclaratorLayer}
    (hsource : placeholderSource init (operands.map (·.type)) = .ok p)
    (hdeduce : p.deduceWith declarator = .ok type)
    (hcollapsed : ∀ o ∈ operands, o.type.isCollapsed = true) :
    w.initFault? type init operands = none ∧ w.initRemarks type init operands = [] := by
  rw [Widths.initFault?, Widths.initRemarks]
  rcases placeholderSource_cases hsource with ⟨hform, single, hsingle, rfl⟩ | ⟨hform, hlist⟩
  · obtain ⟨o, rfl, rfl⟩ := List.map_eq_singleton_iff.mp hsingle
    have hfits := Widths.narrowing?_of_deduceWith_expr (w := w) (hcollapsed o List.mem_cons_self)
      hdeduce o.value
    rw [hform]
    refine ⟨rfl, ?_⟩
    simp [hfits]
  · rw [hform]
    exact ⟨Widths.listFault?_of_deduceWith hlist hcollapsed hdeduce init.span, rfl⟩

-- The copy of a reference to a reference may designate an array without room for the element.
example :
    let t : Ty := .reference (.reference (.array .int (some 0)))
    let type : Ty := .reference (.array .int (some 0))
    (PlaceholderSource.directList [t]).deduceWith [] = .ok type ∧
    ({} : Widths).initFault? type ⟨.directList, [], ⟨1, 4⟩⟩ [⟨t, none, ⟨2, 3⟩⟩] =
      some (.tooManyInitializers 0 1 ⟨1, 4⟩) := ⟨rfl, rfl⟩

/-- A declaration whose initializer fits its type brings no remarks, and is accepted unless its name
is taken. -/
private theorem elaborate_of_fits
    (hoperands : (Expr.evaluateAll w t e.elements).result = .ok operands)
    (htype : (e.declaredType w t operands).result = .ok type) (hinit : e.init = some init)
    (hfault : w.initFault? type init operands = none)
    (hremarks : w.initRemarks type init operands = []) :
    let d := e.declaration w t.currentKind type operands
    (e.elaborate w t).remarks = [] ∧
    ((e.elaborate w t).result = .ok d ∨ ∃ previous, (t.lookupLocal? e.name = some previous ∨
        t.currentKind = .global ∧ t.seed.get? e.name = some previous) ∧
      previous.clashesWith d = true ∧
      (e.elaborate w t).result =
        .error (.redefinition e.name t.currentKind e.span previous.span)) := by
  intro d
  have hcomplete : ¬ e.lacksInit t.currentKind type = true := by simp [lacksInit, hinit]
  rw [elaborate, hoperands]
  dsimp only
  rw [elaborateWith, htype]
  dsimp only
  rw [bind.eq_def, if_neg hcomplete, hinit]
  dsimp only
  rw [hfault, hremarks]
  rcases hdeclare : t.declare d with error | ⟨standing, t'⟩
  · obtain ⟨previous, hstands, hclash, rfl⟩ := ScopeTree.exists_of_declare_error hdeclare
    exact ⟨rfl, .inr ⟨previous, hstands, hclash, rfl⟩⟩
  · exact ⟨rfl, .inl rfl⟩

end DeclareEvent

/-! ## The whole declaration -/

/-- **A placeholder never conflicts with its own initializer.** Take any state of a unit and a
declaration with `auto` whose initializer is evaluated to operands, none of which is a reference to
a reference. If a type is deduced, under whatever declarator and from whatever form of initializer,
then

* the initializer check finds no fault and makes no remark;
* the queue gets no further note on narrowing;
* the declaration is accepted with the deduced type, unless it clashes with the one that stands for
  its name, and then this is its only error. -/
theorem auto_fits_own_initializer (c : Config) (s : UnitState) (e : DeclareEvent)
    {operands : List Operand} {type : Ty} (hbase : e.base = .auto)
    (hoperands : (Expr.evaluateAll c.widths s.tree e.elements).result = .ok operands)
    (hcollapsed : ∀ o ∈ operands, o.type.isCollapsed = true)
    (htype : (e.declaredType c.widths s.tree operands).result = .ok type) :
    let d := e.declaration c.widths s.tree.currentKind type operands
    let s' := s.take c (.declare e)
    (∃ init, e.init = some init ∧ c.widths.initFault? type init operands = none ∧
      c.widths.initRemarks type init operands = []) ∧
    s'.queue.held.filter (·.code = .implicitNarrowing) =
      s.queue.held.filter (·.code = .implicitNarrowing) ∧
    ∃ result, s'.declarations = s.declarations ++ [⟨e.name, e.span, result⟩] ∧
      s'.errors = s.errors ++ failures result ∧
      (result = .ok d ∨ ∃ previous, (s.tree.lookupLocal? e.name = some previous ∨
          s.tree.currentKind = .global ∧ s.tree.seed.get? e.name = some previous) ∧
        previous.clashesWith d = true ∧
        result = .error (.redefinition e.name s.tree.currentKind e.span previous.span)) := by
  intro d s'
  have hauto : e.autoType operands = .ok type := by
    rw [DeclareEvent.declaredType, hbase] at htype
    exact htype
  obtain ⟨init, p, hinit, hsource, hdeduce⟩ := DeclareEvent.exists_source_of_autoType hauto
  obtain ⟨hfault, hremarks⟩ : c.widths.initFault? type init operands = none ∧
      c.widths.initRemarks type init operands = [] :=
    DeclareEvent.fits_of_deduceWith hsource hdeduce hcollapsed
  obtain ⟨hquiet, houtcome⟩ := DeclareEvent.elaborate_of_fits hoperands htype hinit hfault hremarks
  have hgains := UnitState.gains_take c s (.declare e)
  exact ⟨⟨init, hinit, hfault, hremarks⟩, UnitState.filter_held_declare hquiet,
    (e.elaborate c.widths s.tree).result, congrArg Findings.declarations hgains.findings,
    congrArg Findings.errors hgains.findings, houtcome⟩

/-- An `auto` that is initialized with an alias of `int`, a reference to `int` and an `int`, in
braces. -/
def deducedFromInts : DeclareEvent where
  name := "xs"
  span := ⟨0, 20⟩
  base := .auto
  declarator := []
  storage := none
  isConst := false
  isDefinition := true
  init := some ⟨.copyList, [.typed (.named "word" .int) none ⟨11, 12⟩,
    .typed (.reference .int) none ⟨14, 15⟩, .typed .int (some (.int 7)) ⟨17, 18⟩], ⟨10, 19⟩⟩

theorem auto_fits_own_initializer_ints :
    let s := UnitState.new {} .empty
    let s' := s.take {} (.declare deducedFromInts)
    s'.errors = [] ∧ s'.queue.held.filter (·.code = .implicitNarrowing) = [] ∧
    ∃ d, s'.declarations = [⟨"xs", ⟨0, 20⟩, .ok d⟩] ∧
      d.type = .initializerList (.named "word" .int) := by
  obtain ⟨-, hqueue, result, hdeclarations, herrors, houtcome⟩ :=
    auto_fits_own_initializer {} (.new {} .empty) deducedFromInts rfl rfl (by decide) rfl
  rcases houtcome with rfl | ⟨previous, hstands | ⟨-, hstands⟩, -⟩
  · exact ⟨herrors, hqueue, _, hdeclarations, rfl⟩
  · exact absurd hstands (Option.some_ne_none previous).symm
  · exact absurd hstands (Option.some_ne_none previous).symm

end DeclAnalysis
