import DeclAnalysis.Proofs.Elaboration.Abort
import DeclAnalysis.Proofs.Elaboration.Binding

/-!
# Literals at fault

A literal that cannot be read is kept with its fault, and the fault is to be raised as an error.
Evaluation stops at the first fault, so an event meets at most one. Going through the ways in which
a fault travels from the reading of a literal to the list of errors, there is one on which it does
not arrive: a declaration with a type that is written out goes on to bind its name before it raises
the fault of its initializer, and a name that cannot be bound is an error of its own, which is
raised in place of the fault.

`Accounted` keeps the books: the faults of the literals read so far are those that were raised and
those that were lost in this way, each as often as it was met.
-/

namespace DeclAnalysis

/-- The fault of a literal that could not be read. -/
def LiteralReading.fault? (r : LiteralReading) : Option LiteralError :=
  match r.result with
  | .ok _ => none
  | .error fault => some fault

/-- The fault of a literal that an error is about. -/
def Error.fault? : Error → Option LiteralError
  | .literal fault => some fault
  | _ => none

private theorem LiteralReading.fault?_eq_some_iff {r : LiteralReading} {fault : LiteralError} :
    r.fault? = some fault ↔ r.result = .error fault := by
  rw [fault?]
  split
  · next hok => simp [hok]
  · next hfails => simp [hfails]

private theorem Error.fault?_eq_some_iff {e : Error} {fault : LiteralError} :
    e.fault? = some fault ↔ e = .literal fault := by
  cases e <;> simp [fault?]

/-! ## Evaluation -/

/-- The faults of some literals are those that some errors are about. -/
def Matches (literals : List LiteralReading) (errors : List Error) : Prop :=
  literals.filterMap (·.fault?) = errors.filterMap (·.fault?)

private theorem failures_map {α β : Type} (f : α → β) (x : Except Error α) :
    failures (x.map f) = failures x := by
  rcases x with e | a <;> rfl

private theorem faults_failures_eq_nil {α : Type} {x : Except Error α}
    (hnone : ∀ e, x = .error e → e.fault? = none) :
    (failures x).filterMap (·.fault?) = [] := by
  rcases x with e | a
  · exact List.filterMap_eq_nil_iff.mpr fun _ he ↦ List.mem_singleton.mp he ▸ hnone e rfl
  · rfl

private theorem matches_operand (r : LiteralReading) : Matches [r] (failures r.operand) := by
  rw [Matches, LiteralReading.operand, List.filterMap_cons, LiteralReading.fault?]
  rcases r.result with fault | meaning <;> rfl

namespace Expr

variable (w : Widths) (t : ScopeTree)

private theorem matches_evaluate (e : Expr) :
    Matches (e.evaluate w t).literals (failures (e.evaluate w t).result) := by
  rcases e with l | ⟨n, place⟩ | ⟨type, value, place⟩
  · exact matches_operand ⟨l, l.read w⟩
  · rw [evaluate]
    split <;> rfl
  · rfl

private theorem matches_evaluateAll (es : List Expr) :
    Matches (evaluateAll w t es).literals (failures (evaluateAll w t es).result) := by
  induction es with
  | nil => rfl
  | cons e rest ih =>
    have hfirst := matches_evaluate w t e
    rw [evaluateAll]
    dsimp only
    split
    · next error hresult => rwa [hresult] at hfirst
    · next operand hresult =>
      rw [hresult] at hfirst
      rw [Matches, List.filterMap_append, hfirst, failures_map]
      exact ih

end Expr

/-! ## Declarations -/

private theorem Error.fault?_of_stage? {e : Error} {stage : DeclareStage}
    (hstage : e.stage? = some stage) (hlater : stage ≠ .operand) : e.fault? = none := by
  rcases hfault : e.fault? with - | fault
  · rfl
  · obtain rfl := fault?_eq_some_iff.mp hfault
    exact absurd (Option.some.inj hstage).symm hlater

namespace DeclareEvent

variable {w : Widths} {t : ScopeTree} {d : DeclareEvent}

private theorem matches_declaredType (w : Widths) (t : ScopeTree) (d : DeclareEvent)
    (operands : List Operand) :
    Matches (d.declaredType w t operands).literals
      (failures (d.declaredType w t operands).result) := by
  rw [declaredType]
  split
  · rfl
  · refine (faults_failures_eq_nil fun e hfails ↦ ?_).symm
    exact Error.fault?_of_stage? (stage?_of_autoType hfails) (by decide)
  · next operand parenthesized _ =>
    rw [Matches, failures_map]
    exact operand.matches_evaluate w t

private theorem literals_bind (w : Widths) (t : ScopeTree) (d : DeclareEvent)
    (operands : List Operand)
    (operandFault : Option Error) (type : Ty) (literals : List LiteralReading) :
    (d.bind w t operands operandFault type literals).literals = literals := by
  rw [bind.eq_def]
  split
  · rfl
  · dsimp only
    rcases t.declare (d.declaration w t.currentKind type operands) with error | ⟨_, t'⟩
    · rfl
    · dsimp only
      split <;> rfl

private theorem fault?_of_bind_none {operands : List Operand} {type : Ty}
    {literals : List LiteralReading}
    {e : Error} (hfails : (d.bind w t operands none type literals).result = .error e) :
    e.fault? = none := by
  rcases bind_cases w t d operands none type literals with
    ⟨-, error, hresult, ⟨hstage, -⟩ | ⟨hstage, -⟩⟩ |
      ⟨-, ⟨-, hresult⟩ | ⟨error, hresult, hnone | ⟨-, hstage⟩⟩⟩ <;>
    cases hfails.symm.trans hresult
  · exact Error.fault?_of_stage? hstage (by decide)
  · exact Error.fault?_of_stage? hstage (by decide)
  · cases hnone
  · exact Error.fault?_of_stage? hstage (by decide)

private theorem result_bind_some {init : Initializer} (hinit : d.init = some init)
    (operands : List Operand) (fault : Error) (type : Ty) (literals : List LiteralReading) :
    (d.bind w t operands (some fault) type literals).result = .error fault ∨
      ∃ previous, (d.bind w t operands (some fault) type literals).result =
        .error (.redefinition d.name t.currentKind d.span previous) := by
  -- an initializer that is at fault is there, so the check for a missing one passes
  have hcomplete : d.lacksInit t.currentKind type = false := by
    rw [lacksInit, hinit]
    rfl
  rcases bind_cases w t d operands (some fault) type literals with
    ⟨-, error, hresult, ⟨-, hlacks⟩ | ⟨-, hrefused⟩⟩ |
      ⟨-, ⟨hnone, -⟩ | ⟨error, hresult, hfault | ⟨hnone, -⟩⟩⟩
  · cases hlacks.symm.trans hcomplete
  · obtain ⟨previous, -, -, rfl⟩ := ScopeTree.exists_of_declare_error hrefused
    exact .inr ⟨previous.span, hresult⟩
  · cases hnone
  · exact .inl (Option.some.inj hfault ▸ hresult)
  · cases hnone

private theorem matches_elaborateWith (w : Widths) (t : ScopeTree) (d : DeclareEvent)
    (operands : List Operand) {literals : List LiteralReading} (hgood : Matches literals []) :
    Matches (d.elaborateWith w t operands none literals).literals
      (failures (d.elaborateWith w t operands none literals).result) := by
  have htype := d.matches_declaredType w t operands
  rw [elaborateWith]
  rcases htyped : (d.declaredType w t operands).result with e | type
  · rw [htyped] at htype
    rw [Matches, List.filterMap_append, hgood, htype]
    rfl
  · rw [htyped] at htype
    dsimp only
    rw [Matches, literals_bind, List.filterMap_append, hgood, htype]
    exact (faults_failures_eq_nil fun e ↦ fault?_of_bind_none).symm

private theorem elaborateWith_of_explicit {base : Ty} (hbase : d.base = .explicit base)
    (operands : List Operand) (operandFault : Option Error) (literals : List LiteralReading) :
    d.elaborateWith w t operands operandFault literals =
      d.bind w t operands operandFault (base.withLayers d.listLength? d.declarator) literals := by
  rw [elaborateWith, declaredType, hbase]
  dsimp only
  rw [List.append_nil]

private theorem exists_type_of_isExplicit (hexplicit : d.base.isExplicit = true) :
    ∃ type, d.base = .explicit type := by
  rcases hbase : d.base with type | - | ⟨operand, parenthesized⟩
  · exact ⟨type, rfl⟩
  all_goals
    rw [hbase] at hexplicit
    cases hexplicit

private theorem exists_init_of_evaluateAll_error {e : Error}
    (hfails : (Expr.evaluateAll w t d.elements).result = .error e) :
    ∃ init, d.init = some init := by
  rcases hinit : d.init with - | init
  · rw [elements, hinit] at hfails
    cases hfails
  · exact ⟨init, rfl⟩

/-- A declaration whose initializer is at fault fails with that fault, unless its type is written
out and its name cannot be bound. -/
private theorem elaborate_of_evaluateAll_error {e : Error}
    (hfails : (Expr.evaluateAll w t d.elements).result = .error e) :
    (d.elaborate w t).literals = (Expr.evaluateAll w t d.elements).literals ∧
    ((d.elaborate w t).result = .error e ∨
      d.base.isExplicit = true ∧ ∃ previous, (d.elaborate w t).result =
        .error (.redefinition d.name t.currentKind d.span previous)) := by
  rw [elaborate, hfails]
  dsimp only
  by_cases hexplicit : d.base.isExplicit = true
  · obtain ⟨base, hbase⟩ := exists_type_of_isExplicit hexplicit
    obtain ⟨init, hinit⟩ := exists_init_of_evaluateAll_error hfails
    rw [if_pos hexplicit, elaborateWith_of_explicit hbase]
    refine ⟨literals_bind .., ?_⟩
    exact (result_bind_some hinit ..).imp_right fun hrefused ↦ ⟨hexplicit, hrefused⟩
  · rw [if_neg hexplicit]
    exact ⟨rfl, .inl rfl⟩

/-- The fault that is lost at a declaration: its initializer is at fault and its name cannot be
bound. -/
def lostFault? (w : Widths) (t : ScopeTree) (d : DeclareEvent) : Option LiteralError :=
  match (Expr.evaluateAll w t d.elements).result, (d.elaborate w t).result with
  | .error (.literal fault), .error (.redefinition _ _ _ _) => some fault
  | _, _ => none

/-- **A declaration raises the fault it meets, or loses it.** -/
theorem faults_elaborate (w : Widths) (t : ScopeTree) (d : DeclareEvent) :
    (d.elaborate w t).literals.filterMap (·.fault?) =
      (failures (d.elaborate w t).result).filterMap (·.fault?) ++ (d.lostFault? w t).toList := by
  have hread := Expr.matches_evaluateAll w t d.elements
  rcases hresult : (Expr.evaluateAll w t d.elements).result with e | operands
  · rw [hresult] at hread
    -- an error that is not about a literal has no fault to lose, so the kinds of errors matter
    obtain ⟨hliterals, hraised | ⟨-, previous, hrefused⟩⟩ := elaborate_of_evaluateAll_error hresult
    · rw [hliterals, hread, lostFault?, hresult, hraised]
      cases e <;> rfl
    · rw [hliterals, hread, lostFault?, hresult, hrefused]
      cases e <;> rfl
  · rw [hresult] at hread
    rw [lostFault?, hresult, elaborate, hresult]
    exact (d.matches_elaborateWith w t operands hread).trans (List.append_nil _).symm

private theorem of_lostFault?_eq_some {fault : LiteralError}
    (hlost : d.lostFault? w t = some fault) :
    d.base.isExplicit = true ∧
    (Expr.evaluateAll w t d.elements).result = .error (.literal fault) ∧
    ∃ previous, (d.elaborate w t).result =
      .error (.redefinition d.name t.currentKind d.span previous) := by
  rw [lostFault?] at hlost
  split at hlost
  · next fault' _ _ _ _ hfails hrefused =>
    cases hlost
    rcases (elaborate_of_evaluateAll_error hfails).2 with hraised | ⟨hexplicit, hresult⟩
    · rw [hraised] at hrefused
      cases hrefused
    · exact ⟨hexplicit, hfails, hresult⟩
  · cases hlost

end DeclareEvent

/-! ## Events -/

private theorem Scope.faults_unresolved (s : Scope) : s.unresolved.filterMap (·.fault?) = [] := by
  refine List.filterMap_eq_nil_iff.mpr fun e he ↦ ?_
  obtain ⟨jump, -, rfl⟩ := List.mem_map.mp he
  rfl

namespace Outcome

private theorem literals_ofHandle (t : ScopeTree) (refused : List Nat) (h : ScopeTree.Handle)
    (span : Span) : (ofHandle t refused h span).findings.literals = [] := by
  rw [ofHandle]
  split <;> rfl

private theorem faults_ofHandle (t : ScopeTree) (refused : List Nat) (h : ScopeTree.Handle)
    (span : Span) : (ofHandle t refused h span).findings.errors.filterMap (·.fault?) = [] := by
  rw [ofHandle, ScopeTree.closeScope]
  by_cases hopen : t.holds h = true
  · rw [if_pos hopen]
    dsimp only
    rw [List.filterMap_flatMap]
    exact List.flatMap_eq_nil_iff.mpr fun id _ ↦ Scope.faults_unresolved _
  · rw [if_neg hopen]
    rfl

/-- The fault that is lost at an event. -/
def lostAt (w : Widths) (t : ScopeTree) : Event → List LiteralError
  | .declare d => (d.lostFault? w t).toList
  | _ => []

/-- **An event raises the fault it meets, or loses it.** -/
theorem faults_ofEvent (w : Widths) (t : ScopeTree) (refused : List Nat) (e : Event) :
    (ofEvent w t refused e).findings.literals.filterMap (·.fault?) =
      (ofEvent w t refused e).findings.errors.filterMap (·.fault?) ++ lostAt w t e := by
  cases e with
  | literal l => exact (matches_operand ⟨l, l.read w⟩).trans (List.append_nil _).symm
  | declare d => exact d.faults_elaborate w t
  | openScope kind name span =>
    rw [ofEvent, ofOpen, ScopeTree.openScope]
    by_cases hnests : kind.nestsIn t.currentKind = true
    · rw [if_pos hnests]
      rfl
    · rw [if_neg hnests]
      rfl
  | closeScope span =>
    rw [ofEvent, ofClose]
    split
    · rfl
    · split
      · rfl
      · rw [literals_ofHandle, faults_ofHandle]
        rfl
  | use name path span =>
    rw [ofEvent, ofUse]
    dsimp only
    split <;> rfl
  | assign name span =>
    rw [ofEvent, ScopeTree.assign]
    dsimp only
    split
    · rfl
    · split <;> rfl
  | label name span =>
    rw [ofEvent, ScopeTree.defineLabel]
    split
    · rfl
    · split <;> rfl
  | goto name span =>
    rw [ofEvent, ScopeTree.jumpTo]
    split
    · rfl
    · split <;> rfl

end Outcome

/-! ## Units -/

namespace UnitState

/-- The faults of the literals read so far are those raised and those lost. -/
def Accounted (s : UnitState) (lost : List LiteralError) : Prop :=
  (s.literals.filterMap (·.fault?)).Perm (s.errors.filterMap (·.fault?) ++ lost)

/-- The faults that are lost in a run. -/
def lostIn (c : Config) : UnitState → List Event → List LiteralError
  | _, [] => []
  | s, e :: rest =>
    (if s.aborted then [] else Outcome.lostAt c.widths s.tree e) ++ lostIn c (s.step c e) rest

section Accounted

variable {c : Config} {s s' : UnitState} {lost : List LiteralError}

theorem Accounted.of_gains (hs : s.Accounted lost) {o : Outcome} (hgains : s.Gains c s' o)
    {more : List LiteralError}
    (hfound : o.findings.literals.filterMap (·.fault?) =
      o.findings.errors.filterMap (·.fault?) ++ more) : s'.Accounted (lost ++ more) := by
  have hliterals : s'.literals = s.literals ++ o.findings.literals :=
    congrArg Findings.literals hgains.findings
  rw [Accounted, hliterals, errors_of_gains hgains, List.filterMap_append, List.filterMap_append,
    hfound]
  refine (List.Perm.append_right _ hs).trans ?_
  -- the faults lost before change places with those raised now
  rw [List.append_assoc, List.append_assoc]
  exact (List.perm_append_comm_assoc ..).append_left _

private theorem Accounted.of_gains_errors (hs : s.Accounted lost) {o : Outcome}
    (hgains : s.Gains c s' o) (hliterals : o.findings.literals = [])
    (herrors : o.findings.errors.filterMap (·.fault?) = []) : s'.Accounted lost := by
  have hquiet : o.findings.literals.filterMap (·.fault?) =
      o.findings.errors.filterMap (·.fault?) ++ [] := by
    rw [hliterals, herrors]
    rfl
  have hfound := hs.of_gains hgains hquiet
  rwa [List.append_nil] at hfound

theorem Accounted.step (hs : s.Accounted lost) (e : Event) :
    (s.step c e).Accounted
      (lost ++ if s.aborted then [] else Outcome.lostAt c.widths s.tree e) := by
  rw [UnitState.step]
  split
  · rwa [List.append_nil]
  · exact hs.of_gains (gains_take c s e) (Outcome.faults_ofEvent ..)

theorem Accounted.run (hs : s.Accounted lost) (events : List Event) :
    (s.run c events).Accounted (lost ++ s.lostIn c events) := by
  induction events generalizing s lost with
  | nil => rwa [lostIn, List.append_nil]
  | cons e rest ih =>
    rw [lostIn, ← List.append_assoc]
    exact ih (hs.step e)

theorem Accounted.closeOpen (hs : s.Accounted lost) (fuel : Nat) :
    (UnitState.closeOpen c fuel s).Accounted lost := by
  refine closeOpen_keeps (P := (Accounted · lost)) (fun s h hs ↦ ?_) hs fuel
  let unclosed : Error := .unbalancedScope (some (s.tree.scope h.id).kind) (s.tree.scope h.id).span
  have hreported : (s.report c unclosed).Accounted lost :=
    hs.of_gains_errors (gains_reportAll c s [unclosed]) rfl rfl
  exact hreported.of_gains_errors (gains_closeHandle ..) (Outcome.literals_ofHandle ..)
    (Outcome.faults_ofHandle ..)

end Accounted

private theorem exists_of_mem_lostIn {c : Config} {s : UnitState} {events : List Event}
    {fault : LiteralError} (hlost : fault ∈ s.lostIn c events) :
    ∃ before d after, events = before ++ .declare d :: after ∧
      (s.run c before).aborted = false ∧
      d.lostFault? c.widths (s.run c before).tree = some fault := by
  induction events generalizing s with
  | nil => cases hlost
  | cons e rest ih =>
    rw [lostIn, List.mem_append] at hlost
    rcases hlost with hhere | hlater
    · split at hhere
      · cases hhere
      · next hgoes =>
        cases e with
        | declare d =>
          exact ⟨[], d, rest, rfl, Bool.eq_false_iff.mpr hgoes, Option.mem_toList.mp hhere⟩
        | _ => cases hhere
    · obtain ⟨before, d, after, rfl, hrest⟩ := ih hlater
      exact ⟨e :: before, d, after, rfl, hrest⟩

end UnitState

private theorem mem_errors_analyze_of_declare {c : Config} {seed : Seed} {before : List Event}
    {d : DeclareEvent} {e : Error} (hgoes : (stateAfter c seed before).aborted = false)
    (hfails : (d.elaborate c.widths (stateAfter c seed before).tree).result = .error e)
    (after : List Event) : e ∈ (analyze c seed (before ++ .declare d :: after)).errors := by
  have htaken : e ∈ ((stateAfter c seed before).step c (.declare d)).errors := by
    rw [UnitState.step_eq_take c hgoes, UnitState.errors_of_gains (UnitState.gains_take ..)]
    refine List.mem_append_right _ ?_
    rw [Outcome.ofEvent, Outcome.ofDeclared, hfails]
    exact List.mem_singleton_self e
  have hraised : e ∈ (stateAfter c seed (before ++ .declare d :: after)).errors := by
    rw [stateAfter_append]
    exact (UnitState.errors_prefix_run c _ after).subset htaken
  exact (UnitState.errors_prefix_closeOpen c _ _).subset hraised

/-- **The faults of literals, accounted for.** The faults of the literals of a unit are those that
its errors are about and the lost ones, each as often as it was met. So a literal that could not be
read is among the errors, unless its fault is lost. A fault is lost only in the initializer of a
declaration that has its type written out and whose name cannot be bound, and then this is an error
of the unit. -/
theorem literal_faults_accounted (c : Config) (seed : Seed) (events : List Event) :
    let report := analyze c seed events
    let lost := (UnitState.new c seed).lostIn c events
    (report.literals.filterMap (·.fault?)).Perm (report.errors.filterMap (·.fault?) ++ lost) ∧
    (∀ r ∈ report.literals, ∀ fault, r.result = .error fault →
      .literal fault ∈ report.errors ∨ fault ∈ lost) ∧
    ∀ fault ∈ lost, ∃ before d after previous, events = before ++ .declare d :: after ∧
      let t := (stateAfter c seed before).tree
      d.base.isExplicit = true ∧
      (Expr.evaluateAll c.widths t d.elements).result = .error (.literal fault) ∧
      (d.elaborate c.widths t).result =
        .error (.redefinition d.name t.currentKind d.span previous) ∧
      .redefinition d.name t.currentKind d.span previous ∈ report.errors := by
  intro report lost
  have hstart : (UnitState.new c seed).Accounted [] := List.Perm.refl _
  have haccount : (report.literals.filterMap (·.fault?)).Perm
      (report.errors.filterMap (·.fault?) ++ lost) := (hstart.run events).closeOpen _
  refine ⟨haccount, fun r hr fault hfault ↦ ?_, fun fault hlost ↦ ?_⟩
  · have hmet : fault ∈ report.literals.filterMap (·.fault?) :=
      List.mem_filterMap.mpr ⟨r, hr, LiteralReading.fault?_eq_some_iff.mpr hfault⟩
    refine (List.mem_append.mp (haccount.subset hmet)).imp_left fun hraised ↦ ?_
    obtain ⟨e, he, hliteral⟩ := List.mem_filterMap.mp hraised
    exact Error.fault?_eq_some_iff.mp hliteral ▸ he
  · obtain ⟨before, d, after, hevents, hgoes, hfault⟩ := UnitState.exists_of_mem_lostIn hlost
    obtain ⟨hexplicit, hoperands, previous, hrefused⟩ := DeclareEvent.of_lostFault?_eq_some hfault
    refine ⟨before, d, after, previous, hevents, hexplicit, hoperands, hrefused, ?_⟩
    have hraised := mem_errors_analyze_of_declare hgoes hrefused after
    rwa [← hevents] at hraised

/-- A variable that is declared twice, the second time with a literal that has no digits. -/
def redeclaredWithFault : List Event :=
  let x : DeclareEvent :=
    { name := "x"
      span := ⟨0, 1⟩
      base := .explicit .int
      declarator := []
      storage := none
      isConst := false
      isDefinition := true
      init := none }
  [.declare x,
    .declare { x with
      span := ⟨2, 5⟩
      init := some ⟨.copy, [.literal (.integer "0x" ⟨3, 5⟩)], ⟨3, 5⟩⟩ }]

theorem literal_faults_accounted_redeclaredWithFault :
    ∃ before d after previous, redeclaredWithFault = before ++ .declare d :: after ∧
      let t := (stateAfter {} .empty before).tree
      d.base.isExplicit = true ∧
      (Expr.evaluateAll {} t d.elements).result =
        .error (.literal ⟨⟨3, 5⟩, .missingDigits .hex⟩) ∧
      (d.elaborate {} t).result =
        .error (.redefinition d.name t.currentKind d.span previous) ∧
      .redefinition d.name t.currentKind d.span previous ∈
        (analyze {} .empty redeclaredWithFault).errors :=
  (literal_faults_accounted {} .empty redeclaredWithFault).2.2 _
    (List.mem_singleton.mpr rfl)

/-- The literal is at fault, and no error says so. -/
theorem fault_lost_in_redeclaredWithFault :
    (analyze {} .empty redeclaredWithFault).literals.filterMap (·.fault?) =
      [⟨⟨3, 5⟩, .missingDigits .hex⟩] ∧
    (analyze {} .empty redeclaredWithFault).errors =
      [.redefinition "x" .global ⟨2, 5⟩ ⟨0, 1⟩] :=
  ⟨rfl, rfl⟩

end DeclAnalysis
