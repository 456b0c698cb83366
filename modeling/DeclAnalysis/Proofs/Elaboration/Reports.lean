import DeclAnalysis.Proofs.Elaboration.Abort

/-!
# Reports on declarations

The analysis of a unit reports on its declarations in order, and the report with a given number is
on the declaration with that number: an analysis that stops early has fewer reports, and never skips
one. Each report is made of the declaration and of the tree that the events in front of it lead to
(`declaration_reported`).

A declaration is reported as accepted only if nothing is wrong with it at all: its operands were
evaluated, its type was found, its initializer was checked and its name was bound.
-/

namespace DeclAnalysis

/-! ## What is accepted -/

namespace DeclareEvent

variable {w : Widths} {t : ScopeTree} {d : DeclareEvent} {decl : Declaration}

/-- A declaration of a known type is accepted only if neither an operand nor the initializer is at
fault. -/
private theorem of_bind_ok {operands : List Operand} {operandFault : Option Error} {type : Ty}
    {literals : List LiteralReading}
    (hok : (d.bind w t operands operandFault type literals).result = .ok decl) :
    operandFault = none ∧ decl = d.declaration w t.currentKind type operands ∧
      ∀ init, d.init = some init → w.initFault? type init operands = none := by
  rw [bind.eq_def] at hok
  split at hok
  · cases hok
  · dsimp only at hok
    split at hok
    · cases hok
    · split at hok
      · cases hok
      · next hfault =>
        cases hok
        -- nothing was found at fault, so no operand was, nor the initializer if there is one
        rcases operandFault with - | error
        · refine ⟨rfl, rfl, fun init hinit ↦ ?_⟩
          rwa [hinit] at hfault
        · cases hfault

private theorem of_elaborateWith_ok {operands : List Operand} {operandFault : Option Error}
    {literals : List LiteralReading}
    (hok : (d.elaborateWith w t operands operandFault literals).result = .ok decl) :
    operandFault = none ∧ ∃ type, (d.declaredType w t operands).result = .ok type ∧
      decl = d.declaration w t.currentKind type operands ∧
      ∀ init, d.init = some init → w.initFault? type init operands = none := by
  rw [elaborateWith] at hok
  split at hok
  · cases hok
  · next type htype =>
    obtain ⟨hnone, hdecl, hinit⟩ := of_bind_ok hok
    exact ⟨hnone, type, htype, hdecl, hinit⟩

/-- **What an accepted declaration has passed.** -/
theorem of_elaborate_ok (hok : (d.elaborate w t).result = .ok decl) :
    ∃ operands type, (Expr.evaluateAll w t d.elements).result = .ok operands ∧
      (d.declaredType w t operands).result = .ok type ∧
      decl = d.declaration w t.currentKind type operands ∧
      ∀ init, d.init = some init → w.initFault? type init operands = none := by
  rw [elaborate] at hok
  split at hok
  · next operands hoperands =>
    obtain ⟨-, type, htype, hdecl, hinit⟩ := of_elaborateWith_ok hok
    exact ⟨operands, type, hoperands, htype, hdecl, hinit⟩
  · split at hok
    · -- the fault of an operand is not forgotten when the type is written out
      cases (of_elaborateWith_ok hok).1
    · cases hok

end DeclareEvent

/-! ## Which report is on which declaration -/

/-- The declaration of an event. -/
def Event.declaration? : Event → Option DeclareEvent
  | .declare d => some d
  | _ => none

/-- The report on a declaration that meets a tree. -/
def DeclareEvent.reportIn (w : Widths) (t : ScopeTree) (d : DeclareEvent) : DeclarationReport :=
  ⟨d.name, d.span, (d.elaborate w t).result⟩

namespace UnitState

private theorem declarations_closeHandle (c : Config) (s : UnitState) (h : ScopeTree.Handle)
    (span : Span) : (s.closeHandle c h span).declarations = s.declarations := by
  rw [closeHandle]
  split
  · exact declarations_reportAll ..
  · rfl

private theorem declarations_take (c : Config) (s : UnitState) (e : Event) :
    (s.take c e).declarations =
      s.declarations ++ (e.declaration?.map (·.reportIn c.widths s.tree)).toList := by
  cases e with
  | declare d =>
    rw [take, declare, reportFailure_eq]
    dsimp only
    rw [declarations_reportAll]
    rfl
  | literal l =>
    rw [take, literal, reportFailure_eq, declarations_reportAll]
    exact (List.append_nil _).symm
  | openScope kind name span =>
    rw [take, openScope]
    split <;> exact (List.append_nil _).symm
  | closeScope span =>
    refine Eq.trans ?_ (List.append_nil _).symm
    rw [take, closeScope]
    split
    · rfl
    · split
      · rfl
      · exact declarations_closeHandle ..
  | use name path span =>
    rw [take, use_eq]
    exact (declarations_reportAll ..).trans (List.append_nil _).symm
  | assign name span =>
    rw [take, reportFailure_eq]
    exact (declarations_reportAll ..).trans (List.append_nil _).symm
  | label name span =>
    rw [take, takeTree.eq_def]
    split <;> exact (List.append_nil _).symm
  | goto name span =>
    rw [take, takeTree.eq_def]
    split <;> exact (List.append_nil _).symm

private theorem exists_reports_run (c : Config) (s : UnitState) (events : List Event) :
    ∃ reports, (s.run c events).declarations = s.declarations ++ reports ∧
      ∀ i report, reports[i]? = some report → ∃ front d back,
        events = front ++ .declare d :: back ∧
        (front.filterMap Event.declaration?).length = i ∧
        report = d.reportIn c.widths (s.run c front).tree := by
  induction events generalizing s with
  | nil => exact ⟨[], (List.append_nil _).symm, by simp⟩
  | cons e rest ih =>
    rcases hs : s.aborted with - | -
    · have hrun (more : List Event) : s.run c (e :: more) = (s.take c e).run c more := by
        rw [run, List.foldl_cons, step_eq_take c hs, ← run]
      obtain ⟨reports, hreports, hfront⟩ := ih (s.take c e)
      refine ⟨_, by rw [hrun, hreports, declarations_take, List.append_assoc], ?_⟩
      -- the first report is on this event if it is a declaration, the others come later
      have hlater : ∀ i report, reports[i]? = some report → ∃ front d back,
          e :: rest = front ++ .declare d :: back ∧
          (front.filterMap Event.declaration?).length = e.declaration?.toList.length + i ∧
          report = d.reportIn c.widths (s.run c front).tree := by
        intro i report hi
        obtain ⟨front, d, back, rfl, hlength, hreport⟩ := hfront i report hi
        refine ⟨e :: front, d, back, rfl, ?_, by rw [hrun]; exact hreport⟩
        rw [List.filterMap_cons, ← hlength]
        rcases e.declaration? with - | d <;> simp [Nat.add_comm]
      intro i report hi
      rcases hdeclares : e.declaration? with - | d
      · rw [hdeclares] at hi hlater
        obtain ⟨front, d, back, hsplit, hlength, hreport⟩ := hlater i report hi
        exact ⟨front, d, back, hsplit, hlength.trans (Nat.zero_add i), hreport⟩
      · obtain rfl : e = .declare d := by
          cases e <;> cases hdeclares
          rfl
        rcases i with - | i
        · obtain rfl : d.reportIn c.widths s.tree = report := Option.some.inj hi
          exact ⟨[], d, rest, rfl, rfl, rfl⟩
        · obtain ⟨front, d', back, hsplit, hlength, hreport⟩ := hlater i report hi
          exact ⟨front, d', back, hsplit, hlength.trans (Nat.add_comm 1 i), hreport⟩
    · rw [run_of_aborted c hs]
      exact ⟨[], (List.append_nil _).symm, by simp⟩

end UnitState

/-- **Reports are on the declarations in order.** -/
theorem declaration_reported {c : Config} {seed : Seed} {events : List Event} {i : Nat}
    {report : DeclarationReport} (hreport : (analyze c seed events).declarations[i]? = some report)
    {d : DeclareEvent} (hd : (events.filterMap Event.declaration?)[i]? = some d) :
    ∃ front back, events = front ++ .declare d :: back ∧
      report = d.reportIn c.widths (stateAfter c seed front).tree := by
  obtain ⟨reports, hreports, hfront⟩ :=
    UnitState.exists_reports_run c (.new c seed) events
  have hkept : (analyze c seed events).declarations =
      ((UnitState.new c seed).run c events).declarations := by
    refine UnitState.closeOpen_keeps (P := fun s ↦
      s.declarations = ((UnitState.new c seed).run c events).declarations) ?_ rfl _
    intro s h hs
    exact (UnitState.declarations_closeHandle ..).trans hs
  rw [hkept, hreports] at hreport
  obtain ⟨front, d', back, rfl, hlength, rfl⟩ := hfront i report hreport
  have hsame : ((front ++ .declare d' :: back).filterMap Event.declaration?)[i]? = some d' := by
    rw [List.filterMap_append, List.getElem?_append_right (by omega), hlength]
    simp [Event.declaration?]
  obtain rfl := Option.some.inj (hsame.symm.trans hd)
  exact ⟨front, back, rfl, rfl⟩

end DeclAnalysis
