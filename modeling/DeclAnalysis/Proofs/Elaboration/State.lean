import DeclAnalysis.Elaboration.Run
import DeclAnalysis.Proofs.Scope.OpenPath

/-!
# States of a unit

What one event does to the state of a unit, said once for the proofs about whole runs. The `Outcome`
of an event depends on the scopes that it meets and on nothing else of the state: it is the scopes
after the event and what is found in it. `gains_take` says that taking an event is taking its
outcome; what was found before stays in front.

Every event is one step of the scope tree, and only the events that open and close scopes do more to
it than edit the open scopes. An analysis that does not abort never stops: the flag stays down, so a
run takes every event.
-/

namespace DeclAnalysis

/-- Whether an event opens or closes a scope. -/
def Event.isBracket : Event → Bool
  | .openScope _ _ _ => true
  | .closeScope _ => true
  | _ => false

/-- The declaration that a name refers to, with a path from the global scope or without one. -/
def ScopeTree.resolve? (t : ScopeTree) (name : String) (path : Option (List String)) :
    Option Declaration :=
  match path with
  | none => t.lookup? name
  | some path => t.lookupQualified? path name

/-! ## Declarations edit the tree -/

namespace DeclareEvent

theorem edit_bind (w : Widths) (t : ScopeTree) (e : DeclareEvent) (operands : List Operand)
    (operandFault : Option Error) (type : Ty) (literals : List LiteralReading) :
    t.Edit (e.bind w t operands operandFault type literals).tree := by
  rw [bind.eq_def]
  split
  · exact .kept
  · dsimp only
    cases hdeclare : t.declare (e.declaration w t.currentKind type operands) with
    | error error => exact .kept
    | ok result =>
      obtain ⟨standing, t'⟩ := result
      have hedit : t.Edit t' := ScopeTree.edit_of_declare hdeclare
      dsimp only
      split <;> exact hedit

theorem edit_elaborateWith (w : Widths) (t : ScopeTree) (e : DeclareEvent)
    (operands : List Operand) (operandFault : Option Error) (literals : List LiteralReading) :
    t.Edit (e.elaborateWith w t operands operandFault literals).tree := by
  rw [elaborateWith]
  split
  · exact .kept
  · exact edit_bind ..

theorem edit_elaborate (w : Widths) (t : ScopeTree) (e : DeclareEvent) :
    t.Edit (e.elaborate w t).tree := by
  rw [elaborate]
  split
  · exact edit_elaborateWith ..
  · split
    · exact edit_elaborateWith ..
    · exact .kept

end DeclareEvent

/-! ## What an event adds to a unit -/

/-- What is found in a unit, diagnostics aside. -/
structure Findings where
  /-- The literals read. -/
  literals : List LiteralReading := []
  /-- The declarations met. -/
  declarations : List DeclarationReport := []
  /-- The uses met. -/
  uses : List NameUse := []
  /-- The errors raised. -/
  errors : List Error := []

namespace Findings

instance : Append Findings where
  append f g := ⟨f.literals ++ g.literals, f.declarations ++ g.declarations, f.uses ++ g.uses,
    f.errors ++ g.errors⟩

theorem append_def (f g : Findings) :
    f ++ g = ⟨f.literals ++ g.literals, f.declarations ++ g.declarations, f.uses ++ g.uses,
      f.errors ++ g.errors⟩ := rfl

theorem append_assoc (f g h : Findings) : f ++ g ++ h = f ++ (g ++ h) := by
  simp only [append_def, List.append_assoc]

@[simp] theorem append_empty (f : Findings) : f ++ ({} : Findings) = f := by
  simp only [append_def, List.append_nil]

end Findings

/-- What is found up to some point of an analysis. -/
def UnitState.findings (s : UnitState) : Findings :=
  ⟨s.literals, s.declarations, s.uses, s.errors⟩

/-- What an event makes of the scopes, and what is found in it. -/
structure Outcome where
  /-- The scopes after the event. -/
  tree : ScopeTree
  /-- The depths of the refused scopes after the event. -/
  refused : List Nat
  /-- What is found in the event. -/
  findings : Findings := {}

/-- The error of a failure. -/
def failures {α : Type} : Except Error α → List Error
  | .ok _ => []
  | .error e => [e]

namespace Outcome

/-- The outcome of an operation on scopes. -/
def ofTree (t : ScopeTree) (refused : List Nat) : Except Error ScopeTree → Outcome
  | .ok t' => ⟨t', refused, {}⟩
  | .error e => ⟨t, refused, { errors := [e] }⟩

/-- The outcome of an open. -/
def ofOpen (t : ScopeTree) (refused : List Nat) (kind : ScopeKind) (name : Option String)
    (span : Span) : Outcome :=
  match t.openScope kind name span with
  | .ok (_, t') => ⟨t', refused, {}⟩
  | .error e => ⟨t, t.depth :: refused, { errors := [e] }⟩

/-- The outcome of closing the scope of a handle. -/
def ofHandle (t : ScopeTree) (refused : List Nat) (h : ScopeTree.Handle) (span : Span) : Outcome :=
  match t.closeScope h span with
  | .ok (unresolved, t') => ⟨t', refused, { errors := unresolved }⟩
  | .error e => ⟨t, refused, { errors := [e] }⟩

/-- The outcome of a close. -/
def ofClose (t : ScopeTree) (refused : List Nat) (span : Span) : Outcome :=
  if refused.head? = some t.depth then ⟨t, refused.tail, {}⟩
  else
    match t.innermost? with
    | none => ⟨t, refused, { errors := [.unbalancedScope none span] }⟩
    | some h => ofHandle t refused h span

/-- The outcome of a declaration. -/
def ofDeclared (refused : List Nat) (e : DeclareEvent) (d : Declared) : Outcome :=
  ⟨d.tree, refused,
    { literals := d.literals
      declarations := [⟨e.name, e.span, d.result⟩]
      errors := failures d.result }⟩

/-- The outcome of the use of a name. -/
def ofUse (t : ScopeTree) (refused : List Nat) (name : String) (span : Span)
    (resolved : Option Declaration) : Outcome :=
  ⟨t, refused,
    { uses := [⟨name, span, resolved⟩]
      errors := if resolved.isNone then [.undeclaredName name span] else [] }⟩

/-- The outcome of an event, by the scopes it meets. -/
def ofEvent (w : Widths) (t : ScopeTree) (refused : List Nat) : Event → Outcome
  | .literal l =>
    let reading : LiteralReading := ⟨l, l.read w⟩
    ⟨t, refused, { literals := [reading], errors := failures reading.operand }⟩
  | .openScope kind name span => ofOpen t refused kind name span
  | .closeScope span => ofClose t refused span
  | .declare e => ofDeclared refused e (e.elaborate w t)
  | .use name path span => ofUse t refused name span (t.resolve? name path)
  | .assign name span => ⟨t, refused, { errors := failures (t.assign name span) }⟩
  | .label name span => ofTree t refused (t.defineLabel name span)
  | .goto name span => ofTree t refused (t.jumpTo name span)

/-- An event that neither opens nor closes a scope edits the open scopes at most. -/
theorem edit_ofEvent (w : Widths) (t : ScopeTree) (refused : List Nat) {e : Event}
    (hquiet : e.isBracket = false) : t.Edit (ofEvent w t refused e).tree := by
  have hofTree (x : Except Error ScopeTree) (hedit : ∀ t', x = .ok t' → t.Edit t') :
      t.Edit (ofTree t refused x).tree := by
    cases x with
    | ok t' => exact hedit t' rfl
    | error e => exact .kept
  cases e with
  | openScope | closeScope => cases hquiet
  | literal | use | assign => exact .kept
  | declare e => exact e.edit_elaborate w t
  | label name span => exact hofTree _ fun t' ht' ↦ ScopeTree.edit_of_defineLabel ht'
  | goto name span => exact hofTree _ fun t' ht' ↦ ScopeTree.edit_of_jumpTo ht'

/-- An event that neither opens nor closes a scope has no part in the matching of closes. -/
theorem refused_ofEvent (w : Widths) (t : ScopeTree) (refused : List Nat) {e : Event}
    (hquiet : e.isBracket = false) : (ofEvent w t refused e).refused = refused := by
  have hofTree (x : Except Error ScopeTree) : (ofTree t refused x).refused = refused := by
    cases x <;> rfl
  cases e with
  | openScope | closeScope => cases hquiet
  | literal | declare | use | assign => rfl
  | label | goto => exact hofTree _

theorem step_ofHandle (t : ScopeTree) (refused : List Nat) (h : ScopeTree.Handle) (span : Span) :
    t.Step (ofHandle t refused h span).tree := by
  rw [ofHandle]
  split
  · next errors t' hclose => exact ScopeTree.step_of_closeScope hclose
  · exact .edited .kept

/-- **Every event is one step of the tree.** -/
theorem step_ofEvent (w : Widths) (t : ScopeTree) (refused : List Nat) (e : Event) :
    t.Step (ofEvent w t refused e).tree := by
  cases hbracket : e.isBracket with
  | false => exact .edited (edit_ofEvent w t refused hbracket)
  | true =>
    cases e with
    | openScope kind name span =>
      rw [ofEvent, ofOpen]
      split
      · next h t' hopen => exact ScopeTree.step_of_openScope hopen
      · exact .edited .kept
    | closeScope span =>
      rw [ofEvent, ofClose]
      split
      · exact .edited .kept
      · split
        · exact .edited .kept
        · exact step_ofHandle ..
    | literal | declare | use | assign | label | goto => cases hbracket

end Outcome

namespace UnitState

/-- A state that has taken an outcome. -/
structure Gains (c : Config) (s s' : UnitState) (o : Outcome) : Prop where
  tree : s'.tree = o.tree
  refused : s'.refused = o.refused
  findings : s'.findings = s.findings ++ o.findings
  /-- The first error ends the analysis if it is set to abort. -/
  aborted : s'.aborted = (s.aborted || (c.abort && !o.findings.errors.isEmpty))

theorem part_reportAll {β : Type} (part : UnitState → β) (c : Config) (s : UnitState)
    (errors : List Error) (keeps : ∀ s e, part (report c s e) = part s) :
    part (s.reportAll c errors) = part s := by
  induction errors generalizing s with
  | nil => rfl
  | cons e rest ih => exact (ih (s.report c e)).trans (keeps s e)

@[simp] theorem refused_reportAll (c : Config) (s : UnitState) (errors : List Error) :
    (s.reportAll c errors).refused = s.refused := part_reportAll _ c s errors fun _ _ ↦ rfl

@[simp] theorem literals_reportAll (c : Config) (s : UnitState) (errors : List Error) :
    (s.reportAll c errors).literals = s.literals := part_reportAll _ c s errors fun _ _ ↦ rfl

@[simp] theorem declarations_reportAll (c : Config) (s : UnitState) (errors : List Error) :
    (s.reportAll c errors).declarations = s.declarations :=
  part_reportAll _ c s errors fun _ _ ↦ rfl

@[simp] theorem uses_reportAll (c : Config) (s : UnitState) (errors : List Error) :
    (s.reportAll c errors).uses = s.uses := part_reportAll _ c s errors fun _ _ ↦ rfl

@[simp] theorem aborted_reportAll (c : Config) (s : UnitState) (errors : List Error) :
    (s.reportAll c errors).aborted = (s.aborted || (c.abort && !errors.isEmpty)) := by
  induction errors generalizing s with
  | nil => simp [reportAll]
  | cons e rest ih =>
    rw [reportAll, List.foldl_cons, ← reportAll, ih, report]
    cases s.aborted <;> cases c.abort <;> rfl

theorem reportFailure_eq {α : Type} (c : Config) (s : UnitState) (x : Except Error α) :
    s.reportFailure c x = s.reportAll c (failures x) := by
  cases x <;> rfl

theorem gains_reportAll (c : Config) (s : UnitState) (errors : List Error) :
    s.Gains c (s.reportAll c errors) ⟨s.tree, s.refused, { errors := errors }⟩ := by
  constructor <;> simp [findings, Findings.append_def]

theorem gains_takeTree (c : Config) (s : UnitState) (x : Except Error ScopeTree) :
    s.Gains c (s.takeTree c x) (.ofTree s.tree s.refused x) := by
  cases x with
  | ok t => constructor <;> simp [takeTree, Outcome.ofTree, findings]
  | error e => exact gains_reportAll c s [e]

theorem gains_openScope (c : Config) (s : UnitState) (kind : ScopeKind) (name : Option String)
    (span : Span) :
    s.Gains c (s.openScope c kind name span) (.ofOpen s.tree s.refused kind name span) := by
  rw [openScope, Outcome.ofOpen]
  cases s.tree.openScope kind name span with
  | ok opened => constructor <;> simp [findings]
  | error e => constructor <;> simp [report, findings, Findings.append_def]

theorem gains_closeHandle (c : Config) (s : UnitState) (h : ScopeTree.Handle) (span : Span) :
    s.Gains c (s.closeHandle c h span) (.ofHandle s.tree s.refused h span) := by
  rw [closeHandle, Outcome.ofHandle]
  cases s.tree.closeScope h span with
  | ok closed => constructor <;> simp [findings, Findings.append_def]
  | error e => exact gains_reportAll c s [e]

theorem gains_closeScope (c : Config) (s : UnitState) (span : Span) :
    s.Gains c (s.closeScope c span) (.ofClose s.tree s.refused span) := by
  rw [closeScope, Outcome.ofClose]
  split
  · constructor <;> simp [findings]
  · cases s.tree.innermost? with
    | none => exact gains_reportAll c s [_]
    | some h => exact gains_closeHandle c s h span

theorem gains_declare (c : Config) (s : UnitState) (e : DeclareEvent) :
    s.Gains c (s.declare c e) (.ofDeclared s.refused e (e.elaborate c.widths s.tree)) := by
  rw [declare, reportFailure_eq]
  constructor <;> simp [Outcome.ofDeclared, takeDeclared, addLiterals, findings,
    Findings.append_def]

/-- The error is raised before the use is kept, but the two go to lists of their own. -/
theorem use_eq (c : Config) (s : UnitState) (name : String) (path : Option (List String))
    (span : Span) :
    s.use c name path span =
      { s.reportAll c
          (if (s.tree.resolve? name path).isNone then [.undeclaredName name span] else [])
        with uses := s.uses ++ [⟨name, span, s.tree.resolve? name path⟩] } := by
  cases path <;> rw [use, ScopeTree.resolve?] <;> dsimp only <;> split <;> rfl

theorem gains_use (c : Config) (s : UnitState) (name : String) (path : Option (List String))
    (span : Span) :
    s.Gains c (s.use c name path span)
      (.ofUse s.tree s.refused name span (s.tree.resolve? name path)) := by
  rw [use_eq]
  constructor <;> simp [Outcome.ofUse, findings, Findings.append_def]

/-- **What an event does to a unit** depends on the scopes only, and adds to what was found. -/
theorem gains_take (c : Config) (s : UnitState) (e : Event) :
    s.Gains c (s.take c e) (.ofEvent c.widths s.tree s.refused e) := by
  cases e with
  | literal l =>
    rw [take, literal, reportFailure_eq]
    constructor <;> simp [Outcome.ofEvent, addLiterals, findings, Findings.append_def]
  | openScope kind name span => exact gains_openScope c s kind name span
  | closeScope span => exact gains_closeScope c s span
  | declare e => exact gains_declare c s e
  | use name path span => exact gains_use c s name path span
  | assign name span =>
    rw [take, reportFailure_eq]
    exact gains_reportAll c s _
  | label | goto => exact gains_takeTree c s _

/-! ## Runs -/

theorem aborted_take {c : Config} (hgo : c.abort = false) (s : UnitState) (e : Event) :
    (s.take c e).aborted = s.aborted := by
  rw [(gains_take c s e).aborted, hgo, Bool.false_and, Bool.or_false]

theorem run_append (c : Config) (s : UnitState) (events more : List Event) :
    s.run c (events ++ more) = (s.run c events).run c more := List.foldl_append ..

/-- A state that is not aborted takes the next event. -/
theorem step_eq_take (c : Config) {s : UnitState} (hs : s.aborted = false) (e : Event) :
    s.step c e = s.take c e := by
  rw [step, hs]
  rfl

theorem aborted_run {c : Config} (hgo : c.abort = false) (s : UnitState) (events : List Event) :
    (s.run c events).aborted = s.aborted := by
  induction events generalizing s with
  | nil => rfl
  | cons e rest ih =>
    rw [run, List.foldl_cons, ← run, ih, step]
    split
    · rfl
    · exact aborted_take hgo s e

/-- What every event keeps is kept by a run, aborted or not. -/
theorem run_keeps {P : UnitState → Prop} {c : Config} (htake : ∀ s e, P s → P (s.take c e))
    {s : UnitState} (hs : P s) (events : List Event) : P (s.run c events) := by
  induction events generalizing s with
  | nil => exact hs
  | cons e rest ih =>
    refine ih ?_
    rw [step]
    split
    · exact hs
    · exact htake s e hs

/-- What was found stays in front of what is found later. -/
theorem exists_findings_run (c : Config) (s : UnitState) (events : List Event) :
    ∃ later, (s.run c events).findings = s.findings ++ later := by
  induction events generalizing s with
  | nil => exact ⟨{}, (Findings.append_empty _).symm⟩
  | cons e rest ih =>
    obtain ⟨later, hlater⟩ := ih (s.step c e)
    rw [run, List.foldl_cons, ← run, hlater, step]
    split
    · exact ⟨later, rfl⟩
    · rw [(gains_take c s e).findings, Findings.append_assoc]
      exact ⟨_, rfl⟩

/-- **The only induction over events.** What every event keeps in a state that is not aborted, every
run without aborts keeps. -/
theorem run_induction {c : Config} (hgo : c.abort = false) {P : List Event → UnitState → Prop}
    {s : UnitState} (hs : s.aborted = false) (hstart : P [] s)
    (hkeeps : ∀ events s e, s.aborted = false → P events s → P (events ++ [e]) (s.take c e))
    (events : List Event) : P events (s.run c events) := by
  induction events using List.reverseRecOn with
  | nil => exact hstart
  | append_singleton events e ih =>
    have hrun : (s.run c events).aborted = false := (aborted_run hgo s events).trans hs
    rw [run_append, show (s.run c events).run c [e] = (s.run c events).step c e from rfl,
      step_eq_take c hrun]
    exact hkeeps events _ e hrun ih

/-! ## The end of a unit -/

/-- The errors that a scope brings when it is still open at the end of a unit. -/
def unclosed (t : ScopeTree) (id : Nat) : List Error :=
  .unbalancedScope (some (t.scope id).kind) (t.scope id).span :: (t.scope id).unresolved

theorem reportUnclosed_innermost (c : Config) {s : UnitState} (hwf : s.tree.WellFormed)
    (hdepth : 1 < s.tree.depth) :
    s.reportUnclosed c ⟨s.tree.current, s.tree.depth - 1⟩ =
      ({ s with tree := s.tree.closeInner 1 }).reportAll c (unclosed s.tree s.tree.current) := by
  rw [reportUnclosed, closeHandle, tree_report,
    ScopeTree.closeScope_innermost hwf hdepth (s.tree.scope s.tree.current).span]
  rfl

/-- One round of the closing at the end. -/
theorem closeOpen_succ (c : Config) {s : UnitState} (hs : s.aborted = false)
    (hwf : s.tree.WellFormed) (hdepth : 1 < s.tree.depth) (fuel : Nat) :
    closeOpen c (fuel + 1) s =
      closeOpen c fuel (({ s with tree := s.tree.closeInner 1 }).reportAll c
        (unclosed s.tree s.tree.current)) := by
  rw [← reportUnclosed_innermost c hwf hdepth, closeOpen, hs, ScopeTree.innermost?, if_pos hdepth]
  rfl

/-- The closing stops when only the global scope is open. -/
theorem closeOpen_of_depth_le_one (c : Config) {s : UnitState} (hdepth : s.tree.depth ≤ 1)
    (fuel : Nat) : closeOpen c fuel s = s := by
  cases fuel with
  | zero => rfl
  | succ fuel =>
    have hinner : s.tree.innermost? = none := if_neg (Nat.not_lt.mpr hdepth)
    rw [closeOpen, hinner]
    split <;> rfl

/-- What the closing of one open scope keeps is kept by the closing at the end, aborted or not. -/
theorem closeOpen_keeps {P : UnitState → Prop} {c : Config}
    (hclose : ∀ s h, P s → P (s.reportUnclosed c h)) {s : UnitState} (hs : P s) (fuel : Nat) :
    P (closeOpen c fuel s) := by
  induction fuel generalizing s with
  | zero => exact hs
  | succ fuel ih =>
    rw [closeOpen]
    split
    · exact hs
    · split
      · exact hs
      · exact ih (hclose s _ hs)

section Kept

variable {P : ScopeTree → Prop} (hkeeps : ∀ t t', P t → t.Step t' → P t') (c : Config)

include hkeeps

theorem tree_closeOpen {s : UnitState} (hs : P s.tree) (fuel : Nat) :
    P (closeOpen c fuel s).tree := by
  refine closeOpen_keeps (P := fun s ↦ P s.tree) (fun s h hs ↦ ?_) hs fuel
  rw [reportUnclosed, (gains_closeHandle ..).tree]
  exact hkeeps _ _ hs (Outcome.step_ofHandle ..)

theorem tree_run {s : UnitState} (hs : P s.tree) (events : List Event) :
    P (s.run c events).tree := by
  refine run_keeps (P := fun s ↦ P s.tree) (fun s e hs ↦ ?_) hs events
  rw [(gains_take c s e).tree]
  exact hkeeps _ _ hs (Outcome.step_ofEvent ..)

/-- What every step of a tree keeps is kept by a whole unit, aborted or not: its events are steps,
and so are the closings at its end. -/
theorem tree_finish_run {s : UnitState} (hs : P s.tree) (events : List Event) :
    P ((s.run c events).finish c).tree :=
  tree_closeOpen hkeeps c (tree_run hkeeps c hs events) _

end Kept

/-- **The closing at the end.** Without aborts every scope but the global one is reported and
closed, innermost first, as soon as there is fuel for each of them; nothing else is changed. -/
theorem closeOpen_spec {c : Config} (hgo : c.abort = false) {ids : List Nat} :
    ∀ {s : UnitState} {fuel : Nat}, s.aborted = false → s.tree.WellFormed →
      s.tree.openPath = ids ++ [0] → ids.length ≤ fuel →
      closeOpen c fuel s = closeOpen c ids.length s ∧
      (closeOpen c fuel s).findings =
        s.findings ++ ({ errors := ids.flatMap (unclosed s.tree) } : Findings) ∧
      (closeOpen c fuel s).tree = s.tree.closeInner ids.length := by
  induction ids with
  | nil =>
    intro s fuel _ _ hpath _
    have hdepth : s.tree.depth ≤ 1 := by rw [ScopeTree.depth, hpath]; rfl
    rw [closeOpen_of_depth_le_one c hdepth, closeOpen_of_depth_le_one c hdepth]
    exact ⟨rfl, (Findings.append_empty _).symm, rfl⟩
  | cons id rest ih =>
    intro s fuel hs hwf hpath hfuel
    obtain ⟨fuel, rfl⟩ : ∃ n, fuel = n + 1 := ⟨fuel - 1, by rw [List.length_cons] at hfuel; omega⟩
    have hcurrent : s.tree.current = id := by rw [ScopeTree.current, hpath]; rfl
    have hdepth : 1 < s.tree.depth := by
      rw [ScopeTree.depth, hpath, List.cons_append, List.length_cons, List.length_append,
        List.length_singleton]
      omega
    have hnodup := hwf.nodup
    rw [hpath, List.cons_append, List.nodup_cons] at hnodup
    -- the scopes further out are not touched by the closing of this one
    have hothers : rest.flatMap (unclosed (s.tree.closeInner 1)) =
        rest.flatMap (unclosed s.tree) := by
      refine List.flatMap_congr fun other hmem ↦ ?_
      have hne : other ≠ id := by
        rintro rfl
        exact hnodup.1 (List.mem_append_left _ hmem)
      have hlt : other < s.tree.scopes.length :=
        hwf.lt_length other (by rw [hpath]; simp [hmem])
      rw [unclosed, unclosed, ScopeTree.scope_closeInner _ _ hlt, hpath, if_neg (by simp [hne])]
    rw [closeOpen_succ c hs hwf hdepth, List.length_cons, closeOpen_succ c hs hwf hdepth]
    have haborted : (({ s with tree := s.tree.closeInner 1 }).reportAll c
        (unclosed s.tree s.tree.current)).aborted = false := by
      rw [aborted_reportAll, hgo, Bool.false_and, Bool.or_false]
      exact hs
    obtain ⟨hfixed, hfound, htree⟩ := @ih _ fuel haborted
      (by rw [tree_reportAll]; exact hwf.closeInner hdepth)
      (by rw [tree_reportAll, ScopeTree.openPath_closeInner, hpath]; rfl)
      (by rw [List.length_cons] at hfuel; omega)
    refine ⟨hfixed, ?_, ?_⟩
    · rw [hfound, (gains_reportAll c _ _).findings, tree_reportAll, hothers, hcurrent,
        List.flatMap_cons, Findings.append_assoc]
      rfl
    · rw [htree, tree_reportAll, ScopeTree.closeInner_closeInner, Nat.add_comm]

end UnitState

end DeclAnalysis
