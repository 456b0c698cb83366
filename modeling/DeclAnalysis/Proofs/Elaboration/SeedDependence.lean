import DeclAnalysis.Proofs.Seed
import DeclAnalysis.Proofs.Elaboration.Mentions
import DeclAnalysis.Proofs.Elaboration.State
import DeclAnalysis.Proofs.Scope.Reseeded

/-!
# A unit depends on the names of its seed that it mentions

The analysis of a unit is the same against any two seeds that agree on the names which the unit
mentions. The rest of a seed, however large, is never looked at, so declarations under other names
can be added to a seed at will.

A seed is asked in several places (unqualified names, names qualified by the empty path, assignment,
and the check of a global declaration), and what it answers goes on into types, values and later
declarations of the unit. So the two analyses are followed side by side: at any moment the one state
is the other one with its tree over the other seed (`reseeded_take`).
-/

namespace DeclAnalysis

/-! ## Declarations -/

/-- What comes of a declaration, over another seed. -/
def Declared.reseeded (d : Declared) (seed : Seed) : Declared :=
  { d with tree := d.tree.reseeded seed }

namespace DeclareEvent

variable {t : ScopeTree} {seed : Seed} {e : DeclareEvent}

private theorem bind_reseeded (hname : seed.get? e.name = t.seed.get? e.name) (w : Widths)
    (operands : List Operand) (operandFault : Option Error) (type : Ty)
    (literals : List LiteralReading) :
    e.bind w (t.reseeded seed) operands operandFault type literals =
      (e.bind w t operands operandFault type literals).reseeded seed := by
  let d := e.declaration w t.currentKind type operands
  have hdeclare := ScopeTree.declare_reseeded (d := d) hname
  rw [bind.eq_def, bind.eq_def, ScopeTree.currentKind_reseeded]
  split
  · rfl
  · dsimp only
    rw [hdeclare]
    rcases t.declare (e.declaration w t.currentKind type operands) with error | ⟨standing, t'⟩
    · rfl
    · dsimp only [Except.map]
      split <;> rfl

private theorem elaborateWith_reseeded
    (hnames : ∀ name ∈ e.names, seed.get? name = t.seed.get? name)
    (w : Widths) (operands : List Operand) (operandFault : Option Error)
    (literals : List LiteralReading) :
    e.elaborateWith w (t.reseeded seed) operands operandFault literals =
      (e.elaborateWith w t operands operandFault literals).reseeded seed := by
  rw [names, List.forall_mem_cons, List.forall_mem_append] at hnames
  obtain ⟨hname, hbase, -⟩ := hnames
  rw [elaborateWith, elaborateWith,
    declaredType_congr fun name hmem ↦ ScopeTree.lookup?_reseeded (hbase name hmem)]
  split
  · rfl
  · exact bind_reseeded hname ..

private theorem elaborate_reseeded (hnames : ∀ name ∈ e.names, seed.get? name = t.seed.get? name)
    (w : Widths) : e.elaborate w (t.reseeded seed) = (e.elaborate w t).reseeded seed := by
  have helements : ∀ name ∈ e.elements.flatMap Expr.names,
      (t.reseeded seed).lookup? name = t.lookup? name := by
    intro name hmem
    exact ScopeTree.lookup?_reseeded
      (hnames name (List.mem_cons_of_mem _ (List.mem_append_right _ hmem)))
  rw [elaborate, elaborate, Expr.evaluateAll_congr helements]
  split
  · exact elaborateWith_reseeded hnames ..
  · split
    · exact elaborateWith_reseeded hnames ..
    · rfl

end DeclareEvent

/-! ## Events -/

namespace UnitState

/-- A state with its tree over another seed. -/
def reseeded (s : UnitState) (seed : Seed) : UnitState := { s with tree := s.tree.reseeded seed }

section Reseeded

variable (c : Config) (s : UnitState) (seed : Seed)

@[simp] theorem tree_reseeded : (s.reseeded seed).tree = s.tree.reseeded seed := rfl

@[simp] theorem refused_reseeded : (s.reseeded seed).refused = s.refused := rfl

@[simp] theorem aborted_reseeded : (s.reseeded seed).aborted = s.aborted := rfl

private theorem reseeded_reportAll (errors : List Error) :
    (s.reportAll c errors).reseeded seed = (s.reseeded seed).reportAll c errors := by
  induction errors generalizing s with
  | nil => rfl
  | cons e rest ih => exact ih (s.report c e)

private theorem reseeded_takeTree (x : Except Error ScopeTree) :
    (s.takeTree c x).reseeded seed =
      (s.reseeded seed).takeTree c (x.map (·.reseeded seed)) := by
  rcases x with e | t <;> rfl

private theorem reseeded_openScope (kind : ScopeKind) (name : Option String) (span : Span) :
    (s.openScope c kind name span).reseeded seed =
      (s.reseeded seed).openScope c kind name span := by
  rw [openScope, openScope, tree_reseeded, ScopeTree.openScope_reseeded]
  rcases s.tree.openScope kind name span with e | opened <;> rfl

private theorem reseeded_closeHandle (h : ScopeTree.Handle) (span : Span) :
    (s.closeHandle c h span).reseeded seed = (s.reseeded seed).closeHandle c h span := by
  rw [closeHandle, closeHandle, tree_reseeded, ScopeTree.closeScope_reseeded]
  rcases s.tree.closeScope h span with e | ⟨unresolved, t⟩
  · rfl
  · exact reseeded_reportAll c { s with tree := t } seed unresolved

private theorem reseeded_closeScope (span : Span) :
    (s.closeScope c span).reseeded seed = (s.reseeded seed).closeScope c span := by
  rw [closeScope, closeScope, refused_reseeded, tree_reseeded, ScopeTree.depth_reseeded,
    ScopeTree.innermost?_reseeded]
  split
  · rfl
  · rcases s.tree.innermost? with - | h
    · rfl
    · exact reseeded_closeHandle c s seed h span

variable {s seed}

private theorem reseeded_declare {e : DeclareEvent}
    (hnames : ∀ name ∈ e.names, seed.get? name = s.tree.seed.get? name) :
    (s.declare c e).reseeded seed = (s.reseeded seed).declare c e := by
  rw [declare, declare, reportFailure_eq, reportFailure_eq,
    tree_reseeded, DeclareEvent.elaborate_reseeded hnames]
  let declared := e.elaborate c.widths s.tree
  let report : DeclarationReport := ⟨e.name, e.span, declared.result⟩
  exact congrArg (fun s' : UnitState ↦ { s' with declarations := s'.declarations ++ [report] })
    (reseeded_reportAll c (s.takeDeclared declared) seed (failures declared.result))

private theorem reseeded_use {name : String} (hname : seed.get? name = s.tree.seed.get? name)
    (path : Option (List String)) (span : Span) :
    (s.use c name path span).reseeded seed = (s.reseeded seed).use c name path span := by
  have hresolve : (s.reseeded seed).tree.resolve? name path = s.tree.resolve? name path := by
    rcases path with - | path
    · exact ScopeTree.lookup?_reseeded hname
    · exact ScopeTree.lookupQualified?_reseeded hname path
  rw [use_eq, use_eq, hresolve]
  let use : NameUse := ⟨name, span, s.tree.resolve? name path⟩
  exact congrArg (fun s' : UnitState ↦ { s' with uses := s.uses ++ [use] })
    (reseeded_reportAll c s seed _)

/-- **An event asks the seed for the names it mentions only.** -/
theorem reseeded_take {e : Event}
    (hnames : ∀ name ∈ e.names, seed.get? name = s.tree.seed.get? name) :
    (s.take c e).reseeded seed = (s.reseeded seed).take c e := by
  cases e with
  | literal l =>
    rw [take, take, literal, literal, reportFailure_eq, reportFailure_eq, reseeded_reportAll]
    rfl
  | openScope kind name span => exact reseeded_openScope c s seed kind name span
  | closeScope span => exact reseeded_closeScope c s seed span
  | declare e => exact reseeded_declare c hnames
  | use name path span => exact reseeded_use c (hnames name List.mem_cons_self) path span
  | assign name span =>
    rw [take, take, reportFailure_eq, reportFailure_eq, reseeded_reportAll,
      tree_reseeded, ScopeTree.assign_reseeded (hnames name List.mem_cons_self)]
  | label name span =>
    rw [take, take, reseeded_takeTree, ← ScopeTree.defineLabel_reseeded]
    rfl
  | goto name span =>
    rw [take, take, reseeded_takeTree, ← ScopeTree.jumpTo_reseeded]
    rfl

/-! ## Units -/

private theorem seed_take (s : UnitState) (e : Event) : (s.take c e).tree.seed = s.tree.seed := by
  rw [(gains_take c s e).tree]
  exact (Outcome.step_ofEvent c.widths s.tree s.refused e).seed_eq

private theorem reseeded_run {events : List Event}
    (hnames : ∀ name ∈ events.flatMap Event.names, seed.get? name = s.tree.seed.get? name) :
    (s.run c events).reseeded seed = (s.reseeded seed).run c events := by
  induction events generalizing s with
  | nil => rfl
  | cons e rest ih =>
    rw [List.flatMap_cons, List.forall_mem_append] at hnames
    have hstep : (s.step c e).reseeded seed = (s.reseeded seed).step c e := by
      rw [step, step, aborted_reseeded]
      split
      · rfl
      · exact reseeded_take c hnames.1
    have hseed : (s.step c e).tree.seed = s.tree.seed := by
      rw [step]
      split
      · rfl
      · exact seed_take c s e
    rw [run, List.foldl_cons, ← run, ih (hseed ▸ hnames.2), hstep]
    rfl

private theorem reseeded_closeOpen (s : UnitState) (fuel : Nat) :
    (closeOpen c fuel s).reseeded seed = closeOpen c fuel (s.reseeded seed) := by
  induction fuel generalizing s with
  | zero => rfl
  | succ fuel ih =>
    rw [closeOpen, closeOpen, aborted_reseeded, tree_reseeded, ScopeTree.innermost?_reseeded]
    split
    · rfl
    · rcases s.tree.innermost? with - | h
      · rfl
      · dsimp only
        rw [ih, reportUnclosed, reportUnclosed, reseeded_closeHandle]
        rfl

private theorem result_reseeded (s : UnitState) : (s.reseeded seed).result = s.result := by
  rw [result, result, tree_reseeded, ScopeTree.listing_reseeded]
  rfl

end Reseeded

end UnitState

private theorem analyze_congr (c : Config) {seed seed' : Seed} {events : List Event}
    (hnames : ∀ name ∈ events.flatMap Event.names, seed'.get? name = seed.get? name) :
    analyze c seed' events = analyze c seed events := by
  have hrun : (UnitState.new c seed').run c events =
      ((UnitState.new c seed).run c events).reseeded seed' :=
    (UnitState.reseeded_run (s := .new c seed) c hnames).symm
  rw [analyze, analyze, hrun, UnitState.finish, ← UnitState.reseeded_closeOpen,
    UnitState.result_reseeded]
  rfl

/-! ## Declarations of other names -/

private theorem Seed.get?_declareAll {ds : List Declaration} {name : String} (seed : Seed)
    (hother : ∀ d ∈ ds, name ≠ d.name) : (seed.declareAll ds).1.get? name = seed.get? name := by
  induction ds generalizing seed with
  | nil => rfl
  | cons d rest ih =>
    rw [List.forall_mem_cons] at hother
    rw [declareAll]
    split
    · next seed' hok => rw [ih seed' hother.2, get?_of_declare hok, if_neg fun h ↦ hother.1 h.1]
    · exact ih seed hother.2

/-- **A unit depends on its seed by the names it mentions.** These are the names that it declares,
uses or assigns to and the names among the operands of its initializers and `decltype` specifiers.

* Against two seeds that have the same declarations under these names, the analysis of the unit is
  the same, whatever else the seeds hold.
* So it does not change when declarations of other names are added to the seed. -/
theorem analyze_by_mentioned_names (c : Config) (events : List Event) :
    (∀ seed seed' : Seed,
      (∀ name ∈ events.flatMap Event.names, seed.get? name = seed'.get? name) →
        analyze c seed events = analyze c seed' events) ∧
    ∀ (seed : Seed) (ds : List Declaration),
      (∀ d ∈ ds, d.name ∉ events.flatMap Event.names) →
        analyze c (seed.declareAll ds).1 events = analyze c seed events := by
  constructor
  · intro seed seed' hagree
    exact analyze_congr c hagree
  · intro seed ds hother
    refine analyze_congr c fun name hname ↦ Seed.get?_declareAll seed fun d hd heq ↦ ?_
    exact hother d hd (heq ▸ hname)

/-- A unit that copies `limit` takes it from its seed and is not touched by `other`. -/
theorem analyze_by_mentioned_names_limit :
    let limit : Declaration :=
      ⟨"limit", .int, .static, .everywhere, true, true, none, some (.int 3), Span.zero⟩
    let other : Declaration := { limit with name := "other" }
    let seed : Seed := ⟨⟨[("limit", limit)]⟩⟩
    let seed' : Seed := ⟨⟨[("other", other), ("limit", limit)]⟩⟩
    let events : List Event :=
      [.declare ⟨"copy", Span.zero, .auto, [], none, true, true,
        some ⟨.copy, [.name "limit" Span.zero], Span.zero⟩⟩, .use "copy" none Span.zero]
    let copied : Declaration :=
      { limit with
        name := "copy"
        linkage := .unitOnly
        init := some ⟨.copy, [.name "limit" Span.zero], Span.zero⟩ }
    seed ≠ seed' ∧ (∀ name ∈ events.flatMap Event.names, seed.get? name = seed'.get? name) ∧
    (∀ d ∈ [other], d.name ∉ events.flatMap Event.names) ∧
    analyze {} seed events = analyze {} seed' events ∧
    analyze {} (seed.declareAll [other]).1 events = analyze {} seed events ∧
    (analyze {} seed events).uses = [⟨"copy", Span.zero, some copied⟩] ∧
    (analyze {} .empty events).uses = [⟨"copy", Span.zero, none⟩] := by
  intro limit other seed seed' events copied
  have hagree : ∀ name ∈ events.flatMap Event.names, seed.get? name = seed'.get? name := by
    decide
  have hother : ∀ d ∈ [other], d.name ∉ events.flatMap Event.names := by decide
  obtain ⟨hsame, hadded⟩ := analyze_by_mentioned_names {} events
  exact ⟨by decide, hagree, hother, hsame seed seed' hagree, hadded seed [other] hother, rfl, rfl⟩

end DeclAnalysis
