import DeclAnalysis.Proofs.Elaboration.State
import Mathlib.Data.Nat.Find
import Mathlib.Order.Bounds.Basic

/-!
# Stopping at an error

An analysis that stops at an error is the analysis that goes on, cut short. Nothing but the flag
`aborted` tells the two apart: with the flag put down, every event does what it does in an analysis
that goes on (`unflagged_take`), and the flag is up exactly if the analysis is to stop and an error
was raised (`FlagTells`). So the two go side by side up to the first event that raises an error, and
there the one that stops ends, with all that this event does.

The flag is looked at between events, and a single event can raise several errors: the close of a
function brings one for each of its jumps that has no label. So does the closing of a scope at the
end of the unit. There is no other way for an analysis that stops to have more than one error.
-/

namespace DeclAnalysis

/-- The configuration that differs only in that the analysis goes on after errors. -/
def Config.bestEffort (c : Config) : Config := { c with abort := false }

/-- The state of a unit after some events, before the closing at its end. -/
def stateAfter (c : Config) (seed : Seed) (events : List Event) : UnitState :=
  (UnitState.new c seed).run c events

theorem stateAfter_append (c : Config) (seed : Seed) (events more : List Event) :
    stateAfter c seed (events ++ more) = (stateAfter c seed events).run c more :=
  UnitState.run_append ..

private theorem wellFormed_stateAfter (c : Config) (seed : Seed) (events : List Event) :
    (stateAfter c seed events).tree.WellFormed :=
  UnitState.tree_run (fun _ _ hwf hstep ↦ hwf.step hstep) c (ScopeTree.wellFormed_new seed) events

namespace UnitState

/-! ## The flag put down -/

/-- A state with the flag put down. -/
def unflagged (s : UnitState) : UnitState := { s with aborted := false }

private theorem unflagged_eq_self {s : UnitState} (hs : s.aborted = false) : s.unflagged = s := by
  rw [unflagged, ← hs]

private theorem errors_eq_of_unflagged {s s' : UnitState} (hsame : s.unflagged = s') :
    s.errors = s'.errors := by
  rw [← hsame]
  rfl

section Unflagged

variable (c : Config) (s : UnitState)

private theorem unflagged_reportAll (errors : List Error) :
    (s.reportAll c errors).unflagged = s.unflagged.reportAll c.bestEffort errors := by
  induction errors generalizing s with
  | nil => rfl
  | cons e rest ih => exact ih (s.report c e)

private theorem unflagged_takeTree (x : Except Error ScopeTree) :
    (s.takeTree c x).unflagged = s.unflagged.takeTree c.bestEffort x := by
  rcases x with e | t <;> rfl

private theorem unflagged_openScope (kind : ScopeKind) (name : Option String) (span : Span) :
    (s.openScope c kind name span).unflagged =
      s.unflagged.openScope c.bestEffort kind name span := by
  rw [openScope, openScope, show s.unflagged.tree = s.tree from rfl]
  rcases s.tree.openScope kind name span with e | opened <;> rfl

private theorem unflagged_closeHandle (h : ScopeTree.Handle) (span : Span) :
    (s.closeHandle c h span).unflagged = s.unflagged.closeHandle c.bestEffort h span := by
  rw [closeHandle, closeHandle, show s.unflagged.tree = s.tree from rfl]
  rcases s.tree.closeScope h span with e | ⟨unresolved, t⟩
  · rfl
  · exact unflagged_reportAll c { s with tree := t } unresolved

private theorem unflagged_closeScope (span : Span) :
    (s.closeScope c span).unflagged = s.unflagged.closeScope c.bestEffort span := by
  rw [closeScope, closeScope, show s.unflagged.tree = s.tree from rfl,
    show s.unflagged.refused = s.refused from rfl]
  split
  · rfl
  · rcases s.tree.innermost? with - | h
    · rfl
    · exact unflagged_closeHandle c s h span

private theorem unflagged_declare (e : DeclareEvent) :
    (s.declare c e).unflagged = s.unflagged.declare c.bestEffort e := by
  rw [declare, declare, reportFailure_eq, reportFailure_eq]
  let declared := e.elaborate c.widths s.tree
  let report : DeclarationReport := ⟨e.name, e.span, declared.result⟩
  exact congrArg (fun s' : UnitState ↦ { s' with declarations := s'.declarations ++ [report] })
    (unflagged_reportAll c (s.takeDeclared declared) (failures declared.result))

private theorem unflagged_use (name : String) (path : Option (List String)) (span : Span) :
    (s.use c name path span).unflagged = s.unflagged.use c.bestEffort name path span := by
  rw [use_eq, use_eq]
  let use : NameUse := ⟨name, span, s.tree.resolve? name path⟩
  exact congrArg (fun s' : UnitState ↦ { s' with uses := s.uses ++ [use] })
    (unflagged_reportAll c s _)

/-- **Only the flag tells an analysis that stops from one that goes on.** -/
theorem unflagged_take (e : Event) :
    (s.take c e).unflagged = s.unflagged.take c.bestEffort e := by
  cases e with
  | literal l =>
    rw [take, take, literal, literal, reportFailure_eq, reportFailure_eq, unflagged_reportAll]
    rfl
  | openScope kind name span => exact unflagged_openScope c s kind name span
  | closeScope span => exact unflagged_closeScope c s span
  | declare e => exact unflagged_declare c s e
  | use name path span => exact unflagged_use c s name path span
  | assign name span =>
    rw [take, take, reportFailure_eq, reportFailure_eq, unflagged_reportAll]
    rfl
  | label | goto => exact unflagged_takeTree c s _

end Unflagged

/-! ## What the flag tells -/

/-- The flag is up exactly if the analysis is to stop and an error was raised. -/
def FlagTells (c : Config) (s : UnitState) : Prop :=
  s.aborted = (c.abort && !s.errors.isEmpty)

section FlagTells

variable {c : Config} {s s' : UnitState}

theorem errors_of_gains {o : Outcome} (hgains : s.Gains c s' o) :
    s'.errors = s.errors ++ o.findings.errors :=
  congrArg Findings.errors hgains.findings

theorem FlagTells.of_gains (hs : s.FlagTells c) {o : Outcome} (hgains : s.Gains c s' o) :
    s'.FlagTells c := by
  rw [FlagTells, hgains.aborted, errors_of_gains hgains, hs]
  rcases s.errors with - | ⟨e, rest⟩ <;> cases c.abort <;> simp

private theorem FlagTells.aborted_eq_false (hs : s.FlagTells c) (herrors : s.errors = []) :
    s.aborted = false := by
  rw [hs, herrors]
  exact Bool.and_false _

private theorem FlagTells.aborted_eq_true_iff (hs : s.FlagTells c) :
    s.aborted = true ↔ c.abort = true ∧ s.errors ≠ [] := by
  rw [hs]
  simp

theorem FlagTells.run (hs : s.FlagTells c) (events : List Event) :
    (s.run c events).FlagTells c :=
  run_keeps (fun s e hs ↦ hs.of_gains (gains_take c s e)) hs events

theorem FlagTells.closeOpen (hs : s.FlagTells c) (fuel : Nat) :
    (UnitState.closeOpen c fuel s).FlagTells c :=
  closeOpen_keeps (fun s _ hs ↦
    (hs.of_gains (gains_reportAll c s [_])).of_gains (gains_closeHandle ..)) hs fuel

private theorem flagTells_stateAfter (c : Config) (seed : Seed) (events : List Event) :
    (stateAfter c seed events).FlagTells c :=
  FlagTells.run (s := .new c seed) (Bool.and_false c.abort).symm events

end FlagTells

/-! ## Errors last -/

theorem errors_prefix_run (c : Config) (s : UnitState) (events : List Event) :
    s.errors <+: (s.run c events).errors := by
  obtain ⟨later, hlater⟩ := exists_findings_run c s events
  exact ⟨later.errors, (congrArg Findings.errors hlater).symm⟩

theorem errors_prefix_closeOpen (c : Config) (fuel : Nat) (s : UnitState) :
    s.errors <+: (closeOpen c fuel s).errors := by
  refine closeOpen_keeps (P := fun s' ↦ s.errors <+: s'.errors) (fun s' h hs ↦ ?_)
    List.prefix_rfl fuel
  rw [reportUnclosed, errors_of_gains (gains_closeHandle ..), errors_report, List.append_assoc]
  exact hs.trans (List.prefix_append ..)

/-! ## A state whose flag is up takes nothing more -/

theorem run_of_aborted (c : Config) {s : UnitState} (hs : s.aborted = true) (events : List Event) :
    s.run c events = s := by
  induction events with
  | nil => rfl
  | cons e rest ih => rwa [run, List.foldl_cons, step, if_pos hs]

private theorem closeOpen_of_aborted (c : Config) {s : UnitState} (hs : s.aborted = true)
    (fuel : Nat) : closeOpen c fuel s = s := by
  rcases fuel with - | fuel
  · rfl
  · rw [closeOpen, if_pos hs]

end UnitState

/-! ## Side by side up to the first error -/

section SideBySide

variable {c : Config} {seed : Seed} {events : List Event}

private theorem aborted_bestEffort (c : Config) (seed : Seed) (events : List Event) :
    (stateAfter c.bestEffort seed events).aborted = false :=
  UnitState.aborted_run rfl _ events

private theorem unflagged_stateAfter
    (hquiet : ∀ k < events.length, (stateAfter c.bestEffort seed (events.take k)).errors = []) :
    (stateAfter c seed events).unflagged = stateAfter c.bestEffort seed events := by
  induction events using List.reverseRecOn with
  | nil => rfl
  | append_singleton events e ih =>
    have hbefore : (stateAfter c.bestEffort seed events).errors = [] := by
      simpa using hquiet events.length (by simp)
    have hsame : (stateAfter c seed events).unflagged = stateAfter c.bestEffort seed events := by
      refine ih fun k hk ↦ ?_
      have hprefix := hquiet k (by rw [List.length_append]; omega)
      rwa [List.take_append_of_le_length hk.le] at hprefix
    have hgoes : (stateAfter c seed events).aborted = false :=
      (UnitState.flagTells_stateAfter c seed events).aborted_eq_false
        ((UnitState.errors_eq_of_unflagged hsame).trans hbefore)
    calc (stateAfter c seed (events ++ [e])).unflagged
        = ((stateAfter c seed events).step c e).unflagged := by rw [stateAfter_append]; rfl
      _ = ((stateAfter c seed events).take c e).unflagged := by rw [UnitState.step_eq_take c hgoes]
      _ = (stateAfter c.bestEffort seed events).take c.bestEffort e := by
        rw [UnitState.unflagged_take, hsame]
      _ = (stateAfter c.bestEffort seed events).step c.bestEffort e := by
        rw [UnitState.step_eq_take _ (aborted_bestEffort c seed events)]
      _ = stateAfter c.bestEffort seed (events ++ [e]) := by rw [stateAfter_append]; rfl

private theorem stateAfter_of_quiet
    (hquiet : ∀ k, (stateAfter c.bestEffort seed (events.take k)).errors = []) :
    stateAfter c seed events = stateAfter c.bestEffort seed events ∧
      (stateAfter c seed events).errors = [] := by
  have hsame : (stateAfter c seed events).unflagged = stateAfter c.bestEffort seed events :=
    unflagged_stateAfter fun k _ ↦ hquiet k
  have herrors : (stateAfter c seed events).errors = [] := by
    have hwhole := hquiet events.length
    rw [List.take_length] at hwhole
    exact (UnitState.errors_eq_of_unflagged hsame).trans hwhole
  have hgoes : (stateAfter c seed events).aborted = false :=
    (UnitState.flagTells_stateAfter c seed events).aborted_eq_false herrors
  exact ⟨(UnitState.unflagged_eq_self hgoes).symm.trans hsame, herrors⟩

private theorem analyze_of_quiet
    (hquiet : ∀ k, (stateAfter c.bestEffort seed (events.take k)).errors = [])
    (hdepth : (stateAfter c.bestEffort seed events).tree.depth ≤ 1) :
    analyze c seed events = (stateAfter c.bestEffort seed events).result := by
  rw [← (stateAfter_of_quiet hquiet).1] at hdepth ⊢
  change ((stateAfter c seed events).finish c).result = _
  rw [UnitState.finish, UnitState.closeOpen_of_depth_le_one c hdepth]

private theorem errors_of_lt_isLeast {k : Nat}
    (hk : IsLeast {k | (stateAfter c.bestEffort seed (events.take k)).errors ≠ []} k) {j : Nat}
    (hj : j < k) : (stateAfter c.bestEffort seed (events.take j)).errors = [] :=
  not_not.mp fun hfails ↦ (hk.2 hfails).not_gt hj

/-- **The cut.** An analysis that stops ends with the first event that raises an error: this event
is taken whole, and the scopes that are open then are not closed. -/
theorem analyze_of_isLeast (habort : c.abort = true) {k : Nat}
    (hk : IsLeast {k | (stateAfter c.bestEffort seed (events.take k)).errors ≠ []} k) :
    analyze c seed events =
      { (stateAfter c.bestEffort seed (events.take k)).result with aborted := true } := by
  have hsame : (stateAfter c seed (events.take k)).unflagged =
      stateAfter c.bestEffort seed (events.take k) := by
    refine unflagged_stateAfter fun j hj ↦ ?_
    have hlt : j < k := hj.trans_le (List.length_take_le k events)
    rw [List.take_take, min_eq_left hlt.le]
    exact errors_of_lt_isLeast hk hlt
  have hstops : (stateAfter c seed (events.take k)).aborted = true := by
    refine (UnitState.flagTells_stateAfter c seed _).aborted_eq_true_iff.mpr ⟨habort, ?_⟩
    rw [UnitState.errors_eq_of_unflagged hsame]
    exact hk.1
  have hrest : stateAfter c seed events = stateAfter c seed (events.take k) := by
    rw [← UnitState.run_of_aborted c hstops (events.drop k), ← stateAfter_append,
      List.take_append_drop]
  calc analyze c seed events
      = ((stateAfter c seed events).finish c).result := rfl
    _ = (stateAfter c seed (events.take k)).result := by
      rw [hrest, UnitState.finish, UnitState.closeOpen_of_aborted c hstops]
    _ = { (stateAfter c seed (events.take k)).unflagged.result with aborted := true } := by
      rw [← hstops]
      rfl
    _ = _ := by rw [hsame]

private theorem exists_isLeast_or_quiet (c : Config) (seed : Seed) (events : List Event) :
    (∃ k, IsLeast {k | (stateAfter c.bestEffort seed (events.take k)).errors ≠ []} k) ∨
      ∀ k, (stateAfter c.bestEffort seed (events.take k)).errors = [] := by
  by_cases hfails : ∃ k, (stateAfter c.bestEffort seed (events.take k)).errors ≠ []
  · classical
    exact .inl ⟨Nat.find hfails, Nat.find_spec hfails, fun j hj ↦ Nat.find_min' hfails hj⟩
  · exact .inr fun k ↦ not_not.mp fun hk ↦ hfails ⟨k, hk⟩

end SideBySide

/-- **Stopping is going on, cut at the shortest failing run of events.** An analysis that stops
gives what the one that goes on has after the first event that raises an error, before any closing
at the end. Where no event raises one and no scope is left open, it gives what the other gives. In
any analysis the flag is up exactly if it is to stop and there are errors. -/
theorem analyze_abort (c : Config) (seed : Seed) (events : List Event) :
    (c.abort = true →
      (∀ k, IsLeast {k | (stateAfter c.bestEffort seed (events.take k)).errors ≠ []} k →
        analyze c seed events =
          { (stateAfter c.bestEffort seed (events.take k)).result with aborted := true }) ∧
      ((∀ k, (stateAfter c.bestEffort seed (events.take k)).errors = []) →
        (stateAfter c.bestEffort seed events).tree.openPath = [0] →
        analyze c seed events = analyze c.bestEffort seed events ∧
          (analyze c seed events).aborted = false)) ∧
    ((analyze c seed events).aborted = true ↔
      c.abort = true ∧ (analyze c seed events).errors ≠ []) := by
  refine ⟨fun habort ↦ ⟨fun k hk ↦ analyze_of_isLeast habort hk, fun hquiet hpath ↦ ?_⟩, ?_⟩
  · have hdepth : (stateAfter c.bestEffort seed events).tree.depth ≤ 1 := by
      rw [ScopeTree.depth, hpath]
      rfl
    have hgoing : analyze c.bestEffort seed events =
        (stateAfter c.bestEffort seed events).result :=
      analyze_of_quiet (c := c.bestEffort) hquiet hdepth
    rw [analyze_of_quiet hquiet hdepth, hgoing]
    exact ⟨rfl, aborted_bestEffort c seed events⟩
  · exact ((UnitState.flagTells_stateAfter c seed events).closeOpen _).aborted_eq_true_iff

/-- A function with two unknown names, left open. -/
def unknownNames : List Event :=
  [.openScope .functionBody none ⟨0, 1⟩, .use "u" none ⟨1, 2⟩, .use "v" none ⟨2, 3⟩]

/-- The first unknown name ends the analysis with the function still open. A function with nothing
in it is analysed to its end. -/
theorem analyze_abort_unknownNames :
    (IsLeast {k | (stateAfter (Config.bestEffort { abort := true }) .empty
        (unknownNames.take k)).errors ≠ []} 2 ∧
      analyze { abort := true } .empty unknownNames =
        { (stateAfter (Config.bestEffort { abort := true }) .empty
            (unknownNames.take 2)).result with aborted := true }) ∧
    analyze { abort := true } .empty
        [.openScope .functionBody none ⟨0, 1⟩, .closeScope ⟨1, 2⟩] =
      analyze (Config.bestEffort { abort := true }) .empty
        [.openScope .functionBody none ⟨0, 1⟩, .closeScope ⟨1, 2⟩] := by
  have hleast : IsLeast {k | (stateAfter (Config.bestEffort { abort := true }) .empty
      (unknownNames.take k)).errors ≠ []} 2 := by
    constructor
    · exact show _ ≠ [] by decide
    · rintro (- | - | k) hk
      · exact absurd rfl hk
      · exact absurd rfl hk
      · exact Nat.le_add_left 2 k
  refine ⟨⟨hleast, ((analyze_abort { abort := true } .empty unknownNames).1 rfl).1 2 hleast⟩, ?_⟩
  refine (((analyze_abort { abort := true } .empty _).1 rfl).2 ?_ rfl).1
  rintro (- | - | k)
  · rfl
  · rfl
  · rw [List.take_of_length_le (Nat.le_add_left 2 k)]
    rfl

/-! ## Several errors at once -/

private theorem length_failures_le {α : Type} (x : Except Error α) : (failures x).length ≤ 1 := by
  rcases x with e | a
  · exact le_rfl
  · exact Nat.zero_le 1

namespace Outcome

/-- Every event but a close raises at most one error, and a close raises more only for the jumps
without a label in the scope that it closes. -/
private theorem errors_ofEvent (w : Widths) {t : ScopeTree} (hwf : t.WellFormed)
    (refused : List Nat) (e : Event) :
    (ofEvent w t refused e).findings.errors.length ≤ 1 ∨
      (∃ span, e = .closeScope span) ∧
        (ofEvent w t refused e).findings.errors = (t.scope t.current).unresolved := by
  have hofTree (x : Except Error ScopeTree) : (ofTree t refused x).findings.errors.length ≤ 1 := by
    rcases x with e | t'
    · exact le_rfl
    · exact Nat.zero_le 1
  cases e with
  | literal | declare | assign => exact .inl (length_failures_le _)
  | label | goto => exact .inl (hofTree _)
  | use name path span =>
    left
    rw [ofEvent, ofUse]
    dsimp only
    split <;> simp
  | openScope kind name span =>
    left
    rw [ofEvent, ofOpen]
    split <;> simp
  | closeScope span =>
    rw [ofEvent, ofClose]
    split
    · exact .inl (Nat.zero_le 1)
    · by_cases hdepth : 1 < t.depth
      · have hinner : t.innermost? = some ⟨t.current, t.depth - 1⟩ := if_pos hdepth
        rw [hinner]
        dsimp only
        rw [ofHandle, ScopeTree.closeScope_innermost hwf hdepth]
        exact .inr ⟨⟨span, rfl⟩, rfl⟩
      · have hinner : t.innermost? = none := if_neg hdepth
        rw [hinner]
        exact .inl le_rfl

end Outcome

section Abort

variable {c : Config} {seed : Seed} {events : List Event}

private theorem exists_first_failing {k : Nat}
    (hk : IsLeast {k | (stateAfter c.bestEffort seed (events.take k)).errors ≠ []} k) :
    ∃ before e later, events = before ++ e :: later ∧ events.take k = before ++ [e] ∧
      (stateAfter c.bestEffort seed before).errors = [] := by
  obtain ⟨j, rfl⟩ : ∃ j, k = j + 1 := by
    rcases k with - | j
    · exact absurd rfl hk.1
    · exact ⟨j, rfl⟩
  have hquiet : (stateAfter c.bestEffort seed (events.take j)).errors = [] :=
    errors_of_lt_isLeast hk j.lt_succ_self
  have hj : j < events.length := by
    by_contra hall
    have hwhole : events.take (j + 1) = events.take j := by
      rw [List.take_of_length_le (by omega), List.take_of_length_le (by omega)]
    exact hk.1 (hwhole ▸ hquiet)
  refine ⟨events.take j, events[j], events.drop (j + 1), ?_, ?_, hquiet⟩
  · rw [← List.drop_eq_getElem_cons hj, List.take_append_drop]
  · exact List.take_succ_eq_append_getElem hj

private theorem errors_of_quiet (habort : c.abort = true)
    (hquiet : ∀ k, (stateAfter c.bestEffort seed (events.take k)).errors = [])
    (hdepth : 1 < (stateAfter c.bestEffort seed events).tree.depth) :
    (analyze c seed events).errors =
      UnitState.unclosed (stateAfter c.bestEffort seed events).tree
        (stateAfter c.bestEffort seed events).tree.current := by
  obtain ⟨hsame, herrors⟩ := stateAfter_of_quiet hquiet
  have hgoes : (stateAfter c seed events).aborted = false :=
    (UnitState.flagTells_stateAfter c seed events).aborted_eq_false herrors
  rw [← hsame] at hdepth ⊢
  change ((stateAfter c seed events).finish c).errors = _
  obtain ⟨fuel, hfuel⟩ : ∃ fuel, (stateAfter c seed events).tree.depth = fuel + 1 :=
    ⟨_, (Nat.succ_pred_eq_of_pos (by omega)).symm⟩
  rw [UnitState.finish, hfuel,
    UnitState.closeOpen_succ c hgoes (wellFormed_stateAfter c seed events) hdepth,
    UnitState.closeOpen_of_aborted, UnitState.errors_reportAll, herrors, List.nil_append]
  rw [UnitState.aborted_reportAll, habort]
  exact Bool.or_true _

end Abort

/-- The errors are those of closing the innermost scope: by a close event, its jumps without a
label; at the end of the unit, the open scope and then these jumps. -/
def BroughtByClosing (t : ScopeTree) (after : List Event) (errors : List Error) : Prop :=
  (∃ span later, after = .closeScope span :: later) ∧ errors = (t.scope t.current).unresolved ∨
    after = [] ∧ errors = UnitState.unclosed t t.current

/-- **The errors of an analysis that stops.** There is at most one, unless the closing of a single
scope brings several at once. No event before that closing raised an error, and nothing after it
adds one. -/
theorem errors_of_abort {c : Config} (habort : c.abort = true) (seed : Seed)
    (events : List Event) :
    (analyze c seed events).errors.length ≤ 1 ∨
    ∃ before after, events = before ++ after ∧
      (stateAfter c.bestEffort seed before).errors = [] ∧
      BroughtByClosing (stateAfter c.bestEffort seed before).tree after
        (analyze c seed events).errors := by
  rcases exists_isLeast_or_quiet c seed events with ⟨k, hk⟩ | hquiet
  · obtain ⟨before, e, later, hevents, htake, hbefore⟩ := exists_first_failing hk
    have herrors : (analyze c seed events).errors =
        (Outcome.ofEvent c.widths (stateAfter c.bestEffort seed before).tree
          (stateAfter c.bestEffort seed before).refused e).findings.errors := by
      have hgains := UnitState.gains_take c.bestEffort (stateAfter c.bestEffort seed before) e
      rw [← UnitState.step_eq_take _ (aborted_bestEffort c seed before)] at hgains
      rw [analyze_of_isLeast habort hk, htake, stateAfter_append]
      exact (UnitState.errors_of_gains hgains).trans (by rw [hbefore]; rfl)
    rcases Outcome.errors_ofEvent c.widths (wellFormed_stateAfter c.bestEffort seed before)
      (stateAfter c.bestEffort seed before).refused e with hone | ⟨⟨span, rfl⟩, hjumps⟩
    · exact .inl (herrors ▸ hone)
    · exact .inr ⟨before, _, hevents, hbefore, .inl ⟨⟨span, later, rfl⟩, herrors.trans hjumps⟩⟩
  · have hnone : (stateAfter c.bestEffort seed events).errors = [] := by
      simpa using hquiet events.length
    by_cases hdepth : 1 < (stateAfter c.bestEffort seed events).tree.depth
    · exact .inr ⟨events, [], (List.append_nil _).symm, hnone,
        .inr ⟨rfl, errors_of_quiet habort hquiet hdepth⟩⟩
    · left
      rw [analyze_of_quiet hquiet (Nat.not_lt.mp hdepth)]
      exact (congrArg List.length hnone).le.trans (Nat.zero_le 1)

/-- A function with two jumps to labels that it does not have. -/
def strayJumps : List Event :=
  [.openScope .functionBody none ⟨0, 1⟩, .goto "a" ⟨1, 2⟩, .goto "b" ⟨2, 3⟩, .closeScope ⟨3, 4⟩]

theorem errors_of_abort_strayJumps :
    ∃ before after, strayJumps = before ++ after ∧
      (stateAfter (Config.bestEffort { abort := true }) .empty before).errors = [] ∧
      BroughtByClosing (stateAfter (Config.bestEffort { abort := true }) .empty before).tree after
        (analyze { abort := true } .empty strayJumps).errors :=
  (errors_of_abort rfl .empty strayJumps).resolve_left (by decide)

/-- Both jumps are errors, although the first should have ended the analysis. -/
theorem two_errors_of_strayJumps :
    (analyze { abort := true } .empty strayJumps).errors =
      [.undeclaredLabel "a" ⟨1, 2⟩, .undeclaredLabel "b" ⟨2, 3⟩] := rfl

end DeclAnalysis
