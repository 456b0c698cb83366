import DeclAnalysis.Proofs.Elaboration.Mentions
import DeclAnalysis.Proofs.Elaboration.State
import DeclAnalysis.Proofs.Scope.Hidden

/-!
# Units with hidden scopes

Two units whose trees differ by hidden scopes alone go on alike: each event has the same findings in
both, and so has the closing at the end, whatever has been found before. An event asks its tree for
declarations, for the kind of the current scope and for the depth, and the two trees answer alike.
-/

namespace DeclAnalysis

open ScopeTree (Hides shift)

variable {n k : Nat} {t t' : ScopeTree}

/-! ## Declarations -/

namespace DeclareEvent

/-- Declarations that come out alike in two trees. -/
structure Alike (n k : Nat) (d d' : Declared) : Prop where
  literals : d'.literals = d.literals
  result : d'.result = d.result
  tree : Hides n k d.tree d'.tree

private theorem alike_bind (h : Hides n k t t') (w : Widths) (e : DeclareEvent)
    (operands : List Operand)
    (operandFault : Option Error) (type : Ty) (literals : List LiteralReading) :
    Alike n k (e.bind w t operands operandFault type literals)
      (e.bind w t' operands operandFault type literals) := by
  have hdeclare := h.declare (e.declaration w t.currentKind type operands)
  rw [bind.eq_def, bind.eq_def, h.currentKind]
  split
  · exact ⟨rfl, rfl, h⟩
  · dsimp only
    -- the fault of the initializer does not depend on the tree, only the verdict on the name does
    generalize t.declare (e.declaration w t.currentKind type operands) = x,
      t'.declare (e.declaration w t.currentKind type operands) = x' at hdeclare ⊢
    cases hdeclare with
    | error error => exact ⟨rfl, rfl, h⟩
    | @ok accepted accepted' related =>
      obtain ⟨standing, u⟩ := accepted
      obtain ⟨standing', u'⟩ := accepted'
      dsimp only
      split <;> exact ⟨rfl, rfl, related⟩

private theorem alike_elaborateWith (h : Hides n k t t') (w : Widths) (e : DeclareEvent)
    (operands : List Operand) (operandFault : Option Error) (literals : List LiteralReading) :
    Alike n k (e.elaborateWith w t operands operandFault literals)
      (e.elaborateWith w t' operands operandFault literals) := by
  rw [elaborateWith, elaborateWith, declaredType_congr fun name _ ↦ h.lookup? name]
  split
  · exact ⟨rfl, rfl, h⟩
  · exact alike_bind h ..

private theorem alike_elaborate (h : Hides n k t t') (w : Widths) (e : DeclareEvent) :
    Alike n k (e.elaborate w t) (e.elaborate w t') := by
  rw [elaborate, elaborate, Expr.evaluateAll_congr fun name _ ↦ h.lookup? name]
  split
  · exact alike_elaborateWith h ..
  · split
    · exact alike_elaborateWith h ..
    · exact ⟨rfl, rfl, h⟩

end DeclareEvent

/-! ## Events -/

namespace Outcome

/-- Outcomes with the same findings, and trees that differ by hidden scopes alone. -/
structure Alike (n k : Nat) (o o' : Outcome) : Prop where
  tree : Hides n k o.tree o'.tree
  refused : o'.refused = o.refused
  findings : o'.findings = o.findings

private theorem alike_ofTree (h : Hides n k t t') (refused : List Nat)
    {x x' : Except Error ScopeTree} (hx : SameVerdict (Hides n k) x x') :
    Alike n k (ofTree t refused x) (ofTree t' refused x') := by
  cases hx with
  | error e => exact ⟨h, rfl, rfl⟩
  | ok related => exact ⟨related, rfl, rfl⟩

private theorem alike_ofOpen (h : Hides n k t t') (refused : List Nat) (kind : ScopeKind)
    (name : Option String) (span : Span) :
    Alike n k (ofOpen t refused kind name span) (ofOpen t' refused kind name span) := by
  have hopen := h.openScope kind name span
  rw [ofOpen, ofOpen, h.depth]
  generalize t.openScope kind name span = x, t'.openScope kind name span = x' at hopen ⊢
  cases hopen with
  | error e => exact ⟨h, rfl, rfl⟩
  | ok related => exact ⟨related, rfl, rfl⟩

private theorem alike_ofClose (h : Hides n k t t') (refused : List Nat) (span : Span) :
    Alike n k (ofClose t refused span) (ofClose t' refused span) := by
  rw [ofClose, ofClose, ScopeTree.innermost?, ScopeTree.innermost?, h.depth]
  split
  · exact ⟨h, rfl, rfl⟩
  · by_cases hdepth : 1 < t.depth
    · have hunresolved : (t'.scope t'.current).unresolved = (t.scope t.current).unresolved := by
        rw [h.current]
        exact h.part_eq Scope.unresolved h.wf.current_lt fun _ ↦ rfl
      have hclose' := ScopeTree.closeScope_innermost h.wf' (by rwa [h.depth]) span
      rw [h.depth, hunresolved] at hclose'
      rw [if_pos hdepth, if_pos hdepth]
      dsimp only
      rw [ofHandle, ofHandle, hclose', ScopeTree.closeScope_innermost h.wf hdepth span]
      exact ⟨h.closeInner hdepth, rfl, rfl⟩
    · rw [if_neg hdepth, if_neg hdepth]
      exact ⟨h, rfl, rfl⟩

/-- **Every event has the same findings** against two trees that differ by hidden scopes alone. -/
theorem alike_ofEvent (h : Hides n k t t') (w : Widths) (refused : List Nat) (e : Event) :
    Alike n k (ofEvent w t refused e) (ofEvent w t' refused e) := by
  cases e with
  | literal l => exact ⟨h, rfl, rfl⟩
  | openScope kind name span => exact alike_ofOpen h refused kind name span
  | closeScope span => exact alike_ofClose h refused span
  | declare e =>
    have he := DeclareEvent.alike_elaborate h w e
    refine ⟨he.tree, rfl, ?_⟩
    simp only [ofEvent, ofDeclared, he.literals, he.result]
  | use name path span =>
    have hresolve : t'.resolve? name path = t.resolve? name path := by
      cases path with
      | none => exact h.lookup? name
      | some path => exact h.lookupQualified? path name
    refine ⟨h, rfl, ?_⟩
    rw [ofEvent, ofEvent, hresolve]
    rfl
  | assign name span =>
    refine ⟨h, rfl, ?_⟩
    rw [ofEvent, ofEvent, h.assign]
  | label name span => exact alike_ofTree h refused (h.defineLabel name span)
  | goto name span => exact alike_ofTree h refused (h.jumpTo name span)

end Outcome

/-! ## Runs -/

namespace UnitState

/-- Two units that go on, with trees that differ by hidden scopes alone. -/
structure Alongside (n k : Nat) (s s' : UnitState) : Prop where
  tree : Hides n k s.tree s'.tree
  refused : s'.refused = s.refused
  goes : s.aborted = false
  goes' : s'.aborted = false

variable {c : Config} {s s' : UnitState}

/-- **Two such units find the same from now on.** -/
theorem Alongside.run (hgo : c.abort = false) (h : Alongside n k s s') (events : List Event) :
    Alongside n k (s.run c events) (s'.run c events) ∧
      ∃ later, (s.run c events).findings = s.findings ++ later ∧
        (s'.run c events).findings = s'.findings ++ later := by
  induction events generalizing s s' with
  | nil =>
    exact ⟨h, {}, (Findings.append_empty _).symm, (Findings.append_empty _).symm⟩
  | cons e rest ih =>
    have hgains := gains_take c s e
    have hgains' := gains_take c s' e
    rw [h.refused] at hgains'
    have halike := Outcome.alike_ofEvent h.tree c.widths s.refused e
    have hnext : Alongside n k (s.take c e) (s'.take c e) :=
      { tree := by rw [hgains.tree, hgains'.tree]; exact halike.tree
        refused := by rw [hgains.refused, hgains'.refused, halike.refused]
        goes := (aborted_take hgo s e).trans h.goes
        goes' := (aborted_take hgo s' e).trans h.goes' }
    obtain ⟨hrest, later, hlater, hlater'⟩ := ih hnext
    rw [run, run, List.foldl_cons, List.foldl_cons, step_eq_take c h.goes, step_eq_take c h.goes',
      ← run, ← run]
    refine ⟨hrest, (Outcome.ofEvent c.widths s.tree s.refused e).findings ++ later, ?_, ?_⟩
    · rw [hlater, hgains.findings, Findings.append_assoc]
    · rw [hlater', hgains'.findings, halike.findings, Findings.append_assoc]

theorem Alongside.finish (hgo : c.abort = false) (h : Alongside n k s s') :
    (s'.finish c).tree.exports = (s.finish c).tree.exports ∧
      ∃ later, (s.finish c).findings = s.findings ++ later ∧
        (s'.finish c).findings = s'.findings ++ later := by
  obtain ⟨ids, hpath⟩ : ∃ ids, s.tree.openPath = ids ++ [0] :=
    List.getLast?_eq_some_iff.mp h.tree.wf.getLast?
  have hpath' : s'.tree.openPath = ids.map (shift n k) ++ [0] := by
    rw [h.tree.openPath, hpath, List.map_append, List.map_singleton,
      ScopeTree.shift_of_lt h.tree.first_pos]
  have hdepth : s.tree.depth = ids.length + 1 := by
    rw [ScopeTree.depth, hpath, List.length_append, List.length_singleton]
  have hunclosed : (ids.map (shift n k)).flatMap (unclosed s'.tree) =
      ids.flatMap (unclosed s.tree) := by
    rw [List.flatMap_map]
    refine List.flatMap_congr fun id hmem ↦ ?_
    have hid : id < s.tree.scopes.length :=
      h.tree.wf.lt_length id (by rw [hpath]; exact List.mem_append_left _ hmem)
    exact h.tree.part_eq
      (fun scope ↦ Error.unbalancedScope (some scope.kind) scope.span :: scope.unresolved) hid
      fun _ ↦ rfl
  obtain ⟨-, hfound, htree⟩ := closeOpen_spec hgo h.goes h.tree.wf hpath
    (show ids.length ≤ s.tree.depth by omega)
  obtain ⟨-, hfound', htree'⟩ := closeOpen_spec hgo h.goes' h.tree.wf' hpath'
    (show (ids.map (shift n k)).length ≤ s'.tree.depth by
      rw [List.length_map, h.tree.depth]
      omega)
  rw [List.length_map] at htree'
  rw [hunclosed] at hfound'
  refine ⟨?_, _, hfound, hfound'⟩
  rw [UnitState.finish, UnitState.finish, htree, htree']
  exact (h.tree.closeInner (by omega)).exports

end UnitState

end DeclAnalysis
