import DeclAnalysis.Proofs.Elaboration.Abort
import DeclAnalysis.Proofs.Elaboration.Binding
import DeclAnalysis.Proofs.Scope.History

/-!
# The declarations that a report shows

The report on a unit shows declarations in four places: as accepted ones, behind the uses of names,
in the listing of the scopes and among the exports. They all come from the seed or from a
declaration of the unit that was bound, and some of the latter were never accepted, because a name
is also bound when its initializer is at fault.

So a property of declarations holds of everything that is shown if the seed has it and each
declaration that is bound has it, given that all declarations in sight do (`every_stateAfter`). The
property may depend on the events taken so far, as long as it is not lost when events are added.
-/

namespace DeclAnalysis

/-- A declaration that the report on a unit shows. -/
inductive UnitReport.Shows (r : UnitReport) (d : Declaration) : Prop
  /-- It was accepted. -/
  | accepted {report : DeclarationReport} (mem : report ∈ r.declarations)
      (result_eq : report.result = .ok d)
  /-- A name that is used refers to it. -/
  | resolved {use : NameUse} (mem : use ∈ r.uses) (resolved_eq : use.resolved = some d)
  /-- It is listed in its scope. -/
  | listed {view : ScopeView} (mem : view ∈ r.scopes) (declared : d ∈ view.declarations)
  /-- Other units can see it. -/
  | exported (mem : d ∈ r.exported)

/-! ## Trees -/

namespace ScopeTree

variable {P Q : Declaration → Prop} {t t' : ScopeTree}

/-- Every declaration of a tree has a property, those of its seed included. -/
structure Every (P : Declaration → Prop) (t : ScopeTree) : Prop where
  bound : ∀ id, ∀ d ∈ (t.scope id).bindings.declarations, P d
  seeded : ∀ name d, t.seed.get? name = some d → P d

private theorem every_new {seed : Seed} (hseed : ∀ name d, seed.get? name = some d → P d) :
    (ScopeTree.new seed).Every P := by
  refine ⟨fun id d hd ↦ ?_, hseed⟩
  have hroot : (ScopeTree.new seed).scope id = Scope.root := by
    rcases id with - | id <;> rfl
  rw [hroot] at hd
  cases hd

namespace Every

theorem mono (ht : t.Every P) (himp : ∀ d, P d → Q d) : t.Every Q :=
  ⟨fun id d hd ↦ himp d (ht.bound id d hd), fun name d hd ↦ himp d (ht.seeded name d hd)⟩

private theorem of_bindings_eq (ht : t.Every P) (hseed : t'.seed = t.seed)
    (hbindings : ∀ id, (t'.scope id).bindings = (t.scope id).bindings) : t'.Every P := by
  refine ⟨fun id ↦ ?_, ?_⟩
  · rw [hbindings]
    exact ht.bound id
  · rw [hseed]
    exact ht.seeded

theorem opened (ht : t.Every P) (kind : ScopeKind) (name : Option String) (span : Span) :
    (t.opened kind name span).Every P :=
  ht.of_bindings_eq rfl (bindings_opened t kind name span)

theorem closeInner (ht : t.Every P) (n : Nat) : (t.closeInner n).Every P :=
  ht.of_bindings_eq rfl (bindings_closeInner t n)

theorem modify (ht : t.Every P) (id : Nat) {f : Scope → Scope}
    (hkeeps : ∀ s, (f s).bindings = s.bindings) : (t.modify id f).Every P :=
  ht.of_bindings_eq rfl fun other ↦ part_scope_modify Scope.bindings t id other hkeeps

theorem defineLabel (ht : t.Every P) {name : String} {span : Span}
    (hok : t.defineLabel name span = .ok t') : t'.Every P := by
  rw [ScopeTree.defineLabel] at hok
  split at hok
  · cases hok
  · split at hok
    · cases hok
    · obtain rfl := Except.ok.inj hok
      exact ht.modify _ fun _ ↦ rfl

theorem jumpTo (ht : t.Every P) {name : String} {span : Span}
    (hok : t.jumpTo name span = .ok t') : t'.Every P := by
  rw [ScopeTree.jumpTo] at hok
  split at hok
  · cases hok
  · split at hok
    · obtain rfl := Except.ok.inj hok
      exact ht
    · obtain rfl := Except.ok.inj hok
      exact ht.modify _ fun _ ↦ rfl

/-- A declaration adds itself at most. -/
theorem declare (ht : t.Every P) {d standing : Declaration}
    (hok : t.declare d = .ok (standing, t')) (hd : P d) : t'.Every P := by
  rw [ScopeTree.declare] at hok
  split at hok
  · cases hok
  · split at hok
    · cases hok
    · next bindings haccepted =>
      obtain ⟨-, rfl⟩ := Prod.mk.inj (Except.ok.inj hok)
      refine ⟨fun id e he ↦ ?_, ht.seeded⟩
      by_cases hchanged : id = t.current ∧ t.current < t.scopes.length
      · obtain ⟨rfl, hlt⟩ := hchanged
        rw [scope_modify_self t _ hlt] at he
        rcases Bindings.mem_of_declare haccepted he with rfl | hold
        · exact hd
        · exact ht.bound _ e hold
      · refine ht.bound id e ?_
        by_cases hid : id = t.current
        · have hbeyond : ¬ t.current < t.scopes.length := fun hlt ↦ hchanged ⟨hid, hlt⟩
          rwa [ScopeTree.modify, List.modify_eq_self (by omega)] at he
        · rwa [scope_modify_of_ne t _ hid] at he

theorem get? (ht : t.Every P) {id : Nat} {name : String} {d : Declaration}
    (hbound : (t.scope id).bindings.get? name = some d) : P d :=
  ht.bound id d (Bindings.mem_of_get? hbound)

theorem lookup? (ht : t.Every P) {name : String} {d : Declaration}
    (hfound : t.lookup? name = some d) : P d := by
  have hancestors : ∀ fuel id, ∀ s ∈ t.ancestors fuel id, ∃ other, s = t.scope other := by
    intro fuel
    induction fuel with
    | zero => exact fun id s hs ↦ absurd hs List.not_mem_nil
    | succ fuel ih =>
      intro id s hs
      rcases List.mem_cons.mp hs with rfl | hs
      · exact ⟨id, rfl⟩
      · split at hs
        · exact absurd hs List.not_mem_nil
        · exact ih _ s hs
  rcases Option.or_eq_some_iff.mp hfound with hbound | ⟨-, hseeded⟩
  · obtain ⟨s, hs, hget⟩ := List.exists_of_findSome?_eq_some hbound
    obtain ⟨id, rfl⟩ := hancestors _ _ s hs
    exact ht.get? hget
  · exact ht.seeded name d hseeded

theorem lookupQualified? (ht : t.Every P) {path : List String} {name : String} {d : Declaration}
    (hfound : t.lookupQualified? path name = some d) : P d := by
  have hinner {ids : List Nat}
      (hbound : (ids.findSome? fun id ↦ (t.scope id).bindings.get? name) = some d) : P d := by
    obtain ⟨id, -, hget⟩ := List.exists_of_findSome?_eq_some hbound
    exact ht.get? hget
  rw [ScopeTree.lookupQualified?] at hfound
  split at hfound
  · rcases Option.or_eq_some_iff.mp hfound with hbound | ⟨-, hseeded⟩
    · exact hinner hbound
    · exact ht.seeded name d hseeded
  · exact hinner hfound

theorem resolve? (ht : t.Every P) {name : String} {path : Option (List String)} {d : Declaration}
    (hfound : t.resolve? name path = some d) : P d := by
  rcases path with - | path
  · exact ht.lookup? hfound
  · exact ht.lookupQualified? hfound

end Every

end ScopeTree

/-! ## Events -/

/-- Every declaration in an outcome has a property. -/
structure Outcome.Every (P : Declaration → Prop) (o : Outcome) : Prop where
  tree : o.tree.Every P
  accepted : ∀ report ∈ o.findings.declarations, ∀ d, report.result = .ok d → P d
  resolved : ∀ use ∈ o.findings.uses, ∀ d, use.resolved = some d → P d

namespace Outcome

variable {P : Declaration → Prop} {t : ScopeTree}

private theorem every_of_tree (ht : t.Every P) (refused : List Nat) (literals : List LiteralReading)
    (errors : List Error) :
    (⟨t, refused, { literals := literals, errors := errors }⟩ : Outcome).Every P :=
  ⟨ht, List.forall_mem_nil _, List.forall_mem_nil _⟩

private theorem every_ofTree (ht : t.Every P) (refused : List Nat) {x : Except Error ScopeTree}
    (hx : ∀ t', x = .ok t' → t'.Every P) : (ofTree t refused x).Every P := by
  rcases x with e | t'
  · exact every_of_tree ht refused [] [e]
  · exact every_of_tree (hx t' rfl) refused [] []

private theorem every_ofHandle (ht : t.Every P) (refused : List Nat) (h : ScopeTree.Handle)
    (span : Span) : (ofHandle t refused h span).Every P := by
  rw [ofHandle, ScopeTree.closeScope_eq]
  split
  · next unresolved t' hclose =>
    split at hclose
    · obtain ⟨-, rfl⟩ := Prod.mk.inj (Except.ok.inj hclose)
      exact every_of_tree (ht.closeInner _) refused [] unresolved
    · cases hclose
  · exact every_of_tree ht refused [] _

private theorem every_ofOpen (ht : t.Every P) (refused : List Nat) (kind : ScopeKind)
    (name : Option String) (span : Span) : (ofOpen t refused kind name span).Every P := by
  rw [ofOpen, ScopeTree.openScope_eq]
  split
  · next h t' hopen =>
    split at hopen
    · obtain ⟨-, rfl⟩ := Prod.mk.inj (Except.ok.inj hopen)
      exact every_of_tree (ht.opened kind name span) refused [] []
    · cases hopen
  · exact every_of_tree ht _ [] _

private theorem every_ofClose (ht : t.Every P) (refused : List Nat) (span : Span) :
    (ofClose t refused span).Every P := by
  rw [ofClose]
  split
  · exact every_of_tree ht _ [] []
  · split
    · exact every_of_tree ht refused [] _
    · exact every_ofHandle ht refused _ span

private theorem every_ofDeclared {w : Widths} (ht : t.Every P) (refused : List Nat)
    {e : DeclareEvent} (hbound : ∀ d standing, e.Declares w t d →
      t.declare d = .ok (standing, (e.elaborate w t).tree) → P d) :
    (ofDeclared refused e (e.elaborate w t)).Every P := by
  refine ⟨?_, fun report hmem d hd ↦ ?_, List.forall_mem_nil _⟩
  · change (e.elaborate w t).tree.Every P
    rcases e.elaborate_cases w t with ⟨htree, -⟩ | ⟨d, standing, hdeclares, hok, -⟩
    · rw [htree]
      exact ht
    · exact ht.declare hok (hbound d standing hdeclares hok)
  · obtain rfl := List.mem_singleton.mp hmem
    obtain ⟨hdeclares, standing, hok⟩ := DeclareEvent.declares_of_ok hd
    exact hbound d standing hdeclares hok

/-- **What an event shows** has the property if what it binds does. -/
theorem every_ofEvent {w : Widths} (ht : t.Every P) (refused : List Nat) (event : Event)
    (hbound : ∀ e d standing, event = .declare e → e.Declares w t d →
      t.declare d = .ok (standing, (e.elaborate w t).tree) → P d) :
    (ofEvent w t refused event).Every P := by
  cases event with
  | literal l => exact every_of_tree ht refused _ _
  | openScope kind name span => exact every_ofOpen ht refused kind name span
  | closeScope span => exact every_ofClose ht refused span
  | declare e => exact every_ofDeclared ht refused fun d standing ↦ hbound e d standing rfl
  | use name path span =>
    refine ⟨ht, List.forall_mem_nil _, fun use hmem d hd ↦ ?_⟩
    obtain rfl := List.mem_singleton.mp hmem
    exact ht.resolve? hd
  | assign name span => exact every_of_tree ht refused [] _
  | label name span => exact every_ofTree ht refused fun t' ht' ↦ ht.defineLabel ht'
  | goto name span => exact every_ofTree ht refused fun t' ht' ↦ ht.jumpTo ht'

end Outcome

/-! ## Units -/

namespace UnitState

variable {P Q : Declaration → Prop} {c : Config} {s s' : UnitState}

/-- Every declaration of a state has a property. -/
structure Every (P : Declaration → Prop) (s : UnitState) : Prop where
  tree : s.tree.Every P
  accepted : ∀ report ∈ s.declarations, ∀ d, report.result = .ok d → P d
  resolved : ∀ use ∈ s.uses, ∀ d, use.resolved = some d → P d

namespace Every

theorem mono (hs : s.Every P) (himp : ∀ d, P d → Q d) : s.Every Q :=
  ⟨hs.tree.mono himp, fun report hmem d hd ↦ himp d (hs.accepted report hmem d hd),
    fun use hmem d hd ↦ himp d (hs.resolved use hmem d hd)⟩

theorem of_gains (hs : s.Every P) {o : Outcome} (hgains : s.Gains c s' o) (ho : o.Every P) :
    s'.Every P := by
  refine ⟨hgains.tree ▸ ho.tree, fun report hmem ↦ ?_, fun use hmem ↦ ?_⟩
  · rw [show s'.declarations = _ from congrArg Findings.declarations hgains.findings] at hmem
    exact (List.mem_append.mp hmem).elim (hs.accepted report) (ho.accepted report)
  · rw [show s'.uses = _ from congrArg Findings.uses hgains.findings] at hmem
    exact (List.mem_append.mp hmem).elim (hs.resolved use) (ho.resolved use)

theorem reportUnclosed (hs : s.Every P) (h : ScopeTree.Handle) :
    (s.reportUnclosed c h).Every P := by
  have hreport : (s.reportAll c [.unbalancedScope (some (s.tree.scope h.id).kind)
      (s.tree.scope h.id).span]).Every P :=
    hs.of_gains (gains_reportAll c s _) (Outcome.every_of_tree hs.tree s.refused [] _)
  exact hreport.of_gains (gains_closeHandle c _ h _) (Outcome.every_ofHandle hreport.tree _ h _)

theorem finish (hs : s.Every P) : (s.finish c).Every P :=
  closeOpen_keeps (fun _ h hs ↦ hs.reportUnclosed h) hs _

private theorem of_shows (hs : s.Every P) {d : Declaration} (hd : s.result.Shows d) : P d := by
  rcases hd with ⟨hmem, hresult⟩ | ⟨hmem, hresolved⟩ | ⟨hmem, hdeclared⟩ | hmem
  · exact hs.accepted _ hmem d hresult
  · exact hs.resolved _ hmem d hresolved
  · obtain ⟨id, -, rfl⟩ := List.mem_map.mp hmem
    exact hs.tree.bound id d hdeclared
  · exact hs.tree.bound 0 d (List.mem_filter.mp hmem).1

end Every

end UnitState

section Run

variable {P : List Event → Declaration → Prop} {c : Config} {seed : Seed}
  (hseed : ∀ name d, seed.get? name = some d → P [] d)
  (hmore : ∀ front e d, P front d → P (front ++ [e]) d)
  (hbound : ∀ front e d standing, (stateAfter c seed front).aborted = false →
    (stateAfter c seed front).tree.Every (P front) →
    e.Declares c.widths (stateAfter c seed front).tree d →
    (stateAfter c seed front).tree.declare d =
      .ok (standing, (e.elaborate c.widths (stateAfter c seed front).tree).tree) →
    P (front ++ [.declare e]) d)

include hseed hmore hbound

/-- **A property of what is bound** holds of everything that is known after some events. -/
theorem every_stateAfter (events : List Event) : (stateAfter c seed events).Every (P events) := by
  induction events using List.reverseRecOn with
  | nil => exact ⟨ScopeTree.every_new hseed, List.forall_mem_nil _, List.forall_mem_nil _⟩
  | append_singleton events event ih =>
    have hkept : (stateAfter c seed events).Every (P (events ++ [event])) :=
      ih.mono (hmore events event)
    rw [stateAfter_append]
    change ((stateAfter c seed events).step c event).Every _
    rw [UnitState.step]
    split
    · exact hkept
    · next hgoes =>
      refine hkept.of_gains (UnitState.gains_take c _ event)
        (Outcome.every_ofEvent hkept.tree _ event ?_)
      rintro e d standing rfl
      exact hbound events e d standing (eq_false_of_ne_true hgoes) ih.tree

theorem of_shows_analyze {events : List Event} {d : Declaration}
    (hd : (analyze c seed events).Shows d) : P events d :=
  (every_stateAfter hseed hmore hbound events).finish.of_shows hd

end Run

end DeclAnalysis
