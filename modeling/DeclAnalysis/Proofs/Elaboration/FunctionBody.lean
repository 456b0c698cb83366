import DeclAnalysis.Proofs.Elaboration.Brackets
import DeclAnalysis.Proofs.Elaboration.Hidden
import Mathlib.Data.List.Infix

/-!
# Function bodies leave no trace

Whatever stands in the body of a function, the rest of its unit is analysed as if the function were
not there. The body may declare and shadow names, open classes of its own, jump to labels that do
not exist or open scopes that are refused; its scopes stay in the tree for good. Still it adds one
block to what is found, and nothing after it comes out differently.

There are two halves. While the function is open, every change is made to the function or to a scope
that was opened after it: the current scope is one of these, the innermost function is one of these,
and the closes of a balanced body close nothing else (`scope_ofEvent`). So, once the function is
closed, the tree differs from the one in front of it by hidden scopes alone, and from there on the
two units go on alike.
-/

namespace DeclAnalysis

/-! ## Balanced events -/

/-- Whether an event opens a scope. -/
def Event.isOpen : Event → Bool
  | .openScope _ _ _ => true
  | _ => false

/-- Whether an event closes a scope. -/
def Event.isClose : Event → Bool
  | .closeScope _ => true
  | _ => false

/-- The number of opens among some events. -/
def opens (events : List Event) : Nat := events.countP Event.isOpen

/-- The number of closes among some events. -/
def closes (events : List Event) : Nat := events.countP Event.isClose

/-- Events whose opens and closes match, whatever stands around them. -/
structure Balanced (events : List Event) : Prop where
  /-- No close comes in front of its open. -/
  nested : ∀ front, front <+: events → closes front ≤ opens front
  /-- Every open has its close. -/
  total : opens events = closes events

instance (events : List Event) : Decidable (Balanced events) :=
  decidable_of_iff
    ((∀ front ∈ events.inits, closes front ≤ opens front) ∧ opens events = closes events)
    ⟨fun h ↦ ⟨fun front hfront ↦ h.1 front ((List.mem_inits _ _).mpr hfront), h.2⟩,
      fun h ↦ ⟨fun front hfront ↦ h.nested front ((List.mem_inits _ _).mp hfront), h.total⟩⟩

private theorem Brackets.exists_pending_foldl (b : Brackets) {events : List Event}
    (hnested : ∀ front, front <+: events → closes front ≤ opens front) :
    ∃ inner, (events.foldl take b).pending = inner ++ b.pending ∧
      inner.length + closes events = opens events := by
  induction events using List.reverseRecOn with
  | nil => exact ⟨[], rfl, rfl⟩
  | append_singleton events e ih =>
    obtain ⟨inner, hpending, hcount⟩ :=
      ih fun front hfront ↦ hnested front (hfront.trans (List.prefix_append _ _))
    have hlast := hnested _ (List.prefix_refl _)
    simp only [opens, closes, List.countP_append, List.countP_singleton, List.foldl_append,
      List.foldl_cons, List.foldl_nil] at hcount hlast ⊢
    cases e with
    | openScope kind name span =>
      obtain ⟨entry, hentry⟩ : ∃ entry,
          ((events.foldl take b).take (.openScope kind name span)).pending =
            entry :: (events.foldl take b).pending := by
        rw [take]
        split <;> exact ⟨_, rfl⟩
      refine ⟨entry :: inner, by rw [hentry, hpending, List.cons_append], ?_⟩
      simp only [Event.isOpen, Event.isClose, List.length_cons, reduceIte, Bool.false_eq_true]
      omega
    | closeScope span =>
      simp only [Event.isOpen, Event.isClose, reduceIte, Bool.false_eq_true] at hlast
      -- the last close has an open to meet among these events
      obtain ⟨entry, inner, rfl⟩ : ∃ entry rest, inner = entry :: rest :=
        List.exists_cons_of_length_pos (by omega)
      refine ⟨inner, by rw [take, hpending]; rfl, ?_⟩
      simp only [Event.isOpen, Event.isClose, List.length_cons, reduceIte, Bool.false_eq_true]
        at hcount ⊢
      omega
    | literal | declare | use | assign | label | goto => exact ⟨inner, hpending, hcount⟩

/-! ## Inside a function -/

namespace ScopeTree

variable {t : ScopeTree} {n : Nat}

private theorem WellFormed.le_function? (hwf : t.WellFormed) (hn : n ∈ t.openPath)
    (hkind : (t.scope n).kind = .functionBody) {id : Nat} (hid : t.function? = some id) :
    n ≤ id := by
  obtain ⟨-, inner, outer, hpath, hinner⟩ := List.find?_eq_some_iff_append.mp hid
  have hpairwise := hwf.pairwise
  rw [hpath] at hn hpairwise
  rcases List.mem_append.mp hn with hn | hn
  · -- nothing further in than the innermost function is a function
    have := hinner n hn
    simp [hkind] at this
  · rcases List.mem_cons.mp hn with rfl | hn
    · exact le_refl _
    · exact Nat.le_of_lt
        (List.rel_of_pairwise_cons (List.pairwise_append.mp hpairwise).2.1 hn)

/-- What the body of a function leaves as it was: the seed, and the scopes that were opened before
the function. -/
structure Inside (n : Nat) (t t' : ScopeTree) : Prop where
  seed : t'.seed = t.seed
  scope : ∀ id < n, t'.scope id = t.scope id

private theorem Edit.scope_eq {t' : ScopeTree} (hedit : t.Edit t') {id : Nat}
    (hcurrent : id ≠ t.current) (hfunction : t.function? ≠ some id) : t'.scope id = t.scope id := by
  cases hedit with
  | kept => rfl
  | bound => exact scope_modify_of_ne t _ hcurrent
  | labelled function name span inner fresh =>
    refine scope_modify_of_ne t _ ?_
    rintro rfl
    exact hfunction inner
  | jumped function name span inner pending =>
    refine scope_modify_of_ne t _ ?_
    rintro rfl
    exact hfunction inner

end ScopeTree

/-- **Inside a function no event touches the scopes that were opened before it.** -/
theorem Outcome.scope_ofEvent (w : Widths) {t : ScopeTree} (hwf : t.WellFormed)
    (refused : List Nat) (e : Event) {n : Nat} (hn : n ∈ t.openPath)
    (hkind : (t.scope n).kind = .functionBody) {id : Nat} (hid : id < n) :
    (ofEvent w t refused e).tree.scope id = t.scope id := by
  have hcurrent : id ≠ t.current := by
    have := hwf.le_current hn
    omega
  have hfunction : t.function? ≠ some id := by
    intro hsome
    have := hwf.le_function? hn hkind hsome
    omega
  have hlt : id < t.scopes.length := Nat.lt_trans hid (hwf.lt_length n hn)
  cases hbracket : e.isBracket with
  | false => exact (edit_ofEvent w t refused hbracket).scope_eq hcurrent hfunction
  | true =>
    cases e with
    | openScope kind name span =>
      rw [ofEvent, ofOpen, ScopeTree.openScope_eq]
      by_cases hnests : kind.nestsIn t.currentKind = true
      · rw [if_pos hnests]
        dsimp only
        rw [ScopeTree.scope_opened_old t kind name span hlt,
          ScopeTree.scope_modify_of_ne t _ hcurrent]
      · rw [if_neg hnests]
    | closeScope span =>
      rw [ofEvent, ofClose, ScopeTree.innermost?]
      split
      · rfl
      · by_cases hdepth : 1 < t.depth
        · obtain ⟨rest, hpath⟩ := hwf.exists_cons
          rw [if_pos hdepth]
          dsimp only
          rw [ofHandle, ScopeTree.closeScope_innermost hwf hdepth]
          dsimp only
          rw [ScopeTree.scope_closeInner t 1 hlt, hpath, if_neg (by simpa using hcurrent)]
        · rw [if_neg hdepth]
    | literal | declare | use | assign | label | goto => cases hbracket

namespace Tracks

variable {c : Config} {s : UnitState} {b : Brackets}

private theorem function_open (h : Tracks s b) {n : Nat} {span : Span}
    (hentry : ⟨some n, .functionBody, span⟩ ∈ b.pending) :
    n ∈ s.tree.openPath ∧ (s.tree.scope n).kind = .functionBody := by
  refine ⟨?_, (h.origin _ hentry n rfl).1⟩
  rw [h.openPath]
  exact List.mem_append_left _ (List.mem_filterMap.mpr ⟨_, hentry, rfl⟩)

/-- **A body that closes nothing in front of it stays inside its function.** -/
theorem run_inside (hgo : c.abort = false) (hs : s.aborted = false) (h : Tracks s b) {n : Nat}
    {span : Span} {outer : List Bracket}
    (hpending : b.pending = ⟨some n, .functionBody, span⟩ :: outer) (events : List Event)
    (hnested : ∀ front, front <+: events → closes front ≤ opens front) :
    Tracks (s.run c events) (events.foldl Brackets.take b) ∧
      ScopeTree.Inside n s.tree (s.run c events).tree := by
  revert hnested
  refine UnitState.run_induction (P := fun events s' ↦
    (∀ front, front <+: events → closes front ≤ opens front) →
      Tracks s' (events.foldl Brackets.take b) ∧ ScopeTree.Inside n s.tree s'.tree)
    hgo hs ?_ ?_ events
  · exact fun _ ↦ ⟨h, rfl, fun _ _ ↦ rfl⟩
  · intro events s' e _ ih hnested
    have hfront : ∀ front, front <+: events → closes front ≤ opens front := fun front hfront ↦
      hnested front (hfront.trans (List.prefix_append _ _))
    obtain ⟨htracks, hinside⟩ := ih hfront
    obtain ⟨inner, hinner, -⟩ := b.exists_pending_foldl hfront
    -- the bracket of the function is still pending, so the function is open
    have hentry : ⟨some n, .functionBody, span⟩ ∈ (events.foldl Brackets.take b).pending := by
      rw [hinner, hpending]
      exact List.mem_append_right _ List.mem_cons_self
    obtain ⟨hopen, hkind⟩ := htracks.function_open hentry
    have hgains := UnitState.gains_take c s' e
    rw [List.foldl_append]
    refine ⟨htracks.take e, ?_, ?_⟩
    · rw [hgains.tree, (Outcome.step_ofEvent c.widths s'.tree s'.refused e).seed_eq, hinside.seed]
    · intro id hid
      rw [hgains.tree, Outcome.scope_ofEvent c.widths htracks.wellFormed _ e hopen hkind hid,
        hinside.scope id hid]

end Tracks

/-! ## After a function -/

namespace ScopeTree

/-- A tree in which a function was opened, left alone from outside and closed again differs by
hidden scopes from the tree in front of it. -/
private theorem hides_closeInner {t x : ScopeTree} (hwf : t.WellFormed) (hwf' : x.WellFormed)
    {name : Option String} {span : Span}
    (hinside : Inside t.scopes.length (t.opened .functionBody name span) x)
    (hpath : x.openPath = t.scopes.length :: t.openPath)
    (hkind : (x.scope t.scopes.length).kind = .functionBody) :
    Hides t.scopes.length (x.scopes.length - t.scopes.length) t (x.closeInner 1) := by
  have hlt : t.scopes.length < x.scopes.length := hwf'.lt_length _ (by simp [hpath])
  have hdepth : 1 < x.depth := by
    have := hwf.depth_pos
    rw [depth, hpath, List.length_cons, ← depth]
    omega
  have hsame : ∀ id < t.scopes.length, (x.closeInner 1).scope id =
      (t.opened .functionBody name span).scope id := by
    intro id hid
    rw [scope_closeInner x 1 (Nat.lt_trans hid hlt), hpath, if_neg (by simp; omega)]
    exact hinside.scope id hid
  exact
    { wf := hwf
      wf' := hwf'.closeInner hdepth
      first_pos := hwf.lt_length 0 hwf.zero_mem
      count_pos := Nat.sub_pos_of_lt hlt
      first_le := le_refl _
      seed := hinside.seed
      length := by rw [length_scopes_closeInner]; omega
      openPath := by rw [openPath_closeInner, hpath, map_shift_of_lt hwf.lt_length]; rfl
      content := by
        intro id hid
        rw [shift_of_lt hid, hsame id hid]
        exact part_scope_opened Scope.content t _ _ _ hid fun _ _ ↦ rfl
      children := by
        intro id hid
        have hinner : ∀ inner ∈ (t.scope id).children, inner < t.scopes.length := fun inner hmem ↦
          (hwf.lt_of_mem_children hid hmem).2
        have hold : (t.scope id).children.filter (· ≠ t.scopes.length) = (t.scope id).children :=
          List.filter_eq_self.mpr fun inner hmem ↦
            decide_eq_true (Nat.ne_of_lt (hinner inner hmem))
        rw [shift_of_lt hid, hsame id hid, hwf.children_opened _ _ _ hid, List.filter_append, hold,
          map_shift_of_lt hinner]
        split <;> simp
      hidden := by
        rw [part_scope_closeInner Scope.kind _ _ _ fun _ ↦ rfl]
        exact hkind }

end ScopeTree

/-- The events of a function with the given body. -/
def functionEvents (name : Option String) (openSpan : Span) (body : List Event) (closeSpan : Span) :
    List Event :=
  .openScope .functionBody name openSpan :: body ++ [.closeScope closeSpan]

private theorem Tracks.alongside_function {c : Config} (hgo : c.abort = false) {s : UnitState}
    {b : Brackets} (h : Tracks s b) (hs : s.aborted = false)
    (hnests : ScopeKind.functionBody.nestsIn b.currentKind = true) (name : Option String)
    (openSpan : Span) {body : List Event} (hbody : Balanced body) (closeSpan : Span) :
    ∃ k, UnitState.Alongside s.tree.scopes.length k s
      (s.run c (functionEvents name openSpan body closeSpan)) := by
  -- the function is opened
  set opening : Event := .openScope .functionBody name openSpan
  have hopened : s.take c opening = { s with tree := s.tree.opened .functionBody name openSpan } :=
    h.openScope_accepted hnests name openSpan
  have htracks : Tracks (s.take c opening) (b.take opening) := h.take opening
  have hpending : (b.take opening).pending =
      ⟨some s.tree.scopes.length, .functionBody, openSpan⟩ :: b.pending := by
    rw [h.length, Brackets.take, if_pos hnests]
  have hgoes : (s.take c opening).aborted = false := (UnitState.aborted_take hgo s _).trans hs
  -- the body is taken, and the function is the next to be closed
  obtain ⟨hinner, hinside⟩ := htracks.run_inside hgo hgoes hpending body hbody.nested
  obtain ⟨inner, hfold, hcount⟩ := (b.take opening).exists_pending_foldl hbody.nested
  obtain rfl : inner = [] := List.length_eq_zero_iff.mp (by have := hbody.total; omega)
  rw [List.nil_append, hpending] at hfold
  generalize hx : (s.take c opening).run c body = x at hinner hinside
  have hgoes' : x.aborted = false := by rw [← hx, UnitState.aborted_run hgo, hgoes]
  have hpath : x.tree.openPath = s.tree.scopes.length :: s.tree.openPath := by
    rw [hinner.openPath, hfold, h.openPath]
    rfl
  obtain ⟨-, hkind⟩ := hinner.function_open (by rw [hfold]; exact List.mem_cons_self)
  rw [hopened] at hinside
  -- the function is closed
  have hrun : s.run c (functionEvents name openSpan body closeSpan) =
      ({ x with tree := x.tree.closeInner 1 }).reportAll c
        (x.tree.scope s.tree.scopes.length).unresolved := by
    rw [functionEvents, UnitState.run_append]
    change ((s.step c opening).run c body).step c (.closeScope closeSpan) = _
    rw [UnitState.step_eq_take c hs, hx, UnitState.step_eq_take c hgoes']
    exact (hinner.closeScope_accepted hfold closeSpan).2
  refine ⟨x.tree.scopes.length - s.tree.scopes.length, ?_⟩
  rw [hrun]
  exact
    { tree := by
        rw [UnitState.tree_reportAll]
        exact ScopeTree.hides_closeInner h.wellFormed hinner.wellFormed hinside hpath hkind
      refused := by
        rw [UnitState.refused_reportAll, h.refused]
        exact hinner.refused.trans (by rw [hfold]; rfl)
      goes := hs
      goes' := by
        rw [UnitState.aborted_reportAll, hgo, Bool.false_and, Bool.or_false]
        exact hgoes' }

/-! ## The main result -/

/-- What is found in a unit. -/
def UnitReport.findings (a : UnitReport) : Findings :=
  ⟨a.literals, a.declarations, a.uses, a.errors⟩

/-- Events that are inserted in a unit and do not change what the rest of it finds or exports: they
find a block of their own, right behind what is found in front of them. -/
def LeavesNoTrace (c : Config) (seed : Seed) (before inserted after : List Event) : Prop :=
  let start := (UnitState.new c seed).run c before
  let whole := analyze c seed (before ++ inserted ++ after)
  let rest := analyze c seed (before ++ after)
  ∃ block later : Findings,
    (start.run c inserted).findings = start.findings ++ block ∧
    rest.findings = start.findings ++ later ∧
    whole.findings = start.findings ++ block ++ later ∧
    whole.exported = rest.exported

/-- **A function body is invisible to the rest of its unit**: a function with a balanced body, where
functions may stand, leaves no trace. -/
theorem function_leavesNoTrace (c : Config) (hgo : c.abort = false) (seed : Seed)
    (before body after : List Event) (name : Option String) (openSpan closeSpan : Span)
    (hkind : ((UnitState.new c seed).run c before).tree.currentKind ∈
      [ScopeKind.global, .namespaceBody, .classBody])
    (hbody : Balanced body) :
    LeavesNoTrace c seed before (functionEvents name openSpan body closeSpan) after := by
  have h := Tracks.run hgo seed before
  have hs : ((UnitState.new c seed).run c before).aborted = false := UnitState.aborted_run hgo _ _
  have hnests : ScopeKind.functionBody.nestsIn (Brackets.ofEvents before).currentKind = true := by
    rw [h.currentKind] at hkind
    simp only [List.mem_cons, List.not_mem_nil, or_false] at hkind
    rcases hkind with hkind | hkind | hkind <;> rw [hkind] <;> rfl
  obtain ⟨k, halongside⟩ := h.alongside_function hgo hs hnests name openSpan hbody closeSpan
  obtain ⟨block, hblock⟩ := UnitState.exists_findings_run c ((UnitState.new c seed).run c before)
    (functionEvents name openSpan body closeSpan)
  obtain ⟨hafter, later, hlater, hlater'⟩ := halongside.run hgo after
  obtain ⟨hexports, final, hfinal, hfinal'⟩ := hafter.finish hgo
  refine ⟨block, later ++ final, hblock, ?_, ?_, ?_⟩
  · rw [analyze, UnitState.run_append]
    exact hfinal.trans (by rw [hlater, Findings.append_assoc])
  · rw [analyze, UnitState.run_append, UnitState.run_append]
    exact hfinal'.trans (by rw [hlater', hblock, Findings.append_assoc])
  · rw [analyze, analyze, UnitState.run_append, UnitState.run_append, UnitState.run_append]
    exact hexports

/-- A function in a namespace with a jump to no label and the use of a name that is not declared. -/
theorem function_leavesNoTrace_namespace :
    ((UnitState.new {} Seed.empty).run {}
      [.openScope .namespaceBody (some "n") Span.zero]).tree.currentKind ∈
        [ScopeKind.global, .namespaceBody, .classBody] ∧
    Balanced [.openScope .block none Span.zero, .goto "out" Span.zero, .closeScope Span.zero,
      .use "x" none Span.zero] ∧
    LeavesNoTrace {} Seed.empty [.openScope .namespaceBody (some "n") Span.zero]
      (functionEvents (some "f") Span.zero
        [.openScope .block none Span.zero, .goto "out" Span.zero, .closeScope Span.zero,
          .use "x" none Span.zero] Span.zero)
      [.use "x" (some ["n", "f"]) Span.zero] :=
  ⟨by decide, by decide,
    function_leavesNoTrace {} rfl Seed.empty _ _ _ _ _ _ (by decide) (by decide)⟩

end DeclAnalysis
