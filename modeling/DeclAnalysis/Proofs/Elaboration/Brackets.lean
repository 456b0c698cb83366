import DeclAnalysis.Proofs.Elaboration.State
import DeclAnalysis.Proofs.Scope.Listing

/-!
# Matching of opens and closes

The events that open and close scopes are brackets: a close belongs to the latest open that has not
been closed, also when that open was refused. A unit does not keep the stack of its brackets. It
keeps the depths at which opens were refused and compares the latest of them with the depth of its
tree, and scopes that are opened and refused at one depth have to be told apart by that alone.

`Brackets` is the stack that a unit does not keep. It is computed from the events by the rule of
nesting, without a tree: every open pushes an entry and every close pops one. `Tracks` says what the
unit keeps of it: the open path is the numbers of the accepted entries, and the refused depths are
one for each refused entry, each with the number of scopes that are open around it. Such depths
never grow outwards and never exceed the depth of the tree, so the latest one equals the depth
exactly when the refused open is the next to be closed.
-/

namespace DeclAnalysis

/-! ## The stack of brackets -/

/-- An open that has not met its close. -/
structure Bracket where
  /-- The number of the scope that it opened, unless it was refused. -/
  scope? : Option Nat
  /-- The kind of the scope. -/
  kind : ScopeKind
  /-- Where it stands. -/
  span : Span
deriving DecidableEq

namespace Bracket

/-- The error of an entry that is left at the end of a unit. Refused entries have had theirs. -/
def unclosed? (b : Bracket) : Option Error :=
  b.scope?.map fun _ ↦ .unbalancedScope (some b.kind) b.span

/-- All that an entry brings when it is left at the end of a unit with a given tree: its own error
and then the jumps without a label of its scope. -/
def atEnd (t : ScopeTree) (b : Bracket) : List Error :=
  match b.scope? with
  | none => []
  | some id => .unbalancedScope (some b.kind) b.span :: (t.scope id).unresolved

/-- The scopes that entries have opened and that are still open, innermost first. -/
def scopes (pending : List Bracket) : List Nat := pending.filterMap (·.scope?)

/-- The depths at which the refused entries were refused: the scopes that were open then are those
of the accepted entries below, and the global one. -/
def refusedDepths : List Bracket → List Nat
  | [] => []
  | ⟨none, _, _⟩ :: rest => ((scopes rest).length + 1) :: refusedDepths rest
  | ⟨some _, _, _⟩ :: rest => refusedDepths rest

@[simp] theorem scopes_accepted (id : Nat) (kind : ScopeKind) (span : Span)
    (rest : List Bracket) : scopes (⟨some id, kind, span⟩ :: rest) = id :: scopes rest := rfl

@[simp] theorem scopes_refused (kind : ScopeKind) (span : Span) (rest : List Bracket) :
    scopes (⟨none, kind, span⟩ :: rest) = scopes rest := rfl

private theorem le_of_mem_refusedDepths {pending : List Bracket} {depth : Nat}
    (hmem : depth ∈ refusedDepths pending) : depth ≤ (scopes pending).length + 1 := by
  induction pending with
  | nil => cases hmem
  | cons b rest ih =>
    obtain ⟨scope?, kind, span⟩ := b
    cases scope? with
    | none =>
      rcases List.mem_cons.mp hmem with rfl | hmem
      · exact le_refl _
      · exact ih hmem
    | some id =>
      have hrest : depth ≤ (scopes rest).length + 1 := ih hmem
      rw [scopes_accepted, List.length_cons]
      omega

end Bracket

/-- The opens of a unit that have not met their closes. -/
structure Brackets where
  /-- The entries, latest first. -/
  pending : List Bracket
  /-- The number of the next scope. -/
  next : Nat
deriving DecidableEq

namespace Brackets

/-- The kind of the scope of the latest accepted entry; the global one stands below all entries. -/
def currentKind (b : Brackets) : ScopeKind :=
  ((b.pending.find? (·.scope?.isSome)).map (·.kind)).getD .global

/-- Takes one event. An open is accepted by the rule of nesting. -/
def take (b : Brackets) : Event → Brackets
  | .openScope kind _ span =>
    if kind.nestsIn b.currentKind then
      ⟨⟨some b.next, kind, span⟩ :: b.pending, b.next + 1⟩
    else { b with pending := ⟨none, kind, span⟩ :: b.pending }
  | .closeScope _ => { b with pending := b.pending.tail }
  | _ => b

/-- The entries that some events leave. -/
def ofEvents (events : List Event) : Brackets := events.foldl take ⟨[], 1⟩

private theorem take_of_not_isBracket (b : Brackets) {e : Event} (hquiet : e.isBracket = false) :
    b.take e = b := by
  cases e with
  | openScope | closeScope => cases hquiet
  | literal | declare | use | assign | label | goto => rfl

end Brackets

/-! ## What a unit keeps of it -/

/-- A state of a unit whose open brackets are the given ones. -/
structure Tracks (s : UnitState) (b : Brackets) : Prop where
  /-- The tree agrees with its open path. -/
  wellFormed : s.tree.WellFormed
  /-- Scopes are numbered in the order of the accepted opens. -/
  length : s.tree.scopes.length = b.next
  /-- The open scopes are those of the accepted entries and the global one. -/
  openPath : s.tree.openPath = Bracket.scopes b.pending ++ [0]
  /-- The refused entries are kept by their depths. -/
  refused : s.refused = Bracket.refusedDepths b.pending
  /-- An accepted entry has the kind and the place of its scope. -/
  origin : ∀ entry ∈ b.pending, ∀ id, entry.scope? = some id →
    (s.tree.scope id).kind = entry.kind ∧ (s.tree.scope id).span = entry.span

namespace Tracks

variable {c : Config} {s : UnitState} {b : Brackets} {rest : List Bracket}

theorem depth (h : Tracks s b) : s.tree.depth = (Bracket.scopes b.pending).length + 1 := by
  rw [ScopeTree.depth, h.openPath, List.length_append, List.length_singleton]

theorem current (h : Tracks s b) :
    s.tree.current = ((Bracket.scopes b.pending).head?).getD 0 := by
  rw [ScopeTree.current, h.openPath]
  cases Bracket.scopes b.pending <;> rfl

theorem currentKind (h : Tracks s b) : s.tree.currentKind = b.currentKind := by
  rw [ScopeTree.currentKind, ScopeTree.currentScope, h.current, Brackets.currentKind]
  have horigin := h.origin
  generalize b.pending = pending at horigin ⊢
  induction pending with
  | nil => exact h.wellFormed.kind_zero
  | cons entry rest ih =>
    obtain ⟨scope?, kind, span⟩ := entry
    cases scope? with
    | none => exact ih fun entry hmem ↦ horigin entry (List.mem_cons_of_mem _ hmem)
    | some id => exact (horigin _ List.mem_cons_self id rfl).1

/-! ### Opens -/

theorem openScope_accepted (h : Tracks s b) {kind : ScopeKind}
    (hnests : kind.nestsIn b.currentKind = true) (name : Option String) (span : Span) :
    s.openScope c kind name span = { s with tree := s.tree.opened kind name span } := by
  rw [UnitState.openScope, ScopeTree.openScope_eq, h.currentKind, if_pos hnests]

private theorem openScope_refused (h : Tracks s b) {kind : ScopeKind}
    (hnests : kind.nestsIn b.currentKind = false) (name : Option String) (span : Span) :
    s.openScope c kind name span =
      ({ s with refused := s.tree.depth :: s.refused }).report c
        (.invalidNesting kind b.currentKind span) := by
  rw [UnitState.openScope, ScopeTree.openScope_eq, h.currentKind, if_neg (by simp [hnests])]

/-! ### Closes -/

private theorem closeScope_stray (h : Tracks s b) (hpending : b.pending = []) (span : Span) :
    s.closeScope c span = s.report c (.unbalancedScope none span) := by
  have hrefused : s.refused = [] := by rw [h.refused, hpending]; rfl
  have hdepth : s.tree.depth = 1 := by rw [h.depth, hpending]; rfl
  rw [UnitState.closeScope, hrefused, ScopeTree.innermost?, hdepth]
  rfl

private theorem closeScope_refused (h : Tracks s b) {kind : ScopeKind} {place : Span}
    (hpending : b.pending = ⟨none, kind, place⟩ :: rest) (span : Span) :
    s.closeScope c span = { s with refused := s.refused.tail } := by
  have hhead : s.refused.head? = some s.tree.depth := by
    rw [h.refused, h.depth, hpending, Bracket.scopes_refused]
    rfl
  rw [UnitState.closeScope, if_pos hhead]

/-- The close of an accepted open closes the scope that it opened, and this scope only. -/
theorem closeScope_accepted (h : Tracks s b) {id : Nat} {kind : ScopeKind} {place : Span}
    (hpending : b.pending = ⟨some id, kind, place⟩ :: rest) (span : Span) :
    s.tree.closeScope ⟨id, s.tree.depth - 1⟩ span =
        .ok ((s.tree.scope id).unresolved, s.tree.closeInner 1) ∧
      s.closeScope c span =
        ({ s with tree := s.tree.closeInner 1 }).reportAll c (s.tree.scope id).unresolved := by
  have hcurrent : s.tree.current = id := by rw [h.current, hpending]; rfl
  have hdepth : s.tree.depth = (Bracket.scopes rest).length + 2 := by
    rw [h.depth, hpending, Bracket.scopes_accepted, List.length_cons]
  have hclose : s.tree.closeScope ⟨id, s.tree.depth - 1⟩ span =
      .ok ((s.tree.scope id).unresolved, s.tree.closeInner 1) := by
    rw [← hcurrent]
    exact ScopeTree.closeScope_innermost h.wellFormed (by omega) span
  -- the depths of the refused opens further out are all smaller
  have hhead : s.refused.head? ≠ some s.tree.depth := by
    intro hhead
    have hmem : s.tree.depth ∈ Bracket.refusedDepths rest := by
      have := List.mem_of_head? hhead
      rwa [h.refused, hpending] at this
    have hle := Bracket.le_of_mem_refusedDepths hmem
    omega
  refine ⟨hclose, ?_⟩
  rw [UnitState.closeScope, if_neg hhead, ScopeTree.innermost?, if_pos (by omega), hcurrent]
  dsimp only
  rw [UnitState.closeHandle, hclose]

/-! ### Every event -/

theorem new (c : Config) (seed : Seed) : Tracks (UnitState.new c seed) (Brackets.ofEvents []) where
  wellFormed := ScopeTree.wellFormed_new seed
  length := rfl
  openPath := rfl
  refused := rfl
  origin := by
    intro entry hmem
    cases hmem

private theorem origin_of_step (h : Tracks s b) {t' : ScopeTree} (hstep : s.tree.Step t')
    {entry : Bracket} (hmem : entry ∈ b.pending) {id : Nat} (hid : entry.scope? = some id) :
    (t'.scope id).kind = entry.kind ∧ (t'.scope id).span = entry.span := by
  have hopen : id ∈ s.tree.openPath := by
    rw [h.openPath]
    exact List.mem_append_left _ (List.mem_filterMap.mpr ⟨entry, hmem, hid⟩)
  have horigin := hstep.origin_eq (h.wellFormed.lt_length id hopen)
  simp only [Scope.origin, Prod.mk.injEq] at horigin
  rw [horigin.1, horigin.2.2.2]
  exact h.origin entry hmem id hid

private theorem take_openScope (h : Tracks s b) (kind : ScopeKind) (name : Option String)
    (span : Span) : Tracks (s.openScope c kind name span) (b.take (.openScope kind name span)) := by
  cases hnests : kind.nestsIn b.currentKind with
  | true =>
    have hstep : s.tree.Step (s.tree.opened kind name span) :=
      .opened kind name span (by rw [h.currentKind]; exact hnests)
    rw [h.openScope_accepted hnests, Brackets.take, if_pos hnests]
    exact
      { wellFormed := h.wellFormed.step hstep
        length := by rw [ScopeTree.length_scopes_opened, h.length]
        openPath := by
          rw [ScopeTree.openPath_opened, h.openPath, h.length]
          rfl
        refused := h.refused
        origin := by
          intro entry hmem id hid
          rcases List.mem_cons.mp hmem with rfl | hmem
          · cases hid
            rw [← h.length, ScopeTree.scope_opened_new]
            exact ⟨rfl, rfl⟩
          · exact h.origin_of_step hstep hmem hid }
  | false =>
    rw [h.openScope_refused hnests, Brackets.take, if_neg (by simp [hnests])]
    exact
      { wellFormed := h.wellFormed
        length := h.length
        openPath := h.openPath
        refused := by
          rw [Bracket.refusedDepths, ← h.depth, ← h.refused]
          rfl
        origin := by
          intro entry hmem id hid
          rcases List.mem_cons.mp hmem with rfl | hmem
          · cases hid
          · exact h.origin entry hmem id hid }

private theorem take_closeScope (h : Tracks s b) (span : Span) :
    Tracks (s.closeScope c span) (b.take (.closeScope span)) := by
  obtain ⟨pending, next⟩ := b
  cases pending with
  | nil =>
    rw [h.closeScope_stray rfl]
    exact ⟨h.wellFormed, h.length, h.openPath, h.refused, h.origin⟩
  | cons entry rest =>
    have horigin : ∀ entry ∈ rest, ∀ id, entry.scope? = some id →
        (s.tree.scope id).kind = entry.kind ∧ (s.tree.scope id).span = entry.span :=
      fun entry hmem ↦ h.origin entry (List.mem_cons_of_mem _ hmem)
    obtain ⟨scope?, kind, place⟩ := entry
    cases scope? with
    | none =>
      rw [h.closeScope_refused rfl]
      exact ⟨h.wellFormed, h.length, h.openPath, by rw [h.refused]; rfl, horigin⟩
    | some id =>
      have hstep : s.tree.Step (s.tree.closeInner 1) := .closed 1 (by
        rw [h.depth, Bracket.scopes_accepted, List.length_cons]
        omega)
      rw [(h.closeScope_accepted rfl span).2]
      exact
        { wellFormed := by rw [UnitState.tree_reportAll]; exact h.wellFormed.step hstep
          length := by
            rw [UnitState.tree_reportAll, ScopeTree.length_scopes_closeInner]
            exact h.length
          openPath := by
            rw [UnitState.tree_reportAll, ScopeTree.openPath_closeInner, h.openPath]
            rfl
          refused := by
            rw [UnitState.refused_reportAll]
            exact h.refused
          origin := by
            intro entry hmem id hid
            rw [UnitState.tree_reportAll]
            exact h.origin_of_step hstep (List.mem_cons_of_mem _ hmem) hid }

/-- **Every event keeps the unit and its brackets together.** -/
theorem take (h : Tracks s b) (e : Event) : Tracks (s.take c e) (b.take e) := by
  cases hbracket : e.isBracket with
  | false =>
    have hgains := UnitState.gains_take c s e
    have hedit : s.tree.Edit (s.take c e).tree := by
      rw [hgains.tree]
      exact Outcome.edit_ofEvent c.widths s.tree s.refused hbracket
    rw [b.take_of_not_isBracket hbracket]
    exact
      { wellFormed := h.wellFormed.step (.edited hedit)
        length := hedit.length_eq.trans h.length
        openPath := hedit.openPath_eq.trans h.openPath
        refused := by rw [hgains.refused, Outcome.refused_ofEvent _ _ _ hbracket, h.refused]
        origin := fun _ hmem _ hid ↦ h.origin_of_step (.edited hedit) hmem hid }
  | true =>
    cases e with
    | openScope kind name span => exact h.take_openScope kind name span
    | closeScope span => exact h.take_closeScope span
    | literal | declare | use | assign | label | goto => cases hbracket

theorem run (hgo : c.abort = false) (seed : Seed) (events : List Event) :
    Tracks ((UnitState.new c seed).run c events) (Brackets.ofEvents events) := by
  refine UnitState.run_induction (P := fun events s ↦ Tracks s (Brackets.ofEvents events)) hgo rfl
    (new c seed) ?_ events
  intro events s e _ h
  rw [Brackets.ofEvents, List.foldl_append]
  exact h.take e

/-! ### The end of a unit -/

private theorem flatMap_unclosed (h : Tracks s b) :
    (Bracket.scopes b.pending).flatMap (UnitState.unclosed s.tree) =
      b.pending.flatMap (Bracket.atEnd s.tree) := by
  have horigin := h.origin
  generalize b.pending = pending at horigin ⊢
  induction pending with
  | nil => rfl
  | cons entry rest ih =>
    have ih := ih fun entry hmem ↦ horigin entry (List.mem_cons_of_mem _ hmem)
    obtain ⟨scope?, kind, span⟩ := entry
    cases scope? with
    | none => exact ih
    | some id =>
      obtain ⟨hkind, hspan⟩ := horigin _ List.mem_cons_self id rfl
      rw [Bracket.scopes_accepted, List.flatMap_cons, List.flatMap_cons, ih, UnitState.unclosed,
        hkind, hspan]
      rfl

theorem closeOpen_spec (h : Tracks s b) (hgo : c.abort = false) (hs : s.aborted = false)
    {fuel : Nat} (hfuel : s.tree.depth ≤ fuel) :
    UnitState.closeOpen c fuel s = s.finish c ∧
      (s.finish c).findings =
        s.findings ++ ({ errors := b.pending.flatMap (Bracket.atEnd s.tree) } : Findings) ∧
      (s.finish c).tree.WellFormed ∧ (s.finish c).tree.openPath = [0] := by
  have hdepth := h.depth
  obtain ⟨hfixed, -, -⟩ := UnitState.closeOpen_spec hgo hs h.wellFormed h.openPath
    (show (Bracket.scopes b.pending).length ≤ fuel by omega)
  obtain ⟨hfinish, hfound, htree⟩ := UnitState.closeOpen_spec hgo hs h.wellFormed h.openPath
    (show (Bracket.scopes b.pending).length ≤ s.tree.depth by omega)
  rw [UnitState.finish]
  refine ⟨hfixed.trans hfinish.symm, ?_, ?_, ?_⟩
  · rw [hfound, h.flatMap_unclosed]
  · rw [htree]
    exact h.wellFormed.closeInner (by omega)
  · rw [htree, ScopeTree.openPath_closeInner, h.openPath, List.drop_left]

end Tracks

/-! ## The main result -/

/-- Whether an error tells of a close without an open or of an open without a close. -/
def Error.isUnbalanced : Error → Bool
  | .unbalancedScope _ _ => true
  | _ => false

private theorem filter_isUnbalanced_atEnd (t : ScopeTree) (pending : List Bracket) :
    (pending.flatMap (Bracket.atEnd t)).filter (·.isUnbalanced) =
      pending.filterMap (·.unclosed?) := by
  have hgotos (s : Scope) : s.unresolved.filter (·.isUnbalanced) = [] := by
    refine List.filter_eq_nil_iff.mpr fun e hmem ↦ ?_
    obtain ⟨g, -, rfl⟩ := List.mem_map.mp hmem
    simp [Error.isUnbalanced]
  induction pending with
  | nil => rfl
  | cons entry rest ih =>
    obtain ⟨scope?, kind, span⟩ := entry
    rw [List.flatMap_cons, List.filter_append, ih]
    cases scope? with
    | none => rfl
    | some id =>
      rw [Bracket.atEnd]
      dsimp only
      rw [List.filter_cons_of_pos (by rfl), hgotos]
      rfl

/-- The opens and closes of a unit match as brackets do. Here `s` is the state after some events and
`b` are the brackets that these events leave open. -/
structure BracketsMatch (c : Config) (seed : Seed) (events : List Event) (s : UnitState)
    (b : Brackets) : Prop where
  /-- An open that may stand in the current scope creates the scope with the number of its entry. -/
  open_accepted : ∀ kind name span, kind.nestsIn b.currentKind = true →
    s.tree.openScope kind name span =
      .ok (⟨b.next, s.tree.depth⟩, s.tree.opened kind name span) ∧
    s.step c (.openScope kind name span) = { s with tree := s.tree.opened kind name span }
  /-- Any other open creates none and is reported. -/
  open_refused : ∀ kind name span, kind.nestsIn b.currentKind = false →
    s.step c (.openScope kind name span) =
      ({ s with refused := s.tree.depth :: s.refused }).report c
        (.invalidNesting kind b.currentKind span)
  /-- A close that meets an accepted open closes the scope that this open created and no other, and
  reports the jumps without a label of this scope. -/
  close_accepted : ∀ id kind place rest, b.pending = ⟨some id, kind, place⟩ :: rest → ∀ span,
    s.tree.closeScope ⟨id, s.tree.depth - 1⟩ span =
      .ok ((s.tree.scope id).unresolved, s.tree.closeInner 1) ∧
    s.step c (.closeScope span) =
      ({ s with tree := s.tree.closeInner 1 }).reportAll c (s.tree.scope id).unresolved ∧
    s.tree.openPath = id :: (s.tree.closeInner 1).openPath ∧
    ∀ other < s.tree.scopes.length, (s.tree.closeInner 1).scope other =
      if other = id then (s.tree.scope id).close else s.tree.scope other
  /-- A close that meets a refused open leaves the tree alone and reports nothing. -/
  close_refused : ∀ kind place rest, b.pending = ⟨none, kind, place⟩ :: rest → ∀ span,
    s.step c (.closeScope span) = { s with refused := s.refused.tail }
  /-- A close that meets no open is reported and changes nothing else. -/
  close_stray : b.pending = [] → ∀ span,
    s.step c (.closeScope span) = s.report c (.unbalancedScope none span)
  /-- The closing at the end of the unit stops by itself: more fuel does not change it, and it
  leaves no scope to be closed. -/
  finish_stops : (∀ fuel, s.tree.depth ≤ fuel → UnitState.closeOpen c fuel s = s.finish c) ∧
    (s.finish c).tree.innermost? = none
  /-- The closing reports each accepted entry that is left, innermost first, and the jumps without a
  label of its scope. -/
  finish_errors : (analyze c seed events).errors =
    s.errors ++ b.pending.flatMap (Bracket.atEnd s.tree)
  /-- So there is one error for each accepted entry that is left, and none for a refused one. -/
  finish_unbalanced : (b.pending.flatMap (Bracket.atEnd s.tree)).filter (·.isUnbalanced) =
    b.pending.filterMap (·.unclosed?)
  /-- Only the global scope is listed as open. -/
  finish_open : ((analyze c seed events).scopes.filter (·.isOpen)).map (·.id) = [0]

/-- **Opens and closes match**, whatever opens are refused, after every list of events. -/
theorem brackets_match (c : Config) (hgo : c.abort = false) (seed : Seed) (events : List Event) :
    BracketsMatch c seed events ((UnitState.new c seed).run c events)
      (Brackets.ofEvents events) := by
  have h := Tracks.run hgo seed events
  have hs : ((UnitState.new c seed).run c events).aborted = false := UnitState.aborted_run hgo _ _
  obtain ⟨-, hfound, hwf, hpath⟩ := h.closeOpen_spec hgo hs (le_refl _)
  exact
    { open_accepted := by
        intro kind name span hnests
        rw [UnitState.step_eq_take c hs, ScopeTree.openScope_eq, h.currentKind, if_pos hnests,
          h.length]
        exact ⟨rfl, h.openScope_accepted hnests name span⟩
      open_refused := by
        intro kind name span hnests
        rw [UnitState.step_eq_take c hs]
        exact h.openScope_refused hnests name span
      close_accepted := by
        intro id kind place rest hpending span
        obtain ⟨hclose, hstep⟩ := h.closeScope_accepted hpending span
        have hopen : ((UnitState.new c seed).run c events).tree.openPath =
            id :: (Bracket.scopes rest ++ [0]) := by
          rw [h.openPath, hpending]
          rfl
        refine ⟨hclose, by rw [UnitState.step_eq_take c hs]; exact hstep, ?_, ?_⟩
        · rw [ScopeTree.openPath_closeInner, hopen]
          rfl
        · intro other hlt
          rw [ScopeTree.scope_closeInner _ _ hlt, hopen]
          by_cases hsame : other = id <;> simp [hsame]
      close_refused := by
        intro kind place rest hpending span
        rw [UnitState.step_eq_take c hs]
        exact h.closeScope_refused hpending span
      close_stray := by
        intro hpending span
        rw [UnitState.step_eq_take c hs]
        exact h.closeScope_stray hpending span
      finish_stops := by
        refine ⟨fun fuel hfuel ↦ (h.closeOpen_spec hgo hs hfuel).1, ?_⟩
        rw [ScopeTree.innermost?, ScopeTree.depth, hpath]
        rfl
      finish_errors := congrArg Findings.errors hfound
      finish_unbalanced := filter_isUnbalanced_atEnd _ _
      finish_open := ScopeTree.filter_isOpen_listing hwf hpath }

/-- A refused block around a function, a stray close and a namespace that is left open. -/
theorem brackets_match_refused_block :
    ({} : Config).abort = false ∧
    BracketsMatch {} Seed.empty
      [.closeScope Span.zero, .openScope .namespaceBody (some "n") Span.zero,
        .openScope .block none Span.zero, .openScope .functionBody none Span.zero,
        .closeScope Span.zero, .closeScope Span.zero]
      ((UnitState.new {} Seed.empty).run {} [.closeScope Span.zero,
        .openScope .namespaceBody (some "n") Span.zero, .openScope .block none Span.zero,
        .openScope .functionBody none Span.zero, .closeScope Span.zero, .closeScope Span.zero])
      ⟨[⟨some 1, .namespaceBody, Span.zero⟩], 3⟩ :=
  ⟨rfl, brackets_match {} rfl Seed.empty _⟩

end DeclAnalysis
