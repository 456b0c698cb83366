import DeclAnalysis.Proofs.Scope.History
import DeclAnalysis.Proofs.Scope.Jumps
import Mathlib.Logic.Relation

/-!
# Handles

A handle is two numbers, that of a scope and that of its place on the open path, and whoever holds
it may try to close the scope at any time. The tree keeps no list of the handles it gave out. It
looks at the place and accepts the handle if the scope stands there.

That this is enough rests on two facts about whole runs. While a scope is open its place does not
change, since everything around it was opened before it and is closed after it (`Issued`); and a
number is given to one scope only, so that what stands at the place of a closed scope later has
another number.
-/

namespace DeclAnalysis

namespace ScopeTree

variable {t t' : ScopeTree} {h : Handle}

/-! ## Scopes inside a scope -/

/-- A scope is another one or stands inside it, directly or further in. -/
def StandsIn (t : ScopeTree) (inner outer : Nat) : Prop :=
  Relation.ReflTransGen (fun id parent ↦ (t.scope id).parent = some parent) inner outer

theorem StandsIn.le (hwf : t.WellFormed) {inner outer : Nat} (hstands : t.StandsIn inner outer) :
    outer ≤ inner := by
  induction hstands with
  | refl => exact le_rfl
  | tail _ hparent ih =>
    exact (hwf.parent_lt _ (lt_length_of_parent hparent) _ hparent).le.trans ih

/-- On a path of scopes that each stand directly inside the next one, all stand in those further
out. -/
private theorem standsIn_of_isChain {inner outer : List Nat} {id : Nat}
    (hchain : (inner ++ id :: outer).IsChain fun id outer ↦ (t.scope id).parent = some outer) :
    ∀ other ∈ inner ++ [id], t.StandsIn other id := by
  induction inner with
  | nil =>
    intro other hmem
    rw [List.mem_singleton.mp hmem]
    exact .refl
  | cons first rest ih =>
    have hrest := ih hchain.of_cons
    intro other hmem
    rcases List.mem_cons.mp hmem with rfl | hmem
    · rcases rest with - | ⟨next, rest⟩
      · exact .single hchain.rel
      · exact .head hchain.rel (hrest next List.mem_cons_self)
    · exact hrest other hmem

/-! ## Where a handle points -/

/-- **A handle is accepted** where its scope stands on the open path with as many scopes around it
as the handle tells, and at least one. -/
theorem holds_iff :
    t.holds h = true ↔
      ∃ inner outer, t.openPath = inner ++ h.id :: outer ∧ outer.length = h.depth ∧ outer ≠ [] := by
  rw [holds, Bool.and_eq_true, decide_eq_true_eq, decide_eq_true_eq]
  constructor
  · rintro ⟨hpos, hfound⟩
    obtain ⟨hlt, hget⟩ := List.getElem?_eq_some_iff.mp hfound
    have hsplit : t.openPath.reverse = t.openPath.reverse.take h.depth ++
        h.id :: t.openPath.reverse.drop (h.depth + 1) := by
      rw [← hget, ← List.drop_eq_getElem_cons hlt, List.take_append_drop]
    have hlength : (t.openPath.reverse.take h.depth).reverse.length = h.depth := by
      rw [List.length_reverse, List.length_take, Nat.min_eq_left hlt.le]
    have hpath := congrArg List.reverse hsplit
    rw [List.reverse_append, List.reverse_cons, List.reverse_reverse, List.append_assoc] at hpath
    exact ⟨_, _, hpath, hlength, List.ne_nil_of_length_pos (hpos.trans_eq hlength.symm)⟩
  · rintro ⟨inner, outer, hpath, hlength, hne⟩
    refine ⟨hlength ▸ List.length_pos_iff.mpr hne, ?_⟩
    rw [hpath, List.reverse_append, List.reverse_cons, List.append_assoc, ← hlength,
      ← List.length_reverse, List.getElem?_append_right le_rfl]
    simp

private theorem closeScope_of_not_holds (hrefused : ¬ t.holds h = true) (span : Span) :
    t.closeScope h span = .error (.unbalancedScope none span) := by
  rw [closeScope_eq, if_neg hrefused]

private theorem isOk_closeScope_iff {span : Span} :
    (t.closeScope h span).isOk = true ↔ t.holds h = true := by
  by_cases hholds : t.holds h = true
  · rw [closeScope_eq, if_pos hholds]
    exact ⟨fun _ ↦ hholds, fun _ ↦ rfl⟩
  · rw [closeScope_of_not_holds hholds]
    exact ⟨fun hok ↦ absurd hok Bool.false_ne_true, fun hok ↦ absurd hok hholds⟩

private theorem exists_of_closeScope {span : Span} {errors : List Error}
    (hok : t.closeScope h span = .ok (errors, t')) :
    ∃ inner outer, t.openPath = inner ++ h.id :: outer ∧ outer ≠ [] ∧ t'.openPath = outer ∧
      ∃ n, t' = t.closeInner n := by
  by_cases hholds : t.holds h = true
  · obtain ⟨inner, outer, hpath, hlength, hne⟩ := holds_iff.mp hholds
    rw [closeScope_eq, if_pos hholds] at hok
    cases hok
    have hcount : t.depth - h.depth = inner.length + 1 := by
      rw [depth, hpath, List.length_append, List.length_cons, hlength]
      omega
    refine ⟨inner, outer, hpath, hne, ?_, _, rfl⟩
    rw [openPath_closeInner, hcount, hpath, List.drop_length_add_append]
    rfl
  · rw [closeScope_of_not_holds hholds] at hok
    cases hok

/-- **What a close does.** The scope of the handle and the open scopes inside it are closed, and the
scope around it becomes the current one. -/
theorem isOpen_of_closeScope (hwf : t.WellFormed) {span : Span} {errors : List Error}
    (hok : t.closeScope h span = .ok (errors, t')) {id : Nat} (hid : id < t.scopes.length) :
    (t'.scope id).isOpen = true ↔ (t.scope id).isOpen = true ∧ ¬ t.StandsIn id h.id := by
  have hwf' : t'.WellFormed := hwf.step (step_of_closeScope hok)
  obtain ⟨inner, outer, hpath, -, hleft, n, rfl⟩ := exists_of_closeScope hok
  rw [hwf'.isOpen_iff id (by rwa [length_scopes_closeInner]), hwf.isOpen_iff id hid, hleft, hpath]
  have hchain := hwf.chain
  have hpairwise := hwf.pairwise
  rw [hpath] at hchain hpairwise
  constructor
  · intro hmem
    refine ⟨by simp [hmem], fun hstands ↦ ?_⟩
    have hlt : h.id > id :=
      List.rel_of_pairwise_cons (List.pairwise_append.mp hpairwise).2.1 hmem
    exact absurd (hstands.le hwf) (Nat.not_le.mpr hlt)
  · rintro ⟨hmem, houtside⟩
    by_contra hgone
    refine houtside (standsIn_of_isChain hchain id ?_)
    simpa [hgone] using hmem

private theorem parent_eq_current_of_closeScope (hwf : t.WellFormed) {span : Span}
    {errors : List Error} (hok : t.closeScope h span = .ok (errors, t')) :
    (t.scope h.id).parent = some t'.current := by
  obtain ⟨inner, outer, hpath, hne, hleft, -⟩ := exists_of_closeScope hok
  obtain ⟨next, rest, rfl⟩ := List.exists_cons_of_ne_nil hne
  have hchain := hwf.chain
  rw [hpath, List.isChain_append_cons_cons] at hchain
  rw [current, hleft]
  exact hchain.2.1

/-! ## Handles that were given out -/

/-- A handle that was given out for a scope: as long as the scope is open, it has its place. -/
structure Issued (t : ScopeTree) (h : Handle) : Prop where
  lt_length : h.id < t.scopes.length
  holds_of_mem : h.id ∈ t.openPath → t.holds h = true

private theorem Issued.holds_iff_isOpen (hissued : t.Issued h) (hwf : t.WellFormed) :
    t.holds h = true ↔ (t.scope h.id).isOpen = true := by
  rw [hwf.isOpen_iff h.id hissued.lt_length]
  refine ⟨fun hholds ↦ ?_, hissued.holds_of_mem⟩
  obtain ⟨inner, outer, hpath, -, -⟩ := holds_iff.mp hholds
  rw [hpath]
  exact List.mem_append_right _ List.mem_cons_self

private theorem id_of_openScope {kind : ScopeKind} {name : Option String} {span : Span}
    (hok : t.openScope kind name span = .ok (h, t')) : h.id = t.scopes.length := by
  rw [openScope_eq] at hok
  split at hok <;> cases hok
  rfl

private theorem origin_of_openScope {kind : ScopeKind} {name : Option String} {span : Span}
    (hok : t.openScope kind name span = .ok (h, t')) :
    (t'.scope h.id).origin = (kind, name, some t.current, span) := by
  rw [openScope_eq] at hok
  split at hok <;> cases hok
  rw [scope_opened_new]
  rfl

private theorem issued_of_openScope (hwf : t.WellFormed) {kind : ScopeKind} {name : Option String}
    {span : Span} (hok : t.openScope kind name span = .ok (h, t')) : t'.Issued h := by
  rw [openScope_eq] at hok
  split at hok <;> cases hok
  exact ⟨by rw [length_scopes_opened]; exact Nat.lt_succ_self _,
    fun _ ↦ holds_iff.mpr ⟨[], t.openPath, rfl, rfl, hwf.openPath_ne_nil⟩⟩

/-- **The place of an open scope does not change.** Scopes are opened and closed on top of it. -/
theorem Issued.step (hissued : t.Issued h) (hwf : t.WellFormed) (hstep : t.Step t') :
    t'.Issued h := by
  refine ⟨hissued.lt_length.trans_le hstep.length_le, fun hmem ↦ ?_⟩
  cases hstep with
  | opened kind name span hnests =>
    have hmem : h.id ∈ t.openPath :=
      (List.mem_cons.mp hmem).resolve_left (Nat.ne_of_lt hissued.lt_length)
    obtain ⟨inner, outer, hpath, hplace⟩ := holds_iff.mp (hissued.holds_of_mem hmem)
    exact holds_iff.mpr ⟨t.scopes.length :: inner, outer, by rw [openPath_opened, hpath]; rfl,
      hplace⟩
  | closed n hproper =>
    obtain ⟨inner, outer, hpath, hplace⟩ :=
      holds_iff.mp (hissued.holds_of_mem (List.mem_of_mem_drop hmem))
    -- a scope that stays open is not reached by the cut
    have hcut : n ≤ inner.length := by
      by_contra hdeep
      have hgone : h.id ∈ t.openPath.take n := by
        rw [hpath, List.take_append, List.take_of_length_le (by omega),
          show n - inner.length = n - inner.length - 1 + 1 by omega, List.take_succ_cons]
        exact List.mem_append_right _ List.mem_cons_self
      exact List.disjoint_take_drop hwf.nodup (le_refl n) hgone hmem
    refine holds_iff.mpr ⟨inner.drop n, outer, ?_, hplace⟩
    rw [openPath_closeInner, hpath, List.drop_append_of_le_length hcut]
  | edited hedit =>
    rw [holds, hedit.openPath_eq]
    exact hissued.holds_of_mem (hedit.openPath_eq ▸ hmem)

theorem Issued.run (hissued : t.Issued h) (hwf : t.WellFormed) (rs : List Request) :
    (t.run rs).Issued h :=
  hwf.run_induction (P := (Issued · h)) (fun _ _ hwf hissued ↦ hissued.step hwf) hissued rs

/-- **A handle of a closed scope is refused for good**, whatever is opened in its place. -/
theorem Issued.closeScope_of_closed (hissued : t.Issued h) (hwf : t.WellFormed)
    (hclosed : ¬ (t.scope h.id).isOpen = true) (later : List Request) (span : Span) :
    (t.run later).closeScope h span = .error (.unbalancedScope none span) := by
  refine closeScope_of_not_holds (fun hholds ↦ ?_) span
  obtain ⟨inner, outer, hpath, -, -⟩ := holds_iff.mp hholds
  have hlater : (t.run later).NotYetClosed h.id := fun _ ↦ by simp [hpath]
  exact hclosed ((hwf.isOpen_iff h.id hissued.lt_length).mpr
    (NotYetClosed.of_run hlater hissued.lt_length))

/-! ## The main result -/

/-- **A handle closes its own scope, and only once.** A scope is opened after any requests to a new
tree, and requests follow, accepted or refused, with any handles. Then:

* the number of the handle is still that of the scope that was opened, and no scope opened later has
  it;
* the handle is accepted if and only if the scope is still open;
* if it is, then the scope and the open scopes inside it are closed and no others, the scope around
  it becomes the current one, and every scope keeps its names;
* if it is not, the close counts as one without an open, and the tree stays as it is;
* once the scope is closed, by this handle or by one of a scope around it, the handle is refused,
  whatever requests come in between. -/
theorem handle_closes_its_scope (seed : Seed) (before after : List Request) {kind : ScopeKind}
    {name : Option String} {span : Span} {h : Handle} {t₁ : ScopeTree}
    (hopened : ((ScopeTree.new seed).run before).openScope kind name span = .ok (h, t₁)) :
    let t := t₁.run after
    ((t.scope h.id).origin = (kind, name, some ((ScopeTree.new seed).run before).current, span) ∧
      ∀ kind name span h' t₂, t.openScope kind name span = .ok (h', t₂) → h'.id ≠ h.id) ∧
    (∀ place, (t.closeScope h place).isOk = true ↔ (t.scope h.id).isOpen = true) ∧
    (∀ place errors t₂, t.closeScope h place = .ok (errors, t₂) →
      (∀ id < t.scopes.length, (t₂.scope id).isOpen = true ↔
        (t.scope id).isOpen = true ∧ ¬ t.StandsIn id h.id) ∧
      (t.scope h.id).parent = some t₂.current ∧
      ∀ id, (t₂.scope id).bindings = (t.scope id).bindings) ∧
    (∀ place e, t.closeScope h place = .error e →
      e = .unbalancedScope none place ∧ t.apply (.closeScope h place) = t) ∧
    (∀ later place, (t.scope h.id).isOpen = false →
      (t.run later).closeScope h place = .error (.unbalancedScope none place)) ∧
    ∀ g place errors t₂, t.closeScope g place = .ok (errors, t₂) → t.StandsIn h.id g.id →
      ∀ later place, (t₂.run later).closeScope h place = .error (.unbalancedScope none place) := by
  intro t
  have hwf₀ : ((ScopeTree.new seed).run before).WellFormed := wellFormed_run seed before
  have hwf₁ : t₁.WellFormed := hwf₀.step (step_of_openScope hopened)
  have hwf : t.WellFormed := hwf₁.run after
  have hissued₁ : t₁.Issued h := issued_of_openScope hwf₀ hopened
  have hissued : t.Issued h := hissued₁.run hwf₁ after
  refine ⟨⟨?_, ?_⟩, ?_, ?_, ?_, ?_, ?_⟩
  · rw [origin_run hissued₁.lt_length after]
    exact origin_of_openScope hopened
  · intro kind name span h' t₂ hagain
    exact (id_of_openScope hagain).trans_ne (Nat.ne_of_gt hissued.lt_length)
  · intro place
    rw [isOk_closeScope_iff, hissued.holds_iff_isOpen hwf]
  · intro place errors t₂ hok
    refine ⟨fun id hid ↦ isOpen_of_closeScope hwf hok hid, parent_eq_current_of_closeScope hwf hok,
      fun id ↦ ?_⟩
    obtain ⟨-, -, -, -, -, n, rfl⟩ := exists_of_closeScope hok
    exact bindings_closeInner t n id
  · intro place e hrefused
    refine ⟨?_, apply_of_error (by rw [perform, hrefused]; rfl)⟩
    rw [closeScope_eq] at hrefused
    split at hrefused <;> cases hrefused
    rfl
  · intro later place hclosed
    exact hissued.closeScope_of_closed hwf (Bool.eq_false_iff.mp hclosed) later place
  · intro g place errors t₂ hok hinside later place'
    have hstep := step_of_closeScope hok
    refine (hissued.step hwf hstep).closeScope_of_closed (hwf.step hstep) (fun hopen ↦ ?_) later
      place'
    exact ((isOpen_of_closeScope hwf hok hissued.lt_length).mp hopen).2 hinside

/-- A block is closed by the handle of the function around it, and another block comes to stand in
its place. The handle of the first block is refused there. -/
theorem handle_closes_its_scope_replaced :
    let function : Request := .openScope .functionBody none ⟨0, 1⟩
    let t := (ScopeTree.new .empty).run [function]
    let t₁ := t.opened .block none ⟨1, 2⟩
    let t₂ := (t₁.closeInner 2).run [function, .openScope .block none ⟨1, 2⟩]
    t.openScope .block none ⟨1, 2⟩ = .ok (⟨2, 2⟩, t₁) ∧
    t₁.closeScope ⟨1, 1⟩ ⟨2, 3⟩ = .ok ([], t₁.closeInner 2) ∧ t₂.handles = [⟨3, 1⟩, ⟨4, 2⟩] ∧
    t₂.closeScope ⟨2, 2⟩ ⟨3, 4⟩ = .error (.unbalancedScope none ⟨3, 4⟩) := by
  intro function t t₁ t₂
  have hopened : t.openScope .block none ⟨1, 2⟩ = .ok (⟨2, 2⟩, t₁) := rfl
  have hclosed : t₁.closeScope ⟨1, 1⟩ ⟨2, 3⟩ = .ok ([], t₁.closeInner 2) := rfl
  obtain ⟨-, -, -, -, -, hrefused⟩ := handle_closes_its_scope .empty [function] [] hopened
  exact ⟨hopened, hclosed, by decide, hrefused _ _ _ _ hclosed (.single rfl) _ _⟩

end ScopeTree

end DeclAnalysis
