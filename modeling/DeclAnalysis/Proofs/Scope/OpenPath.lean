import DeclAnalysis.Proofs.Scope.Step
import Mathlib.Data.List.Chain

/-!
# The open path and the parents

A scope tree keeps two records of what is open. Opening and closing work on the open path, a list of
numbers; lookup climbs the parents that the scopes carry and never looks at the path. Nothing in the
operations compares the two, and closed scopes stay in the list of scopes with their parents, so the
two agree only by an invariant.

`WellFormed` is that invariant: each scope of the open path has the next one as its parent, parents
have smaller numbers, and the scopes marked open are those of the path. It holds of a new tree and
is kept by every step, and with it lookup is a search along the open path (`lookup?_eq_findSome?`).
-/

namespace DeclAnalysis

namespace Scope

/-- What is settled about a scope when it is opened. -/
def origin (s : Scope) : ScopeKind × Option String × Option Nat × Span :=
  (s.kind, s.name, s.parent, s.span)

/-- What places a scope in its tree. -/
def skeleton (s : Scope) : ScopeKind × Option Nat × Bool × List Nat :=
  (s.kind, s.parent, s.isOpen, s.children)

end Scope

namespace ScopeTree

/-! ## Scopes after a step -/

theorem scope_of_length_le {t : ScopeTree} {id : Nat} (hbeyond : t.scopes.length ≤ id) :
    t.scope id = Scope.root := by
  simp [scope, List.getD_eq_getElem?_getD, hbeyond]

/-- Only scopes of the tree have a parent. -/
theorem lt_length_of_parent {t : ScopeTree} {id outer : Nat}
    (hparent : (t.scope id).parent = some outer) : id < t.scopes.length := by
  by_contra hbeyond
  rw [scope_of_length_le (Nat.not_lt.mp hbeyond)] at hparent
  cases hparent

theorem scope_modify (t : ScopeTree) {id : Nat} (f : Scope → Scope) (h : id < t.scopes.length)
    (other : Nat) : (t.modify id f).scope other = if other = id then f (t.scope id) else
      t.scope other := by
  split
  · next hsame => rw [hsame, scope_modify_self t f h]
  · next hdiffer => exact scope_modify_of_ne t f hdiffer

/-- A part of the scopes that a change keeps is the same afterwards, whatever scope is changed. -/
theorem part_scope_modify {β : Type} (part : Scope → β) {f : Scope → Scope} (t : ScopeTree)
    (id other : Nat) (hkeeps : ∀ s, part (f s) = part s) :
    part ((t.modify id f).scope other) = part (t.scope other) := by
  by_cases hbound : id < t.scopes.length
  · rw [scope_modify t f hbound]
    split
    · next hsame => rw [hkeeps, hsame]
    · rfl
  · rw [modify, List.modify_eq_self (by omega)]

@[simp] theorem openPath_opened (t : ScopeTree) (kind : ScopeKind) (name : Option String)
    (span : Span) : (t.opened kind name span).openPath = t.scopes.length :: t.openPath := rfl

@[simp] theorem length_scopes_opened (t : ScopeTree) (kind : ScopeKind) (name : Option String)
    (span : Span) : (t.opened kind name span).scopes.length = t.scopes.length + 1 := by
  simp [opened]

@[simp] theorem scope_opened_new (t : ScopeTree) (kind : ScopeKind) (name : Option String)
    (span : Span) :
    (t.opened kind name span).scope t.scopes.length =
      Scope.new kind name (some t.current) span := by
  simp [scope, opened, List.getD_eq_getElem?_getD]

theorem scope_opened_old (t : ScopeTree) (kind : ScopeKind) (name : Option String) (span : Span)
    {id : Nat} (h : id < t.scopes.length) :
    (t.opened kind name span).scope id =
      (t.modify t.current fun s ↦ { s with children := s.children ++ [t.scopes.length] }).scope
        id := by
  simp [scope, opened, modify, List.getD_eq_getElem?_getD, List.getElem?_append, h]

/-- A part of the scopes that does not tell what stands inside them is the same after an open. -/
theorem part_scope_opened {β : Type} (part : Scope → β) (t : ScopeTree) (kind : ScopeKind)
    (name : Option String) (span : Span) {id : Nat} (h : id < t.scopes.length)
    (hkeeps : ∀ s c, part { s with children := c } = part s) :
    part ((t.opened kind name span).scope id) = part (t.scope id) := by
  rw [scope_opened_old t kind name span h]
  exact part_scope_modify part _ _ _ fun s ↦ hkeeps s _

@[simp] theorem openPath_closeInner (t : ScopeTree) (n : Nat) :
    (t.closeInner n).openPath = t.openPath.drop n := rfl

theorem getElem?_foldl_close (ids : List Nat) (scopes : List Scope) (id : Nat) :
    (ids.foldl (fun scopes id ↦ scopes.modify id Scope.close) scopes)[id]? =
      if id ∈ ids then scopes[id]?.map Scope.close else scopes[id]? := by
  induction ids generalizing scopes with
  | nil => simp
  | cons first rest ih =>
    rw [List.foldl_cons, ih, List.getElem?_modify]
    by_cases hsame : first = id
    · -- a scope that is closed twice is as one that is closed once
      have htwice : Scope.close ∘ Scope.close = Scope.close := rfl
      simp [hsame, Option.map_map, htwice]
    · simp [hsame, Ne.symm hsame]

@[simp] theorem length_scopes_closeInner (t : ScopeTree) (n : Nat) :
    (t.closeInner n).scopes.length = t.scopes.length := by
  rw [closeInner]
  generalize t.openPath.take n = ids
  generalize t.scopes = scopes
  induction ids generalizing scopes with
  | nil => rfl
  | cons first rest ih => rw [List.foldl_cons, ih, List.length_modify]

theorem scope_closeInner (t : ScopeTree) (n : Nat) {id : Nat} (h : id < t.scopes.length) :
    (t.closeInner n).scope id =
      if id ∈ t.openPath.take n then (t.scope id).close else t.scope id := by
  rw [scope, scope, List.getD_eq_getElem?_getD, closeInner, getElem?_foldl_close]
  split <;> simp [List.getD_eq_getElem?_getD, h]

/-- A part of the scopes that closing keeps is the same afterwards. -/
theorem part_scope_closeInner {β : Type} (part : Scope → β) (t : ScopeTree) (n id : Nat)
    (hkeeps : ∀ s, part s.close = part s) :
    part ((t.closeInner n).scope id) = part (t.scope id) := by
  by_cases hbound : id < t.scopes.length
  · rw [scope_closeInner t n hbound]
    split
    · exact hkeeps _
    · rfl
  · have hbeyond : t.scopes.length ≤ id := by omega
    simp [scope, List.getD_eq_getElem?_getD, hbeyond]

/-- Closing some scopes and then more is closing them together. -/
theorem closeInner_closeInner (t : ScopeTree) (m n : Nat) :
    (t.closeInner m).closeInner n = t.closeInner (m + n) := by
  simp only [closeInner, List.take_add, List.foldl_append, List.drop_drop]

/-! ## What no step changes -/

section Kept

variable {t t' : ScopeTree}

theorem Edit.seed_eq (hedit : t.Edit t') : t'.seed = t.seed := by
  cases hedit <;> rfl

theorem Edit.openPath_eq (hedit : t.Edit t') : t'.openPath = t.openPath := by
  cases hedit <;> rfl

theorem Edit.length_eq (hedit : t.Edit t') : t'.scopes.length = t.scopes.length := by
  cases hedit with
  | kept => rfl
  | bound | labelled | jumped => exact length_scopes_modify ..

theorem Edit.skeleton_eq (hedit : t.Edit t') (id : Nat) :
    (t'.scope id).skeleton = (t.scope id).skeleton := by
  cases hedit with
  | kept => rfl
  | bound | labelled | jumped => exact part_scope_modify Scope.skeleton _ _ _ fun _ ↦ rfl

theorem Edit.origin_eq (hedit : t.Edit t') (id : Nat) :
    (t'.scope id).origin = (t.scope id).origin := by
  cases hedit with
  | kept => rfl
  | bound | labelled | jumped => exact part_scope_modify Scope.origin _ _ _ fun _ ↦ rfl

theorem Step.seed_eq (hstep : t.Step t') : t'.seed = t.seed := by
  cases hstep with
  | opened | closed => rfl
  | edited hedit => exact hedit.seed_eq

/-- A scope keeps the kind, the name, the parent and the place that it was opened with. -/
theorem Step.origin_eq (hstep : t.Step t') {id : Nat} (h : id < t.scopes.length) :
    (t'.scope id).origin = (t.scope id).origin := by
  cases hstep with
  | opened kind name span hnests =>
    exact part_scope_opened Scope.origin t kind name span h fun _ _ ↦ rfl
  | closed n hproper => exact part_scope_closeInner Scope.origin _ _ _ fun _ ↦ rfl
  | edited hedit => exact hedit.origin_eq id

/-- No scope is forgotten. -/
theorem Step.length_le (hstep : t.Step t') : t.scopes.length ≤ t'.scopes.length := by
  cases hstep with
  | opened kind name span hnests => exact (length_scopes_opened ..).ge.trans' (Nat.le_succ _)
  | closed n hproper => exact (length_scopes_closeInner t n).ge
  | edited hedit => exact hedit.length_eq.ge

end Kept

/-! ## The invariant -/

/-- The open path and the parents agree. -/
structure WellFormed (t : ScopeTree) : Prop where
  /-- The open path starts at the global scope. -/
  getLast? : t.openPath.getLast? = some 0
  /-- Each scope of the open path stands directly inside the next one. -/
  chain : t.openPath.IsChain fun id outer ↦ (t.scope id).parent = some outer
  /-- Only scopes of the tree are open. -/
  lt_length : ∀ id ∈ t.openPath, id < t.scopes.length
  /-- The global scope stands inside no other. -/
  parent_zero : (t.scope 0).parent = none
  /-- The first scope is the global one. -/
  kind_zero : (t.scope 0).kind = .global
  /-- A scope is opened after the one around it. -/
  parent_lt : ∀ id < t.scopes.length, ∀ outer, (t.scope id).parent = some outer → outer < id
  /-- The scopes that are marked open are those of the open path. -/
  isOpen_iff : ∀ id < t.scopes.length, ((t.scope id).isOpen = true ↔ id ∈ t.openPath)
  /-- The scopes inside a scope are those that have it as their parent, in order. -/
  children_eq : ∀ id < t.scopes.length, (t.scope id).children =
    (List.range t.scopes.length).filter fun inner ↦ (t.scope inner).parent = some id

theorem wellFormed_new (seed : Seed) : (ScopeTree.new seed).WellFormed where
  getLast? := rfl
  chain := .singleton 0
  lt_length := by simp [new]
  parent_zero := rfl
  kind_zero := rfl
  parent_lt := by
    intro id h outer hparent
    obtain rfl : id = 0 := by simpa [new] using h
    cases hparent
  isOpen_iff := by
    intro id h
    obtain rfl : id = 0 := by simpa [new] using h
    simp [new, scope, Scope.root, Scope.new]
  children_eq := by
    intro id h
    obtain rfl : id = 0 := by simpa [new] using h
    rfl

namespace WellFormed

variable {t t' : ScopeTree}

theorem openPath_ne_nil (hwf : t.WellFormed) : t.openPath ≠ [] := by
  intro hempty
  have := hwf.getLast?
  simp [hempty] at this

/-- The open path without its first scope taken apart. -/
theorem exists_cons (hwf : t.WellFormed) : ∃ rest, t.openPath = t.current :: rest := by
  obtain ⟨id, rest, hpath⟩ := List.exists_cons_of_ne_nil hwf.openPath_ne_nil
  exact ⟨rest, by rw [current, hpath]; rfl⟩

theorem current_mem (hwf : t.WellFormed) : t.current ∈ t.openPath := by
  obtain ⟨rest, hpath⟩ := hwf.exists_cons
  rw [hpath]
  exact List.mem_cons_self

theorem current_lt (hwf : t.WellFormed) : t.current < t.scopes.length :=
  hwf.lt_length _ hwf.current_mem

theorem zero_mem (hwf : t.WellFormed) : 0 ∈ t.openPath := List.mem_of_getLast? hwf.getLast?

theorem depth_pos (hwf : t.WellFormed) : 0 < t.depth := List.length_pos_iff.mpr hwf.openPath_ne_nil

/-- The numbers of the open path grow inwards. -/
theorem pairwise (hwf : t.WellFormed) : t.openPath.Pairwise (· > ·) :=
  (hwf.chain.imp_of_mem_imp fun id outer hmem _ hparent ↦
    hwf.parent_lt id (hwf.lt_length id hmem) outer hparent).pairwise

theorem nodup (hwf : t.WellFormed) : t.openPath.Nodup :=
  hwf.pairwise.imp fun h ↦ Nat.ne_of_gt h

/-- The current scope was opened last. -/
theorem le_current (hwf : t.WellFormed) {id : Nat} (hmem : id ∈ t.openPath) : id ≤ t.current := by
  obtain ⟨rest, hpath⟩ := hwf.exists_cons
  have hpairwise := hwf.pairwise
  rw [hpath] at hmem hpairwise
  rcases List.mem_cons.mp hmem with rfl | hmem
  · exact le_refl _
  · exact Nat.le_of_lt (List.rel_of_pairwise_cons hpairwise hmem)

/-- Every scope inside another has a greater number. -/
theorem lt_of_mem_children (hwf : t.WellFormed) {id inner : Nat} (h : id < t.scopes.length)
    (hmem : inner ∈ (t.scope id).children) : id < inner ∧ inner < t.scopes.length := by
  rw [hwf.children_eq id h, List.mem_filter, List.mem_range, decide_eq_true_eq] at hmem
  exact ⟨hwf.parent_lt inner hmem.1 id hmem.2, hmem.1⟩

/-! ## Every step keeps it -/

/-- The invariant speaks of the open path and of the skeletons of the scopes only. -/
theorem of_skeleton (hwf : t.WellFormed) (hpath : t'.openPath = t.openPath)
    (hlength : t'.scopes.length = t.scopes.length)
    (hskeleton : ∀ id, (t'.scope id).skeleton = (t.scope id).skeleton) : t'.WellFormed := by
  simp only [Scope.skeleton, Prod.mk.injEq] at hskeleton
  exact
    { getLast? := by rw [hpath]; exact hwf.getLast?
      chain := by
        rw [hpath]
        exact hwf.chain.imp fun id outer hparent ↦ (hskeleton id).2.1.trans hparent
      lt_length := by rw [hpath, hlength]; exact hwf.lt_length
      parent_zero := (hskeleton 0).2.1.trans hwf.parent_zero
      kind_zero := (hskeleton 0).1.trans hwf.kind_zero
      parent_lt := by
        intro id h outer hparent
        rw [hlength] at h
        rw [(hskeleton id).2.1] at hparent
        exact hwf.parent_lt id h outer hparent
      isOpen_iff := by
        intro id h
        rw [hlength] at h
        rw [(hskeleton id).2.2.1, hpath]
        exact hwf.isOpen_iff id h
      children_eq := by
        intro id h
        rw [hlength] at h ⊢
        rw [(hskeleton id).2.2.2, hwf.children_eq id h]
        simp only [(hskeleton _).2.1] }

theorem closeInner (hwf : t.WellFormed) {n : Nat} (hproper : n < t.depth) :
    (t.closeInner n).WellFormed := by
  have hparent_eq (id : Nat) : ((t.closeInner n).scope id).parent = (t.scope id).parent :=
    part_scope_closeInner Scope.parent _ _ _ fun _ ↦ rfl
  exact
    { getLast? := by
        rw [openPath_closeInner, List.getLast?_drop, if_neg (by rw [depth] at hproper; omega)]
        exact hwf.getLast?
      chain := by
        rw [openPath_closeInner]
        exact (hwf.chain.drop n).imp fun id outer hparent ↦ (hparent_eq id).trans hparent
      lt_length := by
        intro id hmem
        rw [length_scopes_closeInner]
        exact hwf.lt_length id (List.mem_of_mem_drop hmem)
      parent_zero := (hparent_eq 0).trans hwf.parent_zero
      kind_zero := (part_scope_closeInner Scope.kind _ _ _ fun _ ↦ rfl).trans hwf.kind_zero
      parent_lt := by
        intro id h outer hparent
        rw [length_scopes_closeInner] at h
        rw [hparent_eq] at hparent
        exact hwf.parent_lt id h outer hparent
      isOpen_iff := by
        intro id h
        rw [length_scopes_closeInner] at h
        rw [scope_closeInner t n h, openPath_closeInner]
        -- no number stands both among the closed scopes and among those that stay open
        have hapart := List.disjoint_take_drop hwf.nodup (le_refl n)
        have heither := hwf.isOpen_iff id h
        rw [← List.take_append_drop n t.openPath, List.mem_append] at heither
        split
        · next hclosed => simpa [Scope.close] using hapart hclosed
        · next hstays => simpa [hstays] using heither
      children_eq := by
        intro id h
        rw [length_scopes_closeInner] at h ⊢
        have hchildren := part_scope_closeInner Scope.children t n id fun _ ↦ rfl
        rw [hchildren, hwf.children_eq id h]
        simp only [hparent_eq] }

theorem children_opened (hwf : t.WellFormed) (kind : ScopeKind) (name : Option String)
    (span : Span) {id : Nat} (h : id < t.scopes.length) :
    ((t.opened kind name span).scope id).children =
      (t.scope id).children ++ if t.current = id then [t.scopes.length] else [] := by
  rw [scope_opened_old t kind name span h, scope_modify t _ hwf.current_lt]
  by_cases hsame : id = t.current
  · simp [hsame]
  · simp [hsame, Ne.symm hsame]

theorem opened (hwf : t.WellFormed) (kind : ScopeKind) (name : Option String) (span : Span) :
    (t.opened kind name span).WellFormed := by
  have hparent_eq (id : Nat) (h : id < t.scopes.length) :=
    part_scope_opened Scope.parent t kind name span h fun _ _ ↦ rfl
  have hpositive : 0 < t.scopes.length := hwf.lt_length 0 hwf.zero_mem
  exact
    { getLast? := by
        rw [openPath_opened, List.getLast?_cons_of_ne_nil hwf.openPath_ne_nil]
        exact hwf.getLast?
      chain := by
        obtain ⟨rest, hpath⟩ := hwf.exists_cons
        have hinner : t.openPath.IsChain fun id outer ↦
            ((t.opened kind name span).scope id).parent = some outer :=
          hwf.chain.imp_of_mem_imp fun id outer hmem _ hparent ↦
            (hparent_eq id (hwf.lt_length id hmem)).trans hparent
        rw [openPath_opened, hpath, List.isChain_cons_cons, ← hpath, scope_opened_new]
        exact ⟨rfl, hinner⟩
      lt_length := by
        intro id hmem
        rw [length_scopes_opened]
        rcases List.mem_cons.mp hmem with rfl | hmem
        · exact Nat.lt_succ_self _
        · exact Nat.lt_succ_of_lt (hwf.lt_length id hmem)
      parent_zero := (hparent_eq 0 hpositive).trans hwf.parent_zero
      kind_zero :=
        (part_scope_opened Scope.kind t kind name span hpositive fun _ _ ↦ rfl).trans hwf.kind_zero
      parent_lt := by
        intro id h outer hparent
        rcases Nat.lt_succ_iff_lt_or_eq.mp (length_scopes_opened t kind name span ▸ h) with h | rfl
        · exact hwf.parent_lt id h outer (hparent_eq id h ▸ hparent)
        · rw [scope_opened_new] at hparent
          cases hparent
          exact hwf.current_lt
      isOpen_iff := by
        intro id h
        rw [openPath_opened, List.mem_cons]
        rcases Nat.lt_succ_iff_lt_or_eq.mp (length_scopes_opened t kind name span ▸ h) with h | rfl
        · rw [part_scope_opened Scope.isOpen t kind name span h fun _ _ ↦ rfl, hwf.isOpen_iff id h]
          exact ⟨.inr, fun hmem ↦ hmem.resolve_left (Nat.ne_of_lt h)⟩
        · rw [scope_opened_new]
          exact ⟨fun _ ↦ .inl rfl, fun _ ↦ rfl⟩
      children_eq := by
        intro id h
        rw [length_scopes_opened, List.range_succ, List.filter_append]
        have hold : ((List.range t.scopes.length).filter fun inner ↦
            decide (((t.opened kind name span).scope inner).parent = some id)) =
            (List.range t.scopes.length).filter fun inner ↦
              decide ((t.scope inner).parent = some id) := by
          refine List.filter_congr fun inner hmem ↦ ?_
          rw [hparent_eq inner (List.mem_range.mp hmem)]
        have hnew : ([t.scopes.length].filter fun inner ↦
            decide (((t.opened kind name span).scope inner).parent = some id)) =
            if t.current = id then [t.scopes.length] else [] := by
          simp [Scope.new, List.filter_cons]
        rw [hold, hnew]
        rcases Nat.lt_succ_iff_lt_or_eq.mp (length_scopes_opened t kind name span ▸ h) with h | rfl
        · rw [children_opened hwf kind name span h, hwf.children_eq id h]
        · -- nothing stands inside a scope that has just been opened
          have hnone : ((List.range t.scopes.length).filter fun inner ↦
              decide ((t.scope inner).parent = some t.scopes.length)) = [] := by
            refine List.filter_eq_nil_iff.mpr fun inner hmem ↦ ?_
            have hbound := List.mem_range.mp hmem
            intro hparent
            have := hwf.parent_lt inner hbound _ (of_decide_eq_true hparent)
            omega
          rw [scope_opened_new, hnone, if_neg (Nat.ne_of_lt hwf.current_lt)]
          rfl }

theorem step (hwf : t.WellFormed) (hstep : t.Step t') : t'.WellFormed := by
  cases hstep with
  | opened kind name span hnests => exact hwf.opened kind name span
  | closed n hproper => exact hwf.closeInner hproper
  | edited hedit => exact hwf.of_skeleton hedit.openPath_eq hedit.length_eq hedit.skeleton_eq

theorem run {t : ScopeTree} (hwf : t.WellFormed) (rs : List Request) : (t.run rs).WellFormed :=
  ScopeTree.run_induction (fun _ _ ↦ step) hwf rs

/-- What every step of a well-formed tree keeps, every run keeps. -/
theorem run_induction {P : ScopeTree → Prop}
    (hkeeps : ∀ t t', t.WellFormed → P t → t.Step t' → P t') {t : ScopeTree} (hwf : t.WellFormed)
    (hstart : P t) (rs : List Request) : P (t.run rs) := by
  refine (ScopeTree.run_induction (P := fun t ↦ t.WellFormed ∧ P t) ?_ ⟨hwf, hstart⟩ rs).2
  rintro t₁ t₂ ⟨hwf₁, hkept⟩ hstep
  exact ⟨hwf₁.step hstep, hkeeps t₁ t₂ hwf₁ hkept hstep⟩

end WellFormed

/-- The invariant holds of every tree that requests lead to. -/
theorem wellFormed_run (seed : Seed) (rs : List Request) :
    ((ScopeTree.new seed).run rs).WellFormed :=
  (wellFormed_new seed).run rs

theorem seed_run (t : ScopeTree) (rs : List Request) : (t.run rs).seed = t.seed :=
  run_induction (P := fun t' ↦ t'.seed = t.seed)
    (fun _ _ hkept hstep ↦ hstep.seed_eq.trans hkept) rfl rs

/-- A scope stays what it was opened as. -/
theorem origin_run {t : ScopeTree} {id : Nat} (h : id < t.scopes.length) (rs : List Request) :
    ((t.run rs).scope id).origin = (t.scope id).origin := by
  refine (run_induction (P := fun t' ↦ id < t'.scopes.length ∧
    (t'.scope id).origin = (t.scope id).origin) ?_ ⟨h, rfl⟩ rs).2
  rintro t₁ t₂ ⟨hbound, hkept⟩ hstep
  exact ⟨hbound.trans_le hstep.length_le, (hstep.origin_eq hbound).trans hkept⟩

theorem wellFormed_apply {t : ScopeTree} (hwf : t.WellFormed) (r : Request) :
    (t.apply r).WellFormed :=
  hwf.run [r]

/-- The handle of the innermost scope closes that scope alone. -/
theorem closeScope_innermost {t : ScopeTree} (hwf : t.WellFormed) (hinner : 1 < t.depth)
    (span : Span) :
    t.closeScope ⟨t.current, t.depth - 1⟩ span =
      .ok ((t.scope t.current).unresolved, t.closeInner 1) := by
  obtain ⟨rest, hpath⟩ := hwf.exists_cons
  have hlength : t.depth = rest.length + 1 := by rw [depth, hpath, List.length_cons]
  have hfound : t.openPath.reverse[t.depth - 1]? = some t.current := by
    rw [hlength, hpath, List.reverse_cons, Nat.add_sub_cancel, List.getElem?_append_right (by simp)]
    simp
  have haccepts : t.holds ⟨t.current, t.depth - 1⟩ = true := by
    rw [holds, hfound, decide_eq_true (show 0 < t.depth - 1 by omega)]
    simp
  rw [closeScope_eq, if_pos haccepts, show t.depth - (t.depth - 1) = 1 by omega, hpath]
  simp

/-! ## Lookup along the open path -/

/-- The way up from the head of a chain of parents is that chain, if the fuel exceeds the number of
its head: parents have smaller numbers. -/
theorem ancestors_eq_map {t : ScopeTree} (hzero : (t.scope 0).parent = none) {rest : List Nat} :
    ∀ {id fuel : Nat}, id < fuel → (id :: rest).getLast? = some 0 →
      (id :: rest).Pairwise (· > ·) →
      ((id :: rest).IsChain fun id outer ↦ (t.scope id).parent = some outer) →
      t.ancestors fuel id = (id :: rest).map t.scope := by
  induction rest with
  | nil =>
    intro id fuel hbound hlast _ _
    obtain ⟨fuel, rfl⟩ := Nat.exists_eq_succ_of_ne_zero (Nat.ne_of_gt (Nat.zero_lt_of_lt hbound))
    obtain rfl : id = 0 := by simpa using hlast
    rw [ancestors, hzero]
    rfl
  | cons outer rest ih =>
    intro id fuel hbound hlast hsmaller hchain
    obtain ⟨fuel, rfl⟩ := Nat.exists_eq_succ_of_ne_zero (Nat.ne_of_gt (Nat.zero_lt_of_lt hbound))
    rw [List.isChain_cons_cons] at hchain
    have hstep : outer < id := List.rel_of_pairwise_cons hsmaller List.mem_cons_self
    rw [List.getLast?_cons_cons] at hlast
    rw [ancestors, hchain.1, List.map_cons,
      ← @ih outer fuel (by omega) hlast hsmaller.of_cons hchain.2]

theorem enclosing_eq_map {t : ScopeTree} (hwf : t.WellFormed) :
    t.enclosing = t.openPath.map t.scope := by
  obtain ⟨rest, hpath⟩ := hwf.exists_cons
  have hlast := hwf.getLast?
  have hsmaller := hwf.pairwise
  have hchain := hwf.chain
  rw [hpath] at hlast hsmaller hchain ⊢
  exact ancestors_eq_map hwf.parent_zero hwf.current_lt hlast hsmaller hchain

/-- **Lookup searches the open path**, innermost scope first, and then the seed. -/
theorem lookup?_eq_findSome? {t : ScopeTree} (hwf : t.WellFormed) (name : String) :
    t.lookup? name =
      (t.openPath.findSome? fun id ↦ (t.scope id).bindings.get? name).or (t.seed.get? name) := by
  rw [lookup?, enclosing_eq_map hwf, List.findSome?_map]
  rfl

end ScopeTree

end DeclAnalysis
