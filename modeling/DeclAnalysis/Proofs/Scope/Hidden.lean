import DeclAnalysis.Proofs.Scope.OpenPath
import Mathlib.Data.List.Find

/-!
# Scopes that nothing can see

Closed scopes stay in a tree, with their numbers, their bindings and their place among the children
of the scope around them. A closed function is out of reach all the same: it is not on the open
path, so lookup does not meet it, and a qualified name does not lead into a function, nor through it
into the classes that stand there.

`Hides n k t t'` says that `t'` is the tree `t` with `k` more scopes, which are numbered from `n` on
and stand inside the function with the number `n`. The two trees number their other scopes
differently, by `shift`, but every operation gives the same answer on both and keeps them together.
-/

namespace DeclAnalysis

/-- A scope out of its place in the tree. -/
def Scope.content (s : Scope) : Scope := { s with parent := none, children := [], isOpen := false }

/-- Two results that agree: the same error, or values that are related. -/
inductive SameVerdict {α β : Type} (R : α → β → Prop) : Except Error α → Except Error β → Prop
  | error (e : Error) : SameVerdict R (.error e) (.error e)
  | ok {a : α} {b : β} (related : R a b) : SameVerdict R (.ok a) (.ok b)

namespace ScopeTree

/-! ## Numbers -/

/-- The number of a scope once `k` scopes have come in front of the one with the number `n`. -/
def shift (n k id : Nat) : Nat := if id < n then id else id + k

section Shift

variable {n k : Nat}

theorem shift_of_lt {id : Nat} (h : id < n) : shift n k id = id := if_pos h

private theorem shift_of_le {id : Nat} (h : n ≤ id) :
    shift n k id = id + k := if_neg (Nat.not_lt.mpr h)

private theorem shift_injective : Function.Injective (shift n k) := by
  intro a b h
  simp only [shift] at h
  split at h <;> split at h <;> omega

private theorem shift_ne (hk : 0 < k) (id : Nat) : shift n k id ≠ n := by
  rw [shift]
  split <;> omega

private theorem shift_lt {id length : Nat} (h : id < length) : shift n k id < length + k := by
  rw [shift]
  split <;> omega

theorem map_shift_of_lt {ids : List Nat} (h : ∀ id ∈ ids, id < n) : ids.map (shift n k) = ids :=
  (List.map_congr_left fun id hid ↦ shift_of_lt (h id hid)).trans (List.map_id' ids)

end Shift

/-! ## The relation -/

/-- The second tree is the first one with `k` more scopes, numbered from `n` on, that are all inside
a function that is not open. -/
structure Hides (n k : Nat) (t t' : ScopeTree) : Prop where
  wf : t.WellFormed
  wf' : t'.WellFormed
  /-- The global scope is in both trees. -/
  first_pos : 0 < n
  count_pos : 0 < k
  first_le : n ≤ t.scopes.length
  seed : t'.seed = t.seed
  length : t'.scopes.length = t.scopes.length + k
  openPath : t'.openPath = t.openPath.map (shift n k)
  content : ∀ id < t.scopes.length, (t'.scope (shift n k id)).content = (t.scope id).content
  /-- Of the scopes that are not in the first tree, only the function stands directly inside one
  that is. -/
  children : ∀ id < t.scopes.length,
    (t'.scope (shift n k id)).children.filter (· ≠ n) = (t.scope id).children.map (shift n k)
  hidden : (t'.scope n).kind = .functionBody

namespace Hides

variable {n k : Nat} {t t' : ScopeTree}

/-- What does not depend on the place of a scope is the same in both trees. -/
theorem part_eq (h : Hides n k t t') {β : Type} (part : Scope → β) {id : Nat}
    (hid : id < t.scopes.length) (hpart : ∀ s, part s.content = part s) :
    part (t'.scope (shift n k id)) = part (t.scope id) := by
  rw [← hpart, h.content id hid, hpart]

theorem current (h : Hides n k t t') : t'.current = shift n k t.current := by
  obtain ⟨rest, hpath⟩ := h.wf.exists_cons
  rw [ScopeTree.current, h.openPath, hpath]
  rfl

theorem depth (h : Hides n k t t') : t'.depth = t.depth := by
  rw [ScopeTree.depth, h.openPath, List.length_map, ScopeTree.depth]

theorem bindings (h : Hides n k t t') {id : Nat} (hid : id < t.scopes.length) :
    (t'.scope (shift n k id)).bindings = (t.scope id).bindings :=
  h.part_eq Scope.bindings hid fun _ ↦ rfl

theorem currentKind (h : Hides n k t t') : t'.currentKind = t.currentKind := by
  rw [ScopeTree.currentKind, currentScope, h.current]
  exact h.part_eq Scope.kind h.wf.current_lt fun _ ↦ rfl

/-! ## Questions -/

private theorem findSome?_bindings (h : Hides n k t t') (name : String) {ids : List Nat}
    (hids : ∀ id ∈ ids, id < t.scopes.length) :
    (ids.map (shift n k)).findSome? (fun id ↦ (t'.scope id).bindings.get? name) =
      ids.findSome? fun id ↦ (t.scope id).bindings.get? name := by
  rw [List.findSome?_map, ← List.head?_filterMap, ← List.head?_filterMap]
  refine congrArg List.head? (List.filterMap_congr fun id hmem ↦ ?_)
  rw [Function.comp_apply, h.bindings (hids id hmem)]

/-- Lookup does not meet the function, because it is not on the open path. -/
theorem lookup? (h : Hides n k t t') (name : String) : t'.lookup? name = t.lookup? name := by
  rw [lookup?_eq_findSome? h.wf, lookup?_eq_findSome? h.wf', h.openPath, h.seed,
    h.findSome?_bindings name h.wf.lt_length]

/-- A segment of a qualified name does not lead into the function. -/
theorem descend (h : Hides n k t t') {ids : List Nat} (hids : ∀ id ∈ ids, id < t.scopes.length)
    (segment : String) :
    t'.descend (ids.map (shift n k)) segment = (t.descend ids segment).map (shift n k) ∧
      ∀ id ∈ t.descend ids segment, id < t.scopes.length := by
  have hinner : ∀ id ∈ ids.flatMap fun id ↦ (t.scope id).children, id < t.scopes.length := by
    intro inner hmem
    obtain ⟨id, hid, hmem⟩ := List.mem_flatMap.mp hmem
    exact (h.wf.lt_of_mem_children (hids id hid) hmem).2
  have hfunction : (t'.scope n).answersTo segment = false := by
    rw [Scope.answersTo, h.hidden]
    exact Bool.and_false _
  -- the function can be taken out of the candidates before they are asked
  have hasked (candidates : List Nat) :
      candidates.filter (fun id ↦ (t'.scope id).answersTo segment) =
        (candidates.filter (· ≠ n)).filter fun id ↦ (t'.scope id).answersTo segment := by
    rw [List.filter_filter]
    refine List.filter_congr fun id _ ↦ ?_
    by_cases hid : id = n
    · simp [hid, hfunction]
    · simp [hid]
  have hcandidates : ((ids.map (shift n k)).flatMap fun id ↦ (t'.scope id).children).filter
      (· ≠ n) = (ids.flatMap fun id ↦ (t.scope id).children).map (shift n k) := by
    rw [List.flatMap_map, List.filter_flatMap, List.map_flatMap]
    exact List.flatMap_congr fun id hid ↦ h.children id (hids id hid)
  constructor
  · rw [ScopeTree.descend, ScopeTree.descend, hasked, hcandidates, List.filter_map]
    refine congrArg _ (List.filter_congr fun id hmem ↦ ?_)
    exact h.part_eq (·.answersTo segment) (hinner id hmem) fun _ ↦ rfl
  · intro id hmem
    exact hinner id (List.mem_of_mem_filter hmem)

theorem lookupQualified? (h : Hides n k t t') (path : List String) (name : String) :
    t'.lookupQualified? path name = t.lookupQualified? path name := by
  have hpath (ids : List Nat) (hids : ∀ id ∈ ids, id < t.scopes.length) :
      path.foldl t'.descend (ids.map (shift n k)) =
          (path.foldl t.descend ids).map (shift n k) ∧
        ∀ id ∈ path.foldl t.descend ids, id < t.scopes.length := by
    induction path generalizing ids with
    | nil => exact ⟨rfl, hids⟩
    | cons segment rest ih =>
      obtain ⟨hdescend, hlt⟩ := h.descend hids segment
      rw [List.foldl_cons, List.foldl_cons, hdescend]
      exact ih _ hlt
  have hroot : ∀ id ∈ [0], id < t.scopes.length := by
    intro id hid
    rw [List.mem_singleton.mp hid]
    exact Nat.lt_of_lt_of_le h.first_pos h.first_le
  obtain ⟨hfold, hlt⟩ := hpath [0] hroot
  rw [List.map_singleton, shift_of_lt h.first_pos] at hfold
  rw [ScopeTree.lookupQualified?, ScopeTree.lookupQualified?, hfold,
    h.findSome?_bindings name hlt, h.seed]

theorem assign (h : Hides n k t t') (name : String) (span : Span) :
    t'.assign name span = t.assign name span := by
  rw [ScopeTree.assign, ScopeTree.assign, h.lookup?]

theorem function? (h : Hides n k t t') : t'.function? = t.function?.map (shift n k) := by
  rw [ScopeTree.function?, ScopeTree.function?, h.openPath, List.find?_map]
  refine congrArg _ (List.find?_congr fun id hmem ↦ ?_)
  rw [Function.comp_apply, h.part_eq Scope.kind (h.wf.lt_length id hmem) fun _ ↦ rfl]

theorem exports (h : Hides n k t t') : t'.exports = t.exports := by
  have hzero := h.bindings (Nat.lt_of_lt_of_le h.first_pos h.first_le)
  rw [shift_of_lt h.first_pos] at hzero
  rw [ScopeTree.exports, ScopeTree.exports, hzero]

/-! ## Changes -/

theorem modify (h : Hides n k t t') {id : Nat} (hid : id < t.scopes.length) {f : Scope → Scope}
    (hcontent : ∀ s, (f s).content = f s.content) (hskeleton : ∀ s, (f s).skeleton = s.skeleton) :
    Hides n k (t.modify id f) (t'.modify (shift n k id) f) := by
  have hid' : shift n k id < t'.scopes.length := by
    rw [h.length]
    exact shift_lt hid
  have hchildren (s : Scope) : (f s).children = s.children := congrArg (·.2.2.2) (hskeleton s)
  exact
    { wf := h.wf.of_skeleton rfl (length_scopes_modify ..) fun other ↦
        part_scope_modify Scope.skeleton _ _ _ hskeleton
      wf' := h.wf'.of_skeleton rfl (length_scopes_modify ..) fun other ↦
        part_scope_modify Scope.skeleton _ _ _ hskeleton
      first_pos := h.first_pos
      count_pos := h.count_pos
      first_le := by rw [length_scopes_modify]; exact h.first_le
      seed := h.seed
      length := by rw [length_scopes_modify, length_scopes_modify, h.length]
      openPath := h.openPath
      content := by
        intro other hother
        rw [length_scopes_modify] at hother
        rw [scope_modify t f hid, scope_modify t' f hid']
        simp only [shift_injective.eq_iff]
        split
        · rw [hcontent, hcontent, h.content id hid]
        · exact h.content other hother
      children := by
        intro other hother
        rw [length_scopes_modify] at hother
        rw [part_scope_modify Scope.children _ _ _ hchildren,
          part_scope_modify Scope.children _ _ _ hchildren]
        exact h.children other hother
      hidden := by
        rw [scope_modify_of_ne t' f (shift_ne h.count_pos id).symm]
        exact h.hidden }

theorem opened (h : Hides n k t t') (kind : ScopeKind) (name : Option String) (span : Span) :
    Hides n k (t.opened kind name span) (t'.opened kind name span) := by
  -- the new scope is numbered behind the hidden ones
  have hnew : t'.scopes.length = shift n k t.scopes.length := by
    rw [h.length, shift_of_le h.first_le]
  have hlt {id : Nat} (hid : id < t.scopes.length) : shift n k id < t'.scopes.length := by
    rw [h.length]
    exact shift_lt hid
  exact
    { wf := h.wf.opened kind name span
      wf' := h.wf'.opened kind name span
      first_pos := h.first_pos
      count_pos := h.count_pos
      first_le := by rw [length_scopes_opened]; exact Nat.le_succ_of_le h.first_le
      seed := h.seed
      length := by rw [length_scopes_opened, length_scopes_opened, h.length, Nat.add_right_comm]
      openPath := by rw [openPath_opened, openPath_opened, List.map_cons, hnew, h.openPath]
      content := by
        intro id hid
        rcases Nat.lt_succ_iff_lt_or_eq.mp (length_scopes_opened t kind name span ▸ hid) with
          hid | rfl
        · rw [part_scope_opened Scope.content t kind name span hid fun _ _ ↦ rfl,
            part_scope_opened Scope.content t' kind name span (hlt hid) fun _ _ ↦ rfl]
          exact h.content id hid
        · rw [← hnew, scope_opened_new, scope_opened_new]
          rfl
      children := by
        intro id hid
        rcases Nat.lt_succ_iff_lt_or_eq.mp (length_scopes_opened t kind name span ▸ hid) with
          hid | rfl
        · rw [h.wf.children_opened kind name span hid,
            h.wf'.children_opened kind name span (hlt hid), List.filter_append, List.map_append,
            h.children id hid, h.current, hnew]
          simp only [shift_injective.eq_iff]
          split
          · simp [shift_ne h.count_pos]
          · rfl
        · rw [← hnew, scope_opened_new, scope_opened_new]
          rfl
      hidden := by
        have hn : n < t'.scopes.length := by
          have := h.first_le
          have := h.count_pos
          rw [h.length]
          omega
        rw [part_scope_opened Scope.kind t' kind name span hn fun _ _ ↦ rfl]
        exact h.hidden }

theorem closeInner (h : Hides n k t t') {m : Nat} (hm : m < t.depth) :
    Hides n k (t.closeInner m) (t'.closeInner m) where
  wf := h.wf.closeInner hm
  wf' := h.wf'.closeInner (by rw [h.depth]; exact hm)
  first_pos := h.first_pos
  count_pos := h.count_pos
  first_le := by rw [length_scopes_closeInner]; exact h.first_le
  seed := h.seed
  length := by rw [length_scopes_closeInner, length_scopes_closeInner, h.length]
  openPath := by rw [openPath_closeInner, openPath_closeInner, h.openPath, List.map_drop]
  content := by
    intro id hid
    rw [length_scopes_closeInner] at hid
    have hid' : shift n k id < t'.scopes.length := by
      rw [h.length]
      exact shift_lt hid
    have hcontent := h.content id hid
    rw [scope_closeInner t m hid, scope_closeInner t' m hid', h.openPath, ← List.map_take]
    simp only [List.mem_map_of_injective shift_injective]
    split
    · exact congrArg (fun s ↦ s.close.content) hcontent
    · exact hcontent
  children := by
    intro id hid
    rw [length_scopes_closeInner] at hid
    rw [part_scope_closeInner Scope.children _ _ _ fun _ ↦ rfl,
      part_scope_closeInner Scope.children _ _ _ fun _ ↦ rfl]
    exact h.children id hid
  hidden := by
    rw [part_scope_closeInner Scope.kind _ _ _ fun _ ↦ rfl]
    exact h.hidden

/-! ## Operations -/

theorem openScope (h : Hides n k t t') (kind : ScopeKind) (name : Option String) (span : Span) :
    SameVerdict (fun a b ↦ Hides n k a.2 b.2) (t.openScope kind name span)
      (t'.openScope kind name span) := by
  rw [openScope_eq, openScope_eq, h.currentKind]
  split
  · exact .ok (h.opened kind name span)
  · exact .error _

theorem declare (h : Hides n k t t') (d : Declaration) :
    SameVerdict (fun a b ↦ Hides n k a.2 b.2) (t.declare d) (t'.declare d) := by
  have hseed : t'.seedClash? d = t.seedClash? d := by
    rw [seedClash?, seedClash?, h.currentKind, h.seed]
  have hbindings : t'.currentScope.bindings = t.currentScope.bindings := by
    rw [currentScope, h.current, h.bindings h.wf.current_lt, currentScope]
  rw [ScopeTree.declare, ScopeTree.declare, hseed, hbindings, h.currentKind, h.current]
  split
  · exact .error _
  · split
    · exact .error _
    · exact .ok (h.modify h.wf.current_lt (fun _ ↦ rfl) fun _ ↦ rfl)

private theorem function?_lt (h : Hides n k t t') {id : Nat} (hid : t.function? = some id) :
    id < t.scopes.length := h.wf.lt_length id (List.mem_of_find?_eq_some hid)

theorem defineLabel (h : Hides n k t t') (name : String) (span : Span) :
    SameVerdict (Hides n k) (t.defineLabel name span) (t'.defineLabel name span) := by
  rw [ScopeTree.defineLabel, ScopeTree.defineLabel, h.function?]
  cases hfunction : t.function? with
  | none => exact .error _
  | some id =>
    have hid := h.function?_lt hfunction
    rw [Option.map_some]
    dsimp only
    rw [h.part_eq (·.label? name) hid fun _ ↦ rfl]
    split
    · exact .error _
    · exact .ok (h.modify hid (fun _ ↦ rfl) fun _ ↦ rfl)

theorem jumpTo (h : Hides n k t t') (name : String) (span : Span) :
    SameVerdict (Hides n k) (t.jumpTo name span) (t'.jumpTo name span) := by
  rw [ScopeTree.jumpTo, ScopeTree.jumpTo, h.function?]
  cases hfunction : t.function? with
  | none => exact .error _
  | some id =>
    have hid := h.function?_lt hfunction
    rw [Option.map_some]
    dsimp only
    rw [h.part_eq (·.label? name) hid fun _ ↦ rfl]
    split
    · exact .ok h
    · exact .ok (h.modify hid (fun _ ↦ rfl) fun _ ↦ rfl)

end Hides

end ScopeTree

end DeclAnalysis
