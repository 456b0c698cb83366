import DeclAnalysis.Proofs.Scope.DepthFirst
import Mathlib.Order.Bounds.Basic

/-!
# Qualified names

A qualified name is followed one segment at a time. At each segment the search holds all scopes that
lie at the path so far, and goes on to those directly inside them that bear the next name. A
namespace may be opened again, so there can be several, and of those that bind the name the first
one counts.

The search puts the children of one scope in front of those of the next. That they are in the order
of their numbers then is nothing that one segment could show: it takes that a scope is closed before
the next one at its depth is opened, so that nothing stands inside the first that was opened after
the second (`LiesAt.length_lt`). So the first scope that the search meets is the one that was opened
first.
-/

namespace DeclAnalysis

private theorem Scope.answersTo_iff {s : Scope} {segment : String} :
    s.answersTo segment = true ↔
      s.name = some segment ∧ (s.kind = .namespaceBody ∨ s.kind = .classBody) := by
  rw [answersTo, Bool.and_eq_true, decide_eq_true_eq]
  cases s.kind <;> simp [ScopeKind.isQualifier]

namespace ScopeTree

variable {t : ScopeTree}

/-! ## Where a path leads -/

/-- A scope lies at a path if the scopes around it, from the global one inwards, and the scope
itself are namespaces and classes with the names of the path. Whether they are open does not matter.
-/
inductive LiesAt (t : ScopeTree) : List String → Nat → Prop
  | global : LiesAt t [] 0
  | inside {path : List String} {outer id : Nat} {segment : String} (houter : LiesAt t path outer)
      (hparent : (t.scope id).parent = some outer) (hname : (t.scope id).name = some segment)
      (hkind : (t.scope id).kind = .namespaceBody ∨ (t.scope id).kind = .classBody) :
      LiesAt t (path ++ [segment]) id

private theorem liesAt_nil_iff {id : Nat} : t.LiesAt [] id ↔ id = 0 := by
  constructor
  · generalize hpath : ([] : List String) = path
    rintro (- | -)
    · rfl
    · exact absurd hpath (by simp)
  · rintro rfl
    exact .global

private theorem liesAt_concat_iff {path : List String} {segment : String} {id : Nat} :
    t.LiesAt (path ++ [segment]) id ↔ ∃ outer, t.LiesAt path outer ∧
      (t.scope id).parent = some outer ∧ (t.scope id).name = some segment ∧
      ((t.scope id).kind = .namespaceBody ∨ (t.scope id).kind = .classBody) := by
  constructor
  · generalize hwhole : path ++ [segment] = whole
    rintro (- | ⟨houter, hparent, hname, hkind⟩)
    · exact absurd hwhole (by simp)
    · obtain ⟨rfl, hsegment⟩ := List.append_inj' hwhole rfl
      obtain rfl := List.singleton_inj.mp hsegment
      exact ⟨_, houter, hparent, hname, hkind⟩
  · rintro ⟨outer, houter, hparent, hname, hkind⟩
    exact .inside houter hparent hname hkind

namespace LiesAt

variable {path path' : List String} {id outer : Nat}

theorem lt_length (hwf : t.WellFormed) (hlies : t.LiesAt path id) : id < t.scopes.length := by
  rcases hlies with - | ⟨-, hparent, -, -⟩
  · exact hwf.lt_length 0 hwf.zero_mem
  · exact lt_length_of_parent hparent

private theorem exists_outer (hwf : t.WellFormed) (hlies : t.LiesAt path id)
    (hparent : (t.scope id).parent = some outer) :
    ∃ front segment, path = front ++ [segment] ∧ t.LiesAt front outer := by
  rcases hlies with - | ⟨houter, hparent', -, -⟩
  · exact absurd (hwf.parent_zero.symm.trans hparent) nofun
  · obtain rfl := Option.some.inj (hparent'.symm.trans hparent)
    exact ⟨_, _, rfl, houter⟩

theorem length_eq (hwf : t.WellFormed) (hlies : t.LiesAt path id) (hlies' : t.LiesAt path' id) :
    path.length = path'.length := by
  induction hlies generalizing path' with
  | global =>
    rcases hlies' with - | ⟨-, hparent, -, -⟩
    · rfl
    · exact absurd (hwf.parent_zero.symm.trans hparent) nofun
  | inside houter hparent hname hkind ih =>
    obtain ⟨front, segment, rfl, hfront⟩ := hlies'.exists_outer hwf hparent
    rw [List.length_append, List.length_append, ih hfront]
    rfl

/-- **What stands inside a scope was opened before the next scope at its depth.** A scope that was
opened after a scope, but not after one directly inside that, lies deeper. -/
theorem length_lt (hwf : t.WellFormed) (hfirst : t.DepthFirst) {inner other : Nat}
    (hlies : t.LiesAt path outer) (hparent : (t.scope inner).parent = some outer)
    (hother : t.LiesAt path' other) (hbehind : outer < other) (hle : other ≤ inner) :
    path.length < path'.length := by
  induction hother with
  | global => exact absurd hbehind (Nat.not_lt_zero _)
  | @inside front around other segment haround hother hname hkind ih =>
    -- the scope around the other one is the first scope, or was opened after it as well
    have hwithin : outer ≤ around := by
      rcases Nat.lt_or_eq_of_le hle with hlt | rfl
      · obtain ⟨parent, hparent', hwithin⟩ := hfirst.encloses_of_parent inner
          (lt_length_of_parent hparent) outer hparent other hbehind hlt
        rwa [Option.some.inj (hparent'.symm.trans hother)] at hwithin
      · exact (Option.some.inj (hparent.symm.trans hother)).le
    rw [List.length_append, List.length_singleton]
    rcases Nat.lt_or_eq_of_le hwithin with hlt | rfl
    · have hcloser := hwf.parent_lt other (lt_length_of_parent hother) around hother
      exact Nat.lt_succ_of_lt (ih hlt (by omega))
    · rw [hlies.length_eq hwf haround]
      exact Nat.lt_succ_self _

end LiesAt

/-! ## The search -/

private theorem mem_descend_iff (hwf : t.WellFormed) {ids : List Nat}
    (hids : ∀ id ∈ ids, id < t.scopes.length) {segment : String} {id : Nat} :
    id ∈ t.descend ids segment ↔ ∃ outer, outer ∈ ids ∧ (t.scope id).parent = some outer ∧
      (t.scope id).name = some segment ∧
      ((t.scope id).kind = .namespaceBody ∨ (t.scope id).kind = .classBody) := by
  rw [descend, List.mem_filter, List.mem_flatMap, Scope.answersTo_iff]
  constructor
  · rintro ⟨⟨outer, hmem, hchild⟩, hanswers⟩
    exact ⟨outer, hmem, ((mem_children_iff hwf (hids outer hmem)).mp hchild).2, hanswers⟩
  · rintro ⟨outer, hmem, hparent, hanswers⟩
    exact ⟨⟨outer, hmem, (mem_children_iff hwf (hids outer hmem)).mpr
      ⟨lt_length_of_parent hparent, hparent⟩⟩, hanswers⟩

/-- **The search holds the scopes that lie at the path.** -/
theorem mem_foldl_descend_iff (hwf : t.WellFormed) {path : List String} {id : Nat} :
    id ∈ path.foldl t.descend [0] ↔ t.LiesAt path id := by
  induction path using List.reverseRecOn generalizing id with
  | nil => rw [List.foldl_nil, List.mem_singleton, liesAt_nil_iff]
  | append_singleton path segment ih =>
    rw [List.foldl_append, List.foldl_cons, List.foldl_nil,
      mem_descend_iff hwf fun outer hmem ↦ (ih.mp hmem).lt_length hwf, liesAt_concat_iff]
    simp only [ih]

/-- **The search holds its scopes in the order in which they were opened.** -/
theorem pairwise_foldl_descend (hwf : t.WellFormed) (hfirst : t.DepthFirst) (path : List String) :
    (path.foldl t.descend [0]).Pairwise (· < ·) := by
  induction path using List.reverseRecOn with
  | nil => exact List.pairwise_singleton _ _
  | append_singleton path segment ih =>
    have hlies {id : Nat} (hmem : id ∈ path.foldl t.descend [0]) : t.LiesAt path id :=
      (mem_foldl_descend_iff hwf).mp hmem
    rw [List.foldl_append, List.foldl_cons, List.foldl_nil, descend]
    refine List.Pairwise.filter _ (List.pairwise_flatMap.mpr ⟨?_, ?_⟩)
    · intro id hmem
      rw [hwf.children_eq id ((hlies hmem).lt_length hwf)]
      exact List.pairwise_lt_range.filter _
    · refine ih.imp_of_mem fun {outer next} houter hnext hlt x hx y hy ↦ ?_
      rw [mem_children_iff hwf ((hlies houter).lt_length hwf)] at hx
      have hbehind := (hwf.lt_of_mem_children ((hlies hnext).lt_length hwf) hy).1
      have hbefore : x < next := by
        by_contra hle
        exact Nat.lt_irrefl _
          ((hlies houter).length_lt hwf hfirst hx.2 (hlies hnext) hlt (Nat.not_lt.mp hle))
      exact hbefore.trans hbehind

private theorem findSome?_eq_some_iff_isLeast {α : Type} {ids : List Nat}
    (hsorted : ids.Pairwise (· < ·)) {f : Nat → Option α} {a : α} :
    ids.findSome? f = some a ↔ ∃ id, IsLeast {id | id ∈ ids ∧ f id ≠ none} id ∧ f id = some a := by
  rw [List.findSome?_eq_some_iff]
  constructor
  · rintro ⟨front, id, back, rfl, hfound, hnone⟩
    refine ⟨id, ⟨⟨by simp, by simp [hfound]⟩, fun other hother ↦ ?_⟩, hfound⟩
    obtain ⟨-, hback, -⟩ := List.pairwise_append.mp hsorted
    rcases List.mem_append.mp hother.1 with hmem | hmem
    · exact absurd (hnone other hmem) hother.2
    · rcases List.mem_cons.mp hmem with rfl | hmem
      · exact le_rfl
      · exact (List.rel_of_pairwise_cons hback hmem).le
  · rintro ⟨id, ⟨⟨hmem, -⟩, hleast⟩, hfound⟩
    obtain ⟨front, back, rfl⟩ := List.append_of_mem hmem
    refine ⟨front, id, back, rfl, hfound, fun other hother ↦ ?_⟩
    by_contra hbinds
    have hle : id ≤ other := hleast ⟨List.mem_append_left _ hother, hbinds⟩
    have hlt : other < id := (List.pairwise_append.mp hsorted).2.2 other hother id (by simp)
    omega

/-! ## The main result -/

/-- **A qualified name refers to the first scope at its path that binds the name.** After any
requests to a new tree, accepted or refused, a name with a path is looked up in the scopes, open or
closed, that lie at the path; of those that bind it the one with the least number counts, and
without one there is nothing to find. A name with an empty path is one of the global scope, or else
of the seed. -/
theorem lookupQualified?_first_at_path (seed : Seed) (rs : List Request) (name : String) :
    let t := (ScopeTree.new seed).run rs
    (∀ path, path ≠ [] →
      (∀ d, t.lookupQualified? path name = some d ↔
        ∃ id, IsLeast {id | t.LiesAt path id ∧ (t.scope id).bindings.get? name ≠ none} id ∧
          (t.scope id).bindings.get? name = some d) ∧
      (t.lookupQualified? path name = none ↔
        ∀ id, t.LiesAt path id → (t.scope id).bindings.get? name = none)) ∧
    t.lookupQualified? [] name = ((t.scope 0).bindings.get? name).or (seed.get? name) := by
  intro t
  have hwf : t.WellFormed := wellFormed_run seed rs
  have hfirst : t.DepthFirst := depthFirst_run seed rs
  refine ⟨fun path hpath ↦ ?_, ?_⟩
  · have hsearch : t.lookupQualified? path name =
        (path.foldl t.descend [0]).findSome? fun id ↦ (t.scope id).bindings.get? name :=
      if_neg (by rwa [List.isEmpty_iff])
    rw [hsearch]
    refine ⟨fun d ↦ ?_, ?_⟩
    · rw [findSome?_eq_some_iff_isLeast (pairwise_foldl_descend hwf hfirst path)]
      simp only [mem_foldl_descend_iff hwf]
    · rw [List.findSome?_eq_none_iff]
      simp only [mem_foldl_descend_iff hwf]
  · rw [lookupQualified?, List.isEmpty_nil, if_pos rfl, seed_run, List.foldl_nil,
      List.findSome?_singleton]
    rfl

/-- A class `a::b` that is closed and one that is open, in two openings of the namespace `a`. Both
declare `x`, in two places. -/
def reopenedNamespace : List Request :=
  let x (place : Span) : Declaration :=
    ⟨"x", .int, .static, .everywhere, false, true, none, none, place⟩
  [.openScope .namespaceBody (some "a") ⟨0, 1⟩, .openScope .classBody (some "b") ⟨1, 2⟩,
    .declare (x ⟨2, 3⟩), .closeScope ⟨1, 1⟩ ⟨3, 4⟩, .openScope .namespaceBody (some "a") ⟨4, 5⟩,
    .openScope .classBody (some "b") ⟨5, 6⟩, .declare (x ⟨6, 7⟩)]

/-- The name without a path refers to the open class, the name with the path to the closed one. -/
theorem lookupQualified?_first_at_reopenedNamespace :
    let t := (ScopeTree.new .empty).run reopenedNamespace
    ((t.lookup? "x").map (·.span) = some ⟨6, 7⟩ ∧ ["a", "b"] ≠ []) ∧
    ∃ d, t.lookupQualified? ["a", "b"] "x" = some d ∧ d.span = ⟨2, 3⟩ ∧
      ∃ id, IsLeast {id | t.LiesAt ["a", "b"] id ∧ (t.scope id).bindings.get? "x" ≠ none} id ∧
        (t.scope id).bindings.get? "x" = some d := by
  intro t
  have hpath : ["a", "b"] ≠ [] := by decide
  obtain ⟨hfound, -⟩ := (lookupQualified?_first_at_path .empty reopenedNamespace "x").1 _ hpath
  exact ⟨⟨by decide, hpath⟩, _, rfl, rfl, (hfound _).mp rfl⟩

end ScopeTree

end DeclAnalysis
