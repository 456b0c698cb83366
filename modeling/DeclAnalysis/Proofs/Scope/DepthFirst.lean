import DeclAnalysis.Proofs.Scope.History
import DeclAnalysis.Proofs.Scope.Listing
import Mathlib.Data.List.Sort

/-!
# Scopes are numbered depth first

A scope is always opened inside the current one, and a closed scope is never opened again. So the
numbers of the scopes, which tell when a scope was opened, also tell where it stands: the scopes
inside a scope are numbered behind it without a gap, up to the first scope outside it.

`DepthFirst` says this with the parents alone. While a scope is open, whatever was opened after it
stands inside it; and the same was true at the moment when a scope directly inside it was opened.
From this it follows that the listing, which goes down the lists of children, meets the scopes in
the order of their numbers and misses none (`subtree_zero`).
-/

namespace DeclAnalysis

namespace ScopeTree

variable {t t' : ScopeTree}

/-! ## What was opened later stands inside -/

/-- The scopes numbered behind a scope, up to a limit, stand inside it: each has as its parent the
scope itself or one that is numbered behind it as well. -/
def Encloses (t : ScopeTree) (outer limit : Nat) : Prop :=
  ∀ id, outer < id → id < limit → ∃ parent, (t.scope id).parent = some parent ∧ outer ≤ parent

/-- The scopes are numbered depth first. -/
structure DepthFirst (t : ScopeTree) : Prop where
  /-- Every scope but the global one was opened where its kind may stand. -/
  nests : ∀ id < t.scopes.length, id ≠ 0 → ∃ outer, (t.scope id).parent = some outer ∧
    (t.scope id).kind.nestsIn (t.scope outer).kind = true
  /-- What was opened after a scope that is still open stands inside it. -/
  encloses_of_mem : ∀ outer ∈ t.openPath, t.Encloses outer t.scopes.length
  /-- What was opened between a scope and one directly inside it stands inside it, too. -/
  encloses_of_parent : ∀ id < t.scopes.length, ∀ outer,
    (t.scope id).parent = some outer → t.Encloses outer id

private theorem depthFirst_new (seed : Seed) : (ScopeTree.new seed).DepthFirst where
  nests := by
    intro id hid hne
    exact absurd (by simpa [new] using hid) hne
  encloses_of_mem := by
    intro outer _ id hlt hid
    simp only [new, List.length_singleton] at hid
    omega
  encloses_of_parent := by
    intro id hid outer _ inner hlt hinner
    simp only [new, List.length_singleton] at hid
    omega

theorem Encloses.step {outer limit : Nat} (hencloses : t.Encloses outer limit)
    (hlimit : limit ≤ t.scopes.length) (hstep : t.Step t') : t'.Encloses outer limit := by
  intro id hlt hid
  obtain ⟨parent, hparent, hle⟩ := hencloses id hlt hid
  have horigin := hstep.origin_eq (show id < t.scopes.length by omega)
  simp only [Scope.origin, Prod.mk.injEq] at horigin
  exact ⟨parent, horigin.2.2.1.trans hparent, hle⟩

namespace DepthFirst

private theorem nests_step (hwf : t.WellFormed) (hfirst : t.DepthFirst) (hstep : t.Step t')
    {id : Nat}
    (hid : id < t.scopes.length) (hne : id ≠ 0) : ∃ outer, (t'.scope id).parent = some outer ∧
      (t'.scope id).kind.nestsIn (t'.scope outer).kind = true := by
  obtain ⟨outer, hparent, hnests⟩ := hfirst.nests id hid hne
  have houter := hwf.parent_lt id hid outer hparent
  have hinner := hstep.origin_eq hid
  have hkind := hstep.origin_eq (show outer < t.scopes.length by omega)
  simp only [Scope.origin, Prod.mk.injEq] at hinner hkind
  exact ⟨outer, hinner.2.2.1.trans hparent, by rwa [hinner.1, hkind.1]⟩

private theorem encloses_step (hfirst : t.DepthFirst) (hstep : t.Step t') {id outer : Nat}
    (hid : id < t.scopes.length) (hparent : (t'.scope id).parent = some outer) :
    t'.Encloses outer id := by
  have horigin := hstep.origin_eq hid
  simp only [Scope.origin, Prod.mk.injEq] at horigin
  rw [horigin.2.2.1] at hparent
  exact (hfirst.encloses_of_parent id hid outer hparent).step hid.le hstep

private theorem of_length_eq (hwf : t.WellFormed) (hfirst : t.DepthFirst) (hstep : t.Step t')
    (hlength : t'.scopes.length = t.scopes.length) (hpath : t'.openPath ⊆ t.openPath) :
    t'.DepthFirst := by
  constructor
  · intro id hid
    exact hfirst.nests_step hwf hstep (hlength ▸ hid)
  · intro outer hmem
    rw [hlength]
    exact (hfirst.encloses_of_mem outer (hpath hmem)).step le_rfl hstep
  · intro id hid outer
    exact hfirst.encloses_step hstep (hlength ▸ hid)

theorem opened (hwf : t.WellFormed) (hfirst : t.DepthFirst) {kind : ScopeKind}
    {name : Option String} {span : Span} (hnests : kind.nestsIn t.currentKind = true) :
    (t.opened kind name span).DepthFirst := by
  have hstep : t.Step (t.opened kind name span) := .opened kind name span hnests
  have hnew := scope_opened_new t kind name span
  have hbound {id : Nat} (hid : id < (t.opened kind name span).scopes.length) :
      id < t.scopes.length ∨ id = t.scopes.length := by
    rw [length_scopes_opened] at hid
    omega
  constructor
  · intro id hid hne
    rcases hbound hid with hid | rfl
    · exact hfirst.nests_step hwf hstep hid hne
    · have hkind := part_scope_opened Scope.kind t kind name span hwf.current_lt fun _ _ ↦ rfl
      refine ⟨t.current, by rw [hnew]; rfl, ?_⟩
      rw [hnew, hkind]
      exact hnests
  · intro outer hmem id hlt hid
    rcases hbound hid with hid | rfl
    · have hmem : outer ∈ t.openPath := (List.mem_cons.mp hmem).resolve_left (by omega)
      exact (hfirst.encloses_of_mem outer hmem).step le_rfl hstep id hlt hid
    · have hmem : outer ∈ t.openPath := (List.mem_cons.mp hmem).resolve_left (by omega)
      exact ⟨t.current, by rw [hnew]; rfl, hwf.le_current hmem⟩
  · intro id hid outer hparent
    rcases hbound hid with hid | rfl
    · exact hfirst.encloses_step hstep hid hparent
    · rw [hnew] at hparent
      obtain rfl : t.current = outer := Option.some.inj hparent
      exact (hfirst.encloses_of_mem _ hwf.current_mem).step le_rfl hstep

theorem step (hwf : t.WellFormed) (hfirst : t.DepthFirst) (hstep : t.Step t') :
    t'.DepthFirst := by
  rcases id hstep with ⟨kind, name, span, hnests⟩ | ⟨n, hproper⟩ | hedit
  · exact hfirst.opened hwf hnests
  · exact hfirst.of_length_eq hwf hstep (length_scopes_closeInner t n) (List.drop_subset n _)
  · exact hfirst.of_length_eq hwf hstep hedit.length_eq
      (hedit.openPath_eq ▸ List.Subset.refl _)

end DepthFirst

/-- **Every tree that requests lead to is numbered depth first.** -/
theorem depthFirst_run (seed : Seed) (rs : List Request) :
    ((ScopeTree.new seed).run rs).DepthFirst :=
  (wellFormed_new seed).run_induction (fun _ _ hwf hfirst hstep ↦ hfirst.step hwf hstep)
    (depthFirst_new seed) rs

/-! ## The listing goes by number -/

theorem mem_children_iff (hwf : t.WellFormed) {id inner : Nat} (hid : id < t.scopes.length) :
    inner ∈ (t.scope id).children ↔
      inner < t.scopes.length ∧ (t.scope inner).parent = some id := by
  rw [hwf.children_eq id hid, List.mem_filter, List.mem_range, decide_eq_true_eq]

private theorem DepthFirst.lt_of_mem_descendants (hwf : t.WellFormed) (hfirst : t.DepthFirst)
    {next outer : Nat} (hnext : next < t.scopes.length)
    (hparent : (t.scope next).parent = some outer) {fuel : Nat} :
    ∀ {id inner : Nat}, outer < id → id < next → inner ∈ t.descendants fuel id → inner < next := by
  induction fuel with
  | zero => simp [descendants]
  | succ fuel ih =>
    intro id inner houter hlt hmem
    rw [descendants, List.mem_cons, List.mem_flatMap] at hmem
    rcases hmem with rfl | ⟨child, hchild, hmem⟩
    · exact hlt
    · rw [mem_children_iff hwf (by omega)] at hchild
      have hdeeper := hwf.parent_lt child hchild.1 id hchild.2
      refine ih (by omega) ?_ hmem
      -- a child behind the next scope would have the next scope inside its own parent
      rcases Nat.lt_trichotomy child next with hbefore | rfl | hbehind
      · exact hbefore
      · have := Option.some.inj (hparent.symm.trans hchild.2)
        omega
      · obtain ⟨parent, hother, hle⟩ :=
          hfirst.encloses_of_parent child hchild.1 id hchild.2 next hlt hbehind
        have := Option.some.inj (hparent.symm.trans hother)
        omega

private theorem DepthFirst.pairwise_descendants (hwf : t.WellFormed) (hfirst : t.DepthFirst)
    {fuel : Nat} : ∀ {id : Nat}, id < t.scopes.length →
      (t.descendants fuel id).Pairwise (· < ·) := by
  induction fuel with
  | zero => exact fun _ ↦ .nil
  | succ fuel ih =>
    intro id hid
    have hchildren : (t.scope id).children.Pairwise (· < ·) := by
      rw [hwf.children_eq id hid]
      exact List.pairwise_lt_range.filter _
    rw [descendants, List.pairwise_cons, List.pairwise_flatMap]
    refine ⟨?_, fun child hchild ↦ ih (hwf.lt_of_mem_children hid hchild).2, ?_⟩
    · intro inner hmem
      obtain ⟨child, hchild, hmem⟩ := List.mem_flatMap.mp hmem
      obtain ⟨hlt, hbound⟩ := hwf.lt_of_mem_children hid hchild
      exact hlt.trans_le (le_of_mem_descendants hwf hbound hmem).1
    · refine hchildren.imp_of_mem fun {child next} hchild hnext hlt x hx y hy ↦ ?_
      rw [mem_children_iff hwf hid] at hnext
      have hbefore := hfirst.lt_of_mem_descendants hwf hnext.1 hnext.2
        (hwf.lt_of_mem_children hid hchild).1 hlt hx
      exact hbefore.trans_le (le_of_mem_descendants hwf hnext.1 hy).1

/-! ## The listing is complete -/

/-- Fuel for as many levels as there are scopes behind a scope is enough, and more fuel does not
change what is listed. -/
private theorem descendants_congr (hwf : t.WellFormed) {fuel : Nat} :
    ∀ {fuel' id : Nat}, id < t.scopes.length → t.scopes.length ≤ id + fuel →
      t.scopes.length ≤ id + fuel' → t.descendants fuel id = t.descendants fuel' id := by
  induction fuel with
  | zero =>
    intro fuel' id hid hfuel
    omega
  | succ fuel ih =>
    intro fuel' id hid hfuel hfuel'
    obtain ⟨fuel', rfl⟩ := Nat.exists_eq_succ_of_ne_zero (show fuel' ≠ 0 by omega)
    rw [descendants, Nat.succ_eq_add_one, descendants]
    congr 1
    refine List.flatMap_congr fun child hchild ↦ ?_
    obtain ⟨hlt, hbound⟩ := hwf.lt_of_mem_children hid hchild
    exact ih hbound (by omega) (by omega)

private theorem subtree_eq (hwf : t.WellFormed) {id : Nat} (hid : id < t.scopes.length) :
    t.subtree id = id :: (t.scope id).children.flatMap t.subtree := by
  have hmore : t.subtree id = t.descendants (t.scopes.length + 1) id :=
    descendants_congr hwf hid (by omega) (by omega)
  rw [hmore, descendants]
  rfl

private theorem mem_descendants_of_mem_children {fuel id outer inner : Nat}
    (houter : outer ∈ t.descendants fuel id) (hinner : inner ∈ (t.scope outer).children) :
    inner ∈ t.descendants (fuel + 1) id := by
  induction fuel generalizing id with
  | zero => cases houter
  | succ fuel ih =>
    rw [descendants, List.mem_cons, List.mem_flatMap] at houter
    rw [descendants, List.mem_cons, List.mem_flatMap]
    rcases houter with rfl | ⟨child, hchild, houter⟩
    · exact .inr ⟨inner, hinner, List.mem_cons_self⟩
    · exact .inr ⟨child, hchild, ih houter⟩

/-- Every scope is found below the global one, since its parent is. -/
private theorem DepthFirst.mem_subtree_zero (hwf : t.WellFormed) (hfirst : t.DepthFirst) {id : Nat}
    (hid : id < t.scopes.length) : id ∈ t.subtree 0 := by
  induction id using Nat.strongRecOn with
  | ind id ih =>
    rcases Nat.eq_zero_or_pos id with rfl | hpos
    · rw [subtree_eq hwf hid]
      exact List.mem_cons_self
    · obtain ⟨outer, hparent, -⟩ := hfirst.nests id hid (by omega)
      have hlt := hwf.parent_lt id hid outer hparent
      have hmem := mem_descendants_of_mem_children (ih outer hlt (by omega))
        ((mem_children_iff hwf (by omega)).mpr ⟨hid, hparent⟩)
      rwa [subtree, descendants_congr hwf (by omega) (by omega)
        (show t.scopes.length ≤ 0 + (t.scopes.length + 1) by omega)]

/-- **The whole tree in the order of its numbers.** -/
theorem DepthFirst.subtree_zero (hwf : t.WellFormed) (hfirst : t.DepthFirst) :
    t.subtree 0 = List.range t.scopes.length := by
  have hroot : 0 < t.scopes.length := hwf.lt_length 0 hwf.zero_mem
  refine (hfirst.pairwise_descendants hwf hroot).eq_of_mem_iff List.pairwise_lt_range ?_
  intro id
  rw [List.mem_range]
  exact ⟨fun hmem ↦ (le_of_mem_descendants hwf hroot hmem).2, hfirst.mem_subtree_zero hwf⟩

/-- The way down the tree ends: it leads to greater and greater numbers. -/
private theorem wellFounded_children (hwf : t.WellFormed) :
    WellFounded fun inner outer ↦ inner ∈ (t.scope outer).children := by
  refine Subrelation.wf ?_ (measure fun id ↦ t.scopes.length - id).wf
  intro inner outer hmem
  by_cases houter : outer < t.scopes.length
  · obtain ⟨hlt, hbound⟩ := hwf.lt_of_mem_children houter hmem
    exact Nat.sub_lt_sub_left houter hlt
  · rw [scope_of_length_le (by omega)] at hmem
    cases hmem

/-! ## Requests that open a scope -/

/-- Whether a request opens a scope. -/
def opensScope (t : ScopeTree) : Request → Bool
  | .openScope kind name span => (t.openScope kind name span).isOk
  | _ => false

/-- The number of scopes that are opened in the course of some requests. -/
def opensIn (t : ScopeTree) : List Request → Nat
  | [] => 0
  | r :: rest => (t.opensScope r).toNat + (t.apply r).opensIn rest

private theorem length_scopes_apply (t : ScopeTree) (r : Request) :
    (t.apply r).scopes.length = t.scopes.length + (t.opensScope r).toNat := by
  cases r with
  | openScope kind name span =>
    rw [apply, perform, opensScope, openScope_eq]
    split
    · exact length_scopes_opened t kind name span
    · rfl
  | closeScope h span =>
    rw [apply, perform, closeScope_eq]
    split
    · exact length_scopes_closeInner t _
    · rfl
  | declare d =>
    rw [apply, perform]
    cases hok : t.declare d with
    | error e => rfl
    | ok result => exact (edit_of_declare hok).length_eq
  | defineLabel name span =>
    rw [apply, perform]
    cases hok : t.defineLabel name span with
    | error e => rfl
    | ok t' => exact (edit_of_defineLabel hok).length_eq
  | jumpTo name span =>
    rw [apply, perform]
    cases hok : t.jumpTo name span with
    | error e => rfl
    | ok t' => exact (edit_of_jumpTo hok).length_eq

private theorem length_scopes_run (t : ScopeTree) (rs : List Request) :
    (t.run rs).scopes.length = t.scopes.length + t.opensIn rs := by
  induction rs generalizing t with
  | nil => rfl
  | cons r rest ih => rw [run, List.foldl_cons, ← run, ih, length_scopes_apply, opensIn,
    Nat.add_assoc]

/-! ## The names of a scope -/

private theorem mem_names_run_iff (seed : Seed) (rs : List Request) (id : Nat) (name : String) :
    name ∈ (((ScopeTree.new seed).run rs).scope id).bindings.declarations.map (·.name) ↔
      ∃ d ∈ (ScopeTree.new seed).declaredIn id rs, d.name = name := by
  rw [Bindings.mem_map_name_iff, (records_declaredIn seed rs id).find_eq, Ne,
    standing?_eq_none_iff, List.filter_eq_nil_iff]
  simp

/-! ## The main result -/

/-- **A scope tree is numbered depth first and listed completely.** After any requests to a new
tree, accepted or refused, of which `n - 1` have opened a scope:

* the open scopes, outermost first, start with the global one, and each is the parent of the next
  one and has a smaller number; they are the scopes that are marked open;
* every other scope stands in one of a smaller number where its kind may, and the scopes directly
  inside a scope are those that have it as their parent, by number;
* there is no endless way down, and the scopes of a subtree are its root and those of the subtrees
  directly inside;
* the listing has the scopes `0`, `1`, …, `n - 1` in this order, each with one declaration for each
  name that was ever declared in it. -/
theorem listing_depth_first (seed : Seed) (rs : List Request) :
    let t := (ScopeTree.new seed).run rs
    let n := (ScopeTree.new seed).opensIn rs + 1
    let stack := t.openPath.reverse
    (stack.head? = some 0 ∧ stack.Pairwise (· < ·) ∧
      (stack.IsChain fun outer id ↦ (t.scope id).parent = some outer) ∧
      (∀ id ∈ stack, id < n) ∧ ∀ id < n, ((t.scope id).isOpen = true ↔ id ∈ stack)) ∧
    ((t.scope 0).parent = none ∧
      (∀ id < n, id ≠ 0 → ∃ outer < id, (t.scope id).parent = some outer ∧
        (t.scope id).kind.nestsIn (t.scope outer).kind = true) ∧
      ∀ id < n, (t.scope id).children =
        (List.range n).filter fun inner ↦ (t.scope inner).parent = some id) ∧
    (WellFounded fun inner outer ↦ inner ∈ (t.scope outer).children) ∧
    (∀ id < n, t.subtree id = id :: (t.scope id).children.flatMap t.subtree) ∧
    t.listing.map (·.id) = List.range n ∧
    ∀ id < n, ∃ v, t.listing[id]? = some v ∧ v = t.view id ∧
      (v.declarations.map (·.name)).Nodup ∧
      ∀ name, name ∈ v.declarations.map (·.name) ↔
        ∃ d ∈ (ScopeTree.new seed).declaredIn id rs, d.name = name := by
  intro t n stack
  have hwf : t.WellFormed := wellFormed_run seed rs
  have hfirst : t.DepthFirst := depthFirst_run seed rs
  have hlength : t.scopes.length = n := by
    rw [length_scopes_run, Nat.add_comm]
    rfl
  have hsubtree : t.subtree 0 = List.range n := hlength ▸ hfirst.subtree_zero hwf
  refine ⟨⟨?_, ?_, ?_, ?_, ?_⟩, ⟨hwf.parent_zero, ?_, ?_⟩, wellFounded_children hwf, ?_, ?_, ?_⟩
  · exact List.head?_reverse.trans hwf.getLast?
  · exact List.pairwise_reverse.mpr hwf.pairwise
  · exact List.isChain_reverse.mpr hwf.chain
  · intro id hid
    exact hlength ▸ hwf.lt_length id (List.mem_reverse.mp hid)
  · intro id hid
    rw [List.mem_reverse]
    exact hwf.isOpen_iff id (hlength ▸ hid)
  · intro id hid hne
    rw [← hlength] at hid
    obtain ⟨outer, hparent, hnests⟩ := hfirst.nests id hid hne
    exact ⟨outer, hwf.parent_lt id hid outer hparent, hparent, hnests⟩
  · intro id hid
    rw [← hlength] at hid ⊢
    exact hwf.children_eq id hid
  · intro id hid
    exact subtree_eq hwf (hlength ▸ hid)
  · rw [listing, List.map_map, hsubtree]
    exact List.map_id' _
  · intro id hid
    refine ⟨t.view id, ?_, rfl, ?_, fun name ↦ mem_names_run_iff seed rs id name⟩
    · rw [listing, hsubtree, List.getElem?_map, List.getElem?_range hid]
      rfl
    · exact List.pairwise_map.mpr (Bindings.distinctNames_declarations _)

end ScopeTree

end DeclAnalysis
