import DeclAnalysis.Proofs.Scope.OpenPath
import DeclAnalysis.Scope.View

/-!
# The listing of a scope tree

The listing goes down the lists of children with as much fuel as there are scopes. Everything below
a scope has a greater number, so the global scope is listed once, at the front.
-/

namespace DeclAnalysis

namespace ScopeTree

variable {t : ScopeTree}

theorem le_of_mem_descendants (hwf : t.WellFormed) :
    ∀ {fuel id inner : Nat}, id < t.scopes.length → inner ∈ t.descendants fuel id →
      id ≤ inner ∧ inner < t.scopes.length := by
  intro fuel
  induction fuel with
  | zero =>
    intro id inner _ hmem
    cases hmem
  | succ fuel ih =>
    intro id inner hid hmem
    rw [descendants, List.mem_cons, List.mem_flatMap] at hmem
    rcases hmem with rfl | ⟨child, hchild, hmem⟩
    · exact ⟨le_refl _, hid⟩
    · obtain ⟨hlt, hbound⟩ := hwf.lt_of_mem_children hid hchild
      obtain ⟨hle, hinner⟩ := ih hbound hmem
      exact ⟨by omega, hinner⟩

theorem filter_isOpen_listing (hwf : t.WellFormed) (hpath : t.openPath = [0]) :
    (t.listing.filter (·.isOpen)).map (·.id) = [0] := by
  have hroot : 0 < t.scopes.length := hwf.lt_length 0 hwf.zero_mem
  obtain ⟨fuel, hfuel⟩ := Nat.exists_eq_succ_of_ne_zero (Nat.ne_of_gt hroot)
  have hopen : ∀ id < t.scopes.length, ((t.view id).isOpen = true ↔ id = 0) := by
    intro id hid
    have hiff := hwf.isOpen_iff id hid
    rwa [hpath, List.mem_singleton] at hiff
  have hbelow : ((((t.scope 0).children.flatMap (t.descendants fuel)).map t.view).filter
      (·.isOpen)) = [] := by
    refine List.filter_eq_nil_iff.mpr fun v hv ↦ ?_
    obtain ⟨id, hid, rfl⟩ := List.mem_map.mp hv
    obtain ⟨child, hchild, hmem⟩ := List.mem_flatMap.mp hid
    obtain ⟨hlt, hbound⟩ := hwf.lt_of_mem_children hroot hchild
    obtain ⟨hle, hinner⟩ := le_of_mem_descendants hwf hbound hmem
    intro hisOpen
    have := (hopen id hinner).mp hisOpen
    omega
  rw [listing, subtree, hfuel, Nat.succ_eq_add_one, descendants, List.map_cons,
    List.filter_cons_of_pos ((hopen 0 hroot).mpr rfl), hbelow]
  rfl

end ScopeTree

end DeclAnalysis
