import DeclAnalysis.Declaration
import DeclAnalysis.NameMap

/-!
# Bindings

The names bound in one place, each to the declaration that stands for it. A name can be declared
again as long as the declarations agree and define the object at most once; the definition then
stands for the name, and otherwise the first declaration does.

Declarations that come to stand are put into an arena that only grows, and a map tells at which
place of the arena the declaration of a name is found. A declaration that another one replaces stays
in the arena, but no name leads to it any more.
-/

namespace DeclAnalysis

/-- Names bound to declarations. -/
structure Bindings where
  /-- The declarations that have ever come to stand, in order. -/
  arena : List Declaration
  /-- The place of the declaration that stands for a name. -/
  places : NameMap Nat
  /-- The place of a name holds a declaration of that name. -/
  holds : ∀ name place, places.get? name = some place → arena[place]?.map (·.name) = some name
deriving DecidableEq

namespace Bindings

/-- No names at all. -/
def empty : Bindings where
  arena := []
  places := .empty
  holds _ _ hplace := by cases hplace

/-- The declaration that stands for a name. -/
def get? (b : Bindings) (name : String) : Option Declaration :=
  (b.places.get? name).bind fun place ↦ b.arena[place]?

/-- The standing declarations, in the order in which they came to stand. -/
def declarations (b : Bindings) : List Declaration :=
  (b.arena.zipIdx.filter fun e ↦ b.places.get? e.1.name = some e.2).map (·.1)

theorem place_lt (b : Bindings) {name : String} {place : Nat}
    (h : b.places.get? name = some place) : place < b.arena.length := by
  obtain ⟨d, hd, -⟩ := Option.map_eq_some_iff.mp (b.holds name place h)
  exact (List.getElem?_eq_some_iff.mp hd).1

/-- Lets a declaration stand for its name. -/
def insert (b : Bindings) (d : Declaration) : Bindings where
  arena := b.arena ++ [d]
  places := b.places.insert d.name b.arena.length
  holds name place hplace := by
    rw [NameMap.get?_insert] at hplace
    split at hplace
    · next hsame =>
      obtain rfl := Option.some.inj hplace
      simp [hsame]
    · rw [List.getElem?_append_left (b.place_lt hplace)]
      exact b.holds name place hplace

/-- Declares a name. The result is the declaration that stands for the name afterwards; the failure
is the one that the new declaration conflicts with. -/
def declare (b : Bindings) (d : Declaration) : Except Declaration (Declaration × Bindings) :=
  match b.get? d.name with
  | none => .ok (d, b.insert d)
  | some standing =>
    if standing.clashesWith d then .error standing
    else if d.isDefinition then .ok (d, b.insert d)
    else .ok (standing, b)

/-! ### What is bound after an insertion -/

theorem get?_insert (b : Bindings) (d : Declaration) (name : String) :
    (b.insert d).get? name = if name = d.name then some d else b.get? name := by
  rw [get?, insert, NameMap.get?_insert]
  split
  · simp
  · -- the places of the other names lie in the arena as it was
    rw [get?]
    cases hplace : b.places.get? name with
    | none => rfl
    | some place =>
      rw [Option.bind_some, Option.bind_some, List.getElem?_append_left (b.place_lt hplace)]

end Bindings

end DeclAnalysis
