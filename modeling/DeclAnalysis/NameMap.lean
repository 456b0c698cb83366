/-!
# Maps by name

A map from names to values. Giving a value to a name that has one replaces it.
-/

namespace DeclAnalysis

/-- A value for each of some names. -/
structure NameMap (α : Type) where
  /-- The names and their values, in the order in which the values were given. -/
  entries : List (String × α)
deriving DecidableEq

namespace NameMap

variable {α : Type}

/-- No names at all. -/
def empty : NameMap α := ⟨[]⟩

/-- The value of a name. -/
def get? (m : NameMap α) (name : String) : Option α :=
  (m.entries.find? (·.1 = name)).map (·.2)

/-- Gives a value to a name. -/
def insert (m : NameMap α) (name : String) (value : α) : NameMap α :=
  ⟨m.entries.filter (·.1 ≠ name) ++ [(name, value)]⟩

/-- All values, in the order in which they were given. -/
def values (m : NameMap α) : List α := m.entries.map (·.2)

@[simp] theorem get?_empty (name : String) : (empty : NameMap α).get? name = none := rfl

theorem get?_insert (m : NameMap α) (key : String) (value : α) (name : String) :
    (m.insert key value).get? name = if name = key then some value else m.get? name := by
  rw [get?, insert, List.find?_append]
  split
  · next hsame =>
    have hnone : (m.entries.filter (·.1 ≠ key)).find? (·.1 = name) = none := by
      simp [hsame]
    rw [hnone]
    simp [hsame]
  · next hdiffer =>
    have hkept : (m.entries.filter (·.1 ≠ key)).find? (·.1 = name) =
        m.entries.find? (·.1 = name) := by
      rw [List.find?_filter]
      congr 1
      funext e
      by_cases he : e.1 = name <;> simp [he, hdiffer]
    rw [hkept, List.find?_cons_of_neg (by simpa using Ne.symm hdiffer), List.find?_nil,
      Option.or_none, get?]

end NameMap

end DeclAnalysis
