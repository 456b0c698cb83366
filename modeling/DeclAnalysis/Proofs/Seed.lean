import DeclAnalysis.Proofs.Bindings
import DeclAnalysis.Seed

/-!
# Seeds and bindings side by side

A seed and the bindings of a scope take declarations under one set of rules, but they keep them
differently. A seed has a map from names to declarations, in which a definition overwrites what it
replaces. Bindings have a map from names to places in an arena, where a definition is put behind
what it replaces. So the two never look the same, and `Bindings.Mirrors` compares them by what they
answer. It is kept by every declaration, which both accept or both refuse (`Mirrors.declare`).
-/

namespace DeclAnalysis

namespace Seed

variable {s s' : Seed} {d : Declaration}

@[simp] theorem get?_empty (name : String) : empty.get? name = none := rfl

/-- A seed refuses a declaration exactly if it clashes with the one that stands for its name, and
that is the one that it blames. -/
theorem declare_eq_error_iff {e : Error} :
    s.declare d = .error e ↔
      ∃ previous, s.get? d.name = some previous ∧ previous.clashesWith d = true ∧
        e = .redefinition d.name .global d.span previous.span := by
  rw [declare]
  rcases s.get? d.name with - | previous
  · simp
  · by_cases hclash : previous.clashesWith d = true
    · simp only [hclash, if_true, Except.error.injEq, Option.some.injEq, exists_eq_left', true_and]
      exact eq_comm
    · by_cases hdefinition : d.isDefinition = true <;> simp [hclash, hdefinition]

theorem clashesWith_of_declare {previous : Declaration} (hok : s.declare d = .ok s')
    (hfound : s.get? d.name = some previous) : previous.clashesWith d = false := by
  rw [← Bool.not_eq_true]
  intro hclash
  rw [declare_eq_error_iff.mpr ⟨previous, hfound, hclash, rfl⟩] at hok
  cases hok

/-- What a seed has under each name after a declaration. -/
theorem get?_of_declare (hok : s.declare d = .ok s') (name : String) :
    s'.get? name =
      if name = d.name ∧ (d.isDefinition = true ∨ s.get? name = none) then some d
      else s.get? name := by
  have hadded : (⟨s.names.insert d.name d⟩ : Seed).get? name =
      if name = d.name then some d else s.get? name := NameMap.get?_insert _ _ _ _
  rw [declare] at hok
  rcases hfound : s.get? d.name with - | previous
  · obtain rfl : (⟨s.names.insert d.name d⟩ : Seed) = s' := by simpa [hfound] using hok
    rw [hadded]
    by_cases hname : name = d.name <;> simp [hname, hfound]
  · have hclash : ¬ previous.clashesWith d = true := fun hclash ↦ by simp [hfound, hclash] at hok
    by_cases hdefinition : d.isDefinition = true
    · obtain rfl : (⟨s.names.insert d.name d⟩ : Seed) = s' := by
        simpa [hfound, hclash, hdefinition] using hok
      simp [hadded, hdefinition]
    · obtain rfl : s = s' := by simpa [hfound, hclash, hdefinition] using hok
      by_cases hname : name = d.name <;> simp [hname, hdefinition, hfound]

end Seed

namespace Bindings

variable {b : Bindings} {s : Seed}

/-- Bindings that have the names of a seed, each with the same declaration. -/
def Mirrors (b : Bindings) (s : Seed) : Prop := ∀ name, b.get? name = s.get? name

theorem mirrors_empty : empty.Mirrors .empty := fun _ ↦ rfl

/-- The arena grows where the map of the seed overwrites, and both answer alike afterwards. -/
theorem Mirrors.insert (hmirrors : b.Mirrors s) (d : Declaration) :
    (b.insert d).Mirrors ⟨s.names.insert d.name d⟩ := by
  intro name
  rw [get?_insert, Seed.get?, NameMap.get?_insert, hmirrors name]
  rfl

/-- **One declaration.** Either both refuse it and blame the same earlier one, or both accept it and
have the same names again. -/
theorem Mirrors.declare (hmirrors : b.Mirrors s) (d : Declaration) :
    (∃ previous, b.declare d = .error previous ∧
      s.declare d = .error (.redefinition d.name .global d.span previous.span)) ∨
    ∃ standing b' s', b.declare d = .ok (standing, b') ∧ s.declare d = .ok s' ∧ b'.Mirrors s' := by
  rw [Bindings.declare, Seed.declare, hmirrors d.name]
  rcases s.get? d.name with - | previous
  · exact .inr ⟨d, b.insert d, _, rfl, rfl, hmirrors.insert d⟩
  · by_cases hclash : previous.clashesWith d = true
    · exact .inl ⟨previous, by simp [hclash], by simp [hclash]⟩
    · by_cases hdefinition : d.isDefinition = true
      · exact .inr ⟨d, b.insert d, _, by simp [hclash, hdefinition],
          by simp [hclash, hdefinition], hmirrors.insert d⟩
      · exact .inr ⟨previous, b, s, by simp [hclash, hdefinition],
          by simp [hclash, hdefinition], hmirrors⟩

end Bindings

end DeclAnalysis
