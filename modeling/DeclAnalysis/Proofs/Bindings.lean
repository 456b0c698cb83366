import DeclAnalysis.Bindings

/-!
# Declaring in bindings

A declaration is refused exactly when it clashes with the one that stands for its name. When it is
accepted, the other names keep what they have, and the name itself gets the new declaration if this
is a definition or the first of its name.

Of the declarations in the arena those stand that the place of their name leads to. So no name has
two of them (`distinctNames_declarations`), and they are what looking up names finds
(`mem_declarations_iff`).
-/

namespace DeclAnalysis

namespace Bindings

variable {b b' : Bindings} {d standing : Declaration}

theorem declare_eq_error_iff {previous : Declaration} :
    b.declare d = .error previous ↔ (b.get? d.name).filter (·.clashesWith d) = some previous := by
  rw [declare]
  cases hfound : b.get? d.name with
  | none => simp
  | some e =>
    rw [Option.filter_some]
    by_cases hclash : e.clashesWith d = true
    · simp [hclash]
    · by_cases hdefinition : d.isDefinition = true <;> simp [hclash, hdefinition]

theorem filter_clashesWith_of_declare (hok : b.declare d = .ok (standing, b')) :
    (b.get? d.name).filter (·.clashesWith d) = none := by
  cases hclash : (b.get? d.name).filter (·.clashesWith d) with
  | none => rfl
  | some previous =>
    rw [declare_eq_error_iff.mpr hclash] at hok
    cases hok

/-- What stands for each name after a declaration. -/
theorem get?_of_declare (hok : b.declare d = .ok (standing, b')) (name : String) :
    b'.get? name =
      if name = d.name ∧ (d.isDefinition = true ∨ b.get? name = none) then some d
      else b.get? name := by
  rw [declare] at hok
  split at hok
  · next hfresh =>
    cases hok
    rw [get?_insert]
    by_cases hsame : name = d.name
    · simp [hsame, hfresh]
    · simp [hsame]
  · next e hfound =>
    split at hok
    · cases hok
    · split at hok
      · next hdefinition =>
        cases hok
        rw [get?_insert]
        simp [hdefinition]
      · next hrepeated =>
        cases hok
        have hkept : ¬ (name = d.name ∧ (d.isDefinition = true ∨ b.get? name = none)) := by
          rintro ⟨rfl, hdefinition | habsent⟩
          · exact hrepeated hdefinition
          · simp [hfound] at habsent
        rw [if_neg hkept]

theorem name_of_get? {name : String} (hbound : b.get? name = some d) : d.name = name := by
  obtain ⟨place, hplace, hd⟩ := Option.bind_eq_some_iff.mp hbound
  have hname := b.holds name place hplace
  rw [hd] at hname
  exact Option.some.inj hname

/-! ## The standing declarations -/

/-- The standing declarations are those that their names are bound to. -/
theorem mem_declarations_iff : d ∈ b.declarations ↔ b.get? d.name = some d := by
  rw [declarations, get?, Option.bind_eq_some_iff]
  simp only [List.mem_map, List.mem_filter, List.mem_zipIdx_iff_getElem?, decide_eq_true_eq]
  constructor
  · rintro ⟨⟨e, place⟩, ⟨he, hplace⟩, rfl⟩
    exact ⟨place, hplace, he⟩
  · rintro ⟨place, hplace, hd⟩
    exact ⟨(d, place), ⟨hd, hplace⟩, rfl⟩

theorem mem_of_get? {name : String} (hbound : b.get? name = some d) : d ∈ b.declarations := by
  rw [mem_declarations_iff, name_of_get? hbound]
  exact hbound

theorem mem_map_name_iff (b : Bindings) (name : String) :
    name ∈ b.declarations.map (·.name) ↔ b.get? name ≠ none := by
  rw [List.mem_map, Option.ne_none_iff_exists]
  constructor
  · rintro ⟨d, hd, rfl⟩
    exact ⟨d, (mem_declarations_iff.mp hd).symm⟩
  · rintro ⟨d, hd⟩
    exact ⟨d, mem_of_get? hd.symm, name_of_get? hd.symm⟩

theorem mem_of_declare {e : Declaration} (hok : b.declare d = .ok (standing, b'))
    (he : e ∈ b'.declarations) : e = d ∨ e ∈ b.declarations := by
  rw [mem_declarations_iff, get?_of_declare hok] at he
  split at he
  · exact .inl (Option.some.inj he).symm
  · exact .inr (mem_declarations_iff.mpr he)

end Bindings

/-- No two declarations have one name. -/
def DistinctNames (ds : List Declaration) : Prop := ds.Pairwise fun d e ↦ d.name ≠ e.name

theorem DistinctNames.filter_of_mem {ds : List Declaration} {d : Declaration}
    (hdistinct : DistinctNames ds) (hd : d ∈ ds) : ds.filter (·.name = d.name) = [d] := by
  induction ds with
  | nil => cases hd
  | cons e rest ih =>
    obtain ⟨hfirst, hrest⟩ := List.pairwise_cons.mp hdistinct
    rcases List.mem_cons.mp hd with rfl | hd
    · have hnone : rest.filter (·.name = d.name) = [] := by
        simpa using fun f hf ↦ Ne.symm (hfirst f hf)
      rw [List.filter_cons_of_pos (by simp), hnone]
    · rw [List.filter_cons_of_neg (by simpa using hfirst d hd), ih hrest hd]

/-- **A name is bound once.** -/
theorem Bindings.distinctNames_declarations (b : Bindings) : DistinctNames b.declarations := by
  have hplaces : b.arena.zipIdx.Pairwise fun e f ↦ e.2 < f.2 := by
    rw [← List.pairwise_map, List.zipIdx_map_snd]
    exact List.pairwise_lt_range'
  rw [DistinctNames, declarations, List.pairwise_map, List.pairwise_filter]
  refine hplaces.imp fun {e f} hlt he hf hname ↦ ?_
  -- one name leads to one place
  have hplace : some e.2 = some f.2 := by
    rw [← of_decide_eq_true he, ← of_decide_eq_true hf, hname]
  exact Nat.ne_of_lt hlt (Option.some.inj hplace)

end DeclAnalysis
