import DeclAnalysis.Proofs.Elaboration.State
import DeclAnalysis.Proofs.Scope.History

/-!
# Seeds of units

Units export the declarations of their global scope that other units can see, and a seed is built by
declaring the exports of several units one after another. The builder compares each declaration with
the one that stands at the time, so which declarations meet depends on the order of the units. Two
facts about a finished unit make the outcome independent of it: its exports have names of their own,
and they agree with the seed that it was analysed against.

By the first one a seed can be built of units exactly if no two of them disagree on a name, in any
order (`ofUnits_order`). By the second one a unit can always be added to its own seed
(`extendedByUnits_self`).
-/

namespace DeclAnalysis

/-! ## What a finished unit exports -/

private theorem DistinctNames.pairwise_agreesWith {ds : List Declaration}
    (hdistinct : DistinctNames ds) : ds.Pairwise fun d e ↦ d.name = e.name → d.AgreesWith e :=
  hdistinct.imp fun hne hname ↦ absurd hname hne

/-- A tree over a seed that a unit can have: what its global scope binds agrees with the seed. -/
structure ScopeTree.Grows (seed : Seed) (t : ScopeTree) : Prop where
  wellFormed : t.WellFormed
  seed_eq : t.seed = seed
  agreesWithSeed : t.AgreesWithSeed

private theorem ScopeTree.grows_new (seed : Seed) : (ScopeTree.new seed).Grows seed where
  wellFormed := wellFormed_new seed
  seed_eq := rfl
  agreesWithSeed := agreesWithSeed_new seed

theorem ScopeTree.Grows.step {seed : Seed} {t t' : ScopeTree} (hgrows : t.Grows seed)
    (hstep : t.Step t') : t'.Grows seed where
  wellFormed := hgrows.wellFormed.step hstep
  seed_eq := hstep.seed_eq.trans hgrows.seed_eq
  agreesWithSeed := hgrows.agreesWithSeed.step hgrows.wellFormed hstep

/-- A unit that was analysed, against whatever seed and in whatever way. -/
def UnitReport.Finished (u : UnitReport) : Prop := ∃ c seed events, u = analyze c seed events

section Exported

variable (c : Config) (seed : Seed) (events : List Event)

private theorem grows_finish : (((UnitState.new c seed).run c events).finish c).tree.Grows seed :=
  UnitState.tree_finish_run (fun _ _ ↦ ScopeTree.Grows.step) c (ScopeTree.grows_new seed) events

private theorem distinctNames_exported : DistinctNames (analyze c seed events).exported :=
  (Bindings.distinctNames_declarations _).filter _

/-- **What a unit exports agrees with its seed.** -/
theorem agreesWith_of_mem_exported {d s : Declaration}
    (hd : d ∈ (analyze c seed events).exported) (hs : seed.get? d.name = some s) :
    s.AgreesWith d := by
  have hgrows := grows_finish c seed events
  refine hgrows.agreesWithSeed d.name d s ?_ (by rw [hgrows.seed_eq]; exact hs)
  exact Bindings.mem_declarations_iff.mp (List.mem_filter.mp hd).1

end Exported

private theorem UnitReport.Finished.distinctNames {u : UnitReport} (hfinished : u.Finished) :
    DistinctNames u.exported := by
  obtain ⟨c, seed, events, rfl⟩ := hfinished
  exact distinctNames_exported c seed events

/-! ## Building a seed -/

namespace Seed

private theorem extended_eq_ok_iff {s s' : Seed} {exports : List (List Declaration)} :
    s.extended exports = .ok s' ↔ s.declareAll exports.flatten = (s', []) := by
  rw [extended]
  split
  · next built hbuilt => simp [hbuilt]
  · next built errors hrefused hbuilt =>
    rw [hbuilt]
    simpa using fun _ ↦ hrefused

variable {s s' : Seed} {accepted : String → List Declaration} {exports : List (List Declaration)}

/-- A seed takes exports exactly if they agree, name by name, with one another and with what it
accepted before. -/
private theorem exists_extended_iff (hrecords : Records s.get? accepted) :
    (∃ s', s.extended exports = .ok s') ↔
      ∀ name, Agree (accepted name ++ exports.flatten.filter (·.name = name)) := by
  rw [← declareAll_eq_nil_iff hrecords]
  simp only [extended_eq_ok_iff]
  exact ⟨fun ⟨s', hbuilt⟩ ↦ by rw [hbuilt], fun hall ↦ ⟨_, Prod.ext rfl hall⟩⟩

private theorem get?_of_extended (hrecords : Records s.get? accepted)
    (hbuilt : s.extended exports = .ok s') (name : String) :
    s'.get? name = standing? (accepted name ++ exports.flatten.filter (·.name = name)) := by
  have hall := extended_eq_ok_iff.mp hbuilt
  have hrecords' := records_declareAll hrecords (by rw [hall])
  rw [hall] at hrecords'
  exact hrecords'.find_eq name

end Seed

private theorem forall_agree_filter_iff {ds : List Declaration} :
    (∀ name, Agree (ds.filter (·.name = name))) ↔
      ds.Pairwise fun d e ↦ d.name = e.name → d.AgreesWith e := by
  simp only [Agree, List.pairwise_filter, decide_eq_true_eq]
  constructor
  · intro hagree
    rw [List.pairwise_iff_forall_sublist]
    intro d e hsub hname
    exact List.pairwise_iff_forall_sublist.mp (hagree e.name) hsub hname rfl
  · intro hpairs name
    exact hpairs.imp fun hagrees hd he ↦ hagrees (hd.trans he.symm)

section OfUnits

variable {units : List UnitReport}

private theorem exists_ofUnits_iff :
    (∃ seed, Seed.ofUnits units = .ok seed) ↔
      ∀ name, Agree ((units.map (·.exported)).flatten.filter (·.name = name)) :=
  Seed.exists_extended_iff (s := .empty) records_none

/-- **Seeds of units do not depend on their order.** For finished units:

* a seed can be built of them exactly if no two exports of one name from different units are both
  definitions or of different types;
* in another order a seed can be built as well or as little, and then the two seeds have the same
  names, and under each of them the same definition or two declarations of the same type that are no
  definitions. -/
theorem ofUnits_order (hfinished : ∀ u ∈ units, u.Finished) :
    ((∃ seed, Seed.ofUnits units = .ok seed) ↔
      units.Pairwise fun u v ↦ ∀ d ∈ u.exported, ∀ e ∈ v.exported, d.name = e.name →
        ¬ (d.isDefinition = true ∧ e.isDefinition = true) ∧ d.type.same e.type = true) ∧
    ∀ others, units.Perm others →
      ((∃ seed, Seed.ofUnits units = .ok seed) ↔ ∃ seed, Seed.ofUnits others = .ok seed) ∧
      ∀ seed seed', Seed.ofUnits units = .ok seed → Seed.ofUnits others = .ok seed' →
        ∀ name, Option.Rel (fun d e ↦ (d = e ∧ d.isDefinition = true) ∨
          (d.isDefinition = false ∧ e.isDefinition = false ∧ d.type.same e.type = true))
          (seed.get? name) (seed'.get? name) := by
  refine ⟨?_, fun others hperm ↦ ⟨?_, fun seed seed' hseed hseed' name ↦ ?_⟩⟩
  · have hown : ∀ ds ∈ units.map (·.exported),
        ds.Pairwise fun d e ↦ d.name = e.name → d.AgreesWith e := by
      intro ds hds
      obtain ⟨u, hu, rfl⟩ := List.mem_map.mp hds
      exact (hfinished u hu).distinctNames.pairwise_agreesWith
    rw [exists_ofUnits_iff, forall_agree_filter_iff, List.pairwise_flatten, and_iff_right hown,
      List.pairwise_map]
    simp only [Declaration.agreesWith_iff, Ty.same_iff]
  · rw [exists_ofUnits_iff, exists_ofUnits_iff]
    refine forall_congr' fun name ↦ ?_
    exact ((hperm.map _).flatten.filter _).pairwise_iff Declaration.AgreesWith.symm
  · have hagree := exists_ofUnits_iff.mp ⟨seed, hseed⟩ name
    rw [Seed.get?_of_extended (s := .empty) records_none hseed,
      Seed.get?_of_extended (s := .empty) records_none hseed']
    exact hagree.standing?_perm ((hperm.map _).flatten.filter _)

/-- A unit that declares or defines `int x`. -/
def unitOfInt (isDefinition : Bool) : UnitReport :=
  analyze {} .empty [.declare ⟨"x", Span.zero, .explicit .int, [], none, false, isDefinition, none⟩]

private theorem finished_unitOfInt (isDefinition : Bool) : (unitOfInt isDefinition).Finished :=
  ⟨_, _, _, rfl⟩

/-- One unit declares a name and another one defines it: a seed can be built of them in both orders.
With a second definition it cannot. -/
theorem ofUnits_order_definition :
    (∀ u ∈ [unitOfInt false, unitOfInt true], u.Finished) ∧
    (∃ seed, Seed.ofUnits [unitOfInt false, unitOfInt true] = .ok seed) ∧
    (∃ seed, Seed.ofUnits [unitOfInt true, unitOfInt false] = .ok seed) ∧
    ¬ ∃ seed, Seed.ofUnits [unitOfInt true, unitOfInt false, unitOfInt true] = .ok seed := by
  have hfinished : ∀ units : List Bool, ∀ u ∈ units.map unitOfInt, u.Finished := by
    intro units u hu
    obtain ⟨isDefinition, -, rfl⟩ := List.mem_map.mp hu
    exact finished_unitOfInt isDefinition
  obtain ⟨hbuilt, horder⟩ := ofUnits_order (hfinished [false, true])
  have htwo : ∃ seed, Seed.ofUnits [unitOfInt false, unitOfInt true] = .ok seed :=
    hbuilt.mpr (by decide)
  exact ⟨hfinished [false, true], htwo, (horder _ (.swap ..)).1.mp htwo,
    mt (ofUnits_order (hfinished [true, false, true])).1.mp (by decide)⟩

end OfUnits

/-! ## Adding a unit to its own seed -/

private theorem agree_exported (c : Config) (s : Seed) (events : List Event) (name : String) :
    Agree ((s.get? name).toList ++ (analyze c s events).exported.filter (·.name = name)) := by
  have hdistinct := distinctNames_exported c s events
  rw [Agree, List.pairwise_append]
  refine ⟨(records_toList s.get?).agree name,
    forall_agree_filter_iff.mpr hdistinct.pairwise_agreesWith name, fun d hd e he ↦ ?_⟩
  obtain ⟨hmem, hname⟩ := List.mem_filter.mp he
  obtain rfl : e.name = name := by simpa using hname
  exact agreesWith_of_mem_exported c s events hmem (Option.mem_toList.mp hd)

/-- **A unit can be added to the seed it was analysed against**, whatever errors it has. Under each
name the new seed has

* what the old one has, if that is a definition or the unit does not export the name;
* what the unit exports, if the old seed has nothing;
* what the unit exports if that is a definition, and else what the old seed has, if the old seed has
  a declaration that is no definition. -/
theorem extendedByUnits_self (c : Config) (s : Seed) (events : List Event) :
    let u := analyze c s events
    ∃ s', s.extendedByUnits [u] = .ok s' ∧
      (∀ name d, s.get? name = some d → d.isDefinition = true → s'.get? name = some d) ∧
      (∀ name, (∀ e ∈ u.exported, e.name ≠ name) → s'.get? name = s.get? name) ∧
      (∀ e ∈ u.exported, s.get? e.name = none → s'.get? e.name = some e) ∧
      ∀ e ∈ u.exported, ∀ d, s.get? e.name = some d → d.isDefinition = false →
        s'.get? e.name = some (if e.isDefinition = true then e else d) := by
  intro u
  have hagree : ∀ name, Agree ((s.get? name).toList ++ u.exported.filter (·.name = name)) :=
    agree_exported c s events
  have hrecords := records_toList s.get?
  have hflatten : ([u].map (·.exported)).flatten = u.exported := List.append_nil _
  obtain ⟨s', hbuilt⟩ : ∃ s', s.extendedByUnits [u] = .ok s' :=
    (Seed.exists_extended_iff hrecords).mpr (by rw [hflatten]; exact hagree)
  have hget (name : String) :
      s'.get? name = standing? ((s.get? name).toList ++ u.exported.filter (·.name = name)) := by
    rw [Seed.get?_of_extended hrecords hbuilt, hflatten]
  have hexport {e : Declaration} (he : e ∈ u.exported) :
      u.exported.filter (·.name = e.name) = [e] :=
    (distinctNames_exported c s events).filter_of_mem he
  refine ⟨s', hbuilt, ?_, ?_, ?_, ?_⟩
  · intro name d hd hdefinition
    rw [hget]
    exact (hagree name).standing?_of_isDefinition (by simp [hd]) hdefinition
  · intro name habsent
    have hnone : u.exported.filter (·.name = name) = [] := by simpa using habsent
    rw [hget, hnone, List.append_nil]
    exact (hrecords.find_eq name).symm
  · intro e he hs
    rw [hget, hs, hexport he]
    exact standing?_singleton e
  · intro e he d hd hrefers
    have hpair := hagree e.name
    rw [hd, hexport he] at hpair
    rw [hget, hd, hexport he, hpair.standing?_append_singleton]
    by_cases hdefinition : e.isDefinition = true <;> simp [hdefinition]

end DeclAnalysis
