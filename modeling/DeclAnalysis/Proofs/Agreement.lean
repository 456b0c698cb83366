import DeclAnalysis.Proofs.Seed
import Mathlib.Data.List.Pairwise

/-!
# Declarations that agree

A scope or a seed keeps one declaration for each name and compares a new one with it alone, although
it may have accepted several before. That is enough because the declarations accepted under one name
*agree*: they are of one type, and at most one of them is a definition. The declaration that stands
for the name then speaks for all of them (`Agree.forall_agreesWith_iff`).

`Records` ties what names stand for to all the declarations that were accepted, name by name. It is
kept by every accepted declaration (`Records.declared`), so whatever is said in terms of the
declaration that stands can be said in terms of everything that was accepted, in which the order no
longer matters.
-/

namespace DeclAnalysis

/-! ## Two declarations -/

namespace Declaration

/-- Two declarations of a name can stand together. -/
def AgreesWith (d e : Declaration) : Prop := d.clashesWith e = false

variable {d e : Declaration}

theorem agreesWith_iff :
    d.AgreesWith e ↔
      ¬ (d.isDefinition = true ∧ e.isDefinition = true) ∧ d.type.canonical = e.type.canonical := by
  simp [AgreesWith, clashesWith, Ty.same]

theorem AgreesWith.canonical_eq (hagree : d.AgreesWith e) : d.type.canonical = e.type.canonical :=
  (agreesWith_iff.mp hagree).2

theorem AgreesWith.not_both (hagree : d.AgreesWith e) (hd : d.isDefinition = true) :
    e.isDefinition = false := by
  rw [← Bool.not_eq_true]
  exact fun he ↦ (agreesWith_iff.mp hagree).1 ⟨hd, he⟩

theorem AgreesWith.symm (hagree : d.AgreesWith e) : e.AgreesWith d := by
  obtain ⟨hdefinitions, htypes⟩ := agreesWith_iff.mp hagree
  exact agreesWith_iff.mpr ⟨fun hboth ↦ hdefinitions hboth.symm, htypes.symm⟩

instance : Std.Symm AgreesWith := ⟨fun _ _ ↦ AgreesWith.symm⟩

end Declaration

/-! ## The declarations of one name -/

/-- Declarations of one name that can all stand together. -/
def Agree (ds : List Declaration) : Prop := ds.Pairwise Declaration.AgreesWith

/-- The declaration that stands for a name after some were accepted: the definition, or else the
first of them. -/
def standing? (ds : List Declaration) : Option Declaration :=
  (ds.find? (·.isDefinition)).or ds.head?

section Standing

variable {ds : List Declaration} {d e s : Declaration}

theorem agree_append_singleton :
    Agree (ds ++ [d]) ↔ Agree ds ∧ ∀ e ∈ ds, e.AgreesWith d := by
  rw [Agree, List.pairwise_append]
  simp [Agree]

theorem Agree.canonical_eq (hagree : Agree ds) (hd : d ∈ ds) (he : e ∈ ds) :
    d.type.canonical = e.type.canonical := by
  by_cases hsame : d = e
  · rw [hsame]
  · exact (hagree.forall hd he hsame).canonical_eq

theorem Agree.eq_of_isDefinition (hagree : Agree ds) (hd : d ∈ ds) (he : e ∈ ds)
    (hdefinition : d.isDefinition = true) (hother : e.isDefinition = true) : d = e := by
  by_contra hdiffer
  have := (hagree.forall hd he hdiffer).not_both hdefinition
  simp [hother] at this

theorem countP_isDefinition_le_one_iff :
    ds.countP (·.isDefinition) ≤ 1 ↔
      ds.Pairwise fun d e ↦ ¬ (d.isDefinition = true ∧ e.isDefinition = true) := by
  induction ds with
  | nil => simp
  | cons d rest ih =>
    rw [List.pairwise_cons, List.countP_cons, ← ih]
    by_cases hdefinition : d.isDefinition = true
    · have hnone : rest.countP (·.isDefinition) = 0 ↔ ∀ e ∈ rest, ¬ e.isDefinition = true :=
        List.countP_eq_zero
      simp only [hdefinition, if_true, true_and, ← hnone]
      omega
    · simp [hdefinition]

/-- Agreement spelled out: one type, and at most one definition. -/
theorem agree_iff :
    Agree ds ↔
      ds.Pairwise (fun d e ↦ d.type.same e.type = true) ∧ ds.countP (·.isDefinition) ≤ 1 := by
  rw [countP_isDefinition_le_one_iff, ← List.pairwise_and_iff, Agree]
  refine List.Pairwise.iff fun d e ↦ ?_
  rw [Declaration.agreesWith_iff, Ty.same_iff, and_comm]

@[simp] theorem standing?_eq_none_iff : standing? ds = none ↔ ds = [] := by
  rw [standing?, Option.or_eq_none_iff, List.head?_eq_none_iff]
  exact ⟨And.right, fun hempty ↦ by simp [hempty]⟩

@[simp] theorem standing?_singleton (d : Declaration) : standing? [d] = some d := by
  cases hdefinition : d.isDefinition <;> simp [standing?, hdefinition]

theorem mem_of_standing? (hstands : standing? ds = some s) : s ∈ ds := by
  rcases Option.or_eq_some_iff.mp hstands with hfound | ⟨-, hfirst⟩
  · exact List.mem_of_find?_eq_some hfound
  · exact List.mem_of_head? hfirst

theorem isDefinition_of_standing? (hstands : standing? ds = some s)
    (hrefers : s.isDefinition = false) (hd : d ∈ ds) : d.isDefinition = false := by
  rcases Option.or_eq_some_iff.mp hstands with hfound | ⟨hnone, -⟩
  · have := List.find?_some hfound
    simp [hrefers] at this
  · simpa using List.find?_eq_none.mp hnone d hd

theorem Agree.standing?_of_isDefinition (hagree : Agree ds) (hd : d ∈ ds)
    (hdefinition : d.isDefinition = true) : standing? ds = some d := by
  obtain ⟨s, hfound⟩ : ∃ s, ds.find? (·.isDefinition) = some s := by
    rw [← Option.isSome_iff_exists, List.find?_isSome]
    exact ⟨d, hd, hdefinition⟩
  have hsame : s = d := hagree.eq_of_isDefinition (List.mem_of_find?_eq_some hfound) hd
    (List.find?_some hfound) hdefinition
  rw [standing?, hfound, hsame]
  rfl

/-- **The declaration that stands speaks for all.** It has their common type, and it is the
definition as soon as there is one. -/
theorem Agree.forall_agreesWith_iff (hagree : Agree ds) (hstands : standing? ds = some s) :
    (∀ e ∈ ds, e.AgreesWith d) ↔ s.AgreesWith d := by
  refine ⟨fun hall ↦ hall s (mem_of_standing? hstands), fun hstanding e he ↦ ?_⟩
  refine Declaration.agreesWith_iff.mpr ⟨?_, ?_⟩
  · rintro ⟨hdefinition, hd⟩
    obtain rfl : e = s :=
      Option.some.inj ((hagree.standing?_of_isDefinition he hdefinition).symm.trans hstands)
    simpa [hd] using hstanding.not_both hdefinition
  · exact (hagree.canonical_eq he (mem_of_standing? hstands)).trans hstanding.canonical_eq

theorem Agree.standing?_append_singleton (hagree : Agree (ds ++ [d])) :
    standing? (ds ++ [d]) =
      if d.isDefinition = true ∨ standing? ds = none then some d else standing? ds := by
  split
  · next hnew =>
    rcases hnew with hdefinition | hempty
    · exact hagree.standing?_of_isDefinition (by simp) hdefinition
    · rw [standing?_eq_none_iff.mp hempty]
      exact standing?_singleton d
  · next hold =>
    rw [not_or, standing?_eq_none_iff] at hold
    obtain ⟨hrefers, hbefore⟩ := hold
    rw [standing?, List.find?_append, List.head?_append, List.find?_cons_of_neg hrefers,
      List.find?_nil, Option.or_none, Option.or_of_isSome (List.isSome_head?.mpr hbefore)]
    rfl

/-- What stands among some declarations or, failing that, among others has the type of what stands
among all of them. -/
theorem Agree.standing?_append_rel {es : List Declaration} (hagree : Agree (ds ++ es)) :
    Option.Rel (fun d e ↦ d.type.same e.type = true)
      ((standing? es).or (standing? ds)) (standing? (ds ++ es)) := by
  cases hpart : (standing? es).or (standing? ds) with
  | none =>
    rw [Option.or_eq_none_iff, standing?_eq_none_iff, standing?_eq_none_iff] at hpart
    rw [hpart.1, hpart.2]
    exact .none
  | some d =>
    have hd : d ∈ ds ++ es := by
      rcases Option.or_eq_some_iff.mp hpart with hfound | ⟨-, hfound⟩
      · exact List.mem_append_right _ (mem_of_standing? hfound)
      · exact List.mem_append_left _ (mem_of_standing? hfound)
    cases hwhole : standing? (ds ++ es) with
    | none =>
      rw [standing?_eq_none_iff.mp hwhole] at hd
      cases hd
    | some e => exact .some (Ty.same_iff.mpr (hagree.canonical_eq hd (mem_of_standing? hwhole)))

/-- **The order does not matter.** The same declarations in another order leave the same definition
standing, or else two declarations of one type that are no definitions. -/
theorem Agree.standing?_perm {es : List Declaration} (hagree : Agree ds) (hperm : ds.Perm es) :
    Option.Rel (fun d e ↦ (d = e ∧ d.isDefinition = true) ∨
      (d.isDefinition = false ∧ e.isDefinition = false ∧ d.type.same e.type = true))
      (standing? ds) (standing? es) := by
  have hagree' : Agree es := (hperm.pairwise_iff Declaration.AgreesWith.symm).mp hagree
  cases hd : standing? ds with
  | none =>
    rw [standing?_eq_none_iff] at hd
    rw [hd, List.nil_perm] at hperm
    rw [hperm]
    exact .none
  | some d =>
    have hmem : d ∈ es := hperm.mem_iff.mp (mem_of_standing? hd)
    cases he : standing? es with
    | none =>
      rw [standing?_eq_none_iff.mp he] at hmem
      cases hmem
    | some e =>
      refine .some ?_
      by_cases hdefinition : d.isDefinition = true
      · have hsame := hagree'.standing?_of_isDefinition hmem hdefinition
        exact .inl ⟨Option.some.inj (hsame.symm.trans he), hdefinition⟩
      · rw [Bool.not_eq_true] at hdefinition
        have hmem' : e ∈ ds := hperm.mem_iff.mpr (mem_of_standing? he)
        exact .inr ⟨hdefinition, isDefinition_of_standing? hd hdefinition hmem',
          Ty.same_iff.mpr (hagree'.canonical_eq hmem (mem_of_standing? he))⟩

end Standing

/-! ## What was accepted -/

/-- Names stand for what they should after the given declarations were accepted under each. -/
structure Records (find : String → Option Declaration) (accepted : String → List Declaration) :
    Prop where
  /-- The declarations of a name agree. -/
  agree : ∀ name, Agree (accepted name)
  /-- One of them stands for the name. -/
  find_eq : ∀ name, find name = standing? (accepted name)

theorem records_none : Records (fun _ ↦ none) fun _ ↦ [] where
  agree _ := .nil
  find_eq _ := rfl

/-- Where nothing more is known, at least what stands was accepted. -/
theorem records_toList (find : String → Option Declaration) :
    Records find fun name ↦ (find name).toList where
  agree name := by cases find name <;> simp [Agree]
  find_eq name := by
    cases find name with
    | none => rfl
    | some d => exact (standing?_singleton d).symm

namespace Records

variable {find find' : String → Option Declaration} {accepted : String → List Declaration}
  {d : Declaration}

/-- What stands for a name clashes with a declaration as soon as anything accepted under the name
does. -/
theorem filter_clashesWith_eq_none_iff (hrecords : Records find accepted) (d : Declaration) :
    (find d.name).filter (·.clashesWith d) = none ↔ ∀ e ∈ accepted d.name, e.AgreesWith d := by
  cases hstands : find d.name with
  | none =>
    have hempty := standing?_eq_none_iff.mp ((hrecords.find_eq d.name).symm.trans hstands)
    simp [hempty]
  | some s =>
    rw [(hrecords.agree d.name).forall_agreesWith_iff
      ((hrecords.find_eq d.name).symm.trans hstands), Declaration.AgreesWith]
    simp

/-- **What an accepted declaration adds.** -/
theorem declared (hrecords : Records find accepted)
    (hagrees : ∀ e ∈ accepted d.name, e.AgreesWith d)
    (hfind : ∀ name, find' name =
      if name = d.name ∧ (d.isDefinition = true ∨ find name = none) then some d else find name) :
    Records find' fun name ↦ accepted name ++ [d].filter (·.name = name) := by
  have hagree : Agree (accepted d.name ++ [d]) :=
    agree_append_singleton.mpr ⟨hrecords.agree d.name, hagrees⟩
  have hkept {name : String} (hother : ¬ name = d.name) : [d].filter (·.name = name) = [] := by
    simp [Ne.symm hother]
  constructor
  · intro name
    by_cases hname : name = d.name
    · simpa [hname] using hagree
    · simpa [hkept hname] using hrecords.agree name
  · intro name
    rw [hfind]
    by_cases hname : name = d.name
    · simp [hname, hagree.standing?_append_singleton, hrecords.find_eq]
    · simp [hkept hname, hname, hrecords.find_eq]

end Records

/-! ### In bindings -/

namespace Bindings

variable {b b' : Bindings} {accepted : String → List Declaration} {d standing : Declaration}

theorem isOk_declare_iff (b : Bindings) (d : Declaration) :
    (b.declare d).isOk = true ↔ (b.get? d.name).filter (·.clashesWith d) = none := by
  cases hdeclare : b.declare d with
  | error previous => simp [declare_eq_error_iff.mp hdeclare, Except.toBool]
  | ok result => simp [filter_clashesWith_of_declare hdeclare, Except.toBool]

theorem records_of_declare (hrecords : Records b.get? accepted)
    (hok : b.declare d = .ok (standing, b')) :
    Records b'.get? fun name ↦ accepted name ++ [d].filter (·.name = name) :=
  hrecords.declared
    ((hrecords.filter_clashesWith_eq_none_iff d).mp (filter_clashesWith_of_declare hok))
    (get?_of_declare hok)

end Bindings

/-! ### In seeds -/

namespace Seed

variable {s s' : Seed} {accepted : String → List Declaration} {d : Declaration}

theorem exists_declare_iff (hrecords : Records s.get? accepted) (d : Declaration) :
    (∃ s', s.declare d = .ok s') ↔ ∀ e ∈ accepted d.name, e.AgreesWith d := by
  rw [← hrecords.filter_clashesWith_eq_none_iff, Option.filter_eq_none_iff]
  constructor
  · rintro ⟨s', hok⟩ previous hfound
    simp [clashesWith_of_declare hok hfound]
  · intro hfree
    rcases hdeclare : s.declare d with e | s'
    · obtain ⟨previous, hfound, hclash, -⟩ := declare_eq_error_iff.mp hdeclare
      exact absurd hclash (hfree previous hfound)
    · exact ⟨s', rfl⟩

theorem records_of_declare (hrecords : Records s.get? accepted) (hok : s.declare d = .ok s') :
    Records s'.get? fun name ↦ accepted name ++ [d].filter (·.name = name) :=
  hrecords.declared ((exists_declare_iff hrecords d).mp ⟨s', hok⟩) (get?_of_declare hok)

/-- A seed that refused none of some declarations has accepted all of them. -/
theorem records_declareAll (hrecords : Records s.get? accepted) {ds : List Declaration}
    (hall : (s.declareAll ds).2 = []) :
    Records (s.declareAll ds).1.get? fun name ↦ accepted name ++ ds.filter (·.name = name) := by
  induction ds generalizing s accepted with
  | nil => simpa [declareAll] using hrecords
  | cons d rest ih =>
    rw [declareAll] at hall ⊢
    cases hdeclare : s.declare d with
    | error e => simp [hdeclare] at hall
    | ok s' =>
      rw [hdeclare] at hall
      have hrest := ih (records_of_declare hrecords hdeclare) hall
      simpa only [List.append_assoc, ← List.filter_append, List.singleton_append] using hrest

/-- A seed refuses none of some declarations if they all agree, name by name, with one another and
with what it accepted before. -/
theorem declareAll_of_agree (hrecords : Records s.get? accepted) {ds : List Declaration}
    (hagree : ∀ name, Agree (accepted name ++ ds.filter (·.name = name))) :
    (s.declareAll ds).2 = [] := by
  induction ds generalizing s accepted with
  | nil => rfl
  | cons d rest ih =>
    have hfirst : Agree (accepted d.name ++ [d]) := by
      refine (hagree d.name).sublist (List.Sublist.append_left ?_ _)
      simp
    obtain ⟨s', hok⟩ :=
      (exists_declare_iff hrecords d).mpr (agree_append_singleton.mp hfirst).2
    rw [declareAll, hok]
    refine ih (records_of_declare hrecords hok) fun name ↦ ?_
    simpa only [List.append_assoc, ← List.filter_append, List.singleton_append] using hagree name

/-- **A seed takes declarations exactly if they agree.** -/
theorem declareAll_eq_nil_iff (hrecords : Records s.get? accepted) (ds : List Declaration) :
    (s.declareAll ds).2 = [] ↔ ∀ name, Agree (accepted name ++ ds.filter (·.name = name)) :=
  ⟨fun hall ↦ (records_declareAll hrecords hall).agree, declareAll_of_agree hrecords⟩

end Seed

end DeclAnalysis
