import DeclAnalysis.Proofs.Agreement
import DeclAnalysis.Proofs.Scope.OpenPath

/-!
# What a scope was told, and what it remembers

A scope keeps one declaration for each name. Declarations that repeat it are dropped, and a
definition takes the place of what stood before, so what a scope has accepted cannot be read off the
tree. This module follows a run of requests with the list of all declarations that were accepted in
a scope (`declaredIn`) and shows that the scope behaves as if it kept them all: they agree with one
another and, in the global scope, with the seed.

The other half is that bindings last. What a name is bound to can change only from a declaration to
the definition that it announced, and a definition never changes (`Declaration.Announces`). So a
constant that is in sight cannot be assigned to, however long ago it was defined.
-/

namespace DeclAnalysis

/-! ## What a declaration can give way to -/

/-- A declaration has become another one: of the same type, and only if it was no definition. -/
structure Declaration.Announces (d e : Declaration) : Prop where
  canonical_eq : e.type.canonical = d.type.canonical
  eq_of_isDefinition : d.isDefinition = true → e = d

namespace Declaration.Announces

variable {d e f : Declaration}

theorem refl (d : Declaration) : d.Announces d := ⟨rfl, fun _ ↦ rfl⟩

theorem trans (hde : d.Announces e) (hef : e.Announces f) : d.Announces f where
  canonical_eq := hef.canonical_eq.trans hde.canonical_eq
  eq_of_isDefinition hdefinition := by
    obtain rfl := hde.eq_of_isDefinition hdefinition
    exact hef.eq_of_isDefinition hdefinition

end Declaration.Announces

/-- Bindings that accept a declaration keep every name, and change a declaration only for the
definition that it announced. -/
private theorem Bindings.announces_of_declare {b b' : Bindings} {d e standing : Declaration}
    {name : String} (hok : b.declare d = .ok (standing, b')) (hbound : b.get? name = some e) :
    ∃ e', b'.get? name = some e' ∧ e.Announces e' := by
  rw [get?_of_declare hok]
  split
  · next hnew =>
    obtain ⟨rfl, hdefinition | habsent⟩ := hnew
    · have hagrees : e.AgreesWith d := by
        simpa [hbound, Declaration.AgreesWith] using filter_clashesWith_of_declare hok
      refine ⟨d, rfl, hagrees.canonical_eq.symm, fun hold ↦ ?_⟩
      have := hagrees.not_both hold
      simp [hdefinition] at this
    · simp [hbound] at habsent
  · exact ⟨e, hbound, .refl e⟩

namespace ScopeTree

variable {t t' : ScopeTree}

/-! ## The names of a scope in one step -/

theorem bindings_opened (t : ScopeTree) (kind : ScopeKind) (name : Option String) (span : Span)
    (id : Nat) : ((t.opened kind name span).scope id).bindings = (t.scope id).bindings := by
  rcases Nat.lt_trichotomy id t.scopes.length with hold | rfl | hbeyond
  · exact part_scope_opened Scope.bindings t kind name span hold fun _ _ ↦ rfl
  · -- a new scope has no names, as the stand-in for it had none
    rw [scope_opened_new, scope_of_length_le le_rfl]
    rfl
  · rw [scope_of_length_le (by rw [length_scopes_opened]; exact hbeyond),
      scope_of_length_le hbeyond.le]

theorem bindings_closeInner (t : ScopeTree) (n id : Nat) :
    ((t.closeInner n).scope id).bindings = (t.scope id).bindings :=
  part_scope_closeInner Scope.bindings _ _ _ fun _ ↦ rfl

/-- **What a step does to the names of a scope.** It keeps them, or the scope is the current one and
takes a declaration that the seed does not forbid. -/
theorem Step.bindings_cases (hwf : t.WellFormed) (hstep : t.Step t') (id : Nat) :
    (t'.scope id).bindings = (t.scope id).bindings ∨
      id = t.current ∧ ∃ d standing, t.seedClash? d = none ∧
        (t.scope id).bindings.declare d = .ok (standing, (t'.scope id).bindings) := by
  cases hstep with
  | opened kind name span hnests => exact .inl (bindings_opened t kind name span id)
  | closed n hproper => exact .inl (bindings_closeInner t n id)
  | edited hedit =>
    cases hedit with
    | kept => exact .inl rfl
    | labelled | jumped => exact .inl (part_scope_modify Scope.bindings _ _ _ fun _ ↦ rfl)
    | bound d standing bindings hfresh haccepted =>
      by_cases hcurrent : id = t.current
      · subst hcurrent
        refine .inr ⟨rfl, d, standing, hfresh, ?_⟩
        rw [scope_modify_self t _ hwf.current_lt]
        exact haccepted
      · exact .inl (by rw [scope_modify_of_ne t _ hcurrent])

/-! ## Bindings last -/

/-- What was bound is still bound, to the same declaration or to the definition it announced. -/
def Lasts (t t' : ScopeTree) : Prop :=
  ∀ id name d, (t.scope id).bindings.get? name = some d →
    ∃ e, (t'.scope id).bindings.get? name = some e ∧ d.Announces e

private theorem Step.lasts (hwf : t.WellFormed) (hstep : t.Step t') : t.Lasts t' := by
  intro id name d hbound
  rcases hstep.bindings_cases hwf id with hkept | ⟨-, e, standing, -, hok⟩
  · exact ⟨d, by rw [hkept]; exact hbound, .refl d⟩
  · exact Bindings.announces_of_declare hok hbound

/-- **Bindings last** as long as a run goes on. -/
theorem lasts_run (hwf : t.WellFormed) (rs : List Request) : t.Lasts (t.run rs) := by
  refine hwf.run_induction (P := t.Lasts) ?_ ?_ rs
  · intro t₁ t₂ hwf₁ hlasts hstep id name d hbound
    obtain ⟨e, he, hannounces⟩ := hlasts id name d hbound
    obtain ⟨f, hf, hnext⟩ := hstep.lasts hwf₁ id name e he
    exact ⟨f, hf, hannounces.trans hnext⟩
  · exact fun id name d hbound ↦ ⟨d, hbound, .refl d⟩

/-! ## The global scope and the seed -/

/-- What the global scope binds agrees with what the seed has under the name. -/
def AgreesWithSeed (t : ScopeTree) : Prop :=
  ∀ name d s, (t.scope 0).bindings.get? name = some d → t.seed.get? name = some s → s.AgreesWith d

theorem agreesWithSeed_new (seed : Seed) : (ScopeTree.new seed).AgreesWithSeed := by
  intro name d s hbound
  cases hbound

theorem AgreesWithSeed.step (hagrees : t.AgreesWithSeed) (hwf : t.WellFormed)
    (hstep : t.Step t') : t'.AgreesWithSeed := by
  intro name e s hbound hseed
  rw [hstep.seed_eq] at hseed
  rcases hstep.bindings_cases hwf 0 with hkept | ⟨hcurrent, d, standing, hfresh, hok⟩
  · rw [hkept] at hbound
    exact hagrees name e s hbound hseed
  · rw [Bindings.get?_of_declare hok] at hbound
    split at hbound
    · next hnew =>
      obtain ⟨rfl, -⟩ := hnew
      cases hbound
      have hkind : t.currentKind = .global := by
        rw [currentKind, currentScope, ← hcurrent]
        exact hwf.kind_zero
      rw [seedClash?, if_pos hkind, hseed] at hfresh
      simpa [Declaration.AgreesWith] using hfresh
    · exact hagrees name e s hbound hseed

private theorem agreesWithSeed_run (seed : Seed) (rs : List Request) :
    ((ScopeTree.new seed).run rs).AgreesWithSeed :=
  (wellFormed_new seed).run_induction (fun _ _ hwf hagrees ↦ hagrees.step hwf)
    (agreesWithSeed_new seed) rs

/-! ## All that a scope accepted -/

/-- The declaration that a request makes in a scope, if it is accepted. -/
def declared? (t : ScopeTree) (id : Nat) : Request → Option Declaration
  | .declare d => if t.current = id ∧ (t.declare d).isOk = true then some d else none
  | _ => none

/-- The declarations that are accepted in a scope in the course of some requests, in order. -/
def declaredIn (t : ScopeTree) (id : Nat) : List Request → List Declaration
  | [] => []
  | r :: rest => (t.declared? id r).toList ++ (t.apply r).declaredIn id rest

private theorem bindings_apply_of_none {r : Request} {id : Nat} (hnone : t.declared? id r = none) :
    ((t.apply r).scope id).bindings = (t.scope id).bindings := by
  cases r with
  | openScope kind name span =>
    rw [apply, perform, openScope_eq]
    split
    · exact bindings_opened t kind name span id
    · rfl
  | closeScope h span =>
    rw [apply, perform, closeScope_eq]
    split
    · exact bindings_closeInner t _ id
    · rfl
  | declare d =>
    by_cases hok : (t.declare d).isOk = true
    · obtain ⟨standing, bindings, -, -, happly⟩ := apply_declare_of_isOk hok
      have hother : id ≠ t.current := by
        rintro rfl
        simp [declared?, hok] at hnone
      rw [happly, scope_modify_of_ne t _ hother]
    · rw [apply_declare_of_not_isOk hok]
  | defineLabel name span =>
    rw [apply, perform, defineLabel]
    split
    · rfl
    · split
      · rfl
      · exact part_scope_modify Scope.bindings _ _ _ fun _ ↦ rfl
  | jumpTo name span =>
    rw [apply, perform, jumpTo]
    split
    · rfl
    · split
      · rfl
      · exact part_scope_modify Scope.bindings _ _ _ fun _ ↦ rfl

private theorem declare_of_declared? (hwf : t.WellFormed) {r : Request} {id : Nat} {d : Declaration}
    (hsome : t.declared? id r = some d) :
    ∃ standing, (t.scope id).bindings.declare d =
      .ok (standing, ((t.apply r).scope id).bindings) := by
  cases r with
  | declare e =>
    rw [declared?] at hsome
    split at hsome
    · next hmade =>
      obtain ⟨rfl, hok⟩ := hmade
      cases hsome
      obtain ⟨standing, bindings, -, haccepted, happly⟩ := apply_declare_of_isOk hok
      rw [happly, scope_modify_self t _ hwf.current_lt]
      exact ⟨standing, haccepted⟩
    · cases hsome
  | openScope | closeScope | defineLabel | jumpTo => cases hsome

private theorem records_apply (hwf : t.WellFormed) {id : Nat} {past : String → List Declaration}
    (hrecords : Records (t.scope id).bindings.get? past) (r : Request) :
    Records ((t.apply r).scope id).bindings.get? fun name ↦
      past name ++ (t.declared? id r).toList.filter (·.name = name) := by
  cases hmade : t.declared? id r with
  | none => simpa [bindings_apply_of_none hmade] using hrecords
  | some d =>
    obtain ⟨standing, hok⟩ := declare_of_declared? hwf hmade
    exact Bindings.records_of_declare hrecords hok

/-- **A scope records everything that it accepts.** -/
theorem records_run (hwf : t.WellFormed) {id : Nat} {past : String → List Declaration}
    (hrecords : Records (t.scope id).bindings.get? past) (rs : List Request) :
    Records ((t.run rs).scope id).bindings.get? fun name ↦
      past name ++ (t.declaredIn id rs).filter (·.name = name) := by
  induction rs generalizing t past with
  | nil => simpa [declaredIn, run] using hrecords
  | cons r rest ih =>
    have hrest := ih (wellFormed_apply hwf r) (records_apply hwf hrecords r)
    simpa only [declaredIn, run, List.foldl_cons, List.filter_append, List.append_assoc] using hrest

/-- The declarations that a run makes under one name in a scope agree, and what is bound to the name
is the one of them that stands. -/
theorem records_declaredIn (seed : Seed) (rs : List Request) (id : Nat) :
    Records (((ScopeTree.new seed).run rs).scope id).bindings.get? fun name ↦
      ((ScopeTree.new seed).declaredIn id rs).filter (·.name = name) := by
  have hempty : ((ScopeTree.new seed).scope id).bindings = .empty := by
    cases id with
    | zero => rfl
    | succ id =>
      rw [scope_of_length_le (by simp [new])]
      rfl
  exact records_run (wellFormed_new seed) (by rw [hempty]; exact records_none) rs

private theorem agreesWith_of_mem_declaredIn {seed : Seed} {rs : List Request} {name : String}
    {s e : Declaration} (hseed : seed.get? name = some s)
    (he : e ∈ ((ScopeTree.new seed).declaredIn 0 rs).filter (·.name = name)) :
    s.AgreesWith e := by
  have hrecords := records_declaredIn seed rs 0
  cases hstands : standing? (((ScopeTree.new seed).declaredIn 0 rs).filter (·.name = name)) with
  | none =>
    rw [standing?_eq_none_iff.mp hstands] at he
    cases he
  | some d =>
    have hd : s.AgreesWith d := agreesWithSeed_run seed rs name d s
      ((hrecords.find_eq name).trans hstands) (by rw [seed_run]; exact hseed)
    exact (((hrecords.agree name).forall_agreesWith_iff hstands).mpr hd.symm e he).symm

/-- The declarations that a run makes under one name in a scope agree, together with the one of the
seed if the scope is the global one. -/
private theorem agree_declaredIn (seed : Seed) (rs : List Request) (id : Nat) (name : String) :
    Agree ((if id = 0 then (seed.get? name).toList else []) ++
      ((ScopeTree.new seed).declaredIn id rs).filter (·.name = name)) := by
  have hagree := (records_declaredIn seed rs id).agree name
  split
  · next hglobal =>
    subst hglobal
    cases hseed : seed.get? name with
    | none => exact hagree
    | some s =>
      exact List.pairwise_cons.mpr ⟨fun e he ↦ agreesWith_of_mem_declaredIn hseed he, hagree⟩
  · exact hagree

/-! ## What is in sight -/

/-- A scope is open, and no scope inside it that is open too binds the name. -/
def InSight (t : ScopeTree) (id : Nat) (name : String) : Prop :=
  ∃ inner outer, t.openPath = inner ++ id :: outer ∧
    ∀ other ∈ inner, (t.scope other).bindings.get? name = none

private theorem lookup?_of_inSight (hwf : t.WellFormed) {id : Nat} {name : String} {d : Declaration}
    (hsight : t.InSight id name) (hbound : (t.scope id).bindings.get? name = some d) :
    t.lookup? name = some d := by
  obtain ⟨inner, outer, hpath, hfree⟩ := hsight
  rw [lookup?_eq_findSome? hwf, hpath, List.findSome?_append, List.findSome?_eq_none_iff.mpr hfree,
    List.findSome?_cons, hbound]
  rfl

private theorem assign_of_lookup? {name : String} {d : Declaration}
    (hfound : t.lookup? name = some d)
    (hfixed : d.isConst = true ∨ d.type.isReference = true) (span : Span) :
    t.assign name span = .error (.immutableBinding name d.type.isReference span d.span) := by
  rw [← Bool.or_eq_true] at hfixed
  rw [assign, hfound]
  exact if_pos hfixed

/-! ## The main result -/

/-- **The one-definition rule.** After any requests to a new tree, accepted or refused:

* the declarations that were accepted under one name in a scope, together with the one of the seed
  if the scope is the global one, are of the same type, and at most one of them is a definition;
* whatever requests follow, a name that is bound in a scope stays bound there, with the same type,
  and if it is bound to a definition then to this very one;
* so an assignment to a constant or a reference that was defined in a scope fails whenever the scope
  is open and no open scope inside it binds the name, and likewise for one of the seed while no open
  scope binds the name. -/
theorem one_definition_rule (seed : Seed) (rs : List Request) :
    let t := (ScopeTree.new seed).run rs
    (∀ id name,
      let ds := (if id = 0 then (seed.get? name).toList else []) ++
        ((ScopeTree.new seed).declaredIn id rs).filter (·.name = name)
      ds.Pairwise (fun d e ↦ d.type.same e.type = true) ∧ ds.countP (·.isDefinition) ≤ 1) ∧
    ∀ more,
      let t' := t.run more
      (∀ id name d, (t.scope id).bindings.get? name = some d →
        ∃ e, (t'.scope id).bindings.get? name = some e ∧
          e.type.canonical = d.type.canonical ∧ (d.isDefinition = true → e = d)) ∧
      (∀ id name d span, (t.scope id).bindings.get? name = some d → d.isDefinition = true →
        (d.isConst = true ∨ d.type.isReference = true) → t'.InSight id name →
        t'.assign name span =
          .error (.immutableBinding name d.type.isReference span d.span)) ∧
      ∀ name d span, seed.get? name = some d →
        (d.isConst = true ∨ d.type.isReference = true) →
        (∀ id ∈ t'.openPath, (t'.scope id).bindings.get? name = none) →
        t'.assign name span =
          .error (.immutableBinding name d.type.isReference span d.span) := by
  intro t
  refine ⟨fun id name ↦ agree_iff.mp (agree_declaredIn seed rs id name), fun more ↦ ?_⟩
  intro t'
  have hwf : t.WellFormed := wellFormed_run seed rs
  have hwf' : t'.WellFormed := hwf.run more
  have hlasts : t.Lasts t' := lasts_run hwf more
  refine ⟨?_, ?_, ?_⟩
  · intro id name d hbound
    obtain ⟨e, he, hannounces⟩ := hlasts id name d hbound
    exact ⟨e, he, hannounces.canonical_eq, hannounces.eq_of_isDefinition⟩
  · intro id name d span hbound hdefinition hfixed hsight
    obtain ⟨e, he, hannounces⟩ := hlasts id name d hbound
    obtain rfl := hannounces.eq_of_isDefinition hdefinition
    exact assign_of_lookup? (lookup?_of_inSight hwf' hsight he) hfixed span
  · intro name d span hseed hfixed hfree
    have hfound : t'.lookup? name = some d := by
      rw [lookup?_eq_findSome? hwf', List.findSome?_eq_none_iff.mpr hfree, seed_run, seed_run]
      exact hseed
    exact assign_of_lookup? hfound hfixed span

/-- A function may declare a variable under the name of a constant and assign to it. Once the
function is closed, an assignment meets the constant again. -/
theorem one_definition_rule_after_function :
    let constant : Declaration :=
      ⟨"x", .int, .static, .unitOnly, true, true, none, none, Span.zero⟩
    let inner : Declaration := { constant with linkage := .scopeOnly, isConst := false }
    let body : List Request := [.openScope .functionBody none Span.zero, .declare inner]
    let t := (ScopeTree.new .empty).run [.declare constant]
    let t' := t.run (body ++ [.closeScope ⟨1, 1⟩ Span.zero])
    (ScopeTree.new .empty).declaredIn 0 [.declare constant, .declare constant] = [constant] ∧
    (t.run body).assign "x" Span.zero = .ok inner ∧ t'.InSight 0 "x" ∧
    t'.assign "x" Span.zero = .error (.immutableBinding "x" false Span.zero Span.zero) := by
  intro constant inner body t t'
  have hsight : t'.InSight 0 "x" := ⟨[], [], by decide, by simp⟩
  have hbound : (t.scope 0).bindings.get? "x" = some constant := by decide
  obtain ⟨-, hassign, -⟩ := (one_definition_rule .empty [.declare constant]).2
    (body ++ [.closeScope ⟨1, 1⟩ Span.zero])
  exact ⟨by decide, rfl, hsight,
    hassign 0 "x" constant Span.zero hbound rfl (.inl rfl) hsight⟩

end ScopeTree

end DeclAnalysis
