import DeclAnalysis.Proofs.Scope.Step
import DeclAnalysis.Proofs.Seed

/-!
# Building a seed and filling a global scope

A seed takes declarations under the rules of the global scope, but it knows no scopes: it is a table
of names. A global scope stands in a tree, and a declaration in it is held against the seed of the
tree before it is held against the scope. Here the two are compared one declaration at a time.

A tree over the empty seed that is given the declarations of a seed has its global scope and nothing
else, and the scope has the names of the seed (`Follows`). One declaration keeps it so, accepted or
refused (`Follows.declare`), and hence any number of them do (`Follows.run`). So both refuse the
same declarations and blame the same earlier ones, and at every moment they know the same names.
-/

namespace DeclAnalysis

/-- What becomes of declarations that a seed is given one after another: the errors of those that
are refused, each in its place. -/
def Seed.refusals (s : Seed) : List Declaration → List (Option Error)
  | [] => []
  | d :: rest =>
    match s.declare d with
    | .ok s' => none :: s'.refusals rest
    | .error e => some e :: s.refusals rest

/-- A name has a new declaration if it had none, or one that the new declaration defines without
a clash. -/
private theorem Seed.get?_declareAll_singleton (s : Seed) (d : Declaration) (name : String) :
    (s.declareAll [d]).1.get? name =
      if name = d.name ∧
          (s.get? name).all (fun previous ↦ d.isDefinition && !previous.clashesWith d) = true
      then some d else s.get? name := by
  rw [declareAll]
  rcases hdeclare : s.declare d with e | s'
  · obtain ⟨previous, hfound, hclash, -⟩ := declare_eq_error_iff.mp hdeclare
    refine (if_neg ?_).symm
    rintro ⟨rfl, hall⟩
    simp [hfound, hclash] at hall
  · change s'.get? name = _
    rw [get?_of_declare hdeclare]
    by_cases hname : name = d.name
    · rcases hfound : s.get? d.name with - | previous
      · simp [hname, hfound]
      · simp [hname, hfound, clashesWith_of_declare hdeclare hfound]
    · simp [hname]

namespace ScopeTree

/-- The same for declarations that are made in the current scope of a tree. -/
def refusals (t : ScopeTree) : List Declaration → List (Option Error)
  | [] => []
  | d :: rest =>
    match t.declare d with
    | .ok (_, t') => none :: t'.refusals rest
    | .error e => some e :: t.refusals rest

/-! ## Trees with the global scope alone -/

/-- A tree whose only scope is the global one. -/
def ofGlobal (seed : Seed) (b : Bindings) : ScopeTree :=
  ⟨[{ Scope.root with bindings := b }], [0], seed⟩

theorem lookup?_ofGlobal (seed : Seed) (b : Bindings) (name : String) :
    (ofGlobal seed b).lookup? name = (b.get? name).or (seed.get? name) := by
  rw [lookup?]
  cases hfound : b.get? name <;> simp [enclosing, ancestors, ofGlobal, scope, current, Scope.root,
    Scope.new, hfound]

/-- A tree over the empty seed that has the names of a seed in its global scope and no other
scope. -/
inductive Follows : ScopeTree → Seed → Prop
  | intro {b : Bindings} {s : Seed} (mirrors : b.Mirrors s) : Follows (ofGlobal .empty b) s

namespace Follows

variable {t : ScopeTree} {s : Seed}

theorem start : (new .empty).Follows .empty := .intro Bindings.mirrors_empty

private theorem lookup?_eq (hfollows : t.Follows s) (name : String) :
    t.lookup? name = s.get? name := by
  obtain ⟨hmirrors⟩ := hfollows
  rw [lookup?_ofGlobal, Seed.get?_empty, Option.or_none, hmirrors]

/-- **One declaration.** The tree and the seed refuse it with the same error, or they accept it and
the one follows the other again. -/
theorem declare (hfollows : t.Follows s) (d : Declaration) :
    (∃ e, t.declare d = .error e ∧ s.declare d = .error e) ∨
    ∃ standing t' s', t.declare d = .ok (standing, t') ∧ s.declare d = .ok s' ∧ t'.Follows s' := by
  obtain @⟨b, s, hmirrors⟩ := hfollows
  -- over the empty seed the bindings of the scope decide
  have hclash : (ofGlobal .empty b).seedClash? d = none := rfl
  have hbindings : (ofGlobal .empty b).currentScope.bindings = b := rfl
  rw [ScopeTree.declare, hclash, hbindings]
  rcases hmirrors.declare d with
    ⟨previous, hrefused, hseed⟩ | ⟨standing, b', s', haccepted, hseed, hmirrors'⟩
  · rw [hrefused]
    exact .inl ⟨_, rfl, hseed⟩
  · rw [haccepted]
    exact .inr ⟨standing, ofGlobal .empty b', s', rfl, hseed, .intro hmirrors'⟩

theorem declare_eq_error_iff (hfollows : t.Follows s) {d : Declaration} {e : Error} :
    s.declare d = .error e ↔ t.declare d = .error e := by
  rcases hfollows.declare d with ⟨e', htree, hseed⟩ | ⟨standing, t', s', htree, hseed, -⟩
  · rw [htree, hseed]
    simp
  · simp [htree, hseed]

/-- **One declaration after another**, whatever is refused on the way. -/
theorem run (hfollows : t.Follows s) (ds : List Declaration) :
    (t.run (ds.map .declare)).Follows (s.declareAll ds).1 ∧ t.refusals ds = s.refusals ds := by
  induction ds generalizing t s with
  | nil => exact ⟨hfollows, rfl⟩
  | cons d rest ih =>
    rw [List.map_cons, ScopeTree.run, List.foldl_cons, ← ScopeTree.run, Seed.declareAll, refusals,
      Seed.refusals]
    rcases hfollows.declare d with ⟨e, htree, hseed⟩ | ⟨standing, t', s', htree, hseed, hnext⟩
    · have happly : t.apply (.declare d) = t := apply_of_error (by rw [perform, htree]; rfl)
      rw [happly, htree, hseed]
      exact ⟨(ih hfollows).1, congrArg (_ :: ·) (ih hfollows).2⟩
    · rw [apply_declare_of_ok htree, htree, hseed]
      exact ⟨(ih hnext).1, congrArg (_ :: ·) (ih hnext).2⟩

end Follows

/-- **A seed is built by the rules of the global scope.** Declarations are given, one after another,
to an empty seed and to the global scope of a tree over the empty seed. Both refuse the same ones,
with the same errors. After any number of them

* both know the same names, each by the same declaration;
* either refuses the next one exactly if it clashes with the declaration that the name has by then;
  the error names the global scope and the places of both;
* in both, after the next one its name has it as its declaration if the name had none, or one that
  it defines without a clash; everything else stays as it is. -/
theorem seed_follows_global_scope (ds : List Declaration) :
    Seed.empty.refusals ds = (new .empty).refusals ds ∧
    ∀ n,
      let s := (Seed.empty.declareAll (ds.take n)).1
      let t := (new .empty).run ((ds.take n).map .declare)
      (∀ name, s.get? name = t.lookup? name) ∧
      (∀ d e, (s.declare d = .error e ↔ t.declare d = .error e) ∧
        (t.declare d = .error e ↔
          ∃ previous, t.lookup? d.name = some previous ∧ previous.clashesWith d = true ∧
            e = .redefinition d.name .global d.span previous.span)) ∧
      ∀ d name, (s.declareAll [d]).1.get? name = (t.apply (.declare d)).lookup? name ∧
        (t.apply (.declare d)).lookup? name =
          if name = d.name ∧
              (t.lookup? name).all (fun previous ↦ d.isDefinition && !previous.clashesWith d) = true
          then some d else t.lookup? name := by
  refine ⟨(Follows.start.run ds).2.symm, fun n ↦ ?_⟩
  intro s t
  have hfollows : t.Follows s := (Follows.start.run (ds.take n)).1
  refine ⟨fun name ↦ (hfollows.lookup?_eq name).symm, fun d e ↦ ?_, fun d name ↦ ?_⟩
  · refine ⟨hfollows.declare_eq_error_iff, ?_⟩
    rw [← hfollows.declare_eq_error_iff, hfollows.lookup?_eq]
    exact Seed.declare_eq_error_iff
  · have hnext : (t.apply (.declare d)).Follows (s.declareAll [d]).1 := (hfollows.run [d]).1
    rw [hnext.lookup?_eq, hfollows.lookup?_eq]
    exact ⟨rfl, s.get?_declareAll_singleton d name⟩

end ScopeTree

end DeclAnalysis
