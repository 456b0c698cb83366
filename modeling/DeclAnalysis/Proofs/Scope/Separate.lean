import DeclAnalysis.Proofs.Agreement
import DeclAnalysis.Proofs.Scope.SeedBuilding

/-!
# Declaring against a seed and declaring everything in one place

The declarations that a program shares between its units can be put into a seed first, and then each
unit declares its own in a tree over that seed. Or they can all be declared, one after another, in a
single tree. The two ways check differently. Over a seed a declaration is compared with the frozen
declaration of the seed and with the one that stands in the unit; in the single tree it is compared
once, with a declaration that a later definition may have replaced.

`Separates` is what relates the two: the seed has accepted some declarations, the unit has accepted
others, and the single tree has accepted both. Each side refuses what disagrees with any of them.
-/

namespace DeclAnalysis

namespace ScopeTree

/-! ## Trees with the global scope alone -/

section Global

variable {seed : Seed} {b : Bindings} {shared own : String → List Declaration}

private theorem exists_apply_ofGlobal {d : Declaration}
    (hok : ((ofGlobal seed b).declare d).isOk = true) :
    ∃ standing b', b.declare d = .ok (standing, b') ∧
      (ofGlobal seed b).apply (.declare d) = ofGlobal seed b' := by
  obtain ⟨standing, b', -, haccepted, happly⟩ := apply_declare_of_isOk hok
  exact ⟨standing, b', haccepted, happly⟩

/-- A declaration is accepted if it agrees with what the seed has accepted under its name and with
what the scope has accepted. -/
private theorem isOk_declare_ofGlobal_iff (hseed : Records seed.get? shared)
    (hown : Records b.get? own) (d : Declaration) :
    ((ofGlobal seed b).declare d).isOk = true ↔
      ∀ e ∈ shared d.name ++ own d.name, e.AgreesWith d := by
  rw [List.forall_mem_append, ← hseed.filter_clashesWith_eq_none_iff d,
    ← hown.filter_clashesWith_eq_none_iff d, ← Bindings.isOk_declare_iff]
  have hseedClash : (ofGlobal seed b).seedClash? d =
      (seed.get? d.name).filter (·.clashesWith d) := rfl
  have hbindings : (ofGlobal seed b).currentScope.bindings = b := rfl
  rw [declare, hseedClash, hbindings]
  cases (seed.get? d.name).filter (·.clashesWith d) with
  | some previous => simp [Except.toBool]
  | none => cases b.declare d <;> simp [Except.toBool]

end Global

/-- Which of some declarations are accepted when they are made one after another. -/
def verdicts (t : ScopeTree) : List Declaration → List Bool
  | [] => []
  | d :: rest => (t.declare d).isOk :: (t.apply (.declare d)).verdicts rest

private theorem verdicts_append (t : ScopeTree) (ds es : List Declaration) :
    t.verdicts (ds ++ es) = t.verdicts ds ++ (t.run (ds.map .declare)).verdicts es := by
  induction ds generalizing t with
  | nil => rfl
  | cons d rest ih => exact congrArg (_ :: ·) (ih (t.apply (.declare d)))

private theorem Follows.verdicts_of_declareAll {t : ScopeTree} {s : Seed} (hfollows : t.Follows s)
    {ds : List Declaration} (hall : (s.declareAll ds).2 = []) :
    t.verdicts ds = ds.map fun _ ↦ true := by
  induction ds generalizing t s with
  | nil => rfl
  | cons d rest ih =>
    rw [Seed.declareAll] at hall
    rcases hfollows.declare d with ⟨e, -, hseed⟩ | ⟨standing, t', s', htree, hseed, hnext⟩
    · simp [hseed] at hall
    · rw [hseed] at hall
      rw [verdicts, apply_declare_of_ok htree, htree]
      exact congrArg (_ :: ·) (ih hnext hall)

/-! ## The two ways side by side -/

/-- A tree over a seed that has accepted some declarations, beside a tree over no seed that has
accepted those and the ones of the first tree. -/
inductive Separates (shared : String → List Declaration) : ScopeTree → ScopeTree → Prop
  | intro {seed : Seed} {b whole : Bindings} {own : String → List Declaration}
      (seed_records : Records seed.get? shared) (own_records : Records b.get? own)
      (whole_records : Records whole.get? fun name ↦ shared name ++ own name) :
      Separates shared (ofGlobal seed b) (ofGlobal .empty whole)

namespace Separates

variable {shared : String → List Declaration} {unit whole : ScopeTree}

private theorem isOk_declare_eq (hsep : Separates shared unit whole) (d : Declaration) :
    (unit.declare d).isOk = (whole.declare d).isOk := by
  obtain ⟨hseed, hown, hwhole⟩ := hsep
  have hempty : Records Seed.empty.get? fun _ ↦ [] := records_none
  rw [Bool.eq_iff_iff, isOk_declare_ofGlobal_iff hseed hown,
    isOk_declare_ofGlobal_iff hempty hwhole, List.nil_append]

/-- **One declaration.** Both trees take it or neither does. -/
theorem apply (hsep : Separates shared unit whole) (d : Declaration) :
    Separates shared (unit.apply (.declare d)) (whole.apply (.declare d)) := by
  have hverdict := hsep.isOk_declare_eq d
  by_cases hok : (unit.declare d).isOk = true
  · obtain ⟨hseed, hown, hwhole⟩ := hsep
    obtain ⟨_, b', hb', hunit⟩ := exists_apply_ofGlobal hok
    obtain ⟨_, whole', hwhole', htree⟩ := exists_apply_ofGlobal (hverdict ▸ hok)
    rw [hunit, htree]
    refine .intro hseed (Bindings.records_of_declare hown hb') ?_
    simpa only [List.append_assoc] using Bindings.records_of_declare hwhole hwhole'
  · rw [apply_declare_of_not_isOk hok, apply_declare_of_not_isOk (hverdict ▸ hok)]
    exact hsep

theorem run (hsep : Separates shared unit whole) (ds : List Declaration) :
    Separates shared (unit.run (ds.map .declare)) (whole.run (ds.map .declare)) := by
  induction ds generalizing unit whole with
  | nil => exact hsep
  | cons d rest ih => exact ih (hsep.apply d)

private theorem verdicts_eq (hsep : Separates shared unit whole) (ds : List Declaration) :
    unit.verdicts ds = whole.verdicts ds := by
  induction ds generalizing unit whole with
  | nil => rfl
  | cons d rest ih =>
    rw [verdicts, verdicts, hsep.isOk_declare_eq d, ih (hsep.apply d)]

private theorem lookup?_rel (hsep : Separates shared unit whole) (name : String) :
    Option.Rel (fun d e ↦ d.type.same e.type = true) (unit.lookup? name) (whole.lookup? name) := by
  obtain ⟨hseed, hown, hwhole⟩ := hsep
  rw [lookup?_ofGlobal, lookup?_ofGlobal, hseed.find_eq, hown.find_eq, hwhole.find_eq,
    Seed.get?_empty, Option.or_none]
  exact (hwhole.agree name).standing?_append_rel

/-- **At the start.** An empty unit over a seed stands beside the tree that has all that the seed
was built of. -/
theorem of_declareAll {seed : Seed} {ds : List Declaration}
    (hbuilt : Seed.empty.declareAll ds = (seed, [])) :
    Separates (fun name ↦ ds.filter (·.name = name)) (new seed)
      ((new .empty).run (ds.map .declare)) := by
  have hrecords := Seed.records_declareAll (s := .empty) records_none (by rw [hbuilt])
  have hfollows := (Follows.start.run ds).1
  rw [hbuilt] at hrecords hfollows
  -- the bindings of the single tree have the names of the seed
  generalize (new .empty).run (ds.map .declare) = whole at hfollows ⊢
  obtain ⟨hmirrors⟩ := hfollows
  refine .intro hrecords records_none ?_
  rw [funext hmirrors]
  simpa using hrecords

end Separates

/-! ## The main result -/

/-- **Separate declaring agrees with declaring everything in one place.** A seed is built of shared
declarations, none of which is refused. Then declaring those of a unit over that seed accepts and
refuses the same ones as declaring the shared ones and then those of the unit over no seed; the
shared ones are all accepted there. After every declaration of the unit both trees know the same
names, with the same types. -/
theorem verdicts_separate {shared : List Declaration} {seed : Seed}
    (hbuilt : Seed.empty.declareAll shared = (seed, [])) (unit : List Declaration) :
    (new .empty).verdicts (shared ++ unit) =
      (shared.map fun _ ↦ true) ++ (new seed).verdicts unit ∧
    ∀ n name,
      Option.Rel (fun d e ↦ d.type.same e.type = true)
        (((new seed).run ((unit.take n).map .declare)).lookup? name)
        (((new .empty).run ((shared ++ unit.take n).map .declare)).lookup? name) := by
  have hsep := Separates.of_declareAll hbuilt
  have hshared : (new .empty).verdicts shared = shared.map fun _ ↦ true :=
    Follows.start.verdicts_of_declareAll (by rw [hbuilt])
  refine ⟨?_, fun n name ↦ ?_⟩
  · rw [verdicts_append, hshared, hsep.verdicts_eq]
  · rw [List.map_append, ScopeTree.run, ScopeTree.run, List.foldl_append]
    exact (hsep.run (unit.take n)).lookup?_rel name

/-- A variable that every unit can see, declared at no place in particular. -/
def sharedVariable (name : String) (type : Ty) (isDefinition : Bool) : Declaration where
  name := name
  type := type
  storage := .static
  linkage := .everywhere
  isConst := false
  isDefinition := isDefinition
  init := none
  constant := none
  span := Span.zero

/-- The shared `x` is declared behind an alias and then defined. The unit may declare it again, but
neither define it nor give it another type; its own `y` it may define once. -/
theorem verdicts_separate_redefined :
    let shared := [sharedVariable "x" (.named "T" .int) false, sharedVariable "x" .int true]
    let seed : Seed := ⟨⟨[("x", sharedVariable "x" .int true)]⟩⟩
    let unit := [sharedVariable "x" .int false, sharedVariable "x" .int true,
      sharedVariable "x" .bool false, sharedVariable "y" .bool true, sharedVariable "y" .bool false,
      sharedVariable "y" .bool true]
    Seed.empty.declareAll shared = (seed, []) ∧
    (new seed).verdicts unit = [true, false, false, true, true, false] ∧
    (new .empty).verdicts (shared ++ unit) =
      [true, true] ++ [true, false, false, true, true, false] ∧
    Option.Rel (fun d e ↦ d.type.same e.type = true)
      (((new seed).run (unit.map .declare)).lookup? "x")
      (((new .empty).run ((shared ++ unit).map .declare)).lookup? "x") := by
  intro shared seed unit
  have hbuilt : Seed.empty.declareAll shared = (seed, []) := by decide
  have hverdicts : (new seed).verdicts unit = [true, false, false, true, true, false] := by decide
  obtain ⟨hwhole, hlookup⟩ := verdicts_separate hbuilt unit
  exact ⟨hbuilt, hverdicts, hverdicts ▸ hwhole, hlookup unit.length "x"⟩

end ScopeTree

end DeclAnalysis
