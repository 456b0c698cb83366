import DeclAnalysis.Proofs.Scope.OpenPath

/-!
# Labels and jumps

A function keeps the labels that are defined in it and, of its jumps, those that came before their
label. The jumps are held against the labels when the function is closed. So what the scope keeps is
not what was asked of it: a jump that comes after its label leaves no trace, and one that came
before stays on the list when its label has come. Closing empties the list.

This module follows a run of requests with the requests that were made while a function was the
innermost one that is open (`madeIn`), and those of them that were accepted (`acceptedIn`). As long
as the function is not closed, the jumps that it keeps and the jumps that were made differ only in
jumps that some label answers (`Scope.Notes`). Requests made inside another function, be it one
inside a class of this function, do not enter either side.
-/

namespace DeclAnalysis

/-! ## Jumps that no label answers -/

/-- The jumps to names that are not among the labels. -/
def unanswered (labels jumps : List (String × Span)) : List (String × Span) :=
  jumps.filter fun j ↦ j.1 ∉ labels.map (·.1)

/-- The error of a jump to a label that its function does not have. -/
def strayJump (j : String × Span) : Error := .undeclaredLabel j.1 j.2

private theorem unanswered_append (labels jumps more : List (String × Span)) :
    unanswered labels (jumps ++ more) = unanswered labels jumps ++ unanswered labels more :=
  List.filter_append ..

private theorem unanswered_append_label (labels jumps : List (String × Span)) (l : String × Span) :
    unanswered (labels ++ [l]) jumps = (unanswered labels jumps).filter (·.1 ≠ l.1) := by
  rw [unanswered, unanswered, List.filter_filter]
  refine List.filter_congr fun j _ ↦ ?_
  by_cases hsame : j.1 = l.1 <;> simp [hsame]

private theorem unanswered_singleton_of_mem {labels : List (String × Span)} {j : String × Span}
    (hmem : j.1 ∈ labels.map (·.1)) : unanswered labels [j] = [] := by
  simp only [unanswered, List.filter_singleton, hmem]
  rfl

private theorem unanswered_congr {labels labels' : List (String × Span)}
    (hnames : ∀ name, name ∈ labels.map (·.1) ↔ name ∈ labels'.map (·.1))
    (jumps : List (String × Span)) : unanswered labels jumps = unanswered labels' jumps := by
  refine List.filter_congr fun j _ ↦ ?_
  simp only [hnames j.1]

namespace Scope

private theorem label?_eq_none_iff {s : Scope} {name : String} :
    s.label? name = none ↔ name ∉ s.labels.map (·.1) := by
  rw [label?, Option.map_eq_none_iff, List.find?_eq_none]
  simp only [List.mem_map, not_exists, not_and, decide_eq_true_eq]

theorem unresolved_eq (s : Scope) : s.unresolved = (unanswered s.labels s.gotos).map strayJump := by
  rw [unresolved, unanswered]
  congr 1
  refine List.filter_congr fun j _ ↦ ?_
  rw [Bool.eq_iff_iff, Option.isNone_iff_eq_none, label?_eq_none_iff, decide_eq_true_iff]

/-! ## What a scope keeps of its labels and jumps -/

/-- The scope has the given labels, and it keeps the given jumps but for some that are answered.
Only functions have jumps. -/
structure Notes (s : Scope) (labels jumps : List (String × Span)) : Prop where
  labels_eq : s.labels = labels
  unanswered_eq : unanswered labels s.gotos = unanswered labels jumps
  eq_nil_of_kind_ne : s.kind ≠ .functionBody → jumps = []

namespace Notes

variable {s s' : Scope} {labels jumps : List (String × Span)}

/-- **The errors of a scope that is closed** are those of all its jumps that no label answers. -/
theorem unresolved_eq (hnotes : s.Notes labels jumps) :
    s.unresolved = (unanswered labels jumps).map strayJump := by
  rw [Scope.unresolved_eq, hnotes.labels_eq, hnotes.unanswered_eq]

theorem of_eq (hnotes : s.Notes labels jumps)
    (hsame : (s'.kind, s'.labels, s'.gotos) = (s.kind, s.labels, s.gotos)) :
    s'.Notes labels jumps := by
  simp only [Prod.mk.injEq] at hsame
  obtain ⟨hkind, hlabels, hgotos⟩ := hsame
  exact ⟨hlabels.trans hnotes.labels_eq, hgotos ▸ hnotes.unanswered_eq,
    fun hother ↦ hnotes.eq_nil_of_kind_ne (hkind ▸ hother)⟩

private theorem define (hnotes : s.Notes labels jumps) (l : String × Span) :
    { s with labels := s.labels ++ [l] }.Notes (labels ++ [l]) jumps where
  labels_eq := congrArg (· ++ [l]) hnotes.labels_eq
  unanswered_eq := by
    rw [unanswered_append_label, unanswered_append_label, ← hnotes.unanswered_eq]
  eq_nil_of_kind_ne := hnotes.eq_nil_of_kind_ne

theorem jump (hnotes : s.Notes labels jumps) (hkind : s.kind = .functionBody)
    (j : String × Span) : { s with gotos := s.gotos ++ [j] }.Notes labels (jumps ++ [j]) where
  labels_eq := hnotes.labels_eq
  unanswered_eq := by rw [unanswered_append, unanswered_append, hnotes.unanswered_eq]
  eq_nil_of_kind_ne hother := absurd hkind hother

private theorem jump_back (hnotes : s.Notes labels jumps) (hkind : s.kind = .functionBody)
    {j : String × Span} (hmem : j.1 ∈ labels.map (·.1)) : s.Notes labels (jumps ++ [j]) where
  labels_eq := hnotes.labels_eq
  unanswered_eq := by
    rw [unanswered_append, unanswered_singleton_of_mem hmem, List.append_nil,
      hnotes.unanswered_eq]
  eq_nil_of_kind_ne hother := absurd hkind hother

end Notes

end Scope

namespace ScopeTree

variable {t t' : ScopeTree} {id : Nat}

/-! ## Scopes that are not closed -/

/-- The scope of a number is open, or none has the number yet. -/
def NotYetClosed (t : ScopeTree) (id : Nat) : Prop := id < t.scopes.length → id ∈ t.openPath

private theorem NotYetClosed.of_step (hlater : t'.NotYetClosed id) (hstep : t.Step t') :
    t.NotYetClosed id := by
  intro hbound
  cases hstep with
  | opened kind name span hnests =>
    have hmem := hlater (by rw [length_scopes_opened]; omega)
    exact (List.mem_cons.mp hmem).resolve_left (Nat.ne_of_lt hbound)
  | closed n hproper =>
    exact List.mem_of_mem_drop (hlater (by rwa [length_scopes_closeInner]))
  | edited hedit =>
    exact hedit.openPath_eq ▸ hlater (by rwa [hedit.length_eq])

theorem NotYetClosed.of_run {rs : List Request} (hlater : (t.run rs).NotYetClosed id) :
    t.NotYetClosed id := by
  refine run_induction (P := fun t' ↦ t'.NotYetClosed id → t.NotYetClosed id)
    (fun t₁ t₂ hearlier hstep hopen ↦ ?_) (fun hopen ↦ hopen) rs hlater
  exact hearlier (hopen.of_step hstep)

private theorem NotYetClosed.of_apply {r : Request} (hlater : (t.apply r).NotYetClosed id) :
    t.NotYetClosed id := @of_run t id [r] hlater

/-! ## The requests of a function -/

/-- The label that a request asks for. -/
def Request.label? : Request → Option (String × Span)
  | .defineLabel name span => some (name, span)
  | _ => none

/-- The jump that a request asks for. -/
def Request.jump? : Request → Option (String × Span)
  | .jumpTo name span => some (name, span)
  | _ => none

private theorem Request.exists_of_label? {r : Request} (hlabel : r.label? ≠ none) :
    ∃ name span, r = .defineLabel name span := by
  rcases r with _ | _ | _ | ⟨name, span⟩ | _
  case defineLabel => exact ⟨name, span, rfl⟩
  all_goals exact absurd rfl hlabel

private theorem Request.exists_of_jump? {r : Request} (hjump : r.jump? ≠ none) :
    ∃ name span, r = .jumpTo name span := by
  rcases r with _ | _ | _ | _ | ⟨name, span⟩
  case jumpTo => exact ⟨name, span, rfl⟩
  all_goals exact absurd rfl hjump

/-- A request that is made while a function is the innermost one that is open. -/
def made? (id : Nat) (t : ScopeTree) (r : Request) : Option Request :=
  if t.function? = some id then some r else none

/-- The same if the request is accepted, too. -/
def accepted? (id : Nat) (t : ScopeTree) (r : Request) : Option Request :=
  if t.function? = some id ∧ (t.perform r).isOk = true then some r else none

private theorem made?_of_ne (t : ScopeTree) (r : Request) (hother : t.function? ≠ some id) :
    made? id t r = none := if_neg hother

private theorem accepted?_of_ne (t : ScopeTree) (r : Request) (hother : t.function? ≠ some id) :
    accepted? id t r = none := if_neg fun haccepted ↦ hother haccepted.1

private theorem bind_made? {α : Type} (f : Request → Option α) (id : Nat) (t : ScopeTree)
    (r : Request) : (made? id t r).bind f = if t.function? = some id then f r else none := by
  rw [made?]
  split <;> rfl

private theorem bind_accepted? {α : Type} (f : Request → Option α) (id : Nat) (t : ScopeTree)
    (r : Request) :
    (accepted? id t r).bind f =
      if t.function? = some id ∧ (t.perform r).isOk = true then f r else none := by
  rw [accepted?]
  split <;> rfl

/-- What is told of some requests one after another. -/
def trace {α : Type} (tell? : ScopeTree → Request → Option α) (t : ScopeTree) :
    List Request → List α
  | [] => []
  | r :: rest => (tell? t r).toList ++ (t.apply r).trace tell? rest

/-- The requests that are made while a function is the innermost one that is open, in order. -/
def madeIn (t : ScopeTree) (id : Nat) (rs : List Request) : List Request := t.trace (made? id) rs

/-- Those of them that are accepted. -/
def acceptedIn (t : ScopeTree) (id : Nat) (rs : List Request) : List Request :=
  t.trace (accepted? id) rs

/-- The errors of the jumps that are made in a function while no label of their name is accepted
there, neither before nor after them. -/
def straysIn (t : ScopeTree) (id : Nat) (rs : List Request) : List Error :=
  (unanswered ((t.acceptedIn id rs).filterMap Request.label?)
    ((t.madeIn id rs).filterMap Request.jump?)).map strayJump

private theorem trace_append {α : Type} (tell? : ScopeTree → Request → Option α) (t : ScopeTree)
    (rs more : List Request) :
    t.trace tell? (rs ++ more) = t.trace tell? rs ++ (t.run rs).trace tell? more := by
  induction rs generalizing t with
  | nil => rfl
  | cons r rest ih =>
    rw [List.cons_append, trace, trace, ih, List.append_assoc]
    rfl

private theorem run_concat (t : ScopeTree) (rs : List Request) (r : Request) :
    t.run (rs ++ [r]) = (t.run rs).apply r := List.foldl_append ..

private theorem filterMap_trace_concat {α β : Type} (tell? : ScopeTree → Request → Option α)
    (f : α → Option β) (t : ScopeTree) (rs : List Request) (r : Request) :
    (t.trace tell? (rs ++ [r])).filterMap f =
      (t.trace tell? rs).filterMap f ++ ((tell? (t.run rs) r).bind f).toList := by
  rw [trace_append, List.filterMap_append, trace, trace, List.append_nil]
  rcases tell? (t.run rs) r with - | a
  · rfl
  · rw [Option.toList_some, List.filterMap_cons, List.filterMap_nil, Option.bind_some]
    rcases f a with - | b <;> rfl

private theorem mem_of_function? (hinner : t.function? = some id) :
    id ∈ t.openPath ∧ (t.scope id).kind = .functionBody := by
  refine ⟨List.mem_of_find?_eq_some hinner, ?_⟩
  simpa using List.find?_some hinner

/-! ## One request -/

section OneRequest

variable {labels jumps : List (String × Span)}

private theorem notes_opened (hnotes : (t.scope id).Notes labels jumps) (kind : ScopeKind)
    (name : Option String) (span : Span) :
    ((t.opened kind name span).scope id).Notes labels jumps := by
  rcases Nat.lt_trichotomy id t.scopes.length with hold | rfl | hbeyond
  · exact hnotes.of_eq (part_scope_opened (fun s ↦ (s.kind, s.labels, s.gotos)) t kind name span
      hold fun _ _ ↦ rfl)
  · -- nothing was asked of a scope before it was opened
    rw [scope_of_length_le le_rfl] at hnotes
    have hjumps : jumps = [] := hnotes.eq_nil_of_kind_ne (by decide)
    rw [scope_opened_new]
    exact ⟨hnotes.labels_eq, hnotes.unanswered_eq, fun _ ↦ hjumps⟩
  · rw [scope_of_length_le hbeyond.le] at hnotes
    rwa [scope_of_length_le (by rw [length_scopes_opened]; exact hbeyond)]

private theorem notes_closeInner (hwf : t.WellFormed) {n : Nat}
    (hnotes : (t.scope id).Notes labels jumps) (hopen : (t.closeInner n).NotYetClosed id) :
    ((t.closeInner n).scope id).Notes labels jumps := by
  by_cases hbound : id < t.scopes.length
  · have hstays : id ∈ t.openPath.drop n := hopen (by rwa [length_scopes_closeInner])
    have hapart : id ∉ t.openPath.take n := fun hclosed ↦
      List.disjoint_take_drop hwf.nodup (le_refl n) hclosed hstays
    rwa [scope_closeInner t n hbound, if_neg hapart]
  · rw [scope_of_length_le (Nat.not_lt.mp hbound)] at hnotes
    rwa [scope_of_length_le (by rw [length_scopes_closeInner]; exact Nat.not_lt.mp hbound)]

private theorem notes_bound (hnotes : (t.scope id).Notes labels jumps) (bindings : Bindings) :
    ((t.modify t.current fun s ↦ { s with bindings := bindings }).scope id).Notes labels jumps :=
  hnotes.of_eq (part_scope_modify (fun s ↦ (s.kind, s.labels, s.gotos)) t _ id fun _ ↦ rfl)

private theorem notes_edit (hnotes : (t.scope id).Notes labels jumps) (hedit : t.Edit t')
    (hother : t.function? ≠ some id) : (t'.scope id).Notes labels jumps := by
  cases hedit with
  | kept => exact hnotes
  | bound d standing bindings => exact notes_bound hnotes bindings
  | labelled f name span hinner hfresh | jumped f name span hinner hpending =>
    have hne : id ≠ f := by
      rintro rfl
      exact hother hinner
    rwa [scope_modify_of_ne t _ hne]

/-- **A label.** It is noted in the innermost function, unless that has one of its name. -/
theorem notes_defineLabel (hwf : t.WellFormed) (hnotes : (t.scope id).Notes labels jumps)
    (name : String) (span : Span) :
    ((t.apply (.defineLabel name span)).scope id).Notes
      (labels ++ ((accepted? id t (.defineLabel name span)).bind Request.label?).toList) jumps := by
  rcases houtcome : t.perform (.defineLabel name span) with e | t'
  · have htold : accepted? id t (.defineLabel name span) = none :=
      if_neg fun haccepted ↦ by simp [houtcome, Except.toBool] at haccepted
    rw [htold, apply_of_error houtcome]
    simpa using hnotes
  rw [apply_of_ok houtcome]
  by_cases hinner : t.function? = some id
  · have htold : accepted? id t (.defineLabel name span) = some (.defineLabel name span) :=
      if_pos ⟨hinner, by rw [houtcome]; rfl⟩
    rw [perform, defineLabel, hinner] at houtcome
    dsimp only at houtcome
    split at houtcome
    · cases houtcome
    · cases houtcome
      rw [htold, scope_modify_self t _ (hwf.lt_length id (mem_of_function? hinner).1)]
      exact hnotes.define (name, span)
  · have htold : accepted? id t (.defineLabel name span) = none :=
      if_neg fun haccepted ↦ hinner haccepted.1
    rw [htold]
    simpa using notes_edit hnotes (edit_of_defineLabel houtcome) hinner

/-- **A jump.** It is kept in the innermost function, unless its label is there already. -/
theorem notes_jumpTo (hwf : t.WellFormed) (hnotes : (t.scope id).Notes labels jumps)
    (name : String) (span : Span) :
    ((t.apply (.jumpTo name span)).scope id).Notes labels
      (jumps ++ ((made? id t (.jumpTo name span)).bind Request.jump?).toList) := by
  by_cases hinner : t.function? = some id
  · obtain ⟨hmem, hkind⟩ := mem_of_function? hinner
    rw [made?, if_pos hinner]
    by_cases hpending : (t.scope id).label? name = none
    · have hok : t.perform (.jumpTo name span) =
          .ok (t.modify id fun s ↦ { s with gotos := s.gotos ++ [(name, span)] }) := by
        rw [perform, jumpTo, hinner]
        simp only [hpending]
      rw [apply_of_ok hok, scope_modify_self t _ (hwf.lt_length id hmem)]
      exact hnotes.jump hkind (name, span)
    · have hok : t.perform (.jumpTo name span) = .ok t := by
        obtain ⟨place, hplace⟩ := Option.ne_none_iff_exists'.mp hpending
        rw [perform, jumpTo, hinner]
        simp only [hplace]
      rw [apply_of_ok hok]
      rw [Scope.label?_eq_none_iff, not_not, hnotes.labels_eq] at hpending
      exact hnotes.jump_back hkind hpending
  · have htold : made? id t (.jumpTo name span) = none := if_neg hinner
    rw [htold]
    rcases houtcome : t.perform (.jumpTo name span) with e | t'
    · rw [apply_of_error houtcome]
      simpa using hnotes
    · rw [apply_of_ok houtcome]
      simpa using notes_edit hnotes (edit_of_jumpTo houtcome) hinner

private theorem notes_of_quiet (hwf : t.WellFormed) (hnotes : (t.scope id).Notes labels jumps)
    {r : Request} (hlabel : r.label? = none) (hjump : r.jump? = none)
    (hopen : (t.apply r).NotYetClosed id) : ((t.apply r).scope id).Notes labels jumps := by
  rcases r with ⟨kind, name, span⟩ | ⟨h, span⟩ | d | ⟨name, span⟩ | ⟨name, span⟩
  · rw [apply, perform, openScope_eq]
    split
    · exact notes_opened hnotes kind name span
    · exact hnotes
  · rw [apply, perform, closeScope_eq] at hopen ⊢
    split at hopen
    · next hholds =>
      rw [if_pos hholds]
      exact notes_closeInner hwf hnotes hopen
    · next hholds =>
      rw [if_neg hholds]
      exact hnotes
  · by_cases hok : (t.declare d).isOk = true
    · obtain ⟨standing, bindings, -, -, happly⟩ := apply_declare_of_isOk hok
      rw [happly]
      exact notes_bound hnotes bindings
    · rwa [apply_declare_of_not_isOk hok]
  · cases hlabel
  · cases hjump

/-- **One request.** A scope that it does not close notes it, if the scope is the innermost open
function and the request is about a label. -/
theorem notes_apply (hwf : t.WellFormed) (hnotes : (t.scope id).Notes labels jumps) (r : Request)
    (hopen : (t.apply r).NotYetClosed id) :
    ((t.apply r).scope id).Notes (labels ++ ((accepted? id t r).bind Request.label?).toList)
      (jumps ++ ((made? id t r).bind Request.jump?).toList) := by
  have hlabels (hlabel : r.label? = none) :
      ((accepted? id t r).bind Request.label?).toList = [] := by
    rw [bind_accepted?, hlabel, ite_self, Option.toList_none]
  have hjumps (hjump : r.jump? = none) : ((made? id t r).bind Request.jump?).toList = [] := by
    rw [bind_made?, hjump, ite_self, Option.toList_none]
  -- a request is about a label, a jump or neither, and only its own function hears of it
  by_cases hlabel : r.label? = none
  · by_cases hjump : r.jump? = none
    · rw [hlabels hlabel, hjumps hjump, List.append_nil, List.append_nil]
      exact notes_of_quiet hwf hnotes hlabel hjump hopen
    · obtain ⟨name, span, rfl⟩ := Request.exists_of_jump? hjump
      rw [hlabels hlabel, List.append_nil]
      exact notes_jumpTo hwf hnotes name span
  · obtain ⟨name, span, rfl⟩ := Request.exists_of_label? hlabel
    rw [hjumps rfl, List.append_nil]
    exact notes_defineLabel hwf hnotes name span

end OneRequest

/-! ## Runs -/

/-- **A run of requests.** A scope that is not closed has the labels that were accepted in it, and
of the jumps that were made in it those that no label answers. -/
theorem notes_run (seed : Seed) {rs : List Request}
    (hopen : ((new seed).run rs).NotYetClosed id) :
    (((new seed).run rs).scope id).Notes
      (((new seed).acceptedIn id rs).filterMap Request.label?)
      (((new seed).madeIn id rs).filterMap Request.jump?) := by
  induction rs using List.reverseRecOn with
  | nil =>
    have hroot : (new seed).scope id = Scope.root := by
      rcases id with - | id
      · rfl
      · exact scope_of_length_le (by simp [new])
    exact hroot ▸ ⟨rfl, rfl, fun _ ↦ rfl⟩
  | append_singleton rs r ih =>
    rw [run_concat] at hopen ⊢
    have hbefore : ((new seed).run rs).NotYetClosed id := hopen.of_apply
    have hstep := notes_apply (wellFormed_run seed rs) (ih hbefore) r hopen
    rw [acceptedIn, madeIn, filterMap_trace_concat, filterMap_trace_concat]
    exact hstep

private theorem mem_labels_of_refused {labels jumps : List (String × Span)}
    (hnotes : (t.scope id).Notes labels jumps) (hinner : t.function? = some id) {r : Request}
    (hrefused : ¬ (t.perform r).isOk = true) {name : String}
    (hname : name ∈ r.label?.toList.map (·.1)) : name ∈ labels.map (·.1) := by
  by_cases hlabel : r.label? = none
  · rw [hlabel] at hname
    cases hname
  obtain ⟨name', span, rfl⟩ := Request.exists_of_label? hlabel
  obtain rfl : name = name' := List.mem_singleton.mp hname
  by_contra hfresh
  rw [← hnotes.labels_eq, ← Scope.label?_eq_none_iff] at hfresh
  refine hrefused ?_
  rw [perform, defineLabel, hinner]
  simp only [hfresh]
  rfl

/-- The labels that are accepted in a function have all the names that were asked for there: one is
refused only if another of its name was accepted before. -/
private theorem mem_labels_iff (seed : Seed) (id : Nat) (rs : List Request) (name : String) :
    name ∈ (((new seed).acceptedIn id rs).filterMap Request.label?).map (·.1) ↔
      name ∈ (((new seed).madeIn id rs).filterMap Request.label?).map (·.1) := by
  induction rs using List.reverseRecOn with
  | nil => rfl
  | append_singleton rs r ih =>
    rw [acceptedIn, madeIn, filterMap_trace_concat, filterMap_trace_concat, List.map_append,
      List.map_append, List.mem_append, List.mem_append, ← acceptedIn, ← madeIn, bind_accepted?,
      bind_made?]
    by_cases hinner : ((new seed).run rs).function? = some id
    · by_cases hok : (((new seed).run rs).perform r).isOk = true
      · rw [if_pos ⟨hinner, hok⟩, if_pos hinner, ih]
      · rw [if_neg fun haccepted ↦ hok haccepted.2, if_pos hinner]
        have hknown : name ∈ r.label?.toList.map (·.1) →
            name ∈ (((new seed).acceptedIn id rs).filterMap Request.label?).map (·.1) :=
          mem_labels_of_refused (notes_run seed fun _ ↦ (mem_of_function? hinner).1) hinner hok
        rw [← ih]
        exact ⟨fun hmem ↦ .inl (hmem.resolve_right List.not_mem_nil),
          fun hmem ↦ .inl (hmem.elim (fun h ↦ h) hknown)⟩
    · rw [if_neg fun haccepted ↦ hinner haccepted.1, if_neg hinner, ih]

/-! ## Closing -/

/-- The errors of the jumps of a function, by its own requests alone. -/
def strays (own : List Request) : List Error :=
  (unanswered (own.filterMap Request.label?) (own.filterMap Request.jump?)).map strayJump

/-- What a function hears of its jumps depends on the requests that are made in it and on no
others. -/
private theorem straysIn_eq_strays (seed : Seed) (id : Nat) (rs : List Request) :
    (new seed).straysIn id rs = strays ((new seed).madeIn id rs) :=
  congrArg (List.map strayJump) (unanswered_congr (mem_labels_iff seed id rs) _)

private theorem unresolved_run (seed : Seed) {rs : List Request}
    (hopen : id ∈ ((new seed).run rs).openPath) :
    (((new seed).run rs).scope id).unresolved = (new seed).straysIn id rs :=
  (notes_run seed fun _ ↦ hopen).unresolved_eq

private theorem straysIn_of_kind_ne (seed : Seed) {rs : List Request}
    (hopen : id ∈ ((new seed).run rs).openPath)
    (hkind : (((new seed).run rs).scope id).kind ≠ .functionBody) :
    (new seed).straysIn id rs = [] := by
  rw [straysIn, (notes_run seed fun _ ↦ hopen).eq_nil_of_kind_ne hkind]
  rfl

private theorem flatMap_filter_of_eq_nil {α β : Type} {p : α → Bool} {f : α → List β} {l : List α}
    (hnil : ∀ a ∈ l, p a = false → f a = []) : (l.filter p).flatMap f = l.flatMap f := by
  induction l with
  | nil => rfl
  | cons a rest ih =>
    obtain ⟨hfirst, hrest⟩ := List.forall_mem_cons.mp hnil
    by_cases ha : p a = true
    · rw [List.filter_cons_of_pos ha, List.flatMap_cons, List.flatMap_cons, ih hrest]
    · rw [List.filter_cons_of_neg ha, List.flatMap_cons, hfirst (eq_false_of_ne_true ha),
        List.nil_append, ih hrest]

private theorem not_notYetClosed_closeInner (hwf : t.WellFormed) {n : Nat}
    (hmem : id ∈ t.openPath.take n) : ¬ (t.closeInner n).NotYetClosed id := by
  intro hopen
  have hbound : id < t.scopes.length := hwf.lt_length id (List.mem_of_mem_take hmem)
  exact List.disjoint_take_drop hwf.nodup (le_refl n) hmem
    (hopen (by rwa [length_scopes_closeInner]))

private theorem trace_of_closed {tell? : ScopeTree → Request → Option Request}
    (htell : ∀ t r, t.function? ≠ some id → tell? t r = none) (hclosed : ¬ t.NotYetClosed id)
    (rs : List Request) : t.trace tell? rs = [] := by
  induction rs generalizing t with
  | nil => rfl
  | cons r rest ih =>
    have hother : t.function? ≠ some id := fun hinner ↦
      hclosed fun _ ↦ (mem_of_function? hinner).1
    have hlater : ¬ (t.apply r).NotYetClosed id := fun hopen ↦
      hclosed hopen.of_apply
    rw [trace, htell t r hother, ih hlater]
    rfl

private theorem filterMap_trace_close {tell? : ScopeTree → Request → Option Request}
    (htell : ∀ t r, t.function? ≠ some id → tell? t r = none)
    {f : Request → Option (String × Span)} {before : List Request} {r : Request}
    (hquiet : (tell? (t.run before) r).bind f = none)
    (hclosed : ¬ ((t.run before).apply r).NotYetClosed id) (later : List Request) :
    (t.trace tell? (before ++ r :: later)).filterMap f = (t.trace tell? before).filterMap f := by
  have hsplit : before ++ r :: later = before ++ [r] ++ later := by simp
  rw [hsplit, trace_append, run_concat, trace_of_closed htell hclosed, List.append_nil,
    filterMap_trace_concat, hquiet, Option.toList_none, List.append_nil]

private theorem straysIn_of_close {before : List Request} {h : Handle} {span : Span}
    (hclosed : ¬ ((t.run before).apply (.closeScope h span)).NotYetClosed id)
    (later : List Request) :
    t.straysIn id (before ++ .closeScope h span :: later) = t.straysIn id before := by
  have hjumps : (made? id (t.run before) (.closeScope h span)).bind Request.jump? = none :=
    (bind_made? ..).trans (ite_self _)
  have hlabels : (accepted? id (t.run before) (.closeScope h span)).bind Request.label? = none :=
    (bind_accepted? ..).trans (ite_self _)
  rw [straysIn, straysIn, madeIn, madeIn, acceptedIn, acceptedIn,
    filterMap_trace_close made?_of_ne hjumps hclosed,
    filterMap_trace_close accepted?_of_ne hlabels hclosed]

/-- **Every jump is settled once, and by its own function.** When a scope is closed after any
requests, the scopes that are closed with it are the innermost ones of the open path. The errors
are those of the functions among them, innermost function first. Each function tells, in order, the
jumps that were made while it was the innermost open function and no label of their name was
accepted while it was, before or after the jump. Whatever requests come later, a function that was
closed is not open again, so this is the last that is heard of its jumps. And what it tells follows
from the requests that were made in it, whatever was asked of other functions. -/
theorem closeScope_settles_jumps (seed : Seed) (before later : List Request) (h : Handle)
    (span : Span) {errors : List Error} {t' : ScopeTree}
    (hok : ((new seed).run before).closeScope h span = .ok (errors, t')) :
    let t := (new seed).run before
    let whole := before ++ .closeScope h span :: later
    ∃ closed, t.openPath = closed ++ t'.openPath ∧
      errors = (closed.filter fun id ↦ (t.scope id).kind = .functionBody).flatMap
        (fun id ↦ (new seed).straysIn id whole) ∧
      ∀ id ∈ closed, id ∉ (t'.run later).openPath ∧
        (new seed).straysIn id whole = strays ((new seed).madeIn id whole) := by
  intro t whole
  have hwf : t.WellFormed := wellFormed_run seed before
  have happly : t.apply (.closeScope h span) = t' := apply_of_ok (by rw [perform, hok]; rfl)
  rw [closeScope_eq] at hok
  split at hok
  · cases hok
    have hclosed (id : Nat) (hmem : id ∈ t.openPath.take (t.depth - h.depth)) :
        ¬ (t.closeInner (t.depth - h.depth)).NotYetClosed id :=
      not_notYetClosed_closeInner hwf hmem
    refine ⟨t.openPath.take (t.depth - h.depth), (List.take_append_drop ..).symm, ?_, ?_⟩
    · rw [flatMap_filter_of_eq_nil]
      · refine List.flatMap_congr fun id hmem ↦ ?_
        have hopen : id ∈ t.openPath := List.mem_of_mem_take hmem
        rw [unresolved_run seed hopen, straysIn_of_close (happly ▸ hclosed id hmem)]
      · intro id hmem hkind
        rw [straysIn_of_close (happly ▸ hclosed id hmem)]
        exact straysIn_of_kind_ne seed (List.mem_of_mem_take hmem) (of_decide_eq_false hkind)
    · intro id hmem
      refine ⟨fun hagain ↦ ?_, straysIn_eq_strays seed id whole⟩
      exact hclosed id hmem (NotYetClosed.of_run fun _ ↦ hagain)
  · cases hok

/-- A function jumps to `a` and has a class with a function in it, which has a label `a` of its own
and jumps to `b`. -/
def nestedJumps : List Request :=
  [.openScope .functionBody none ⟨0, 1⟩, .jumpTo "a" ⟨1, 2⟩, .openScope .classBody none ⟨2, 3⟩,
    .openScope .functionBody none ⟨3, 4⟩, .defineLabel "a" ⟨4, 5⟩, .jumpTo "b" ⟨5, 6⟩]

/-- One close ends all three. The label of the inner function does not answer the jump of the outer
one, and the outer function defines no label, before or after. -/
theorem closeScope_settles_nestedJumps :
    let t := (new .empty).run nestedJumps
    let whole := nestedJumps ++ [.closeScope ⟨1, 1⟩ ⟨6, 7⟩]
    let errors : List Error := [.undeclaredLabel "b" ⟨5, 6⟩, .undeclaredLabel "a" ⟨1, 2⟩]
    t.closeScope ⟨1, 1⟩ ⟨6, 7⟩ = .ok (errors, t.closeInner 3) ∧
    ∃ closed, t.openPath = closed ++ [0] ∧
      errors = (closed.filter fun id ↦ (t.scope id).kind = .functionBody).flatMap
        (fun id ↦ (new .empty).straysIn id whole) ∧
      ∀ id ∈ closed, (new .empty).straysIn id whole = strays ((new .empty).madeIn id whole) := by
  intro t whole errors
  have hok : t.closeScope ⟨1, 1⟩ ⟨6, 7⟩ = .ok (errors, t.closeInner 3) := rfl
  obtain ⟨closed, hpath, herrors, hown⟩ :=
    closeScope_settles_jumps .empty nestedJumps [] ⟨1, 1⟩ ⟨6, 7⟩ hok
  exact ⟨hok, closed, hpath, herrors, fun id hmem ↦ (hown id hmem).2⟩

end ScopeTree

end DeclAnalysis
